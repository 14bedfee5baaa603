import LineProtocol.Config
import LineProtocol.Proofs.Literals
import LineProtocol.Proofs.Parameters
import Mathlib.Data.Finset.Basic
import Mathlib.Data.Finset.Dedup
/-!
# The language of configuration strings

A configuration string is accepted if and only if it names the protocol and gives
parameters that have the key of the address, and possibly the key of the size with an
integer literal, and no other key.  Every other string is an error of the configuration.

Neither the order of the parameters nor the last semicolon matters.  So every address and
every size that can be written out are read back from the configuration string that is
made of them, whatever separators the address holds.
-/

namespace LineProtocol

namespace Params

/-- The keys of parameters, as a set. -/
def keys (ps : Params) : Finset Text := (ps.map Prod.fst).toFinset

variable {ps : Params} {key value : Text}

theorem mem_keys_iff : key ∈ ps.keys ↔ ∃ value, (key, value) ∈ ps := by
  simp [keys]

theorem lookup_eq_none_iff : ps.lookup key = none ↔ key ∉ ps.keys := by
  rw [List.lookup_eq_none_iff, keys, List.mem_toFinset, List.mem_map]
  simp only [bne_iff_ne, not_exists, not_and, ne_comm]

theorem mem_of_lookup (h : ps.lookup key = some value) : (key, value) ∈ ps := by
  obtain ⟨front, rest, rfl, -⟩ := List.lookup_eq_some_iff.1 h
  exact List.mem_append_right _ List.mem_cons_self

/-- If the keys differ, a key is found with the only value that it has. -/
theorem lookup_eq_some_iff (h : (ps.map Prod.fst).Nodup) :
    ps.lookup key = some value ↔ (key, value) ∈ ps := by
  refine ⟨mem_of_lookup, fun hmem => ?_⟩
  cases hlookup : ps.lookup key with
  | none => exact absurd (mem_keys_iff.2 ⟨value, hmem⟩) (lookup_eq_none_iff.1 hlookup)
  | some found =>
      have hfound := List.inj_on_of_nodup_map h (mem_of_lookup hlookup) hmem rfl
      exact congrArg some (Prod.mk.inj hfound).2

end Params

namespace Config

/-- The parameters say of a sender what the configuration says: they give its address, possibly
also a literal of its size, and nothing else. -/
inductive Describe (ps : Params) : Config → Prop
  | address {a : Text} (hkeys : ps.keys = {addressKey}) (ha : (addressKey, a) ∈ ps) :
      Describe ps ⟨a, none⟩
  | sized {a value : Text} {n : Int} (hkeys : ps.keys = {addressKey, sizeKey})
      (ha : (addressKey, a) ∈ ps) (hvalue : (sizeKey, value) ∈ ps)
      (hn : Decimal.IsLiteral value n) : Describe ps ⟨a, some n⟩

/-- The configuration string gives the parameters; the last semicolon may be missing. -/
def Gives (t : Text) (ps : Params) : Prop :=
  t = protocol ++ separator ++ ps.render ∨ t = protocol ++ separator ++ ps.render.dropLast

/-- Parameters that give the configuration. -/
def params (c : Config) : Params :=
  (addressKey, c.address) :: c.initialSize.toList.map fun n => (sizeKey, Decimal.text n)

variable {ps : Params} {c : Config} {shown t : Text}

theorem readSize_eq_ok_iff {value : Text} {n : Int} :
    readSize value = .ok n ↔ Decimal.IsLiteral value n := by
  rw [← Decimal.ofText?_eq_some_iff]
  unfold readSize
  cases Decimal.ofText? value <;> simp

theorem unknown_eq_nil_iff :
    (ps.map Prod.fst).filter (fun key => key ≠ addressKey ∧ key ≠ sizeKey) = [] ↔
      ps.keys ⊆ {addressKey, sizeKey} := by
  rw [List.filter_eq_nil_iff, Finset.subset_iff]
  simp only [Params.keys, List.mem_toFinset, Finset.mem_insert, Finset.mem_singleton,
    decide_eq_true_eq, not_and_or, not_not]

/-- The address is looked up first, then the size, and no other key may be left. -/
theorem ofParams_eq_ok_iff : ofParams ps = .ok c ↔ ps.lookup addressKey = some c.address ∧
    (ps.lookup sizeKey).mapM readSize = .ok c.initialSize ∧ ps.keys ⊆ {addressKey, sizeKey} := by
  rw [← unknown_eq_nil_iff]
  unfold ofParams
  cases haddress : ps.lookup addressKey with
  | none => exact ⟨nofun, nofun⟩
  | some a =>
      dsimp only
      rw [bind_eq_ok_iff]
      constructor
      · rintro ⟨size, hsize, h⟩
        split at h
        · contradiction
        · next hknown =>
          cases h
          exact ⟨rfl, hsize, not_not.1 hknown⟩
      · rintro ⟨ha, hsize, hknown⟩
        refine ⟨_, hsize, ?_⟩
        rw [if_neg (not_not.2 hknown), Option.some.inj ha]
        rfl

theorem describe_of_ofParams (h : ofParams ps = .ok c) : Describe ps c := by
  obtain ⟨a, size⟩ := c
  obtain ⟨ha, hsize, hknown⟩ := ofParams_eq_ok_iff.1 h
  have haddress := Params.mem_of_lookup ha
  have hkey := Params.mem_keys_iff.2 ⟨a, haddress⟩
  cases hlookup : ps.lookup sizeKey with
  | none =>
      rw [hlookup] at hsize
      cases hsize
      have hmissing := Params.lookup_eq_none_iff.1 hlookup
      refine .address (Finset.eq_singleton_iff_unique_mem.2 ⟨hkey, fun key hmem => ?_⟩) haddress
      rcases Finset.mem_insert.1 (hknown hmem) with hkey | hkey
      · exact hkey
      · rw [Finset.mem_singleton.1 hkey] at hmem
        exact absurd hmem hmissing
  | some value =>
      rw [hlookup] at hsize
      obtain ⟨n, hn, hsize⟩ := bind_eq_ok_iff.1 hsize
      cases hsize
      have hvalue := Params.mem_of_lookup hlookup
      refine .sized (hknown.antisymm ?_) haddress hvalue (readSize_eq_ok_iff.1 hn)
      exact Finset.insert_subset hkey
        (Finset.singleton_subset_iff.2 (Params.mem_keys_iff.2 ⟨value, hvalue⟩))

theorem ofParams_of_describe (hps : (ps.map Prod.fst).Nodup) (h : Describe ps c) :
    ofParams ps = .ok c := by
  rw [ofParams_eq_ok_iff]
  cases h with
  | address hkeys ha =>
      have hsize : ps.lookup sizeKey = none := by
        rw [Params.lookup_eq_none_iff, hkeys]
        decide
      refine ⟨(Params.lookup_eq_some_iff hps).2 ha, ?_, ?_⟩
      · rw [hsize]
        rfl
      · rw [hkeys]
        decide
  | sized hkeys ha hvalue hn =>
      refine ⟨(Params.lookup_eq_some_iff hps).2 ha, ?_, hkeys.subset⟩
      rw [(Params.lookup_eq_some_iff hps).2 hvalue]
      exact bind_eq_ok_iff.2 ⟨_, readSize_eq_ok_iff.2 hn, rfl⟩

theorem parse_eq_ok_iff : parse shown t = .ok c ↔ ∃ rest ps,
    t = protocol ++ separator ++ rest ∧ Params.parse rest = .ok ps ∧ Describe ps c := by
  constructor
  · intro h
    unfold parse at h
    split at h
    · next name rest hcut =>
      dsimp only at h
      split at h
      · contradiction
      · next hname =>
        obtain ⟨ps, hps, h⟩ := bind_eq_ok_iff.1 h
        rw [← not_not.1 hname]
        exact ⟨rest, ps, (Text.append_of_cut? hcut).symm, hps, describe_of_ofParams h⟩
    · contradiction
  · rintro ⟨rest, ps, rfl, hps, h⟩
    have hcut : Text.cut? separator (protocol ++ separator ++ rest) = some (protocol, rest) := by
      rw [List.append_assoc]
      exact Text.cut?_append (by decide) _ rest
    unfold parse
    rw [hcut]
    exact bind_eq_ok_iff.2
      ⟨ps, hps, ofParams_of_describe (Params.parse_eq_ok_iff.1 hps).1.nodup h⟩

theorem ofValue_eq_ok_iff {v : Value} (hv : v.text? = some t) : ofValue v = .ok c ↔
    ∃ rest ps, t = protocol ++ separator ++ rest ∧ Params.parse rest = .ok ps ∧ Describe ps c := by
  unfold ofValue
  rw [hv]
  exact mapError_eq_ok_iff.trans parse_eq_ok_iff

theorem ofValue_eq_ok_or_error {v : Value} (hv : v.text? = some t) :
    (∃ c, ofValue v = .ok c) ∨ ∃ e, ofValue v = .error (.error (.config e)) := by
  unfold ofValue
  rw [hv]
  dsimp only
  cases parse v.quotedText t with
  | ok c => exact Or.inl ⟨c, rfl⟩
  | error e => exact Or.inr ⟨e, rfl⟩

theorem writable_of_keys (hps : (ps.map Prod.fst).Nodup)
    (hkeys : ps.keys ⊆ {addressKey, sizeKey}) : ps.Writable := by
  have hkey : ∀ p ∈ ps, p.1 ∈ ({addressKey, sizeKey} : Finset Text) := fun p hp =>
    hkeys (Params.mem_keys_iff.2 ⟨p.2, hp⟩)
  have hall : ∀ key ∈ ({addressKey, sizeKey} : Finset Text), key ≠ [] ∧
      CodePoint.ofChar '=' ∉ key ∧ key.head? ≠ some (CodePoint.ofChar ';') := by
    decide
  exact ⟨hps, fun p hp => (hall _ (hkey p hp)).1, fun p hp => (hall _ (hkey p hp)).2.1,
    fun p hp => (hall _ (hkey p (List.mem_of_mem_tail hp))).2.2⟩

theorem Describe.keys_subset (h : Describe ps c) : ps.keys ⊆ {addressKey, sizeKey} := by
  cases h with
  | address hkeys =>
      rw [hkeys]
      decide
  | sized hkeys => exact hkeys.subset

theorem ofValue_of_gives {v : Value} (hv : v.text? = some t) (ht : Gives t ps)
    (hps : (ps.map Prod.fst).Nodup) (h : Describe ps c) : ofValue v = .ok c := by
  have hwritable := writable_of_keys hps h.keys_subset
  rw [ofValue_eq_ok_iff hv]
  rcases ht with ht | ht
  · exact ⟨_, ps, ht, Params.parse_eq_ok_iff.2 ⟨hwritable, Params.spells_render ps⟩, h⟩
  · exact ⟨_, ps, ht, Params.parse_eq_ok_iff.2 ⟨hwritable, Params.spells_dropLast ps⟩, h⟩

theorem nodup_sized (a value : Text) :
    (([(addressKey, a), (sizeKey, value)] : Params).map Prod.fst).Nodup := by
  show [addressKey, sizeKey].Nodup
  decide

theorem describe_of_perm {a value : Text} {n : Int}
    (h : ps.Perm [(addressKey, a), (sizeKey, value)]) (hn : Decimal.IsLiteral value n) :
    Describe ps ⟨a, some n⟩ := by
  refine .sized ?_ (h.mem_iff.2 (by simp)) (h.mem_iff.2 (by simp)) hn
  rw [Params.keys, List.toFinset_eq_of_perm _ _ (h.map Prod.fst)]
  rfl

theorem describe_params (hc : ∀ n ∈ c.initialSize, Decimal.Printable n) :
    Describe c.params c := by
  obtain ⟨a, size⟩ := c
  cases size with
  | none => exact .address rfl List.mem_cons_self
  | some n => exact describe_of_perm (.refl _) (Decimal.isLiteral_text (hc n rfl))

/-- The accepted strings are those of the language; the order of the parameters and the last
semicolon do not matter; and a configuration is read back from the strings made of it. -/
theorem ofValue_accepts_language {v : Value} {t : Text} (hv : v.text? = some t) :
    (∀ c, ofValue v = .ok c ↔ ∃ rest ps,
      t = protocol ++ separator ++ rest ∧ Params.parse rest = .ok ps ∧ Describe ps c) ∧
    ((∀ c, ofValue v ≠ .ok c) →
      ∃ e : SenderError, ofValue v = .error (.error e) ∧ e.code = .config) ∧
    (∀ a, Gives t [(addressKey, a)] → ofValue v = .ok ⟨a, none⟩) ∧
    (∀ a value n ps, Decimal.IsLiteral value n → ps.Perm [(addressKey, a), (sizeKey, value)] →
      Gives t ps → ofValue v = .ok ⟨a, some n⟩) ∧
    ∀ c, (∀ n ∈ c.initialSize, Decimal.Printable n) → Gives t c.params → ofValue v = .ok c := by
  refine ⟨fun c => ofValue_eq_ok_iff hv, fun h => ?_, fun a ht => ?_,
    fun a value n ps hn hps ht => ?_, fun c hc ht => ?_⟩
  · rcases ofValue_eq_ok_or_error hv with ⟨c, hok⟩ | ⟨e, he⟩
    · exact absurd hok (h c)
    · exact ⟨.config e, he, rfl⟩
  · exact ofValue_of_gives hv ht (List.nodup_singleton _) (.address rfl List.mem_cons_self)
  · exact ofValue_of_gives hv ht ((hps.map Prod.fst).nodup_iff.2 (nodup_sized a value))
      (describe_of_perm hps hn)
  · refine ofValue_of_gives hv ht ?_ (describe_params hc)
    obtain ⟨a, size⟩ := c
    cases size with
    | none => exact List.nodup_singleton _
    | some n => exact nodup_sized a (Decimal.text n)

/-- The size comes first, with blanks, a sign and an underscore, and the address holds the
separators of strings, of parameters and of ports. -/
theorem ofValue_accepts_language_separators :
    let t : Text := "tcp::init_buf_size= +1_0 ;addr=[a::b]=;;:9"
    (Value.text t).text? = some t ∧ Decimal.IsLiteral " +1_0 " 10 ∧
      ofValue (.text t) = .ok ⟨"[a::b]=;:9", some 10⟩ := by
  intro t
  have hn : Decimal.IsLiteral " +1_0 " 10 := Decimal.ofText?_eq_some_iff.1 (by decide)
  have ht : Gives t [(sizeKey, " +1_0 "), (addressKey, "[a::b]=;:9")] := Or.inr (by decide)
  have hperm : List.Perm [(sizeKey, Text.ofString " +1_0 "), (addressKey, "[a::b]=;:9")]
      [(addressKey, "[a::b]=;:9"), (sizeKey, " +1_0 ")] := .swap _ _ _
  have htext : (Value.text t).text? = some t := rfl
  exact ⟨htext, hn, (ofValue_accepts_language htext).2.2.2.1 _ _ _ _ hn hperm ht⟩

end Config

end LineProtocol
