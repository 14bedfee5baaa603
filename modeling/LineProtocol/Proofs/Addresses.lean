import LineProtocol.Proofs.Literals
import LineProtocol.Proofs.Paths
/-!
# The grammar of addresses

An address has one of three forms: a host in brackets, a host with several colons, and a
host without colons.  After the first and the last a port may follow, which is absent,
empty or an integer literal from 1 to 65535.  The forms exclude each other, so host and
port are unique, and a text of no form is an error of the configuration.

A sender shows its address with the host in brackets if the host has a colon.  If the host
has no brackets of its own, this text is read as the same host and port.  That is about
plain texts: a text scalar is shown without the NUL characters that fill it up.
-/

namespace LineProtocol.Address

/-- The ways to write an address. -/
inductive Form where
  /-- The host stands in brackets. -/
  | bracketed
  /-- The host has several colons, and there is no port. -/
  | colons
  /-- The host has no colon. -/
  | plain
deriving DecidableEq, Repr

/-- The part of an address that gives the port, if there is one. -/
def portPart : Option Text → Text
  | none => []
  | some q => CodePoint.ofChar ':' :: q

/-- The text writes the host `h` and, if it is given, the port `q` in one of the forms. -/
inductive Spells : Form → Text → Text → Option Text → Prop
  | bracketed {t h : Text} {q : Option Text}
      (ht : t = CodePoint.ofChar '[' :: (h ++ CodePoint.ofChar ']' :: portPart q)) (hne : h ≠ [])
      (hh : CodePoint.ofChar ']' ∉ h) : Spells .bracketed t h q
  | colons {t h : Text} (ht : t = h) (hhead : t.head? ≠ some (CodePoint.ofChar '['))
      (hcolons : 2 ≤ t.count (CodePoint.ofChar ':')) : Spells .colons t h none
  | plain {t h : Text} {q : Option Text} (ht : t = h ++ portPart q)
      (hhead : t.head? ≠ some (CodePoint.ofChar '[')) (hne : h ≠ [])
      (hh : CodePoint.ofChar ':' ∉ h) (hq : ∀ u ∈ q, CodePoint.ofChar ':' ∉ u) :
      Spells .plain t h q

/-- The port that is given by a text or by none. -/
inductive PortOf : Option Text → Nat → Prop
  | absent : PortOf none defaultPort
  | empty : PortOf (some []) defaultPort
  | number {q : Text} {p : Nat} (hq : Decimal.IsLiteral q p) (hpos : 1 ≤ p) (hle : p ≤ 65535) :
      PortOf (some q) p

variable {shown t h q : Text} {part : Option Text} {form : Form} {p : Nat}

theorem readPort_eq_ok_iff : readPort shown q = .ok p ↔ PortOf (some q) p := by
  unfold readPort
  by_cases hq : q = []
  · rw [if_pos hq, hq]
    constructor
    · intro hp
      rw [← Except.ok.inj hp]
      exact .empty
    · intro hport
      cases hport with
      | empty => rfl
      | number hq => exact absurd rfl hq.ne_nil
  · rw [if_neg hq]
    constructor
    · intro hp
      split at hp
      · contradiction
      · next n hn =>
        split at hp
        · next hrange =>
          rw [← Except.ok.inj hp]
          have hcast : ((n.toNat : Nat) : Int) = n := Int.toNat_of_nonneg (by omega)
          refine .number ?_ (by omega) (by omega)
          rw [hcast]
          exact Decimal.ofText?_eq_some_iff.1 hn
        · contradiction
    · intro hport
      cases hport with
      | empty => exact absurd rfl hq
      | number hlit hpos hle =>
          rw [Decimal.ofText?_eq_some_iff.2 hlit]
          dsimp only
          rw [if_pos (by omega), Int.toNat_natCast]

theorem portOf_getD_iff : PortOf (some (part.getD [])) p ↔ PortOf part p := by
  cases part with
  | some q => rfl
  | none =>
      constructor
      · intro hport
        cases hport with
        | empty => exact .absent
        | number hq => exact absurd rfl hq.ne_nil
      · rintro ⟨⟩
        exact .empty

theorem split_of_head?_ne (ht : t ≠ []) (hhead : t.head? ≠ some (CodePoint.ofChar '[')) :
    split shown t = if 1 < t.count (CodePoint.ofChar ':') then .ok (t, [])
      else .ok ((Text.cut? [CodePoint.ofChar ':'] t).getD (t, [])) := by
  obtain ⟨c, rest, rfl⟩ := List.exists_cons_of_ne_nil ht
  have hc : c ≠ CodePoint.ofChar '[' := fun hc => hhead (congrArg some hc)
  unfold split
  exact if_neg hc

theorem split_bracket (rest : Text) : split shown (CodePoint.ofChar '[' :: rest) =
    match Text.cut? [CodePoint.ofChar ']'] rest with
    | none => .error (.unclosedBracket shown)
    | some (host, []) => .ok (host, [])
    | some (host, d :: port) =>
      if d = CodePoint.ofChar ':' then .ok (host, port) else .error (.textAfterBracket shown) := rfl

theorem count_colon (hh : CodePoint.ofChar ':' ∉ h) (q : Text) :
    (h ++ CodePoint.ofChar ':' :: q).count (CodePoint.ofChar ':') =
      q.count (CodePoint.ofChar ':') + 1 := by
  rw [List.count_append, List.count_eq_zero_of_not_mem hh, List.count_cons_self, Nat.zero_add]

theorem not_one_lt_count (hh : CodePoint.ofChar ':' ∉ h)
    (hq : ∀ u ∈ part, CodePoint.ofChar ':' ∉ u) :
    ¬1 < (h ++ portPart part).count (CodePoint.ofChar ':') := by
  cases part with
  | none =>
      rw [portPart, List.append_nil, List.count_eq_zero_of_not_mem hh]
      decide
  | some q =>
      rw [portPart, count_colon hh, List.count_eq_zero_of_not_mem (hq q rfl)]
      decide

theorem split_of_spells (hspells : Spells form t h part) :
    split shown t = .ok (h, part.getD []) := by
  cases hspells with
  | bracketed ht hne hh =>
      rw [ht, split_bracket, Text.cut?_singleton_eq_some_iff.2 ⟨hh, rfl⟩]
      cases part with
      | none => rfl
      | some q => exact if_pos rfl
  | colons ht hhead hcolons =>
      have hne : t ≠ [] := by
        rintro rfl
        exact nomatch hcolons
      rw [split_of_head?_ne hne hhead, if_pos (by omega), ht]
      rfl
  | plain ht hhead hne hh hq =>
      rw [split_of_head?_ne (by simp [ht, hne]) hhead, ht, if_neg (not_one_lt_count hh hq)]
      cases part with
      | none =>
          rw [portPart, List.append_nil, Text.cut?_of_not_mem hh []]
          rfl
      | some q =>
          rw [portPart, Text.cut?_singleton_eq_some_iff.2 ⟨hh, rfl⟩]
          rfl

theorem spells_of_split (hne : h ≠ []) (hsplit : split shown t = .ok (h, q)) :
    ∃ form part, Spells form t h part ∧ part.getD [] = q := by
  by_cases ht : t = []
  · rw [ht] at hsplit
    cases hsplit
    exact absurd rfl hne
  by_cases hhead : t.head? = some (CodePoint.ofChar '[')
  · obtain ⟨rest, rfl⟩ : ∃ rest, t = CodePoint.ofChar '[' :: rest := List.head?_eq_some_iff.1 hhead
    rw [split_bracket] at hsplit
    split at hsplit
    · contradiction
    · next host hcut =>
      cases hsplit
      obtain ⟨hh, rfl⟩ := Text.cut?_singleton_eq_some_iff.1 hcut
      exact ⟨.bracketed, none, .bracketed rfl hne hh, rfl⟩
    · next host d port hcut =>
      obtain ⟨hh, rfl⟩ := Text.cut?_singleton_eq_some_iff.1 hcut
      split at hsplit
      · next hd =>
        cases hsplit
        rw [hd]
        exact ⟨.bracketed, some q, .bracketed rfl hne hh, rfl⟩
      · contradiction
  · rw [split_of_head?_ne ht hhead] at hsplit
    split at hsplit
    · next hcount =>
      cases hsplit
      exact ⟨.colons, none, .colons rfl hhead hcount, rfl⟩
    · next hcount =>
      cases hcut : Text.cut? [CodePoint.ofChar ':'] t with
      | none =>
          rw [hcut] at hsplit
          cases hsplit
          have hh := Text.cut?_singleton_eq_none_iff.1 hcut
          exact ⟨.plain, none, .plain (List.append_nil _).symm hhead hne hh nofun, rfl⟩
      | some parts =>
          rw [hcut] at hsplit
          cases hsplit
          obtain ⟨hh, rfl⟩ := Text.cut?_singleton_eq_some_iff.1 hcut
          rw [count_colon hh] at hcount
          have hq : CodePoint.ofChar ':' ∉ q := List.count_eq_zero.1 (by omega)
          exact ⟨.plain, some q, .plain rfl hhead hne hh fun u hu => Option.some.inj hu ▸ hq, rfl⟩

theorem Spells.ne_nil (hspells : Spells form t h part) : h ≠ [] := by
  cases hspells with
  | bracketed _ hne | plain _ _ hne => exact hne
  | colons ht hhead hcolons =>
      rintro rfl
      rw [ht] at hcolons
      exact nomatch hcolons

/-- An address is read if and only if it is written in one of the forms, with a port in range. -/
theorem parse_eq_ok_iff {a : Address} : parse shown t = .ok a ↔
    a.isLabel = false ∧ ∃ form part, Spells form t a.host part ∧ PortOf part a.port := by
  constructor
  · intro h
    obtain ⟨⟨host, port⟩, hsplit, h⟩ := bind_eq_ok_iff.1 h
    dsimp only at h
    split at h
    · contradiction
    · next hne =>
      obtain ⟨p, hp, h⟩ := bind_eq_ok_iff.1 h
      cases h
      obtain ⟨form, part, hspells, rfl⟩ := spells_of_split hne hsplit
      exact ⟨rfl, form, part, hspells, portOf_getD_iff.1 (readPort_eq_ok_iff.1 hp)⟩
  · rintro ⟨hlabel, form, part, hspells, hport⟩
    obtain ⟨host, port, isLabel⟩ := a
    cases hlabel
    refine bind_eq_ok_iff.2 ⟨_, split_of_spells hspells, ?_⟩
    dsimp only
    rw [if_neg hspells.ne_nil]
    exact bind_eq_ok_iff.2 ⟨port, readPort_eq_ok_iff.2 (portOf_getD_iff.2 hport), rfl⟩

/-- The form of a text depends on its first code point and on the number of its colons. -/
theorem Spells.form_eq (hspells : Spells form t h part) :
    form = if t.head? = some (CodePoint.ofChar '[') then .bracketed
      else if 1 < t.count (CodePoint.ofChar ':') then .colons else .plain := by
  cases hspells with
  | bracketed ht => exact (if_pos (ht ▸ rfl)).symm
  | colons _ hhead hcolons =>
      rw [if_neg hhead]
      exact (if_pos hcolons).symm
  | plain ht hhead _ hh hq => rw [if_neg hhead, ht, if_neg (not_one_lt_count hh hq)]

theorem portPart_injective : Function.Injective portPart := by
  rintro (_ | q) (_ | q') h
  · rfl
  · exact nomatch h
  · exact nomatch h
  · exact congrArg some (List.cons.inj h).2

/-- A text has at most one form, and in it one host and one port. -/
theorem Spells.unique {form' : Form} {h' : Text} {part' : Option Text}
    (hspells : Spells form t h part) (hspells' : Spells form' t h' part') :
    form = form' ∧ h = h' ∧ part = part' := by
  have hsplit : split [] t = .ok (h, part.getD []) := split_of_spells hspells
  have hparts := Except.ok.inj (hsplit.symm.trans (split_of_spells hspells'))
  obtain rfl : h = h' := (Prod.mk.inj hparts).1
  obtain rfl : form = form' := hspells.form_eq.trans hspells'.form_eq.symm
  refine ⟨rfl, rfl, ?_⟩
  -- a missing port and an empty one are read alike, so the text itself has to tell them apart
  cases hspells with
  | colons => cases hspells'; rfl
  | bracketed ht =>
      cases hspells' with
      | bracketed ht' =>
          have htail := List.append_cancel_left (List.cons.inj (ht.symm.trans ht')).2
          exact portPart_injective (List.cons.inj htail).2
  | plain ht =>
      cases hspells' with
      | plain ht' => exact portPart_injective (List.append_cancel_left (ht.symm.trans ht'))

theorem PortOf.unique {p' : Nat} (hport : PortOf part p) (hport' : PortOf part p') : p = p' := by
  have hread : readPort [] (part.getD []) = .ok p :=
    readPort_eq_ok_iff.2 (portOf_getD_iff.2 hport)
  exact Except.ok.inj (hread.symm.trans (readPort_eq_ok_iff.2 (portOf_getD_iff.2 hport')))

@[simp] theorem host_markLabel (v : Value) (a : Address) : (a.markLabel v).host = a.host := by
  cases v <;> rfl

@[simp] theorem port_markLabel (v : Value) (a : Address) : (a.markLabel v).port = a.port := by
  cases v <;> rfl

theorem ofValue_cases {v : Value} (hv : v.text? = some t) :
    (∃ a, parse v.quotedText t = .ok a ∧ ofValue v = .ok (a.markLabel v)) ∨
      ∃ e, parse v.quotedText t = .error e ∧ ofValue v = .error (.error (.config e)) := by
  unfold ofValue
  rw [hv]
  dsimp only
  cases parse v.quotedText t with
  | ok a => exact Or.inl ⟨a, rfl, rfl⟩
  | error e => exact Or.inr ⟨e, rfl, rfl⟩

theorem ofValue_eq_ok_iff {v : Value} (hv : v.text? = some t) :
    (∃ a, ofValue v = .ok a ∧ a.host = h ∧ a.port = p) ↔
      ∃ form part, Spells form t h part ∧ PortOf part p := by
  constructor
  · rintro ⟨a, ha, rfl, rfl⟩
    rcases ofValue_cases hv with ⟨b, hb, hok⟩ | ⟨e, -, herror⟩
    · cases hok.symm.trans ha
      rw [host_markLabel, port_markLabel]
      exact (parse_eq_ok_iff.1 hb).2
    · exact nomatch herror.symm.trans ha
  · intro hwritten
    have hparse : parse v.quotedText t = .ok ⟨h, p, false⟩ := parse_eq_ok_iff.2 ⟨rfl, hwritten⟩
    rcases ofValue_cases hv with ⟨b, hb, hok⟩ | ⟨e, he, -⟩
    · cases hb.symm.trans hparse
      exact ⟨_, hok, host_markLabel _ _, port_markLabel _ _⟩
    · exact nomatch he.symm.trans hparse

/-- The accepted strings are those of the grammar, which is not ambiguous; every other string is an
error of the configuration. -/
theorem ofValue_accepts_grammar {v : Value} {t : Text} (hv : v.text? = some t) :
    (∀ h p, (∃ a, ofValue v = .ok a ∧ a.host = h ∧ a.port = p) ↔
      ∃ form part, Spells form t h part ∧ PortOf part p) ∧
    (∀ form form' h h' part part', Spells form t h part → Spells form' t h' part' →
      form = form' ∧ h = h' ∧ part = part') ∧
    (∀ part p p', PortOf part p → PortOf part p' → p = p') ∧
    ((∀ form h part p, Spells form t h part → ¬PortOf part p) →
      ∃ e : SenderError, ofValue v = .error (.error e) ∧ e.code = .config) := by
  refine ⟨fun h p => ofValue_eq_ok_iff hv, fun _ _ _ _ _ _ => Spells.unique,
    fun _ _ _ => PortOf.unique, fun hnone => ?_⟩
  rcases ofValue_cases hv with ⟨a, ha, -⟩ | ⟨e, -, he⟩
  · obtain ⟨-, form, part, hspells, hport⟩ := parse_eq_ok_iff.1 ha
    exact absurd hport (hnone form a.host part a.port hspells)
  · exact ⟨.config e, he, rfl⟩

/-- The host has colons, and the port has a blank, a sign and an underscore. -/
theorem ofValue_accepts_grammar_bracketed :
    let t : Text := "[::1]: +9_0"
    (Value.text t).text? = some t ∧
      ∃ a, ofValue (.text t) = .ok a ∧ a.host = Text.ofString "::1" ∧ a.port = 90 := by
  intro t
  have hspells : Spells .bracketed t "::1" (some " +9_0") :=
    .bracketed (by decide) (by decide) (by decide)
  have hliteral : Decimal.IsLiteral " +9_0" (90 : Nat) :=
    Decimal.ofText?_eq_some_iff.1 (by decide)
  have hport : PortOf (some " +9_0") 90 := .number hliteral (by decide) (by decide)
  exact ⟨rfl, ((ofValue_accepts_grammar rfl).1 _ _).2 ⟨_, _, hspells, hport⟩⟩

section Printing

variable {a b : Address}

/-- The host holds no bracket. -/
def Unbracketed (a : Address) : Prop :=
  CodePoint.ofChar '[' ∉ a.host ∧ CodePoint.ofChar ']' ∉ a.host

theorem PortOf.range (hport : PortOf part p) : 1 ≤ p ∧ p ≤ 65535 := by
  cases hport with
  | absent | empty => decide
  | number _ hpos hle => exact ⟨hpos, hle⟩

theorem portOf_text (hpos : 1 ≤ p) (hle : p ≤ 65535) : PortOf (some (Decimal.text p)) p := by
  have hprintable : Decimal.Printable p := Decimal.printable_of_lt (by omega)
  exact .number (Decimal.isLiteral_text hprintable) hpos hle

theorem colon_not_mem_text (n : Int) : CodePoint.ofChar ':' ∉ Decimal.text n := by
  have hne : ∀ b ∈ Record.numeralBytes, CodePoint.ofByte b ≠ CodePoint.ofChar ':' :=
    forall_mem_of_all (by decide)
  intro hmem
  obtain ⟨b, hb, hcolon⟩ := List.mem_map.1 hmem
  exact hne b (Record.mem_numeralBytes_of_mem_bytes hb) hcolon

theorem ofValue_text_eq_ok_iff : ofValue (.text t) = .ok a ↔
    a.isLabel = false ∧ ∃ form part, Spells form t a.host part ∧ PortOf part a.port := by
  rw [← parse_eq_ok_iff]
  have htext : (Value.text t).text? = some t := rfl
  rcases ofValue_cases htext with ⟨b, hparse, hok⟩ | ⟨e, hparse, herror⟩
  · rw [hparse, hok]
    exact ⟨congrArg _ ∘ Except.ok.inj, congrArg _ ∘ Except.ok.inj⟩
  · rw [hparse, herror]
    exact ⟨nofun, nofun⟩

theorem text_of_colon (hlabel : a.isLabel = false) (h : CodePoint.ofChar ':' ∈ a.host) :
    a.text = CodePoint.ofChar '[' ::
      (a.host ++ CodePoint.ofChar ']' :: portPart (some (Decimal.text a.port))) := by
  unfold text shownHost
  rw [if_pos (List.contains_iff_mem.2 h), hlabel]
  simp only [List.append_assoc]
  rfl

theorem text_of_not_colon (hlabel : a.isLabel = false) (h : CodePoint.ofChar ':' ∉ a.host) :
    a.text = a.host ++ portPart (some (Decimal.text a.port)) := by
  unfold text shownHost
  rw [if_neg (mt List.contains_iff_mem.1 h), hlabel, List.append_assoc]
  rfl

theorem text_congr (hh : a.host = b.host) (hp : a.port = b.port)
    (hlabel : a.isLabel = b.isLabel) : a.text = b.text := by
  obtain ⟨_, _, _⟩ := a
  obtain ⟨_, _, _⟩ := b
  cases hh
  cases hp
  cases hlabel
  rfl

/-- The text of an address is written in the form that the host asks for. -/
theorem spells_text (hlabel : a.isLabel = false) (hne : a.host ≠ []) (hhost : a.Unbracketed) :
    ∃ form, Spells form a.text a.host (some (Decimal.text a.port)) := by
  by_cases hcolon : CodePoint.ofChar ':' ∈ a.host
  · exact ⟨.bracketed, .bracketed (text_of_colon hlabel hcolon) hne hhost.2⟩
  · have ht := text_of_not_colon hlabel hcolon
    have hhead : a.text.head? ≠ some (CodePoint.ofChar '[') := by
      rw [ht, List.head?_append_of_ne_nil _ hne]
      exact fun hhead => hhost.1 (List.mem_of_mem_head? hhead)
    refine ⟨.plain, .plain ht hhead hne hcolon ?_⟩
    rintro _ ⟨⟩
    exact colon_not_mem_text _

/-- The text of an address that was read is read as the same address. -/
theorem ofValue_text_text (ha : ofValue (.text t) = .ok a) (hhost : a.Unbracketed) :
    ofValue (.text a.text) = .ok a := by
  obtain ⟨hlabel, form, part, hspells, hport⟩ := ofValue_text_eq_ok_iff.1 ha
  obtain ⟨shape, htext⟩ := spells_text hlabel hspells.ne_nil hhost
  obtain ⟨hpos, hle⟩ := hport.range
  exact ofValue_text_eq_ok_iff.2 ⟨hlabel, shape, _, htext, portOf_text hpos hle⟩

end Printing

end LineProtocol.Address

namespace LineProtocol.Sender

theorem address_eq_of_create {address size : Value} {clock : Binary64} {s : Sender} {a : Address}
    (ha : Address.ofValue address = .ok a) (hs : (create address size clock).1 = .ok s) :
    s.address = a := by
  obtain ⟨b, c, hb, -, rfl⟩ := eq_of_create hs
  exact Except.ok.inj (hb.symm.trans ha)

theorem exists_create {address : Value} {a : Address} (ha : Address.ofValue address = .ok a)
    (clock : Binary64) :
    ∃ s, (create address (.int Capacity.defaultSize) clock).1 = .ok s := by
  unfold create
  rw [ha]
  exact ⟨_, rfl⟩

/-- The address that a sender shows is read as its host and port, and so it tells them apart from
others. -/
theorem address_text_faithful {t : Text} {a : Address} (ha : Address.ofValue (.text t) = .ok a)
    (hhost : a.Unbracketed) :
    (∀ clock, ∃ s, (create (.text t) (.int Capacity.defaultSize) clock).1 = .ok s) ∧
    (∀ size clock s, (create (.text t) size clock).1 = .ok s →
      Address.ofValue (.text s.address.text) = .ok a) ∧
    ∀ t' a', Address.ofValue (.text t') = .ok a' → a'.Unbracketed →
      ∀ size size' clock clock' s s', (create (.text t) size clock).1 = .ok s →
        (create (.text t') size' clock').1 = .ok s' →
        (s.address.text = s'.address.text ↔ a.host = a'.host ∧ a.port = a'.port) := by
  refine ⟨exists_create ha, fun size clock s hs => ?_, ?_⟩
  · rw [address_eq_of_create ha hs]
    exact Address.ofValue_text_text ha hhost
  · intro t' a' ha' hhost' size size' clock clock' s s' hs hs'
    rw [address_eq_of_create ha hs, address_eq_of_create ha' hs']
    constructor
    · intro htext
      have hread := Address.ofValue_text_text ha' hhost'
      rw [← htext, Address.ofValue_text_text ha hhost] at hread
      rw [Except.ok.inj hread]
      exact ⟨rfl, rfl⟩
    · rintro ⟨hh, hp⟩
      have hlabel := (Address.ofValue_text_eq_ok_iff.1 ha).1
      have hlabel' := (Address.ofValue_text_eq_ok_iff.1 ha').1
      rw [Address.text_congr hh hp (hlabel.trans hlabel'.symm)]

/-- A host with colons, and a port with a sign, a zero at the front and an underscore. -/
theorem address_text_faithful_bracketed :
    let t : Text := "[::1]:+0_9"
    let a : Address := ⟨"::1", 9, false⟩
    Address.ofValue (.text t) = .ok a ∧ a.Unbracketed ∧
      ∃ s, (create (.text t) (.int Capacity.defaultSize) ⟨0⟩).1 = .ok s ∧
        Address.ofValue (.text s.address.text) = .ok a := by
  intro t a
  have ha : Address.ofValue (.text t) = .ok a := rfl
  have hhost : a.Unbracketed := ⟨by decide, by decide⟩
  obtain ⟨hmade, hread, -⟩ := address_text_faithful ha hhost
  obtain ⟨s, hs⟩ := hmade ⟨0⟩
  exact ⟨ha, hhost, s, hs, hread _ _ s hs⟩

end LineProtocol.Sender
