/-!
# Texts

A text is a list of code points.  Surrogates may stand alone in it, so it is
wider than a string of Unicode scalar values; only the encoding of a text as
bytes (`LineProtocol.Text.Encoding`) refuses them.
-/

namespace LineProtocol

/-- A Unicode code point, surrogates included. -/
structure CodePoint where
  val : Nat
  val_lt : val < 0x110000
deriving DecidableEq, Repr

namespace CodePoint

def ofChar (c : Char) : CodePoint where
  val := c.toNat
  val_lt := by
    have h := c.valid
    simp only [UInt32.isValidChar, Nat.isValidChar] at h
    show c.val.toNat < 0x110000
    omega

instance : Coe Char CodePoint := ⟨ofChar⟩

/-- The code point with number `n`; the replacement character if there is none. -/
def ofNat (n : Nat) : CodePoint :=
  if h : n < 0x110000 then ⟨n, h⟩ else ⟨0xFFFD, by decide⟩

/-- The code point whose number is the byte `b`. -/
def ofByte (b : UInt8) : CodePoint where
  val := b.toNat
  val_lt := by have := b.toNat_lt; omega

/-- Code units reserved for pairs: they stand for no character by themselves. -/
def IsSurrogate (c : CodePoint) : Prop := 0xD800 ≤ c.val ∧ c.val ≤ 0xDFFF

instance (c : CodePoint) : Decidable c.IsSurrogate :=
  inferInstanceAs (Decidable (_ ∧ _))

@[ext] theorem ext {a b : CodePoint} (h : a.val = b.val) : a = b := by
  cases a; cases b; cases h; rfl

@[simp] theorem val_ofChar (c : Char) : (ofChar c).val = c.toNat := rfl

@[simp] theorem val_ofByte (b : UInt8) : (ofByte b).val = b.toNat := rfl

theorem not_isSurrogate_ofChar (c : Char) : ¬(ofChar c).IsSurrogate := by
  have h := c.valid
  simp only [UInt32.isValidChar, Nat.isValidChar] at h
  show ¬(0xD800 ≤ c.val.toNat ∧ c.val.toNat ≤ 0xDFFF)
  omega

end CodePoint

/-- A finite sequence of code points. -/
abbrev Text := List CodePoint

namespace Text

def ofString (s : String) : Text := s.toList.map CodePoint.ofChar

instance : Coe String Text := ⟨ofString⟩

/-- The part before and the part after the first occurrence of `sep`. -/
def cut? (sep : Text) : Text → Option (Text × Text)
  | [] => if sep.isEmpty then some ([], []) else none
  | c :: t =>
    if sep.isPrefixOf (c :: t) then some ([], (c :: t).drop sep.length)
    else (cut? sep t).map fun (before, after) => (c :: before, after)

/-- The parts of a text between the separators in it, empty ones included. -/
def split (sep : CodePoint) : Text → List Text
  | [] => [[]]
  | c :: t =>
    if c = sep then [] :: split sep t
    else
      match split sep t with
      | [] => [[c]]
      | part :: parts => (c :: part) :: parts

/-- Texts are ordered by their first differing code point, a proper beginning first. -/
def le : Text → Text → Bool
  | [], _ => true
  | _ :: _, [] => false
  | a :: s, b :: t => a.val < b.val || (a == b && le s t)

/-- The members of `parts` with `sep` between neighbours. -/
def join (sep : Text) (parts : List Text) : Text := sep.intercalate parts

def sort (l : List Text) : List Text := l.mergeSort le

/-- The separator and both parts of a cut make up the whole text. -/
theorem append_of_cut? {sep t before after : Text} (h : cut? sep t = some (before, after)) :
    before ++ sep ++ after = t := by
  induction t generalizing before with
  | nil =>
      simp only [cut?] at h
      split at h
      · simp_all
      · contradiction
  | cons c t ih =>
      simp only [cut?] at h
      split at h
      · next hp =>
        obtain ⟨rest, hr⟩ := List.isPrefixOf_iff_prefix.1 hp
        simp only [Option.some.injEq, Prod.mk.injEq] at h
        obtain ⟨rfl, rfl⟩ := h
        rw [← hr]
        simp
      · obtain ⟨⟨b, a⟩, hb, he⟩ := Option.map_eq_some_iff.1 h
        simp only [Prod.mk.injEq] at he
        obtain ⟨rfl, rfl⟩ := he
        simpa using ih hb

theorem length_of_cut? {sep t before after : Text} (h : cut? sep t = some (before, after)) :
    before.length + sep.length + after.length = t.length := by
  simp [← append_of_cut? h, Nat.add_assoc]

theorem cut?_cons_of_ne {c d : CodePoint} (h : c ≠ d) (sep t : Text) :
    cut? (c :: sep) (d :: t) =
      (cut? (c :: sep) t).map fun (before, after) => (d :: before, after) := by
  have hprefix : (c :: sep).isPrefixOf (d :: t) = false := by
    rw [List.isPrefixOf_cons_cons, beq_false_of_ne h, Bool.false_and]
  rw [cut?, hprefix, if_neg Bool.false_ne_true]

/-- A text is cut where the separator starts for the first time. -/
theorem cut?_append {c : CodePoint} {before : Text} (h : c ∉ before) (sep after : Text) :
    cut? (c :: sep) (before ++ c :: (sep ++ after)) = some (before, after) := by
  induction before with
  | nil =>
      have hprefix : (c :: sep).isPrefixOf (c :: (sep ++ after)) = true :=
        List.isPrefixOf_iff_prefix.2 (List.prefix_append (c :: sep) after)
      rw [List.nil_append, cut?, if_pos hprefix]
      simp
  | cons d before ih =>
      obtain ⟨hd, hbefore⟩ := List.ne_and_not_mem_of_not_mem_cons h
      rw [List.cons_append, cut?_cons_of_ne hd, ih hbefore]
      rfl

theorem cut?_of_not_mem {c : CodePoint} {t : Text} (h : c ∉ t) (sep : Text) :
    cut? (c :: sep) t = none := by
  induction t with
  | nil => rfl
  | cons d t ih =>
      obtain ⟨hd, ht⟩ := List.ne_and_not_mem_of_not_mem_cons h
      rw [cut?_cons_of_ne hd, ih ht]
      rfl

theorem cut?_singleton_eq_some_iff {c : CodePoint} {t before after : Text} :
    cut? [c] t = some (before, after) ↔ c ∉ before ∧ t = before ++ c :: after := by
  refine ⟨fun h => ?_, fun ⟨hbefore, ht⟩ => ht ▸ cut?_append hbefore [] after⟩
  have ht := append_of_cut? h
  rw [List.append_assoc] at ht
  refine ⟨fun hmem => ?_, ht.symm⟩
  -- a separator in `before` would be an earlier place to cut
  obtain ⟨first, second, rfl, hfirst⟩ := List.eq_append_cons_of_mem hmem
  rw [← ht, List.append_assoc] at h
  have hcut := (cut?_append hfirst [] (second ++ c :: after)).symm.trans h
  have hself : first = first ++ c :: second := (Prod.mk.inj (Option.some.inj hcut)).1
  exact nomatch List.self_eq_append_right.1 hself

theorem cut?_singleton_eq_none_iff {c : CodePoint} {t : Text} : cut? [c] t = none ↔ c ∉ t := by
  refine ⟨fun h hmem => ?_, fun h => cut?_of_not_mem h []⟩
  obtain ⟨before, after, rfl, hbefore⟩ := List.eq_append_cons_of_mem hmem
  exact nomatch (cut?_append hbefore [] after).symm.trans h

end Text

end LineProtocol
