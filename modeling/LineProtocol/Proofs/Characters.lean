import LineProtocol.Line
import LineProtocol.Proofs.Encoding
/-!
# Whole characters

UTF-8 writes a character as one byte and at most three continuation bytes, which begin
no character.  So when bytes are taken from the front of whole characters, at most three
continuation bytes and then whole characters are left.  Decoding shows the former as
escapes and the latter as they are.  A backslash before an ASCII character cuts no other
character in two.
-/

namespace LineProtocol

/-- A byte of a character other than its first. -/
def IsContinuation (b : UInt8) : Prop := 0x80 ≤ b.toNat ∧ b.toNat < 0xC0

/-- The bytes of whole characters. -/
def IsUtf8 (bs : Bytes) : Prop := ∃ t : Text, t.Encodable ∧ bs = t.utf8

/-- The whole characters of `t` after the end of another one, which is `front`. -/
structure Truncated (front : Bytes) (t : Text) (bs : Bytes) : Prop where
  eq : bs = front ++ t.utf8
  length_le : front.length ≤ 3
  continuation : ∀ b ∈ front, IsContinuation b
  encodable : t.Encodable

theorem exists_utf8_eq_cons (c : CodePoint) :
    ∃ first later, c.utf8 = first :: later ∧ ¬IsContinuation first ∧ later.length ≤ 3 ∧
      ∀ b ∈ later, IsContinuation b := by
  have hc := c.val_lt
  unfold CodePoint.utf8
  by_cases h1 : c.val < 0x80
  · rw [if_pos h1]
    refine ⟨_, _, rfl, ?_, by simp, nofun⟩
    simp [IsContinuation]
    omega
  by_cases h2 : c.val < 0x800
  · rw [if_neg h1, if_pos h2]
    refine ⟨_, _, rfl, ?_, by simp, ?_⟩
    · simp [IsContinuation]
      omega
    · simp [IsContinuation]
      omega
  by_cases h3 : c.val < 0x10000
  · rw [if_neg h1, if_neg h2, if_pos h3]
    refine ⟨_, _, rfl, ?_, by simp, ?_⟩
    · simp [IsContinuation]
      omega
    · simp [IsContinuation]
      omega
  · rw [if_neg h1, if_neg h2, if_neg h3]
    refine ⟨_, _, rfl, ?_, by simp, ?_⟩
    · simp [IsContinuation]
      omega
    · simp [IsContinuation]
      omega

theorem utf8_of_val_eq {c : CodePoint} {b : UInt8} (hb : b.toNat < 0x80) (h : c.val = b.toNat) :
    c.utf8 = [b] := by
  unfold CodePoint.utf8
  rw [h, if_pos hb, UInt8.ofNat_toNat]

theorem utf8_cons (c : CodePoint) (t : Text) : Text.utf8 (c :: t) = c.utf8 ++ t.utf8 := rfl

theorem Text.Encodable.append {t u : Text} (ht : t.Encodable) (hu : u.Encodable) :
    Text.Encodable (t ++ u) :=
  List.forall_mem_append.2 ⟨ht, hu⟩

/-! ## Decoding -/

theorem readCodePoint?_of_continuation {b : UInt8} (h : IsContinuation b) (bs : Bytes) :
    readCodePoint? (b :: bs) = none := by
  cases hread : readCodePoint? (b :: bs) with
  | none => rfl
  | some read =>
      obtain ⟨c, rest⟩ := read
      obtain ⟨first, later, hc, hfirst, -, -⟩ := exists_utf8_eq_cons c
      have hbytes := (append_of_readCodePoint? hread).2
      rw [hc, List.cons_append] at hbytes
      rw [(List.cons.inj hbytes).1] at hfirst
      exact absurd h hfirst

/-- A byte is shown with two hexadecimal digits. -/
theorem escape_ofByte (b : UInt8) :
    (CodePoint.ofByte b).escape = Text.ofString "\\x" ++ hexDigits 2 b.toNat :=
  if_pos b.toNat_lt

theorem ofUtf8_append_of_continuation {front : Bytes} (h : ∀ b ∈ front, IsContinuation b)
    (bs : Bytes) :
    Text.ofUtf8 (front ++ bs) =
      front.flatMap (fun b => Text.ofString "\\x" ++ hexDigits 2 b.toNat) ++ Text.ofUtf8 bs := by
  induction front with
  | nil => rfl
  | cons b front ih =>
      obtain ⟨hb, hfront⟩ := List.forall_mem_cons.1 h
      rw [List.cons_append, Text.ofUtf8]
      split
      · next hread =>
        rw [readCodePoint?_of_continuation hb] at hread
        contradiction
      · rw [ih hfront, escape_ofByte, List.flatMap_cons, List.append_assoc _ _ (Text.ofUtf8 bs)]

namespace Truncated

variable {front bs : Bytes} {t : Text}

/-- What is decoded is an escape for each byte of the front, and the characters. -/
theorem ofUtf8 (h : Truncated front t bs) :
    Text.ofUtf8 bs =
      front.flatMap (fun b => Text.ofString "\\x" ++ hexDigits 2 b.toNat) ++ t := by
  rw [h.eq, ofUtf8_append_of_continuation h.continuation, ofUtf8_utf8 h.encodable]

/-- Whole characters do not begin with the end of one. -/
theorem eq_nil_of_isUtf8 (h : Truncated front t bs) (hbs : IsUtf8 bs) : front = [] := by
  obtain ⟨u, -, hu⟩ := hbs
  cases front with
  | nil => rfl
  | cons b front =>
      have hb : IsContinuation b := h.continuation b List.mem_cons_self
      cases u with
      | nil => exact nomatch h.eq.symm.trans hu
      | cons c u =>
          obtain ⟨first, later, hc, hfirst, -, -⟩ := exists_utf8_eq_cons c
          have heq := h.eq.symm.trans hu
          rw [utf8_cons, hc] at heq
          rw [← (List.cons.inj heq).1] at hfirst
          exact absurd hb hfirst

/-! ## Cutting -/

theorem drop_utf8 (ht : t.Encodable) (n : Nat) :
    ∃ front rest, Truncated front rest (t.utf8.drop n) := by
  induction t generalizing n with
  | nil => exact ⟨[], [], List.drop_nil, Nat.zero_le _, nofun, nofun⟩
  | cons c t ih =>
      obtain ⟨hc, hrest⟩ := List.forall_mem_cons.1 ht
      obtain ⟨first, later, heq, -, hlength, hlater⟩ := exists_utf8_eq_cons c
      by_cases hn : n ≤ c.utf8.length
      · rw [utf8_cons, List.drop_append_of_le_length hn]
        cases n with
        | zero => exact ⟨[], c :: t, rfl, Nat.zero_le _, nofun, ht⟩
        | succ n =>
            -- the first byte is gone, and maybe some of the others
            rw [heq, List.drop_succ_cons]
            refine ⟨later.drop n, t, rfl, ?_, fun b hb => hlater b (List.mem_of_mem_drop hb), hrest⟩
            rw [List.length_drop]
            omega
      · rw [utf8_cons, List.drop_append, List.drop_eq_nil_of_le (by omega), List.nil_append]
        exact ih hrest _

/-- Taking more bytes from the front leaves the like. -/
theorem drop (h : Truncated front t bs) (n : Nat) :
    ∃ front' t', Truncated front' t' (bs.drop n) := by
  rw [h.eq]
  by_cases hn : n ≤ front.length
  · rw [List.drop_append_of_le_length hn]
    refine ⟨front.drop n, t, rfl, ?_, ?_, h.encodable⟩
    · rw [List.length_drop]
      exact (Nat.sub_le _ _).trans h.length_le
    · exact fun b hb => h.continuation b (List.mem_of_mem_drop hb)
  · rw [List.drop_append, List.drop_eq_nil_of_le (by omega), List.nil_append]
    exact drop_utf8 h.encodable _

theorem append (h : Truncated front t bs) {more : Bytes} (hmore : IsUtf8 more) :
    ∃ t', Truncated front t' (bs ++ more) := by
  obtain ⟨u, hu, rfl⟩ := hmore
  refine ⟨t ++ u, ?_, h.length_le, h.continuation, h.encodable.append hu⟩
  rw [h.eq, List.append_assoc, Text.utf8, Text.utf8, Text.utf8, List.flatMap_append]

end Truncated

/-! ## Composing -/

theorem escape_of_forall_not_mem {special bs : Bytes} (h : ∀ b ∈ bs, b ∉ special) :
    Line.escape special bs = bs := by
  induction bs with
  | nil => rfl
  | cons b bs ih =>
      obtain ⟨hb, hbs⟩ := List.forall_mem_cons.1 h
      rw [Line.escape_cons_of_not_mem hb, ih hbs]

namespace IsUtf8

theorem truncated {bs : Bytes} (h : IsUtf8 bs) : ∃ t, Truncated [] t bs := by
  obtain ⟨t, ht, rfl⟩ := h
  exact ⟨t, rfl, Nat.zero_le _, nofun, ht⟩

theorem nil : IsUtf8 [] := ⟨[], nofun, rfl⟩

theorem append {a b : Bytes} (ha : IsUtf8 a) (hb : IsUtf8 b) : IsUtf8 (a ++ b) := by
  obtain ⟨t, ht, rfl⟩ := ha
  obtain ⟨u, hu, rfl⟩ := hb
  exact ⟨t ++ u, ht.append hu, List.flatMap_append.symm⟩

theorem of_character {c : CodePoint} (hc : ¬c.IsSurrogate) : IsUtf8 c.utf8 :=
  ⟨[c], List.forall_mem_singleton.2 hc, (List.flatMap_singleton ..).symm⟩

/-- An ASCII byte is a character. -/
theorem singleton {b : UInt8} (h : b.toNat < 0x80) : IsUtf8 [b] := by
  have hc : ¬(CodePoint.ofByte b).IsSurrogate := by
    rintro ⟨hle, -⟩
    rw [CodePoint.val_ofByte] at hle
    omega
  rw [← utf8_of_val_eq h (CodePoint.val_ofByte b)]
  exact of_character hc

theorem cons {b : UInt8} {bs : Bytes} (hb : b.toNat < 0x80) (h : IsUtf8 bs) : IsUtf8 (b :: bs) :=
  (singleton hb).append h

theorem of_ascii {bs : Bytes} (h : ∀ b ∈ bs, b.toNat < 0x80) : IsUtf8 bs := by
  induction bs with
  | nil => exact nil
  | cons b bs ih =>
      obtain ⟨hb, hbs⟩ := List.forall_mem_cons.1 h
      exact cons hb (ih hbs)

/-- A special byte is all of its character, so that a backslash before it is between characters. -/
theorem escape {special : Bytes} (hspecial : ∀ b ∈ special, b.toNat < 0x80) {t : Text}
    (ht : t.Encodable) : IsUtf8 (Line.escape special t.utf8) := by
  induction t with
  | nil => exact nil
  | cons c t ih =>
      obtain ⟨hc, hrest⟩ := List.forall_mem_cons.1 ht
      rw [utf8_cons, Line.escape_append]
      refine append ?_ (ih hrest)
      by_cases hmem : ∃ b ∈ special, b ∈ c.utf8
      · obtain ⟨b, hb, hbc⟩ := hmem
        have hlt := hspecial b hb
        rw [utf8_of_val_eq hlt ((mem_utf8_iff_of_lt hlt).1 hbc), Line.escape_cons_of_mem hb]
        exact cons (by decide) (singleton hlt)
      · rw [escape_of_forall_not_mem fun b hb hs => hmem ⟨b, hs, hb⟩]
        exact of_character hc

end IsUtf8

end LineProtocol
