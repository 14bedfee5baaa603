import LineProtocol.Text.Encoding
import Mathlib.Data.List.TakeWhile
/-!
# UTF-8 read back

The sequence of a code point is read back as that code point, whatever follows
it, and a text without surrogates is the text of its encoding.  Bytes below 128
stand for themselves only, so that a byte-wise scan for ASCII characters is a
scan for characters.
-/

namespace LineProtocol

/-- Decides a property of listed elements one by one, where deciding it for all bytes or characters
would take too long. -/
theorem forall_mem_of_all {α : Type} {p : α → Prop} [DecidablePred p] {l : List α}
    (h : (l.all fun a => decide (p a)) = true) : ∀ a ∈ l, p a :=
  fun a ha => of_decide_eq_true (List.all_eq_true.1 h a ha)

/-- Texts that have an encoding. -/
def Text.Encodable (t : Text) : Prop := ∀ c ∈ t, ¬c.IsSurrogate

/-- The first byte of a sequence tells how long it is and the others carry six bits each. -/
theorem sequenceValue_utf8_append (c : CodePoint) (rest : Bytes) :
    sequenceValue (c.utf8 ++ rest) = c.val := by
  have hc := c.val_lt
  unfold CodePoint.utf8
  by_cases h1 : c.val < 0x80
  · rw [if_pos h1]
    simp [sequenceValue]
    rw [if_pos (by omega)]
    omega
  by_cases h2 : c.val < 0x800
  · rw [if_neg h1, if_pos h2]
    simp [sequenceValue]
    rw [if_neg (by omega), if_pos (by omega)]
    omega
  by_cases h3 : c.val < 0x10000
  · rw [if_neg h1, if_neg h2, if_pos h3]
    simp [sequenceValue]
    rw [if_neg (by omega), if_neg (by omega), if_pos (by omega)]
    omega
  · rw [if_neg h1, if_neg h2, if_neg h3]
    simp [sequenceValue]
    rw [if_neg (by omega), if_neg (by omega), if_neg (by omega)]
    omega

theorem readCodePoint?_utf8_append {c : CodePoint} (h : ¬c.IsSurrogate) (rest : Bytes) :
    readCodePoint? (c.utf8 ++ rest) = some (c, rest) := by
  have hvalue := sequenceValue_utf8_append c rest
  have hlt : sequenceValue (c.utf8 ++ rest) < 0x110000 := by
    rw [hvalue]
    exact c.val_lt
  have hsame : (⟨sequenceValue (c.utf8 ++ rest), hlt⟩ : CodePoint) = c := CodePoint.ext hvalue
  simp only [readCodePoint?]
  rw [dif_pos hlt, hsame, if_pos ⟨h, by simp⟩]
  simp

theorem ofUtf8_utf8_append {c : CodePoint} (h : ¬c.IsSurrogate) (rest : Bytes) :
    Text.ofUtf8 (c.utf8 ++ rest) = c :: Text.ofUtf8 rest := by
  have hread := readCodePoint?_utf8_append h rest
  have hpos := length_utf8_pos c
  obtain ⟨b, bs, hb⟩ : ∃ b bs, c.utf8 ++ rest = b :: bs := by
    cases hcs : c.utf8 with
    | nil => simp [hcs] at hpos
    | cons b bs => exact ⟨b, bs ++ rest, rfl⟩
  rw [hb] at hread ⊢
  rw [Text.ofUtf8]
  split
  · next c' rest' hread' =>
    rw [hread] at hread'
    cases hread'
    rfl
  · next hread' =>
    rw [hread] at hread'
    contradiction

theorem ofUtf8_utf8 {t : Text} (h : t.Encodable) : Text.ofUtf8 t.utf8 = t := by
  induction t with
  | nil => simp [Text.utf8, Text.ofUtf8]
  | cons c t ih =>
      have hc : ¬c.IsSurrogate := h c (by simp)
      have ht : Text.Encodable t := fun d hd => h d (by simp [hd])
      have hcons : Text.utf8 (c :: t) = c.utf8 ++ Text.utf8 t := rfl
      rw [hcons, ofUtf8_utf8_append hc, ih ht]

/-- A byte below 128 in a sequence is all of it. -/
theorem mem_utf8_iff_of_lt {c : CodePoint} {b : UInt8} (hb : b.toNat < 0x80) :
    b ∈ c.utf8 ↔ c.val = b.toNat := by
  have hc := c.val_lt
  have hofNat : ∀ n : Nat, b = UInt8.ofNat n ↔ b.toNat = n % 256 := by
    intro n
    rw [← UInt8.toNat_inj]
    simp
  unfold CodePoint.utf8
  by_cases h1 : c.val < 0x80
  · rw [if_pos h1]
    simp only [List.mem_singleton, hofNat]
    omega
  by_cases h2 : c.val < 0x800
  · rw [if_neg h1, if_pos h2]
    simp only [List.mem_cons, List.not_mem_nil, or_false, hofNat]
    omega
  by_cases h3 : c.val < 0x10000
  · rw [if_neg h1, if_neg h2, if_pos h3]
    simp only [List.mem_cons, List.not_mem_nil, or_false, hofNat]
    omega
  · rw [if_neg h1, if_neg h2, if_neg h3]
    simp only [List.mem_cons, List.not_mem_nil, or_false, hofNat]
    omega

theorem Text.mem_utf8_iff_of_lt {t : Text} {b : UInt8} (hb : b.toNat < 0x80) :
    b ∈ t.utf8 ↔ CodePoint.ofByte b ∈ t := by
  have hsame : ∀ c : CodePoint, c.val = b.toNat ↔ c = CodePoint.ofByte b := by
    intro c
    exact ⟨fun h => CodePoint.ext h, fun h => congrArg CodePoint.val h⟩
  simp only [Text.utf8, List.mem_flatMap, LineProtocol.mem_utf8_iff_of_lt hb, hsame]
  exact ⟨fun ⟨c, hmem, hc⟩ => hc ▸ hmem, fun h => ⟨_, h, rfl⟩⟩

theorem surrogateRun?_eq_none_iff {t : Text} : t.surrogateRun? = none ↔ t.Encodable := by
  unfold Text.surrogateRun?
  split
  · next hdrop =>
    rw [List.dropWhile_eq_nil_iff] at hdrop
    refine ⟨fun _ c hc => ?_, fun _ => rfl⟩
    simpa using hdrop c hc
  · next c rest hdrop =>
    have hc : ¬c.IsSurrogate → False := by
      intro hn
      have hhead := List.head?_dropWhile_not (fun c : CodePoint => !decide c.IsSurrogate) t
      rw [hdrop] at hhead
      simp [hn] at hhead
    refine ⟨fun h => by simp at h, fun h => ?_⟩
    have hmem : c ∈ t := (List.dropWhile_suffix _).subset (by rw [hdrop]; simp)
    exact (hc (h c hmem)).elim

theorem encode_eq_ok_iff {t : Text} {bs : Bytes} :
    t.encode = .ok bs ↔ t.Encodable ∧ bs = t.utf8 := by
  unfold Text.encode
  split
  · next r hr =>
    have hne : ¬t.Encodable := by
      rw [← surrogateRun?_eq_none_iff, hr]
      simp
    simp [hne]
  · next hr =>
    have he := surrogateRun?_eq_none_iff.1 hr
    simp [he, eq_comm]

end LineProtocol
