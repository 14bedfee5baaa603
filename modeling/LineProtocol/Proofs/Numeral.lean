import LineProtocol.Floating.Numeral
import LineProtocol.Proofs.Encoding
import LineProtocol.Record.Reader
/-!
# Numerals in a line

Numerals are written with digits, a sign, a point and the letters of `inf` and
`nan`, none of which delimits anything.  A truth value, an integer and a
floating-point number look different: by their length and by their last byte.
-/

namespace LineProtocol

namespace Decimal

theorem digits_ne_nil (n : Nat) : digits n ≠ [] := by
  by_cases hn : n < 10
  · rw [digits_of_lt hn]
    simp
  · rw [digits_of_le (by omega)]
    simp

theorem toNat_digitByte {d : Nat} (hd : d < 10) : (digitByte d).toNat = 0x30 + d := by
  simp [digitByte]
  omega

theorem exists_digit_of_mem_bytes {n : Int} {b : UInt8} (h : b ∈ bytes n) :
    b = 0x2D ∨ ∃ d < 10, b = digitByte d := by
  rw [bytes, List.mem_append] at h
  rcases h with h | h
  · unfold sign at h
    split at h
    · exact Or.inl (by simpa using h)
    · simp at h
  · obtain ⟨d, hd, rfl⟩ := List.mem_map.1 h
    exact Or.inr ⟨d, lt_ten_of_mem_digits hd, rfl⟩

end Decimal

namespace Record

open Line

/-- Bytes that mean nothing to a reader of lines. -/
def IsPlain (b : UInt8) : Prop := b ∉ delimiters ∧ b ≠ backslash ∧ b ≠ doubleQuote

instance (b : UInt8) : Decidable (IsPlain b) :=
  inferInstanceAs (Decidable (_ ∧ _ ∧ _))

/-- The bytes that numerals are written with. -/
def numeralBytes : Bytes := ascii "0123456789-.infa"

theorem isPlain_of_mem_numeralBytes : ∀ b ∈ numeralBytes, IsPlain b :=
  forall_mem_of_all (by decide)

theorem digitByte_mem_numeralBytes {d : Nat} (hd : d < 10) :
    Decimal.digitByte d ∈ numeralBytes := by
  have h : ∀ d : Fin 10, Decimal.digitByte d ∈ numeralBytes := by decide
  exact h ⟨d, hd⟩

theorem mem_numeralBytes_of_mem_bytes {n : Int} {b : UInt8} (h : b ∈ Decimal.bytes n) :
    b ∈ numeralBytes := by
  rcases Decimal.exists_digit_of_mem_bytes h with rfl | ⟨d, hd, rfl⟩
  · decide
  · exact digitByte_mem_numeralBytes hd

theorem isPlain_of_mem_bytes {n : Int} {b : UInt8} (h : b ∈ Decimal.bytes n) : IsPlain b :=
  isPlain_of_mem_numeralBytes b (mem_numeralBytes_of_mem_bytes h)

theorem readNat?_digits (n : Nat) :
    readNat? ((Decimal.digits n).map Decimal.digitByte) = some n := by
  have hlt : ∀ d ∈ Decimal.digits n, d < 10 := fun d hd => Decimal.lt_ten_of_mem_digits hd
  have hvalues : ((Decimal.digits n).map Decimal.digitByte).map (fun b => b.toNat - 0x30) =
      Decimal.digits n := by
    rw [List.map_map]
    conv => rhs; rw [← List.map_id (Decimal.digits n)]
    apply List.map_congr_left
    intro d hd
    simp only [Function.comp_apply, Decimal.toNat_digitByte (hlt d hd), id]
    omega
  have hall : ((Decimal.digits n).map Decimal.digitByte).all
      (fun b => 0x30 ≤ b && b ≤ 0x39) = true := by
    rw [List.all_map, List.all_eq_true]
    intro d hd
    have hdigit : ∀ d : Fin 10, (0x30 ≤ Decimal.digitByte d && Decimal.digitByte d ≤ 0x39) = true := by
      decide
    exact hdigit ⟨d, hlt d hd⟩
  have hne : ((Decimal.digits n).map Decimal.digitByte).isEmpty = false := by
    simp [Decimal.digits_ne_nil]
  unfold readNat?
  rw [hall, hne, hvalues, Decimal.ofDigits_digits]
  rfl

theorem readInt?_bytes (n : Int) : readInt? (Decimal.bytes n) = some n := by
  have hread := readNat?_digits n.natAbs
  unfold Decimal.bytes Decimal.sign
  by_cases hn : n < 0
  · have habs : -(n.natAbs : Int) = n := by omega
    simp only [hn, decide_true, if_true, List.cons_append, List.nil_append, readInt?, hread]
    exact congrArg some habs
  · simp only [hn, decide_false, Bool.false_eq_true, if_false, List.nil_append]
    obtain ⟨d, ds, hds⟩ := List.exists_cons_of_ne_nil (Decimal.digits_ne_nil n.natAbs)
    have hd : d < 10 := Decimal.lt_ten_of_mem_digits (n := n.natAbs) (by simp [hds])
    have hsign : Decimal.digitByte d ≠ 0x2D := by
      intro h
      have := congrArg UInt8.toNat h
      rw [Decimal.toNat_digitByte hd] at this
      simp at this
      omega
    rw [hds] at hread ⊢
    have habs : (n.natAbs : Int) = n := by omega
    simp only [List.map_cons] at hread ⊢
    simp only [readInt?, if_neg hsign, hread]
    exact congrArg some habs

theorem eq_of_singleton_suffix {a b : UInt8} {bs : Bytes} (h : [a] <:+ bs ++ [b]) : a = b := by
  obtain ⟨front, hfront⟩ := h
  simpa using congrArg List.getLast? hfront

/-- Truth values have a single byte; of longer values the last byte tells the type. -/
theorem readBare?_of_length_ne_one {bs : Bytes} (h : bs.length ≠ 1) :
    readBare? bs =
      if (ascii "i").isSuffixOf bs then (readInt? bs.dropLast).map .int
      else some (.float bs) := by
  have ht : bs ≠ ascii "t" := by
    rintro rfl
    exact h rfl
  have hf : bs ≠ ascii "f" := by
    rintro rfl
    exact h rfl
  unfold readBare?
  rw [if_neg ht, if_neg hf]

theorem readBare?_int (n : Int) :
    readBare? (Decimal.bytes n ++ ascii "i") = some (.int n) := by
  have hlength : (Decimal.bytes n ++ ascii "i").length ≠ 1 := by
    have hpos := List.length_pos_iff.2 (Decimal.digits_ne_nil n.natAbs)
    simp only [Decimal.bytes, List.length_append, List.length_map]
    show _ + 1 ≠ 1
    omega
  have hsuffix : (ascii "i").isSuffixOf (Decimal.bytes n ++ ascii "i") = true := by
    rw [List.isSuffixOf_iff_suffix]
    exact List.suffix_append _ _
  have hdrop : (Decimal.bytes n ++ ascii "i").dropLast = Decimal.bytes n :=
    List.dropLast_concat
  rw [readBare?_of_length_ne_one hlength, if_pos hsuffix, hdrop, readInt?_bytes]
  rfl

/-- A floating-point numeral has several bytes and does not end like an integer. -/
theorem exists_sixPlaces_eq_append (x : Floating.Datum) :
    ∃ front b, x.sixPlaces = front ++ [b] ∧ front ≠ [] ∧ b ≠ 0x69 := by
  cases x with
  | finite negative significand exponent =>
      let parts := Floating.Datum.scaledFraction significand exponent 1000000
      let millionths := roundDiv parts.1 parts.2
      refine ⟨Decimal.sign negative ++ Decimal.bytes (millionths / 1000000 : Nat) ++
        0x2E :: ([100000, 10000, 1000, 100, 10].map fun unit =>
          Decimal.digitByte (millionths % 1000000 / unit % 10)),
        Decimal.digitByte (millionths % 1000000 / 1 % 10), ?_, by simp, ?_⟩
      · simp [Floating.Datum.sixPlaces, Floating.Datum.sixDigits, millionths, parts]
      · intro h
        have hplain := congrArg UInt8.toNat h
        rw [Decimal.toNat_digitByte (by omega)] at hplain
        simp at hplain
        omega
  | infinite negative =>
      exact ⟨Decimal.sign negative ++ [0x69, 0x6E], 0x66, by simp [Floating.Datum.sixPlaces],
        by simp, by decide⟩
  | nan => exact ⟨[0x6E, 0x61], 0x6E, rfl, by simp, by decide⟩

theorem mem_numeralBytes_of_mem_sixPlaces {x : Floating.Datum} {b : UInt8}
    (h : b ∈ x.sixPlaces) : b ∈ numeralBytes := by
  have hsign : ∀ negative : Bool, ∀ b ∈ Decimal.sign negative, b ∈ numeralBytes := by
    intro negative
    cases negative with
    | false => exact nofun
    | true => exact forall_mem_of_all (by decide)
  cases x with
  | finite negative significand exponent =>
      simp only [Floating.Datum.sixPlaces, List.mem_append, List.mem_cons] at h
      rcases h with (h | h) | rfl | h
      · exact hsign negative b h
      · exact mem_numeralBytes_of_mem_bytes h
      · decide
      · obtain ⟨unit, -, rfl⟩ := List.mem_map.1 h
        exact digitByte_mem_numeralBytes (by omega)
  | infinite negative =>
      simp only [Floating.Datum.sixPlaces, List.mem_append] at h
      rcases h with h | h
      · exact hsign negative b h
      · exact forall_mem_of_all (by decide) b h
  | nan => exact forall_mem_of_all (by decide) b h

theorem isPlain_of_mem_sixPlaces {x : Floating.Datum} {b : UInt8} (h : b ∈ x.sixPlaces) :
    IsPlain b :=
  isPlain_of_mem_numeralBytes b (mem_numeralBytes_of_mem_sixPlaces h)

theorem readBare?_sixPlaces (x : Floating.Datum) :
    readBare? x.sixPlaces = some (.float x.sixPlaces) := by
  obtain ⟨front, b, hx, hfront, hb⟩ := exists_sixPlaces_eq_append x
  have hlength : x.sixPlaces.length ≠ 1 := by
    rw [hx]
    simpa using hfront
  have hsuffix : ¬(ascii "i").isSuffixOf x.sixPlaces = true := by
    rw [List.isSuffixOf_iff_suffix, hx]
    exact fun h => hb (eq_of_singleton_suffix h).symm
  rw [readBare?_of_length_ne_one hlength, if_neg hsuffix]

theorem readBare?_truth (b : Bool) :
    readBare? (ascii (if b then "t" else "f")) = some (.bool b) := by
  cases b <;> rfl

end Record

end LineProtocol
