import LineProtocol.Proofs.Capacity
import Mathlib.Logic.Function.Iterate
/-!
# Growing step by step

Growing stops at the first doubling with enough room.  So an amount that has grown
for one size and then grows for another ends where it would have ended without the
detour, unless the detour went further.  That holds of every amount whose growth is
not cut short: exact numbers double past every size, and integers of fixed width
stay at zero once they have been doubled as often as they have bits.
-/

namespace LineProtocol

/-! ## Integers of fixed width -/

namespace WordFormat

theorem wrap_two_mul_wrap (f : WordFormat) (n : Int) : f.wrap (2 * f.wrap n) = f.wrap (2 * n) := by
  unfold wrap
  split
  · exact Int.mul_bmod_bmod
  · rw [Int.mul_emod, Int.emod_emod, ← Int.mul_emod]

theorem wrap_two_pow_width_mul (f : WordFormat) (n : Int) : f.wrap (2 ^ f.width * n) = 0 := by
  have hdvd : ((Nat.pow 2 f.width : Nat) : Int) ∣ 2 ^ f.width * n := by
    refine ⟨n, ?_⟩
    rw [Nat.pow_eq]
    push_cast
    rfl
  unfold wrap
  split
  · exact Int.bmod_eq_zero_of_dvd hdvd
  · exact Int.emod_eq_zero_of_dvd hdvd

end WordFormat

namespace Capacity

/-- Amounts in exact arithmetic and integers of fixed width: all but floating-point numbers and the
contents of arrays. -/
def Discrete : Capacity → Prop
  | float .. | cell _ => False
  | word f _ => 0 < f.width
  | truth _ | flag _ | exact _ | ratio _ => True

theorem Discrete.double {c : Capacity} (h : c.Discrete) : c.double.Discrete := by
  cases c with
  | flag b => exact Nat.zero_lt_succ 63
  | _ => exact h

theorem Discrete.iterate_double {c : Capacity} (h : c.Discrete) (k : Nat) :
    (Capacity.double^[k] c).Discrete := by
  induction k generalizing c with
  | zero => exact h
  | succ k ih => exact ih h.double

theorem afterGrowth_of_ne_cell {c : Capacity} (h : ∀ n, c ≠ cell n) (d : Capacity) :
    c.afterGrowth d = c := by
  cases c with
  | cell n => exact absurd rfl (h n)
  | _ => rfl

theorem Discrete.ne_cell {c : Capacity} (h : c.Discrete) (n : Int) : c ≠ cell n := by
  rintro rfl
  exact h

theorem Discrete.afterGrowth {c : Capacity} (h : c.Discrete) (d : Capacity) :
    c.afterGrowth d = c :=
  afterGrowth_of_ne_cell h.ne_cell d

theorem iterate_double_word (k : Nat) (f : WordFormat) (n : Int) :
    Capacity.double^[k + 1] (word f n) = word f (f.wrap (2 ^ (k + 1) * n)) := by
  induction k with
  | zero => simp [Capacity.double]
  | succ k ih =>
      rw [Function.iterate_succ_apply', ih]
      simp only [Capacity.double]
      rw [WordFormat.wrap_two_mul_wrap, ← mul_assoc, ← pow_succ']

theorem fits_of_le {c : Capacity} {m n : Nat} (hmn : m ≤ n) (h : c.fits n = true) :
    c.fits m = true := by
  cases c with
  | truth b | flag b =>
      simp only [fits, decide_eq_true_eq] at h ⊢
      omega
  | exact z | word f z | cell z =>
      simp only [fits, decide_eq_true_eq] at h ⊢
      omega
  | ratio q =>
      simp only [fits, decide_eq_true_eq] at h ⊢
      have hcast : (m : Rat) ≤ n := by exact_mod_cast hmn
      exact hcast.trans h
  | float f x =>
      simp only [fits, Bool.not_eq_true', Floating.Datum.isBelow] at h ⊢
      split at h
      · simp at h ⊢
        omega
      · simp at h ⊢
        exact (Nat.mul_le_mul_right _ hmn).trans h
      · exact h
      · exact h

/-! ## The first doubling that makes room -/

theorem growWithin_eq_some_iff {size limit : Nat} {c d : Capacity} :
    growWithin size limit c = some d ↔
      ∃ k ≤ limit, d = Capacity.double^[k] c ∧ d.fits size = true ∧
        ∀ j < k, (Capacity.double^[j] c).fits size = false := by
  induction limit generalizing c with
  | zero =>
      simp only [growWithin]
      constructor
      · intro h
        split at h
        · next hfits =>
          cases h
          exact ⟨0, Nat.le_refl 0, rfl, hfits, fun j hj => absurd hj (Nat.not_lt_zero j)⟩
        · contradiction
      · rintro ⟨k, hk, rfl, hfits, -⟩
        obtain rfl : k = 0 := by omega
        exact if_pos hfits
  | succ limit ih =>
      simp only [growWithin]
      by_cases hc : c.fits size = true
      · rw [if_pos hc]
        constructor
        · intro h
          cases h
          exact ⟨0, Nat.zero_le _, rfl, hc, fun j hj => absurd hj (Nat.not_lt_zero j)⟩
        · rintro ⟨k, -, rfl, -, hfirst⟩
          cases k with
          | zero => rfl
          | succ k => exact absurd hc (Bool.eq_false_iff.1 (hfirst 0 (Nat.succ_pos k)))
      · rw [if_neg hc, ih]
        constructor
        · rintro ⟨k, hk, rfl, hfits, hfirst⟩
          refine ⟨k + 1, by omega, rfl, hfits, fun j hj => ?_⟩
          cases j with
          | zero => exact Bool.eq_false_iff.2 hc
          | succ j => exact hfirst j (by omega)
        · rintro ⟨k, hk, rfl, hfits, hfirst⟩
          cases k with
          | zero => exact absurd hfits hc
          | succ k =>
              exact ⟨k, by omega, rfl, hfits, fun j hj => hfirst (j + 1) (by omega)⟩

theorem exists_fits_word {f : WordFormat} (hf : 0 < f.width) {n : Int} {size k : Nat}
    (h : (Capacity.double^[k] (word f n)).fits size = true) :
    ∃ j ≤ f.width, (Capacity.double^[j] (word f n)).fits size = true := by
  -- from the width on, doubling gives zero
  have hzero : ∀ j, f.width ≤ j → Capacity.double^[j] (word f n) = word f 0 := by
    intro j hj
    obtain ⟨i, rfl⟩ : ∃ i, j = i + 1 := ⟨j - 1, by omega⟩
    obtain ⟨e, he⟩ : ∃ e, i + 1 = f.width + e := ⟨i + 1 - f.width, by omega⟩
    rw [iterate_double_word, he, pow_add, mul_assoc, WordFormat.wrap_two_pow_width_mul]
  by_cases hk : k ≤ f.width
  · exact ⟨k, hk, h⟩
  · refine ⟨f.width, Nat.le_refl _, ?_⟩
    rw [hzero _ (Nat.le_refl _)]
    rwa [hzero k (by omega)] at h

theorem exists_fits_exact {n : Int} {size k : Nat}
    (h : (Capacity.double^[k] (exact n)).fits size = true) :
    ∃ j ≤ size, (Capacity.double^[j] (exact n)).fits size = true := by
  rw [iterate_double_exact] at h
  simp only [fits, decide_eq_true_eq] at h
  by_cases hn : 0 < n
  · refine ⟨size, Nat.le_refl size, ?_⟩
    rw [iterate_double_exact]
    simpa [fits] using le_two_pow_mul size hn
  · refine ⟨0, Nat.zero_le size, ?_⟩
    have hpow : (1 : Int) ≤ 2 ^ k := one_le_pow₀ (by decide)
    have hle : 2 ^ k * n ≤ n := by nlinarith
    simpa [fits] using h.trans hle

theorem exists_fits_ratio {q : Rat} {size k : Nat}
    (h : (Capacity.double^[k] (ratio q)).fits size = true) :
    ∃ j ≤ size + q.den, (Capacity.double^[j] (ratio q)).fits size = true := by
  rw [iterate_double_ratio] at h
  simp only [fits, decide_eq_true_eq] at h
  by_cases hq : 0 < q
  · refine ⟨size + q.den, Nat.le_refl _, ?_⟩
    rw [iterate_double_ratio]
    simpa [fits] using natCast_le_two_pow_mul size hq
  · refine ⟨0, Nat.zero_le _, ?_⟩
    have hpow : (1 : Rat) ≤ 2 ^ k := one_le_pow₀ (by norm_num)
    have hle : 2 ^ k * q ≤ q := by nlinarith
    simpa [fits] using h.trans hle

/-- Growth is not cut short: if any number of doublings makes room, an allowed one does. -/
theorem Discrete.exists_fits {c : Capacity} (h : c.Discrete) {size k : Nat}
    (hfits : (Capacity.double^[k] c).fits size = true) :
    ∃ j ≤ c.doublings size, (Capacity.double^[j] c).fits size = true := by
  cases c with
  | truth b =>
      cases k with
      | zero => exact ⟨0, Nat.zero_le _, hfits⟩
      | succ k =>
          obtain ⟨j, hj, hfits⟩ := exists_fits_exact (n := 2 * b.toInt) hfits
          exact ⟨j + 1, Nat.succ_le_succ hj, hfits⟩
  | flag b =>
      cases k with
      | zero => exact ⟨0, Nat.zero_le _, hfits⟩
      | succ k =>
          obtain ⟨j, hj, hfits⟩ :=
            exists_fits_word (f := .long) (n := 2 * b.toInt) (Nat.zero_lt_succ 63) hfits
          exact ⟨j + 1, Nat.succ_le_succ hj, hfits⟩
  | exact n =>
      obtain ⟨j, hj, hfits⟩ := exists_fits_exact hfits
      exact ⟨j, Nat.le_succ_of_le hj, hfits⟩
  | word f n => exact exists_fits_word h hfits
  | ratio q => exact exists_fits_ratio hfits
  | float | cell => exact h.elim

theorem Discrete.grow_eq_some_iff {c d : Capacity} (h : c.Discrete) {size : Nat} :
    c.grow size = some d ↔
      ∃ k, d = Capacity.double^[k] c ∧ d.fits size = true ∧
        ∀ j < k, (Capacity.double^[j] c).fits size = false := by
  unfold grow
  rw [growWithin_eq_some_iff]
  constructor
  · rintro ⟨k, -, hd, hfits, hfirst⟩
    exact ⟨k, hd, hfits, hfirst⟩
  · rintro ⟨k, rfl, hfits, hfirst⟩
    obtain ⟨j, hj, hroom⟩ := h.exists_fits hfits
    refine ⟨k, ?_, rfl, hfits, hfirst⟩
    by_contra hk
    have hlate := hfirst j (by omega)
    rw [hroom] at hlate
    contradiction

theorem Discrete.of_grow {c d : Capacity} (h : c.Discrete) {size : Nat}
    (hd : c.grow size = some d) : d.Discrete := by
  obtain ⟨k, rfl, -, -⟩ := h.grow_eq_some_iff.1 hd
  exact h.iterate_double k

theorem Discrete.exists_grow {c : Capacity} (h : c.Discrete) {size k : Nat}
    (hfits : (Capacity.double^[k] c).fits size = true) : ∃ d, c.grow size = some d := by
  obtain ⟨j, hj, hroom⟩ := h.exists_fits hfits
  obtain ⟨i, hi⟩ := exists_growWithin hj hroom
  exact ⟨_, hi⟩

/-! ## Growing again -/

variable {c d : Capacity} {m n : Nat}

/-- Growing for a size and then for a greater one is growing for the greater one. -/
theorem Discrete.grow_of_grow (h : c.Discrete) (hd : c.grow m = some d) (hmn : m ≤ n) :
    d.grow n = c.grow n := by
  have hdiscrete := h.of_grow hd
  obtain ⟨k, rfl, -, hfirst⟩ := h.grow_eq_some_iff.1 hd
  -- what comes before `d` is too small for `m`, and so for `n`
  have htoo : ∀ j < k, (Capacity.double^[j] c).fits n = false := by
    intro j hj
    by_contra hfits
    have hroom := fits_of_le hmn (Bool.not_eq_false _ ▸ hfits)
    rw [hfirst j hj] at hroom
    contradiction
  ext e
  rw [hdiscrete.grow_eq_some_iff, h.grow_eq_some_iff]
  constructor
  · rintro ⟨i, rfl, hfits, hlater⟩
    refine ⟨i + k, (Function.iterate_add_apply _ i k c).symm, hfits, fun j hj => ?_⟩
    by_cases hjk : j < k
    · exact htoo j hjk
    · have hstep := hlater (j - k) (by omega)
      rwa [← Function.iterate_add_apply, Nat.sub_add_cancel (by omega)] at hstep
  · rintro ⟨i, rfl, hfits, hearlier⟩
    have hki : k ≤ i := by
      by_contra hik
      rw [htoo i (by omega)] at hfits
      contradiction
    refine ⟨i - k, ?_, hfits, fun j hj => ?_⟩
    · rw [← Function.iterate_add_apply, Nat.sub_add_cancel hki]
    · rw [← Function.iterate_add_apply]
      exact hearlier (j + k) (by omega)

/-- Growth for a smaller size lies on the way. -/
theorem Discrete.exists_grow_of_le (h : c.Discrete) (hd : c.grow m = some d) (hnm : n ≤ m) :
    ∃ e, c.grow n = some e ∧ e.grow m = some d := by
  obtain ⟨k, hk, hfits, -⟩ := h.grow_eq_some_iff.1 hd
  have hroom : (Capacity.double^[k] c).fits n = true := hk ▸ fits_of_le hnm hfits
  obtain ⟨e, he⟩ := h.exists_grow hroom
  exact ⟨e, he, (h.grow_of_grow he hnm).trans hd⟩

/-- Whether `d` is `c` or what `c` grows to for some size. -/
def Ahead (c d : Capacity) : Prop := d = c ∨ ∃ size, c.grow size = some d

theorem Ahead.fits (h : c.Ahead d) {size : Nat} (hc : c.fits size = true) : d.fits size = true := by
  rcases h with rfl | ⟨m, hm⟩
  · exact hc
  · by_cases hroom : c.fits m = true
    · rw [grow_of_fits hroom] at hm
      cases hm
      exact hc
    · have hlt : size ≤ m := by
        by_contra hgt
        exact hroom (fits_of_le (by omega) hc)
      exact fits_of_le hlt (fits_of_grow hm)

/-- An amount that is ahead stays ahead, or is caught up with. -/
theorem Ahead.grow (h : c.Ahead d) (hc : c.Discrete) (size : Nat) :
    c.grow size = none ∧ d.grow size = none ∨
      ∃ c' d', c.grow size = some c' ∧ d.grow size = some d' ∧ c'.Ahead d' := by
  have hsame : d.grow size = c.grow size → c.grow size = none ∧ d.grow size = none ∨
      ∃ c' d', c.grow size = some c' ∧ d.grow size = some d' ∧ c'.Ahead d' := by
    intro heq
    rw [heq]
    cases c.grow size with
    | none => exact Or.inl ⟨rfl, rfl⟩
    | some e => exact Or.inr ⟨e, e, rfl, rfl, Or.inl rfl⟩
  rcases h with rfl | ⟨m, hm⟩
  · exact hsame rfl
  · rcases Nat.le_total m size with hle | hle
    · exact hsame (hc.grow_of_grow hm hle)
    · obtain ⟨e, he, hed⟩ := hc.exists_grow_of_le hm hle
      exact Or.inr ⟨e, d, he, grow_of_fits (fits_of_le hle (fits_of_grow hm)), Or.inr ⟨m, hed⟩⟩

theorem Ahead.grow_right (h : c.Ahead d) (hc : c.Discrete) {size : Nat} {e : Capacity}
    (he : d.grow size = some e) : c.Ahead e := by
  rcases h with rfl | ⟨m, hm⟩
  · exact Or.inr ⟨size, he⟩
  · rcases Nat.le_total m size with hle | hle
    · exact Or.inr ⟨size, by rw [← hc.grow_of_grow hm hle, he]⟩
    · rw [grow_of_fits (fits_of_le hle (fits_of_grow hm))] at he
      cases he
      exact Or.inr ⟨m, hm⟩

end Capacity

end LineProtocol
