import LineProtocol.Capacity
import Mathlib.Algebra.Order.Archimedean.Basic
/-!
# Capacities that grow without bounds

Doubling a positive amount of exact arithmetic reaches every size.  This is what
keeps a buffer from waiting forever for room; integers of fixed width wrap
around and have no such guarantee.
-/

namespace LineProtocol.Capacity

/-- Positive amounts whose arithmetic has no bounds. -/
def Boundless : Capacity → Prop
  | truth b => b = true
  | exact n => 0 < n
  | ratio q => 0 < q
  | _ => False

theorem Boundless.double {c : Capacity} (h : c.Boundless) : c.double.Boundless := by
  cases c with
  | truth b =>
      have hb : b = true := h
      subst hb
      show (0 : Int) < 2 * Bool.toInt true
      decide
  | exact n =>
      have hn : 0 < n := h
      show 0 < 2 * n
      omega
  | ratio q =>
      have hq : 0 < q := h
      show 0 < 2 * q
      linarith
  | _ => exact h.elim

theorem Boundless.iterate_double {c : Capacity} (h : c.Boundless) (k : Nat) :
    (Capacity.double^[k] c).Boundless := by
  induction k generalizing c with
  | zero => exact h
  | succ k ih => exact ih h.double

theorem iterate_double_exact (k : Nat) (n : Int) :
    Capacity.double^[k] (exact n) = exact (2 ^ k * n) := by
  induction k generalizing n with
  | zero => simp
  | succ k ih =>
      rw [Function.iterate_succ_apply]
      simp only [Capacity.double]
      rw [ih]
      congr 1
      ring

theorem iterate_double_ratio (k : Nat) (q : Rat) :
    Capacity.double^[k] (ratio q) = ratio (2 ^ k * q) := by
  induction k generalizing q with
  | zero => simp
  | succ k ih =>
      rw [Function.iterate_succ_apply]
      simp only [Capacity.double]
      rw [ih]
      congr 1
      ring

/-- If some allowed number of doublings makes room, growing ends after one that does. -/
theorem exists_growWithin {size limit k : Nat} {c : Capacity} (hk : k ≤ limit)
    (h : (Capacity.double^[k] c).fits size = true) :
    ∃ j, growWithin size limit c = some (Capacity.double^[j] c) := by
  induction limit generalizing c k with
  | zero =>
      have hk0 : k = 0 := by omega
      subst hk0
      refine ⟨0, ?_⟩
      simp only [growWithin]
      rw [if_pos (by simpa using h)]
      rfl
  | succ limit ih =>
      simp only [growWithin]
      by_cases hc : c.fits size = true
      · rw [if_pos hc]
        exact ⟨0, rfl⟩
      · rw [if_neg hc]
        cases k with
        | zero => exact absurd h hc
        | succ k =>
            obtain ⟨j, hj⟩ := ih (k := k) (by omega) h
            exact ⟨j + 1, hj⟩

theorem le_two_pow_mul (size : Nat) {n : Int} (hn : 0 < n) : (size : Int) ≤ 2 ^ size * n := by
  have hpow : (size : Int) < 2 ^ size := by
    exact_mod_cast Nat.lt_two_pow_self
  nlinarith

theorem natCast_le_two_pow_mul (size : Nat) {q : Rat} (hq : 0 < q) :
    (size : Rat) ≤ 2 ^ (size + q.den) * q := by
  have hsize : (size : Rat) ≤ 2 ^ size := by
    exact_mod_cast Nat.lt_two_pow_self.le
  have hden : (1 : Rat) ≤ 2 ^ q.den * q := by
    have hnum : (1 : Rat) ≤ q.num := by
      exact_mod_cast Rat.num_pos.mpr hq
    have hle : (q.den : Rat) ≤ 2 ^ q.den := by
      exact_mod_cast Nat.lt_two_pow_self.le
    calc (1 : Rat) ≤ q.num := hnum
      _ = q.den * q := (Rat.den_mul_eq_num q).symm
      _ ≤ 2 ^ q.den * q := by gcongr
  calc (size : Rat) ≤ 2 ^ size * 1 := by rw [mul_one]; exact hsize
    _ ≤ 2 ^ size * (2 ^ q.den * q) := by gcongr
    _ = 2 ^ (size + q.den) * q := by rw [pow_add, mul_assoc]

theorem Boundless.exists_fits {c : Capacity} (h : c.Boundless) (size : Nat) :
    ∃ k ≤ c.doublings size, (Capacity.double^[k] c).fits size = true := by
  cases c with
  | truth b =>
      have hb : b = true := h
      subst hb
      refine ⟨size + 1, le_rfl, ?_⟩
      rw [Function.iterate_succ_apply]
      simp only [Capacity.double]
      rw [iterate_double_exact]
      simpa [fits] using le_two_pow_mul size (n := 2) (by omega)
  | exact n =>
      refine ⟨size, Nat.le_succ size, ?_⟩
      rw [iterate_double_exact]
      simpa [fits] using le_two_pow_mul size h
  | ratio q =>
      refine ⟨size + q.den, le_rfl, ?_⟩
      rw [iterate_double_ratio]
      simpa [fits] using natCast_le_two_pow_mul size h
  | _ => exact h.elim

/-- A boundless amount grows to every size, by doublings. -/
theorem Boundless.exists_grow {c : Capacity} (h : c.Boundless) (size : Nat) :
    ∃ d, c.grow size = some d ∧ d.Boundless := by
  obtain ⟨k, hk, hfits⟩ := h.exists_fits size
  obtain ⟨j, hj⟩ := exists_growWithin hk hfits
  exact ⟨_, hj, h.iterate_double j⟩

theorem Boundless.afterGrowth {c d : Capacity} (h : c.Boundless) : c.afterGrowth d = c := by
  cases c with
  | cell n => exact h.elim
  | _ => rfl

end LineProtocol.Capacity
