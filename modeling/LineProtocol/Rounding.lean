/-!
# Rounding of quotients

The natural number nearest to a quotient; a tie goes to the even neighbour.
-/

namespace LineProtocol

/-- The natural number nearest to `num / den`, the even one of two. -/
def roundDiv (num den : Nat) : Nat :=
  let q := num / den
  let r := num % den
  if 2 * r < den then q
  else if den < 2 * r then q + 1
  else if q % 2 = 0 then q
  else q + 1

/-- The rounded quotient is at most half a unit below the quotient. -/
theorem two_mul_le_roundDiv {num den : Nat} (h : 0 < den) :
    2 * num ≤ (2 * roundDiv num den + 1) * den := by
  have hd := Nat.div_add_mod num den
  have hr := Nat.mod_lt num h
  simp only [roundDiv]
  rw [Nat.add_mul, Nat.mul_assoc]
  repeat' split
  all_goals simp only [Nat.mul_comm _ den, Nat.mul_add, Nat.mul_one] at *
  all_goals omega

/-- The rounded quotient is at most half a unit above the quotient. -/
theorem roundDiv_le {num den : Nat} (h : 0 < den) :
    2 * roundDiv num den * den ≤ 2 * num + den := by
  have hd := Nat.div_add_mod num den
  have hr := Nat.mod_lt num h
  simp only [roundDiv]
  rw [Nat.mul_assoc]
  repeat' split
  all_goals simp only [Nat.mul_comm _ den, Nat.mul_add, Nat.mul_one] at *
  all_goals omega

/-- A tie goes to the even neighbour. -/
theorem roundDiv_even {num den : Nat} (h : 2 * (num % den) = den) :
    roundDiv num den % 2 = 0 := by
  simp only [roundDiv, h]
  repeat' split
  all_goals omega

theorem roundDiv_mul {n den : Nat} (h : 0 < den) : roundDiv (n * den) den = n := by
  simp [roundDiv, Nat.mul_div_cancel n h, h]

end LineProtocol
