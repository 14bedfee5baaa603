import LineProtocol.Text.Basic
/-!
# Decimal numerals

Integers in decimal digits, as bytes for the line protocol and as text for
messages.  A numeral of more than 4300 digits is never written out.
-/

namespace LineProtocol

abbrev Bytes := List UInt8

namespace Decimal

/-- The most digits that a numeral may have. -/
def maxDigits : Nat := 4300

/-- The decimal digits of `n`, most significant first, followed by `rest`. -/
def digitsOnto (n : Nat) (rest : List Nat) : List Nat :=
  if n < 10 then n :: rest else digitsOnto (n / 10) (n % 10 :: rest)

def digits (n : Nat) : List Nat := digitsOnto n []

/-- The number with the given decimal digits, most significant first. -/
def ofDigits (l : List Nat) : Nat := l.foldl (fun n d => 10 * n + d) 0

def digitByte (d : Nat) : UInt8 := UInt8.ofNat (0x30 + d)

def sign (negative : Bool) : Bytes := if negative then [0x2D] else []

/-- An integer in decimal, with a minus sign if it is negative. -/
def bytes (n : Int) : Bytes := sign (n < 0) ++ (digits n.natAbs).map digitByte

/-- An integer in decimal, unless it has too many digits. -/
def bytes? (n : Int) : Option Bytes :=
  if (digits n.natAbs).length ≤ maxDigits then some (bytes n) else none

def text (n : Int) : Text := (bytes n).map CodePoint.ofByte

def text? (n : Int) : Option Text := (bytes? n).map (·.map CodePoint.ofByte)

theorem digitsOnto_eq_append (n : Nat) (rest : List Nat) :
    digitsOnto n rest = digits n ++ rest := by
  induction n using Nat.strongRecOn generalizing rest with
  | ind n ih =>
      unfold digits
      rw [digitsOnto.eq_def n rest, digitsOnto.eq_def n []]
      split
      · rfl
      · rw [ih (n / 10) (by omega) (n % 10 :: rest), ih (n / 10) (by omega) [n % 10]]
        simp

theorem digits_of_lt {n : Nat} (h : n < 10) : digits n = [n] := by
  rw [digits, digitsOnto.eq_def, if_pos h]

theorem digits_of_le {n : Nat} (h : 10 ≤ n) : digits n = digits (n / 10) ++ [n % 10] := by
  rw [digits, digitsOnto.eq_def, if_neg (by omega), digitsOnto_eq_append]

theorem lt_ten_of_mem_digits {n d : Nat} (h : d ∈ digits n) : d < 10 := by
  induction n using Nat.strongRecOn with
  | ind n ih =>
      by_cases hn : n < 10
      · rw [digits_of_lt hn] at h
        simp only [List.mem_singleton] at h
        omega
      · rw [digits_of_le (by omega)] at h
        simp only [List.mem_append, List.mem_singleton] at h
        rcases h with h | rfl
        · exact ih (n / 10) (by omega) h
        · omega

@[simp] theorem ofDigits_digits (n : Nat) : ofDigits (digits n) = n := by
  induction n using Nat.strongRecOn with
  | ind n ih =>
      by_cases hn : n < 10
      · simp [digits_of_lt hn, ofDigits]
      · have := ih (n / 10) (by omega)
        rw [digits_of_le (by omega), ofDigits, List.foldl_append]
        rw [ofDigits] at this
        simp only [this, List.foldl_cons, List.foldl_nil]
        omega

end Decimal

end LineProtocol
