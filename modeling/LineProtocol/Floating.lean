import LineProtocol.Rounding
/-!
# Floating-point data

The values that binary interchange formats encode, decoded exactly: a finite
value is a sign, a significand and a power of two.
-/

namespace LineProtocol

namespace Floating

/-- The widths of the fields of a binary interchange format. -/
structure Format where
  fractionBits : Nat
  exponentBits : Nat
deriving DecidableEq, Repr

namespace Format

def half : Format := ⟨10, 5⟩

def single : Format := ⟨23, 8⟩

def double : Format := ⟨52, 11⟩

variable (f : Format)

/-- The exponent of the last place of the smallest values. -/
def minExponent : Int := 2 - (Nat.pow 2 (f.exponentBits - 1) : Nat) - (f.fractionBits : Int)

/-- The bits of positive infinity: finite magnitudes lie below. -/
def infinityBits : Nat := (Nat.pow 2 f.exponentBits - 1) * Nat.pow 2 f.fractionBits

def signBit : Nat := Nat.pow 2 (f.exponentBits + f.fractionBits)

end Format

inductive Datum where
  /-- The value `significand * 2 ^ exponent`, negated if `negative`. -/
  | finite (negative : Bool) (significand : Nat) (exponent : Int)
  | infinite (negative : Bool)
  | nan
deriving DecidableEq, Repr

/-- The datum that `bits` encode in the format `f`. -/
def Datum.ofBits (f : Format) (bits : Nat) : Datum :=
  let negative := decide (f.signBit ≤ bits)
  let magnitude := bits % f.signBit
  let field := magnitude / Nat.pow 2 f.fractionBits
  let fraction := magnitude % Nat.pow 2 f.fractionBits
  if magnitude = f.infinityBits then .infinite negative
  else if f.infinityBits < magnitude then .nan
  else if field = 0 then .finite negative fraction f.minExponent
  else .finite negative (Nat.pow 2 f.fractionBits + fraction) (f.minExponent + field - 1)

namespace Datum

/-- The datum without its sign, times `scale`, as a fraction. -/
def scaledFraction (significand : Nat) (exponent : Int) (scale : Nat) : Nat × Nat :=
  (significand * scale * Nat.pow 2 exponent.toNat, Nat.pow 2 (-exponent).toNat)

/-- Whether the datum is at most zero; not so for one that is not a number. -/
def isNonpositive : Datum → Bool
  | .finite negative significand _ => negative || significand == 0
  | .infinite negative => negative
  | .nan => false

def isNonnegative : Datum → Bool
  | .finite negative significand _ => !negative || significand == 0
  | .infinite negative => !negative
  | .nan => false

/-- Whether the datum is less than the natural number `n`. -/
def isBelow (n : Nat) : Datum → Bool
  | .finite true significand _ => 0 < n || 0 < significand
  | .finite false significand exponent =>
    let (num, den) := scaledFraction significand exponent 1
    num < n * den
  | .infinite negative => negative
  | .nan => false

/-- The integer next to a finite datum in the direction of zero. -/
def truncate (negative : Bool) (significand : Nat) (exponent : Int) : Int :=
  let (num, den) := scaledFraction significand exponent 1
  if negative then -((num / den : Nat) : Int) else ((num / den : Nat) : Int)

end Datum

/-- The bits of the magnitude nearest to `num / den` in the format `f`; overflow gives the bits of
infinity or more. -/
def nearestBits (f : Format) (num den : Nat) : Nat :=
  if num = 0 then 0
  else
    -- `estimate` is the exponent of the last place or one less
    let estimate : Int := Nat.log2 num - Nat.log2 den - f.fractionBits - 1
    let scaled := fun (exponent : Int) =>
      (num * Nat.pow 2 (-exponent).toNat, den * Nat.pow 2 exponent.toNat)
    let low := scaled estimate
    let fits := low.1 / low.2 < Nat.pow 2 (f.fractionBits + 1)
    let exponent := if fits then estimate else estimate + 1
    let exponent := max f.minExponent exponent
    let (a, b) := scaled exponent
    (exponent - f.minExponent).toNat * Nat.pow 2 f.fractionBits + roundDiv a b

end Floating

end LineProtocol
