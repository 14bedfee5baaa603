import LineProtocol.Floating
/-!
# Numbers of the 64-bit binary format

A number is held by its bits, so every infinity, zero and not-a-number keeps
its identity.  Sums and differences are those of the format, rounded to
nearest; `Binary64.round` rounds a number further, to a narrower format.
-/

namespace LineProtocol

/-- A number of the 64-bit binary interchange format. -/
structure Binary64 where
  bits : UInt64
deriving DecidableEq, Repr

namespace Binary64

open Floating

def datum (x : Binary64) : Datum := Datum.ofBits .double x.bits.toNat

/-- The number with the given sign nearest to `num / den`, unless the quotient is out of range. -/
def ofFraction? (negative : Bool) (num den : Nat) : Option Binary64 :=
  let bits := nearestBits .double num den
  if bits < Format.infinityBits .double then
    some ⟨UInt64.ofNat (bits + if negative then Format.signBit .double else 0)⟩
  else none

def ofInt? (n : Int) : Option Binary64 := ofFraction? (n < 0) n.natAbs 1

def ofRat? (q : Rat) : Option Binary64 := ofFraction? (q.num < 0) q.num.natAbs q.den

def infinity (negative : Bool) : Binary64 :=
  ⟨UInt64.ofNat (Format.infinityBits .double + if negative then Format.signBit .double else 0)⟩

/-- The number nearest to `digits` with the last `places` digits after the decimal point. -/
def ofDecimal (digits places : Nat) : Binary64 :=
  (ofFraction? false digits (Nat.pow 10 places)).getD (infinity false)

/-- The weight of the last place of a fraction of the format `f` in a fraction of 64-bit numbers. -/
def fractionUnit (f : Format) : Nat := Nat.pow 2 (Format.fractionBits .double - f.fractionBits)

/-- The number that `bits` encode in the format `f`, which is not wider.  What is no number keeps
its sign and its fraction. -/
def ofBits (f : Format) (bits : Nat) : Binary64 :=
  match Datum.ofBits f bits with
  | .finite negative significand exponent =>
    let (num, den) := Datum.scaledFraction significand exponent 1
    (ofFraction? negative num den).getD (infinity negative)
  | .infinite negative => infinity negative
  | .nan =>
    let fraction := bits % Nat.pow 2 f.fractionBits * fractionUnit f
    ⟨(infinity (f.signBit ≤ bits)).bits ||| UInt64.ofNat fraction⟩

def isNaN (x : Binary64) : Bool := x.datum == .nan

/-- The same not-a-number with its quiet bit set. -/
def quiet (x : Binary64) : Binary64 := ⟨x.bits ||| 0x0008000000000000⟩

/-- The number nearest to `x` among those of the format `f`; infinity beyond their range.  What is
no number keeps the leading bits of its fraction. -/
def round (f : Format) (x : Binary64) : Binary64 :=
  if f = .double then x
  else
    match x.datum with
    | .finite negative significand exponent =>
      let (num, den) := Datum.scaledFraction significand exponent 1
      let bits := nearestBits f num den
      if bits < f.infinityBits then ofBits f (bits + if negative then f.signBit else 0)
      else infinity negative
    | .infinite _ => x
    | .nan =>
      let bits := x.quiet.bits.toNat
      ⟨UInt64.ofNat (bits - bits % fractionUnit f)⟩

/-- The result of an operation: an operand that is no number passes through, the first one first;
an operation without a value gives the quiet not-a-number with the sign set. -/
def propagate (x y : Binary64) (result : Float) : Binary64 :=
  if x.isNaN then x.quiet
  else if y.isNaN then y.quiet
  else if result.isNaN then ⟨0xFFF8000000000000⟩
  else ⟨result.toBits⟩

instance : Add Binary64 where
  add x y := propagate x y (Float.ofBits x.bits + Float.ofBits y.bits)

instance : Sub Binary64 where
  sub x y := propagate x y (Float.ofBits x.bits - Float.ofBits y.bits)

def isNonpositive (x : Binary64) : Bool := x.datum.isNonpositive

def isNonnegative (x : Binary64) : Bool := x.datum.isNonnegative

@[simp] theorem round_double (x : Binary64) : x.round .double = x := by simp [round]

example : ofBits .half 0x2E66 = ⟨0x3FB9980000000000⟩ := by decide +kernel

example : round .half ⟨0x409F450000000000⟩ = ⟨0x409F440000000000⟩ := by decide +kernel

end Binary64

end LineProtocol
