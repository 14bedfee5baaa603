import LineProtocol.Decimal
import LineProtocol.Floating
/-!
# Floating-point numerals

A floating-point datum in decimal: in the lines of the protocol with six
places, in messages with as few digits as tell it from every other datum.
-/

namespace LineProtocol.Floating

/-!
## Six decimal places

Positional notation with six decimal places, rounded from the exact value, a
tie to the even neighbour.
-/

/-- The last six decimal digits of `n`, zeros included. -/
def Datum.sixDigits (n : Nat) : Bytes :=
  [100000, 10000, 1000, 100, 10, 1].map fun unit => Decimal.digitByte (n / unit % 10)

/-- The datum with six decimal places; infinities as `inf`, no number as `nan`. -/
def Datum.sixPlaces : Datum → Bytes
  | .finite negative significand exponent =>
    let (num, den) := scaledFraction significand exponent 1000000
    let millionths := roundDiv num den
    Decimal.sign negative ++ Decimal.bytes (millionths / 1000000 : Nat) ++
      0x2E :: sixDigits (millionths % 1000000)
  | .infinite negative => Decimal.sign negative ++ [0x69, 0x6E, 0x66]
  | .nan => [0x6E, 0x61, 0x6E]

/-!
## Shortest decimal text

The text with the fewest significant digits that still tell a datum from every
other datum of its format; among those the nearest, and of two equally near
ones the one that ends in an even digit.  Small and large data are shown with
an exponent; how large depends on the format.
-/

structure Quotient where
  num : Nat
  den : Nat

namespace Quotient

/-- The decimal exponent of the leading digit. -/
def leadingExponent (v : Quotient) : Int :=
  if v.den ≤ v.num then ((Decimal.digits (v.num / v.den)).length : Int) - 1
  else
    let t := (Decimal.digits (v.den / v.num)).length - 1
    if v.num * Nat.pow 10 t = v.den then -(t : Int) else -(t : Int) - 1

/-- Whether `n` times ten to the power `s` is at most the number. -/
def isAtLeast (v : Quotient) (n : Nat) (s : Int) : Bool :=
  n * Nat.pow 10 s.toNat * v.den ≤ v.num * Nat.pow 10 (-s).toNat

/-- Whether `n` times ten to the power `s` is at least the number. -/
def isAtMost (v : Quotient) (n : Nat) (s : Int) : Bool :=
  v.num * Nat.pow 10 (-s).toNat ≤ n * Nat.pow 10 s.toNat * v.den

end Quotient

/-- The numbers that round to a datum: those between two ends, which belong to them or not. -/
structure Interval where
  low : Quotient
  high : Quotient
  closed : Bool

def quarterUnits (quarters : Nat) (exponent : Int) : Quotient :=
  ⟨quarters * Nat.pow 2 exponent.toNat, 4 * Nat.pow 2 (-exponent).toNat⟩

/-- The numbers that round to `significand * 2 ^ exponent` in the format `f`. -/
def Interval.around (f : Format) (significand : Nat) (exponent : Int) : Interval :=
  let atPower := significand = Nat.pow 2 f.fractionBits ∧ f.minExponent < exponent
  { low := quarterUnits (4 * significand - if atPower then 1 else 2) exponent
    high := quarterUnits (4 * significand + 2) exponent
    closed := significand % 2 = 0 }

/-- Whether `n` times ten to the power `s` lies in the interval. -/
def Interval.contains (i : Interval) (n : Nat) (s : Int) : Bool :=
  i.low.isAtMost n s && i.high.isAtLeast n s &&
    (i.closed || !(i.low.isAtLeast n s || i.high.isAtMost n s))

/-- The multiples of ten to the power `s` next to a number that lie in the interval, the nearest
first. -/
def Interval.neighbours (i : Interval) (v : Quotient) (s : Int) : List Nat :=
  let num := v.num * Nat.pow 10 (-s).toNat
  let den := v.den * Nat.pow 10 s.toNat
  let below := num / den
  let nearest := roundDiv num den
  let other := if nearest = below then below + 1 else below
  [nearest, other].filter fun n => i.contains n s

/-- The shortest decimal digits that lie in the interval, and the exponent of the last one; of the
first grid that meets the interval. -/
def Interval.shortest (i : Interval) (v : Quotient) (lead : Int) : (digits remaining : Nat) →
    Nat × Int
  | digits, remaining =>
    let s := lead - digits
    match i.neighbours v s, remaining with
    | n :: _, _ => (n, s)
    | [], 0 => (0, s)
    | [], remaining + 1 => i.shortest v lead (digits + 1) remaining

/-- The most digits after the first that a datum of the three formats needs. -/
def maxFurtherDigits : Nat := 17

def zeros (n : Nat) : Bytes := List.replicate n 0x30

/-- The exponent of the power of ten from which on data of the format are shown with an exponent. -/
def Format.positionalDigits (f : Format) : Nat :=
  if f = .half then 3 else if f = .single then 6 else 16

/-- Whether a positive datum of the format `f` is shown without an exponent: from 0.0001 on. -/
def Quotient.isPositional (v : Quotient) (f : Format) : Bool :=
  v.isAtLeast 1 (-4) && !v.isAtLeast 1 f.positionalDigits

/-- Digits with a leading one of exponent `lead`, in positional notation or with an exponent of at
least two digits. -/
def layOut (positional : Bool) (digits : Bytes) (lead : Int) : Bytes :=
  if positional then
    if lead < 0 then 0x30 :: 0x2E :: (zeros (-lead - 1).toNat ++ digits)
    else
      let whole := lead.toNat + 1
      let fraction := digits.drop whole
      digits.take whole ++ zeros (whole - digits.length) ++ 0x2E ::
        (if fraction.isEmpty then [0x30] else fraction)
  else
    let exponent := Decimal.bytes lead.natAbs
    let fraction := digits.drop 1
    digits.take 1 ++ (if fraction.isEmpty then [] else 0x2E :: fraction) ++ 0x65 ::
      (if lead < 0 then 0x2D else 0x2B) :: (zeros (2 - exponent.length) ++ exponent)

/-- The shortest text of a datum of the format `f`. -/
def Datum.shortest (f : Format) : Datum → Bytes
  | .finite negative significand exponent =>
    Decimal.sign negative ++
      if significand = 0 then layOut true [0x30] 0
      else
        let v := quarterUnits (4 * significand) exponent
        let (n, s) := (Interval.around f significand exponent).shortest v v.leadingExponent 0
          maxFurtherDigits
        let digits := Decimal.digits n
        let trimmed := (digits.reverse.dropWhile (· == 0)).reverse
        layOut (v.isPositional f) (trimmed.map Decimal.digitByte) (s + digits.length - 1)
  | .infinite negative => Decimal.sign negative ++ [0x69, 0x6E, 0x66]
  | .nan => [0x6E, 0x61, 0x6E]

end LineProtocol.Floating
