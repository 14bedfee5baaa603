import LineProtocol.Value
/-!
# Soft capacities

A buffer reserves room in doublings of its first size.  The size is a number of
the kind that the caller chose, and doubling follows the arithmetic of that
kind: integers of fixed width wrap around, so that doubling one of them may
never reach the room that is needed.  An array is doubled in its place, and
all that refers to it changes with it.
-/

namespace LineProtocol

/-- An amount of room, in the arithmetic of its kind. -/
inductive Capacity where
  | truth (b : Bool)
  /-- A truth-value scalar. -/
  | flag (b : Bool)
  | exact (n : Int)
  | word (format : WordFormat) (n : Int)
  | ratio (q : Rat)
  | float (format : Floating.Format) (x : Binary64)
  /-- The content of an array, an integer of 64 bits. -/
  | cell (n : Int)
deriving DecidableEq

namespace Capacity

def defaultSize : Int := 32768

/-- The amount that a number stands for. -/
def ofNumber : Value.Number → Capacity
  | .int n => exact n
  | .ratio q => ratio q
  | .float x => float .double x

/-- The amount that a value stands for, which must be comparable with zero.  An object stands for
the number that it is compared as. -/
def ofValue (v : Value) : Except Fault Capacity := do
  let n ← v.compared .atMost
  return match v with
    | .bool b => truth b
    | .flag b => flag b
    | .word f n => word f n
    | .cell n => cell n
    | .real f bits => float f (.ofBits f bits)
    | _ => ofNumber n

def isNonpositive : Capacity → Bool
  | truth b | flag b => !b
  | exact n | word _ n | cell n => n ≤ 0
  | ratio q => q ≤ 0
  | float _ x => x.isNonpositive

/-- Whether `size` bytes do not exceed the amount. -/
def fits (size : Nat) : Capacity → Bool
  | truth b | flag b => size ≤ b.toNat
  | exact n | word _ n | cell n => (size : Int) ≤ n
  | ratio q => (size : Rat) ≤ q
  | float _ x => !x.datum.isBelow size

def double : Capacity → Capacity
  | truth b => exact (2 * b.toInt)
  | flag b => word .long (2 * b.toInt)
  | exact n => exact (2 * n)
  | word f n => word f (f.wrap (2 * n))
  | ratio q => ratio (2 * q)
  | float f x => float f ((x + x).round f)
  | cell n => cell (WordFormat.wrap .long (2 * n))

/-- What an amount is once a copy of it has grown: the content of an array grows in all its
copies. -/
def afterGrowth : Capacity → (grown : Capacity) → Capacity
  | cell _, grown => grown
  | c, _ => c

/-- A number of doublings after which the amount holds `size` bytes or never will. -/
def doublings (size : Nat) : Capacity → Nat
  | truth _ | exact _ => size + 1
  | word f _ => f.width
  | flag _ => WordFormat.width .long + 1
  | cell _ => WordFormat.width .long
  | ratio q => size + q.den
  | float .. => size + 2200

/-- The amount after the fewest doublings, at most `limit` of them, that make it hold `size`
bytes. -/
def growWithin (size : Nat) : (limit : Nat) → Capacity → Option Capacity
  | 0, c => if c.fits size then some c else none
  | limit + 1, c => if c.fits size then some c else growWithin size limit c.double

/-- The amount after the fewest doublings that make it hold `size` bytes, if any do. -/
def grow (size : Nat) (c : Capacity) : Option Capacity :=
  growWithin size (c.doublings size) c

theorem fits_of_growWithin {size limit : Nat} {c d : Capacity}
    (h : growWithin size limit c = some d) : d.fits size = true := by
  induction limit generalizing c with
  | zero =>
      simp only [growWithin] at h
      split at h
      · simp_all
      · contradiction
  | succ limit ih =>
      simp only [growWithin] at h
      split at h
      · simp_all
      · exact ih h

theorem fits_of_grow {size : Nat} {c d : Capacity} (h : c.grow size = some d) :
    d.fits size = true :=
  fits_of_growWithin h

theorem grow_of_fits {size : Nat} {c : Capacity} (h : c.fits size = true) :
    c.grow size = some c := by
  unfold grow
  cases c.doublings size <;> simp [growWithin, h]

end Capacity

end LineProtocol
