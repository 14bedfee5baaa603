import LineProtocol.Decimal
/-!
# Integer literals

An integer literal has decimal digits of any script, single underscores
between digits, an optional sign, and blanks around it.
-/

namespace LineProtocol

/-!
## Blanks

The code points that may surround a numeral: horizontal and vertical white
space, without the four separators U+001C to U+001F.
-/

/-- White space that may surround a numeral. -/
def CodePoint.isBlank (c : CodePoint) : Bool :=
  let n := c.val
  (0x9 ≤ n && n ≤ 0xD) || n == 0x20 || n == 0x85 || n == 0xA0 || n == 0x1680 ||
    (0x2000 ≤ n && n ≤ 0x200A) || n == 0x2028 || n == 0x2029 || n == 0x202F ||
    n == 0x205F || n == 0x3000

/-- The text without the blanks at both ends. -/
def Text.trimBlank (t : Text) : Text :=
  ((t.dropWhile CodePoint.isBlank).reverse.dropWhile CodePoint.isBlank).reverse

/-- Whatever counts as white space among ASCII characters is blank. -/
theorem isBlank_ofChar_of_isWhitespace {c : Char} (h : c.isWhitespace = true) :
    (CodePoint.ofChar c).isBlank = true := by
  simp only [Char.isWhitespace, Bool.or_eq_true, decide_eq_true_eq] at h
  rcases h with ((rfl | rfl) | rfl) | rfl <;> decide

/-!
## Digits

The decimal digits of all scripts (general category `Nd`, Unicode 14).  They
come in runs of ten, zero first, so the table holds the zeros.
-/

/-- The zeros of the runs of ten decimal digits. -/
def digitZeros : List Nat :=
  [0x30, 0x660, 0x6F0, 0x7C0, 0x966, 0x9E6, 0xA66, 0xAE6, 0xB66, 0xBE6, 0xC66, 0xCE6, 0xD66,
   0xDE6, 0xE50, 0xED0, 0xF20, 0x1040, 0x1090, 0x17E0, 0x1810, 0x1946, 0x19D0, 0x1A80, 0x1A90,
   0x1B50, 0x1BB0, 0x1C40, 0x1C50, 0xA620, 0xA8D0, 0xA900, 0xA9D0, 0xA9F0, 0xAA50, 0xABF0,
   0xFF10, 0x104A0, 0x10D30, 0x11066, 0x110F0, 0x11136, 0x111D0, 0x112F0, 0x11450, 0x114D0,
   0x11650, 0x116C0, 0x11730, 0x118E0, 0x11950, 0x11C50, 0x11D50, 0x11DA0, 0x16A60, 0x16AC0,
   0x16B50, 0x1D7CE, 0x1D7D8, 0x1D7E2, 0x1D7EC, 0x1D7F6, 0x1E140, 0x1E2F0, 0x1E950, 0x1FBF0]

/-- The value of a decimal digit of any script. -/
def CodePoint.digit? (c : CodePoint) : Option Nat :=
  (digitZeros.find? fun z => z ≤ c.val && c.val < z + 10).map (c.val - ·)

theorem CodePoint.digit?_lt {c : CodePoint} {d : Nat} (h : c.digit? = some d) : d < 10 := by
  simp only [CodePoint.digit?, Option.map_eq_some_iff] at h
  obtain ⟨z, hz, rfl⟩ := h
  have := List.find?_some hz
  simp only [Bool.and_eq_true, decide_eq_true_eq] at this
  omega

/-- The runs are ascending and do not overlap. -/
theorem pairwise_digitZeros : digitZeros.Pairwise fun a b => a + 10 ≤ b := by decide

/-! ## Literals -/

namespace Decimal

/-- The digits of a nonempty sequence of digits with single underscores between them. -/
def groupedDigits? : Text → Option (List Nat)
  | [] => none
  | [c] => c.digit?.map ([·])
  | c :: u :: rest => do
    let d ← c.digit?
    let tail ← if u = '_' then groupedDigits? rest else groupedDigits? (u :: rest)
    return d :: tail

/-- The number written by digits, unless there are too many of them. -/
def unsigned? (t : Text) : Option Nat := do
  let l ← groupedDigits? t
  if l.length ≤ maxDigits then some (ofDigits l) else none

/-- The number written by digits after an optional sign. -/
def signed? : Text → Option Int
  | [] => none
  | c :: t =>
    if c = '-' then (unsigned? t).map fun n => -(n : Int)
    else if c = '+' then (unsigned? t).map fun n => (n : Int)
    else (unsigned? (c :: t)).map fun n => (n : Int)

/-- The integer that a text denotes, if it is a literal. -/
def ofText? (t : Text) : Option Int := signed? t.trimBlank

end Decimal

end LineProtocol
