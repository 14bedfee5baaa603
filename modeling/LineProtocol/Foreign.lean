import LineProtocol.Binary64
import LineProtocol.Decimal
import LineProtocol.Fault
/-!
# Objects of other kinds

Callers may hand over objects that are known only by what they answer when they
are asked for a number.  Each answer is a number or a fault, and no two of them
need agree: an object may be compared with zero and yet not be written out.
-/

namespace LineProtocol

namespace Value

/-- A value that can be compared with zero. -/
inductive Number where
  | int (n : Int)
  | ratio (q : Rat)
  | float (x : Binary64)
deriving DecidableEq

namespace Number

def isNonpositive : Number → Bool
  | int n => n ≤ 0
  | ratio q => q ≤ 0
  | float x => x.isNonpositive

def isNonnegative : Number → Bool
  | int n => 0 ≤ n
  | ratio q => 0 ≤ q
  | float x => x.isNonnegative

/-- The next integer in the direction of zero. -/
def truncate : Number → Except Fault Int
  | int n => .ok n
  | ratio q => .ok (q.num.tdiv q.den)
  | float x =>
    match x.datum with
    | .finite negative significand exponent =>
      .ok (Floating.Datum.truncate negative significand exponent)
    | .infinite _ => .error (.of .overflow "cannot convert float infinity to integer")
    | .nan => .error (.of .badValue "cannot convert float NaN to integer")

/-- The nearest number of the 64-bit binary format. -/
def toBinary64 : Number → Except Fault Binary64
  | int n =>
    match Binary64.ofInt? n with
    | some x => .ok x
    | none => .error (.of .overflow "int too large to convert to float")
  | ratio q =>
    match Binary64.ofRat? q with
    | some x => .ok x
    | none => .error (.of .overflow "integer division result too large for a float")
  | float x => .ok x

end Number

/-- How a value is compared with zero. -/
inductive Comparison where
  | atMost
  | atLeast
deriving DecidableEq, Repr

def Comparison.sign : Comparison → String
  | atMost => "<="
  | atLeast => ">="

end Value

/-! ## Names of types -/

/-- The part of a name after its last full stop. -/
def lastComponent (name : Text) : Text :=
  (name.reverse.takeWhile fun c : CodePoint => c != '.').reverse

/-- The compiled modules that types belong to. -/
def compiledModules : List String :=
  ["numpy", "datetime", "decimal", "collections", "array", "itertools", "functools", "operator",
    "re", "types", "time", "weakref", "zoneinfo", "_io", "_thread"]

/-- The name of a type in messages about operands.  Only types of compiled modules go with the
module. -/
def operandName (typeName : Text) : Text :=
  if compiledModules.any fun m => (Text.ofString (m ++ ".")).isPrefixOf typeName then typeName
  else lastComponent typeName

namespace Fault

/-- The fault of taking a value for an integer that stands for none. -/
def noInteger (typeName : Text) : Fault where
  kind := .wrongType
  text := Text.ofString "'" ++ operandName typeName ++
    Text.ofString "' object cannot be interpreted as an integer"

/-- The fault of comparing a value with an integer that is not compared with any. -/
def noComparison (c : Value.Comparison) (typeName : Text) : Fault where
  kind := .wrongType
  text := Text.ofString "'" ++ Text.ofString c.sign ++
    Text.ofString "' not supported between instances of '" ++ operandName typeName ++
    Text.ofString "' and 'int'"

end Fault

/-! ## Objects -/

/-- What an object counts as. -/
inductive Standing where
  /-- An integer scalar, which also counts as a real number. -/
  | integer
  /-- A floating-point number, which also counts as a real number. -/
  | floating
  | real
  | other
deriving DecidableEq, Repr

/-- An object of some other kind, by its answers. -/
structure Foreign where
  /-- The name of the object's type, with the module it belongs to. -/
  typeName : Text
  standing : Standing
  /-- The integer that the object stands for. -/
  index : Except Fault Int
  /-- The object converted to a floating-point number. -/
  float : Except Fault Binary64
  /-- What the object is compared with zero as. -/
  compared : Value.Comparison → Except Fault Value.Number
  /-- The integer as which the object is written out. -/
  whole : Except Fault Int
  /-- The seconds that the object adds to the reading of a clock. -/
  seconds : Except Fault Binary64

namespace Foreign

/-- An object that takes part in none of the operations on numbers. -/
def plain (typeName : Text) : Foreign where
  typeName := typeName
  standing := .other
  index := .error (.noInteger typeName)
  float := .error {
    kind := .wrongType
    text := Text.ofString "float() argument must be a string or a real number, not '" ++
      operandName typeName ++ Text.ofString "'" }
  compared c := .error (.noComparison c typeName)
  whole := .error {
    kind := .wrongType
    text := Text.ofString "%d format: a real number is required, not " ++ operandName typeName }
  seconds := .error {
    kind := .wrongType
    text := Text.ofString "unsupported operand type(s) for +: 'float' and '" ++
      operandName typeName ++ Text.ofString "'" }

end Foreign

end LineProtocol
