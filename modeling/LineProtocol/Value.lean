import LineProtocol.Calendar
import LineProtocol.Foreign
import LineProtocol.Text.Quoted
/-!
# Values

What a caller hands over as a name, a column value, a timestamp, a size or a
timeout.  Callers may hand over anything, so a value tells its kind: plain
values, the scalars of numeric arrays, moments, and objects of other kinds.
-/

namespace LineProtocol

/-- The widths of the integers that numeric arrays hold. -/
structure WordFormat where
  signed : Bool
  width : Nat
deriving DecidableEq, Repr

def WordFormat.long : WordFormat := ⟨true, 64⟩

/-- The value of the low bits of `n` read in the given format. -/
def WordFormat.wrap (f : WordFormat) (n : Int) : Int :=
  if f.signed then n.bmod (Nat.pow 2 f.width) else n % (Nat.pow 2 f.width : Nat)

inductive Value where
  | null
  | bool (b : Bool)
  | int (n : Int)
  | float (x : Binary64)
  | text (t : Text)
  | list (items : List Value)
  | ratio (q : Rat)
  /-- An integer scalar of fixed width. -/
  | word (format : WordFormat) (n : Int)
  /-- A truth-value scalar. -/
  | flag (b : Bool)
  /-- A floating-point scalar, by its bits. -/
  | real (format : Floating.Format) (bits : Nat)
  /-- A text scalar. -/
  | label (t : Text)
  /-- An array without dimensions that holds one integer. -/
  | cell (n : Int)
  | moment (m : Moment)
  /-- A moment whose zone fails to tell how far it is from universal time. -/
  | unzoned (fault : Fault)
  /-- A number of nanoseconds since the epoch, which may be a value of any kind. -/
  | nanos (v : Value)
  | object (o : Foreign)

namespace Value

instance : Inhabited Value := ⟨null⟩

def wordTypeName (f : WordFormat) : Text :=
  Text.ofString (if f.signed then "numpy.int" else "numpy.uint") ++ Decimal.text f.width

/-- The name of the value's type, with the module it belongs to. -/
def typeName : Value → Text
  | null => Text.ofString "NoneType"
  | bool _ => Text.ofString "bool"
  | int _ => Text.ofString "int"
  | float _ => Text.ofString "float"
  | text _ => Text.ofString "str"
  | list _ => Text.ofString "list"
  | ratio _ => Text.ofString "fractions.Fraction"
  | word f _ => wordTypeName f
  | flag _ => Text.ofString "numpy.bool"
  | real f _ =>
    Text.ofString "numpy.float" ++ Decimal.text (f.exponentBits + f.fractionBits + 1 : Nat)
  | label _ => Text.ofString "numpy.str_"
  | cell _ => Text.ofString "numpy.ndarray"
  | moment _ | unzoned _ => Text.ofString "datetime.datetime"
  | nanos _ => Text.ofString "qdb_ilp.buffer.TimestampNanos"
  | object o => o.typeName

/-- The text of a value that is one. -/
def text? : Value → Option Text
  | text t | label t => some t
  | _ => none

/-- A text scalar as it is shown.  Such scalars are filled up to a common width with NUL
characters, so those at the end do not count. -/
def unfilled (t : Text) : Text := (t.reverse.dropWhile fun c : CodePoint => c.val == 0).reverse

/-- The text of a value as messages show it. -/
def quotedText : Value → Text
  | text t => t.quoted
  | label t => Text.ofString "np.str_(" ++ (unfilled t).quoted ++ Text.ofString ")"
  | _ => []

def truth? : Value → Option Bool
  | bool b | flag b => some b
  | _ => none

/-! ## Values as numbers -/

/-- The integer of a value that is one without rounding or truncation. -/
def index : Value → Except Fault Int
  | bool b => .ok b.toInt
  | int n | word _ n | cell n => .ok n
  | object o => o.index
  | v => .error (.noInteger v.typeName)

/-- The number of a value that is one; what an object is taken for depends on the operation. -/
def number? : Value → Option Number
  | bool b | flag b => some (.int b.toInt)
  | int n | word _ n | cell n => some (.int n)
  | ratio q => some (.ratio q)
  | float x => some (.float x)
  | real f bits => some (.float (.ofBits f bits))
  | _ => none

/-- What the value is compared with zero as. -/
def compared (c : Comparison) : Value → Except Fault Number
  | object o => o.compared c
  | v =>
    match v.number? with
    | none => .error (.noComparison c v.typeName)
    | some n => .ok n

/-- The integer as which a value is written out that is compared with zero as `n`. -/
def whole (n : Number) : Value → Except Fault Int
  | object o => o.whole
  | _ => n.truncate

/-- The seconds that a value adds to the reading of a clock if it is compared with zero as `n`. -/
def seconds (n : Number) : Value → Except Fault Binary64
  | object o => o.seconds
  | _ => n.toBinary64

theorem compared_of_number? {v : Value} {n : Number} (h : v.number? = some n) (c : Comparison) :
    v.compared c = .ok n := by
  unfold compared
  split
  · contradiction
  · rw [h]

theorem number?_of_compared {v : Value} (hv : ∀ o, v ≠ object o) {c : Comparison} {n : Number}
    (h : v.compared c = .ok n) : v.number? = some n := by
  unfold compared at h
  split at h
  · exact absurd rfl (hv _)
  · split at h
    · contradiction
    · next hn =>
      cases h
      exact hn

theorem whole_of_number? {v : Value} {n : Number} (h : v.number? = some n) :
    v.whole n = n.truncate := by
  cases v with
  | object => contradiction
  | _ => rfl

/-- The format in which sums with the value are rounded. -/
def precision : Value → Floating.Format
  | real f _ => f
  | _ => .double

/-- What reading a value as a floating-point number may give. -/
inductive FloatReading where
  | number (x : Binary64)
  /-- The value counts as a number, yet its conversion fails. -/
  | failed (fault : Fault)
  | notANumber
deriving DecidableEq, Repr

def FloatReading.ofResult : Except Fault Binary64 → FloatReading
  | .ok x => number x
  | .error fault => failed fault

/-- Reads a value as a floating-point number.  Truth-value scalars and arrays are none. -/
def readFloat : Value → FloatReading
  | flag _ | cell _ => .notANumber
  | object o => if o.standing = .other then .notANumber else .ofResult o.float
  | v =>
    match v.number? with
    | none => .notANumber
    | some n => .ofResult n.toBinary64

/-! ## Values in place of texts -/

def isObject (name : String) : Value → Bool
  | object o => o.typeName == Text.ofString name
  | _ => false

/-- Whether a value is a string of bytes, which has the operations of a text but takes no text for
an operand. -/
def isByteString (v : Value) : Bool :=
  ["bytes", "bytearray", "numpy.bytes_"].any v.isObject

/-- The fault of asking a value for an attribute that values of its kind do not have. -/
def attributeFault (wanted : String) (v : Value) : Fault where
  kind := .missingAttribute
  text := Text.ofString "'" ++ operandName v.typeName ++
    Text.ofString "' object has no attribute '" ++ Text.ofString wanted ++ Text.ofString "'"

/-- The fault of cutting a value that is no text in two.  The operation of the same name on arrays
works along their last axis, with places instead of texts. -/
def cutFault : Value → Fault
  | cell _ => .of .missingAxis "axis -1 is out of bounds for array of dimension 0"
  | v =>
    if v.isByteString then .of .wrongType "a bytes-like object is required, not 'str'"
    else if v.isObject "numpy.ndarray" then .of .wrongType "Partition index must be integer"
    else v.attributeFault "partition"

/-- The fault of asking a value that is no text how it starts. -/
def startFault (v : Value) : Fault :=
  if v.isByteString then
    .of .wrongType "startswith first arg must be bytes or a tuple of bytes, not str"
  else v.attributeFault "startswith"

end Value

end LineProtocol
