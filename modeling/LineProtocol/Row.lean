import LineProtocol.Floating.Numeral
import LineProtocol.Line
/-!
# Rows

The calls that compose a row, and what each adds to the line: the name of the
table, symbols, then columns of the other types, and at the end an optional
timestamp.  What a call adds depends only on how far the row has come.
-/

namespace LineProtocol

/-- How far a row has come. -/
inductive Stage where
  /-- Nothing is written. -/
  | start
  /-- The table is named; symbols may follow. -/
  | named
  /-- A column of another type than symbol is written; no symbols may follow. -/
  | columns
deriving DecidableEq, Repr

/-- A call that composes a row. -/
inductive Call where
  | table (name : Value)
  | symbol (name value : Value)
  /-- A column of a given type. -/
  | typed (kind : ColumnKind) (name value : Value)
  /-- A column whose type follows from the value. -/
  | column (name value : Value)

/-- The type of column that holds a value, if the value has one. -/
def Value.columnKind? : Value → Option ColumnKind
  | bool _ | flag _ => some .bool
  | int _ | word .. => some .int
  | float _ | real .. => some .float
  | text _ | label _ => some .string
  | object o =>
    match o.standing with
    | .integer => some .int
    | .floating => some .float
    | .real | .other => none
  | _ => none

namespace ColumnKind

/-- An integer column's value as it is written. -/
def encodeInt (v : Value) : Except Failure Bytes :=
  match v.index with
  | .error fault =>
    if fault.kind.family = .wrongType then .error (.error (.row (.wrongKind .int v.typeName)))
    else .error (.fault fault)
  | .ok n =>
    match Decimal.bytes? n with
    | none => .error (.error (.row .integerTooLong))
    | some bs => .ok (bs ++ Line.ascii "i")

/-- Whether a failed conversion to a floating-point number counts as an error of the row. -/
def IsConversionFault (fault : Fault) : Prop :=
  fault.kind.family = .overflow ∨ fault.kind.family = .badValue ∨ fault.kind.family = .wrongType

instance (fault : Fault) : Decidable (IsConversionFault fault) :=
  inferInstanceAs (Decidable (_ ∨ _ ∨ _))

def encodeFloat (v : Value) : Except Failure Bytes :=
  match v.readFloat with
  | .notANumber => .error (.error (.row (.wrongKind .float v.typeName)))
  | .failed fault =>
    if IsConversionFault fault then .error (.error (.row (.unconvertible v.typeName fault)))
    else .error (.fault fault)
  | .number x => .ok x.datum.sixPlaces

def encodeString (v : Value) : Except Failure Bytes :=
  match v.text? with
  | none => .error (.error (.row (.wrongKind .string v.typeName)))
  | some _ =>
    match Line.escapeQuoted v with
    | .error e => .error (.error (.row e))
    | .ok bs => .ok (Line.doubleQuote :: bs ++ [Line.doubleQuote])

def encodeBool (v : Value) : Except Failure Bytes :=
  match v.truth? with
  | none => .error (.error (.row (.wrongKind .bool v.typeName)))
  | some b => .ok (Line.ascii (if b then "t" else "f"))

/-- A column's value as it is written. -/
def encode : ColumnKind → Value → Except Failure Bytes
  | int => encodeInt
  | float => encodeFloat
  | string => encodeString
  | bool => encodeBool

end ColumnKind

namespace Call

def encodeName (name : Value) : Except Failure Bytes :=
  (Line.escapeName name).mapError fun e => .error (.row e)

/-- A column of a given type as it is written; its value is looked at first. -/
def encodeColumn (stage : Stage) (kind : ColumnKind) (name value : Value) :
    Except Failure Bytes := do
  let encoded ← kind.encode value
  if stage = .start then throw (.error (.row .tableMissing))
  let name ← encodeName name
  let separator := if stage = .columns then Line.comma else Line.space
  return separator :: name ++ Line.equals :: encoded

/-- What a call adds to a row that has come to `stage`. -/
def encode (stage : Stage) : Call → Except Failure Bytes
  | table name => do
    if stage ≠ .start then throw (.error (.row .tableRepeated))
    encodeName name
  | symbol name value => do
    if stage = .start then throw (.error (.row .tableMissing))
    if stage = .columns then throw (.error (.row .symbolAfterColumn))
    let name ← encodeName name
    let value ← (Line.escapeUnquoted value).mapError fun e => .error (.row e)
    return Line.comma :: name ++ Line.equals :: value
  | typed kind name value => encodeColumn stage kind name value
  | column name value =>
    match value.columnKind? with
    | none => .error (.error (.row (.noColumnKind value.typeName)))
    | some kind => encodeColumn stage kind name value

def next (stage : Stage) : Call → Stage
  | table _ => .named
  | symbol .. => stage
  | typed .. | column .. => .columns

end Call

namespace Value

/-- The nanoseconds that a timestamp stands for; the content of a `nanos` is not looked at. -/
def timestamp : Value → Except Failure Value
  | nanos v => .ok v
  | moment m => .ok (.int m.nanoseconds)
  | unzoned fault => .error (.fault fault)
  | v =>
    match v.index with
    | .ok n => .ok (.int n)
    | .error fault =>
      if fault.kind.family = .wrongType then .error (.error (.row (.notTimestamp v.typeName)))
      else .error (.fault fault)

/-- What a fault of writing nanoseconds leads to: a bad value is an error of the row. -/
def timestampFailure (fault : Fault) : Failure :=
  if fault.kind.family = .badValue then .error (.row (.badTimestamp fault)) else .fault fault

/-- The end of a line with the given nanoseconds; those below zero are left out. -/
def lineEnd (nanoseconds : Value) : Except Failure Bytes :=
  match nanoseconds.compared .atLeast with
  | .error fault => .error (timestampFailure fault)
  | .ok n =>
    if n.isNonnegative then
      match nanoseconds.whole n with
      | .error fault => .error (timestampFailure fault)
      | .ok n =>
        match Decimal.bytes? n with
        | none => .error (timestampFailure .tooManyDigits)
        | some bs => .ok (Line.space :: bs ++ [Line.newline])
    else .ok [Line.newline]

/-- The end of a line for a timestamp of any kind. -/
def encodeTimestamp (v : Value) : Except Failure Bytes :=
  match v.timestamp with
  | .error failure => .error failure
  | .ok n => n.lineEnd

end Value

end LineProtocol
