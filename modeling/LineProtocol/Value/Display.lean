import LineProtocol.Floating.Numeral
import LineProtocol.Value
/-!
# Values as text

How a value reads where it is made part of a text.  An integer with too many
digits cannot be written out.  Members of a list stand in a form that tells
their kind: texts in quotes, scalars with their type, moments as calls.  By
itself a floating-point scalar reads as the 64-bit number of the same value.
-/

namespace LineProtocol

namespace Value

/-- An integer in decimal, unless it has too many digits. -/
def displayInt (n : Int) : Except Fault Text :=
  match Decimal.text? n with
  | some t => .ok t
  | none => .error .tooManyDigits

def displayTruth (b : Bool) : Text := Text.ofString (if b then "True" else "False")

/-- A floating-point scalar of the given format in its shortest text. -/
def displayReal (f : Floating.Format) (bits : Nat) : Text :=
  ((Floating.Datum.ofBits f bits).shortest f).map CodePoint.ofByte

def displayFloat (x : Binary64) : Text := displayReal .double x.bits.toNat

/-- A natural number in decimal, with zeros in front up to the given width. -/
def padded (width n : Nat) : Text :=
  let t := Decimal.text n
  List.replicate (width - t.length) (CodePoint.ofChar '0') ++ t

/-- A number of microseconds below one second, if it is not zero. -/
def displayFraction (microseconds : Nat) : Text :=
  if microseconds = 0 then [] else Text.ofString "." ++ padded 6 microseconds

/-- The seconds of an offset from universal time, if there are any. -/
def displaySeconds (seconds microseconds : Nat) : Text :=
  if seconds = 0 ∧ microseconds = 0 then []
  else Text.ofString ":" ++ padded 2 seconds ++ displayFraction microseconds

/-- An offset from universal time as a sign, hours, minutes and what is left. -/
def displayOffset (offset : Int) : Text :=
  let n := offset.natAbs
  let seconds := n / 1000000
  Text.ofString (if offset < 0 then "-" else "+") ++ padded 2 (seconds / 3600) ++ ":" ++
    padded 2 (seconds / 60 % 60) ++ displaySeconds (seconds % 60) (n % 1000000)

def displayMoment (m : Moment) : Text :=
  padded 4 m.date.year ++ "-" ++ padded 2 m.date.month ++ "-" ++ padded 2 m.date.day ++ " " ++
    padded 2 m.time.hour ++ ":" ++ padded 2 m.time.minute ++ ":" ++ padded 2 m.time.second ++
    displayFraction m.time.microsecond ++ (m.offset.map displayOffset).getD []

/-- A value between parentheses after the name of its type. -/
def wrapped (name : Text) (inner : Text) : Text := name ++ "(" ++ inner ++ ")"

/-- A part of a length of time with its name, unless it is zero. -/
def displayPart (name : String) (n : Int) : List Text :=
  if n = 0 then [] else [Text.ofString name ++ "=" ++ Decimal.text n]

/-- A length of time as the call that makes it. -/
def displaySpan (s : TimeSpan) : Text :=
  wrapped "datetime.timedelta" <| Text.join ", " <|
    displayPart "days" s.days ++ displayPart "seconds" s.seconds ++
      displayPart "microseconds" s.microseconds

/-- An offset from universal time as the expression that makes it. -/
def displayZone (offset : Int) : Text :=
  if offset = 0 then "datetime.timezone.utc"
  else wrapped "datetime.timezone" (displaySpan (.ofMicroseconds offset))

/-- The seconds and microseconds of a time of day, as far as they are needed. -/
def displayedSeconds (t : TimeOfDay) : List Nat :=
  if t.microsecond ≠ 0 then [t.second, t.microsecond]
  else if t.second ≠ 0 then [t.second]
  else []

/-- A moment as the call that makes it. -/
def displayMomentCall (m : Moment) : Text :=
  let fields := [m.date.year, m.date.month, m.date.day, m.time.hour, m.time.minute] ++
    displayedSeconds m.time
  wrapped "datetime.datetime" <| Text.join ", " <|
    fields.map (fun n : Nat => Decimal.text n) ++
      (m.offset.map fun offset => Text.ofString "tzinfo=" ++ displayZone offset).toList

mutual

/-- The value as part of a text. -/
def display : Value → Except Fault Text
  | null => .ok "None"
  | bool b | flag b => .ok (displayTruth b)
  | int n | word _ n | cell n => displayInt n
  | float x => .ok (displayFloat x)
  | real f bits => .ok (displayFloat (.ofBits f bits))
  | text t => .ok t
  | label t => .ok (unfilled t)
  | list items => do return "[" ++ Text.join ", " (← inListAll items) ++ "]"
  | ratio q => do
    let num ← displayInt q.num
    if q.den = 1 then return num
    return num ++ "/" ++ (← displayInt q.den)
  | moment m => .ok (displayMoment m)
  | nanos v => do return wrapped "TimestampNanos" (← v.display)
  | v => .ok ("<" ++ v.typeName ++ " object>")

/-- The value as a member of a list. -/
def inList : Value → Except Fault Text
  | text t => .ok t.quoted
  | label t => .ok (quotedText (label t))
  | flag b => .ok ("np." ++ displayTruth b ++ "_")
  | word f n => do return wrapped ("np." ++ (wordTypeName f).drop 6) (← displayInt n)
  | real f bits => .ok (wrapped ("np." ++ (real f bits).typeName.drop 6) (displayReal f bits))
  | cell n => do return wrapped "array" (← displayInt n)
  | ratio q => do
    return wrapped "Fraction" ((← displayInt q.num) ++ ", " ++ (← displayInt q.den))
  | null => .ok "None"
  | bool b => .ok (displayTruth b)
  | int n => displayInt n
  | float x => .ok (displayFloat x)
  | list items => do return "[" ++ Text.join ", " (← inListAll items) ++ "]"
  | moment m => .ok (displayMomentCall m)
  | nanos v => do return wrapped "TimestampNanos" (← v.display)
  | v => .ok ("<" ++ v.typeName ++ " object>")

def inListAll : List Value → Except Fault (List Text)
  | [] => .ok []
  | v :: rest => do return (← v.inList) :: (← inListAll rest)

end

/-- The value as a text of its own: a floating-point scalar keeps the digits of its format. -/
def asText : Value → Except Fault Text
  | real f bits => .ok (displayReal f bits)
  | v => v.display

end Value

namespace Fault

/-- The files that the arguments of a system fault after the second name.  Between two files stands
an argument that says nothing; in place of a file, a connection that is not ready may tell how much
was written. -/
def files (kind : FaultKind) : List Value → List Value
  | [] | .null :: _ => []
  | file :: more =>
    if kind = .wouldBlock ∧ file.number?.isSome then []
    else
      match more with
      | [_, .null] => [file]
      | [_, other] => [file, other]
      | _ => [file]

/-- What is said of the files of a system fault. -/
def fileWords : List Value → Except Fault Text
  | [] => .ok []
  | files => do return ": " ++ Text.join " -> " (← Value.inListAll files)

/-- The words of a fault that is reported with the given arguments: one stands for itself, and a
system fault takes a number, a description, and up to two files. -/
def words (kind : FaultKind) (args : List Value) : Except Fault Text := do
  match args with
  | [] => return []
  | [v] => v.asText
  | n :: description :: more =>
    if kind.isSystem ∧ more.length ≤ 3 then
      return "[Errno " ++ (← n.asText) ++ "] " ++ (← description.asText) ++
        (← fileWords (files kind more))
    else return "(" ++ Text.join ", " (← Value.inListAll args) ++ ")"

/-- The kind of a fault that is reported with the given arguments: a general system fault with a
number and a description is of the kind that goes with the number. -/
def kindOf (kind : FaultKind) (args : List Value) : FaultKind :=
  if kind = .system ∧ args.length ≤ 5 then
    match args with
    | .int n :: _ :: _ => .ofNumber n
    | .bool b :: _ :: _ => .ofNumber b.toInt
    | _ => kind
  else kind

/-- The fault that is reported with the given arguments. -/
def ofArguments (kind : FaultKind) (args : List Value) : Fault where
  kind := kindOf kind args
  text := (words (kindOf kind args) args).toOption.getD []

end Fault

end LineProtocol
