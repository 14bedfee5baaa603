import LineProtocol.Text.Basic
/-!
# Faults

A fault is what a socket or the conversion of a value reports in place of a
result.  Faults form families, and they are handled by families: those of the
operating system are the ones that a sender turns into errors of its own.
-/

namespace LineProtocol

inductive FaultKind where
  /-- A fault of the operating system of no more special kind. -/
  | system
  | timedOut
  | connectionReset
  | connectionRefused
  | connectionAborted
  | brokenPipe
  | wouldBlock
  | interrupted
  | nameResolution
  | childProcess
  | fileExists
  | fileNotFound
  | isDirectory
  | notDirectory
  | permission
  | noSuchProcess
  /-- An operand of a kind that the operation does not take. -/
  | wrongType
  /-- An operand of the right kind without a result. -/
  | badValue
  | overflow
  /-- A fault of no more special kind that nobody handles. -/
  | runtime
  | encoding
  | missingAttribute
  /-- A name under which nothing is kept. -/
  | missingKey
  /-- A call within a call within a call, without an end. -/
  | tooDeep
  /-- An array without the axis that the operation works along. -/
  | missingAxis
  /-- An operation on scalars of kinds that it does not take together. -/
  | wrongScalars
  /-- Kinds of scalars that no kind includes. -/
  | noCommonKind
deriving DecidableEq, Inhabited, Repr

/-- The families that those who handle faults tell apart. -/
inductive FaultFamily where
  | system
  | wrongType
  | badValue
  | overflow
  | other
deriving DecidableEq, Repr

namespace FaultKind

/-- The family that faults of a kind belong to.  Whoever handles a family handles all its kinds: a
failed encoding, say, is handled as a bad value. -/
def family : FaultKind → FaultFamily
  | wrongType | wrongScalars | noCommonKind => .wrongType
  | badValue | encoding | missingAxis => .badValue
  | overflow => .overflow
  | runtime | tooDeep | missingAttribute | missingKey => .other
  | _ => .system

/-- Whether faults of this kind come from the operating system. -/
def isSystem (k : FaultKind) : Bool := k.family = .system

/-- The kind of the system fault with error number `n`. -/
def ofNumber (n : Int) : FaultKind :=
  match n with
  | 1 | 13 => permission
  | 2 => fileNotFound
  | 3 => noSuchProcess
  | 4 => interrupted
  | 10 => childProcess
  | 11 | 114 | 115 => wouldBlock
  | 17 => fileExists
  | 20 => notDirectory
  | 21 => isDirectory
  | 32 | 108 => brokenPipe
  | 103 => connectionAborted
  | 104 => connectionReset
  | 110 => timedOut
  | 111 => connectionRefused
  | _ => system

theorem isSystem_ofNumber (n : Int) : (ofNumber n).isSystem = true := by
  unfold ofNumber
  split <;> rfl

end FaultKind

/-- A fault and the words it is reported with. -/
structure Fault where
  kind : FaultKind
  text : Text
  /-- The kind of the fault that led to this one. -/
  cause : Option FaultKind := none
deriving DecidableEq, Inhabited, Repr

namespace Fault

/-- A fault whose words are ASCII. -/
def of (kind : FaultKind) (words : String) : Fault := { kind, text := Text.ofString words }

def deadline : Fault := of .timedOut "timed out"

/-- The fault of writing out a numeral with too many digits. -/
def tooManyDigits : Fault :=
  of .badValue ("Exceeds the limit (4300 digits) for integer string conversion; " ++
    "use sys.set_int_max_str_digits() to increase the limit")

end Fault

end LineProtocol
