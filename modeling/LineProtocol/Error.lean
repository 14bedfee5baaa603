import LineProtocol.Fault
import LineProtocol.Text.Encoding
import LineProtocol.Text.Quoted
/-!
# Errors

Every way in which composing a row, reading a configuration or delivering rows
goes wrong, each with its code, its words and the kind of fault behind it.  What
an operation lets through unchanged is a `Fault`, not an error.
-/

namespace LineProtocol

inductive ErrorCode where
  | socket
  | invalidCall
  | invalidName
  | invalidValue
  | config
  | deadlineExceeded
  | cancelled
deriving DecidableEq, Repr

namespace ErrorCode

def all : List ErrorCode :=
  [socket, invalidCall, invalidName, invalidValue, config, deadlineExceeded, cancelled]

def number : ErrorCode → Nat
  | socket => 1
  | invalidCall => 2
  | invalidName => 3
  | invalidValue => 4
  | config => 5
  | deadlineExceeded => 6
  | cancelled => 7

theorem map_number_all : all.map number = List.range' 1 7 := rfl

end ErrorCode

/-- The types of columns other than symbols. -/
inductive ColumnKind where
  | int
  | float
  | string
  | bool
deriving DecidableEq, Repr

/-- What a text in a row is given for. -/
inductive TextRole where
  /-- The name of a table or a column. -/
  | name
  /-- The value of a symbol or a string column. -/
  | value
deriving DecidableEq, Repr

/-- The bytes that end a line. -/
inductive LineBreak where
  | newline
  | carriageReturn
deriving DecidableEq, Repr

/-- Why a row is refused.  A field `shown` holds the text that was given, quoted. -/
inductive RowError where
  | tableMissing
  | tableRepeated
  | symbolAfterColumn
  | notText (role : TextRole) (typeName : Text)
  | unencodable (role : TextRole) (shown : Text) (run : SurrogateRun)
  | lineBreak (role : TextRole) (kind : LineBreak) (shown : Text)
  | illegalCharacter (shown : Text)
  | wrongKind (kind : ColumnKind) (typeName : Text)
  | noColumnKind (typeName : Text)
  | integerTooLong
  | unconvertible (typeName : Text) (fault : Fault)
  | notTimestamp (typeName : Text)
  | badTimestamp (fault : Fault)
deriving DecidableEq, Repr

/-- Why an address, a configuration string or the environment is refused.  A field `shown` holds
the whole text that was given, quoted. -/
inductive ConfigError where
  | unclosedBracket (shown : Text)
  | textAfterBracket (shown : Text)
  | missingHost (shown : Text)
  | portNotNumber (shown port : Text)
  | portOutOfRange (shown : Text) (port : Int)
  | missingProtocol (shown : Text)
  | unsupportedProtocol (protocol : Text)
  | missingEquals (rest : Text)
  | emptyKey (position : Nat)
  | duplicateKey (key : Text)
  | missingAddress
  | sizeNotNumber (value : Text)
  | unknownKeys (keys : List Text)
  | unsetEnvironment
deriving DecidableEq, Repr

inductive TransportError where
  | alreadyConnected
  | notConnected
  | cancelled
  | deadlinePassed
  | connectFailed (address : Text) (fault : Fault)
  | flushFailed (fault : Fault) (sent total : Nat)
deriving DecidableEq, Repr

inductive SenderError where
  | row (e : RowError)
  | config (e : ConfigError)
  | transport (e : TransportError)
deriving DecidableEq, Repr

/-- How an operation ends when it does not return. -/
inductive Failure where
  | error (e : SenderError)
  /-- A fault that passes through as it is. -/
  | fault (f : Fault)
  /-- The operation goes on forever. -/
  | endless
deriving DecidableEq, Repr

/-- The name of the environment variable that holds a configuration string. -/
def environmentVariable : Text := Text.ofString "QDB_CLIENT_CONF"

def TextRole.words : TextRole → Text
  | name => Text.ofString "table or column name"
  | value => Text.ofString "string value"

def LineBreak.words : LineBreak → Text
  | newline => Text.ofString "New line"
  | carriageReturn => Text.ofString "Carriage return"

namespace ColumnKind

def words : ColumnKind → Text
  | int => Text.ofString "int"
  | float => Text.ofString "float"
  | string => Text.ofString "string"
  | bool => Text.ofString "bool"

/-- The kind of value that a type of columns takes. -/
def expected : ColumnKind → Text
  | int => Text.ofString "`int`"
  | float => Text.ofString "`float`"
  | string => Text.ofString "`str`"
  | bool => Text.ofString "`bool`"

end ColumnKind

namespace RowError

def code : RowError → ErrorCode
  | tableMissing | tableRepeated | symbolAfterColumn | notText .. | wrongKind ..
  | noColumnKind .. | notTimestamp .. | badTimestamp _ => .invalidCall
  | lineBreak .name .. | illegalCharacter .. => .invalidName
  | lineBreak .value .. | unencodable .. | integerTooLong | unconvertible .. => .invalidValue

/-- The kind of fault that led to a row error. -/
def cause? : RowError → Option FaultKind
  | unencodable .. => some .encoding
  | integerTooLong => some Fault.tooManyDigits.kind
  | unconvertible _ fault | badTimestamp fault => some fault.kind
  | _ => none

def message : RowError → Text
  | tableMissing => "Table name was not provided."
  | tableRepeated => "Table name already provided."
  | symbolAfterColumn => "Symbols must be written before any other column."
  | notText role typeName =>
    "Bad " ++ role.words ++ " of type " ++ typeName ++ ": Expected `str`."
  | unencodable role shown run => "Bad " ++ role.words ++ " " ++ shown ++ ": " ++ run.message
  | lineBreak role kind shown =>
    kind.words ++ " chars are not allowed in " ++ role.words ++ "s: " ++ shown
  | illegalCharacter shown =>
    "Table or column name contains one of illegal chars: '.', '?', ',', ':', '\\', '/', '\\0', " ++
      Text.ofString "')', '(', '+', '*', '~', '%', '-': " ++ shown
  | wrongKind kind typeName =>
    "Bad " ++ kind.words ++ " column value of type " ++ typeName ++ ": Expected " ++
      kind.expected ++ "."
  | noColumnKind typeName =>
    "Bad column value of type " ++ typeName ++
      ": Expected one of `bool`, `int`, `float` or `str`."
  | integerTooLong => "Bad int column value: " ++ Fault.tooManyDigits.text ++ "."
  | unconvertible typeName fault =>
    "Bad float column value of type " ++ typeName ++ ": " ++ fault.text ++ "."
  | notTimestamp typeName =>
    "Bad timestamp of type " ++ typeName ++ ": Expected `int`, `TimestampNanos` or `datetime`."
  | badTimestamp fault => "Bad timestamp: " ++ fault.text ++ "."

end RowError

namespace ConfigError

def message : ConfigError → Text
  | unclosedBracket shown => "Bad address " ++ shown ++ ": missing `]`."
  | textAfterBracket shown => "Bad address " ++ shown ++ "."
  | missingHost shown => "Bad address " ++ shown ++ ": missing host."
  | portNotNumber shown port =>
    "Bad address " ++ shown ++ ": port " ++ port.quoted ++ " is not a number."
  | portOutOfRange shown port =>
    "Bad address " ++ shown ++ ": port " ++ Decimal.text port ++ " out of range."
  | missingProtocol shown =>
    "Bad configuration string " ++ shown ++ ": missing `::` after protocol."
  | unsupportedProtocol protocol =>
    "Unsupported protocol " ++ protocol.quoted ++ ": only `tcp` is supported."
  | missingEquals rest => "Missing `=` after key " ++ rest.quoted ++ "."
  | emptyKey position => "Empty key at position " ++ Decimal.text position ++ "."
  | duplicateKey key => "Duplicate key " ++ key.quoted ++ "."
  | missingAddress => "Missing `addr` parameter."
  | sizeNotNumber value => "Bad `init_buf_size` " ++ value.quoted ++ ": not a number."
  | unknownKeys keys => "Unknown parameters: " ++ Text.join ", " (Text.sort keys) ++ "."
  | unsetEnvironment => "Environment variable " ++ environmentVariable ++ " not set."

end ConfigError

namespace TransportError

def code : TransportError → ErrorCode
  | alreadyConnected => .invalidCall
  | notConnected | connectFailed .. => .socket
  | cancelled => .cancelled
  | deadlinePassed => .deadlineExceeded
  | flushFailed fault .. => if fault.kind = .timedOut then .deadlineExceeded else .socket

def cause? : TransportError → Option FaultKind
  | connectFailed _ fault | flushFailed fault .. => some fault.kind
  | _ => none

def message : TransportError → Text
  | alreadyConnected => "Already connected."
  | notConnected => "Not connected."
  | cancelled => "Flush cancelled."
  | deadlinePassed => "Flush deadline exceeded."
  | connectFailed address fault =>
    "Failed to connect to server at " ++ address ++ ": " ++ fault.text
  | flushFailed fault sent total =>
    "Could not flush buffer: " ++ fault.text ++ " (" ++ Decimal.text sent ++ " of " ++
      Decimal.text total ++ " bytes sent)."

end TransportError

namespace SenderError

def code : SenderError → ErrorCode
  | row e => e.code
  | config _ => .config
  | transport e => e.code

def message : SenderError → Text
  | row e => e.message
  | config e => e.message
  | transport e => e.message

def cause? : SenderError → Option FaultKind
  | row e => e.cause?
  | config _ => none
  | transport e => e.cause?

end SenderError

end LineProtocol
