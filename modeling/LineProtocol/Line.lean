import LineProtocol.Error
import LineProtocol.Value
/-!
# Names and values in a line

A line of the protocol is

    table[,symbol=value...][ column=value[,column=value...]][ timestamp]

followed by a newline.  Names and values are written as UTF-8 in which the
bytes that would end them are escaped by a backslash.  All such bytes are
ASCII, so escaping works on bytes.
-/

namespace LineProtocol

namespace Line

def newline : UInt8 := 0x0A

def carriageReturn : UInt8 := 0x0D

def space : UInt8 := 0x20

def doubleQuote : UInt8 := 0x22

def comma : UInt8 := 0x2C

def equals : UInt8 := 0x3D

def backslash : UInt8 := 0x5C

def ascii (s : String) : Bytes := s.toList.map Char.toUInt8

/-- The bytes that no name may hold, line breaks apart. -/
def illegalInName : Bytes := ascii ".?,:\\/\x00)(+*~%-"

def escapedInName : Bytes := [space, equals, doubleQuote]

def escapedUnquoted : Bytes := [space, comma, equals, doubleQuote, backslash]

def escapedQuoted : Bytes := [doubleQuote, backslash]

/-- The bytes with a backslash before each one that is special. -/
def escape (special : Bytes) (bs : Bytes) : Bytes :=
  bs.flatMap fun b => if b ∈ special then [backslash, b] else [b]

/-- The UTF-8 of a value that must be a text. -/
def encodeText (role : TextRole) (v : Value) : Except RowError Bytes :=
  match v.text? with
  | none => .error (.notText role v.typeName)
  | some t => t.encode.mapError (.unencodable role v.quotedText)

/-- Why a byte cannot stand in a name or a value; `shown` is the whole text. -/
def byteError? (role : TextRole) (shown : Text) (b : UInt8) : Option RowError :=
  if b = newline then some (.lineBreak role .newline shown)
  else if b = carriageReturn then some (.lineBreak role .carriageReturn shown)
  else if role = .name ∧ b ∈ illegalInName then some (.illegalCharacter shown)
  else none

/-- The escaped bytes of a text, which must hold no byte that cannot stand there. -/
def escapeText (role : TextRole) (special : Bytes) (v : Value) : Except RowError Bytes := do
  let bs ← encodeText role v
  match bs.findSome? (byteError? role v.quotedText) with
  | some e => .error e
  | none => .ok (escape special bs)

/-- The name of a table or a column as it is written. -/
def escapeName : Value → Except RowError Bytes := escapeText .name escapedInName

def escapeUnquoted : Value → Except RowError Bytes := escapeText .value escapedUnquoted

def escapeQuoted : Value → Except RowError Bytes := escapeText .value escapedQuoted

@[simp] theorem escape_nil (special : Bytes) : escape special [] = [] := rfl

theorem escape_append (special a b : Bytes) :
    escape special (a ++ b) = escape special a ++ escape special b := by
  simp [escape]

theorem escape_cons_of_mem {special : Bytes} {b : UInt8} (h : b ∈ special) (bs : Bytes) :
    escape special (b :: bs) = backslash :: b :: escape special bs := by
  simp [escape, h]

theorem escape_cons_of_not_mem {special : Bytes} {b : UInt8} (h : b ∉ special) (bs : Bytes) :
    escape special (b :: bs) = b :: escape special bs := by
  simp [escape, h]

end Line

end LineProtocol
