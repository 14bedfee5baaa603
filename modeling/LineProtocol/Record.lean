import LineProtocol.Line
/-!
# Records

A record is what one line of the protocol says, free of escapes and separators.
`Record.line` writes it down; `LineProtocol.Record.Reader` reads lines back.
-/

namespace LineProtocol

/-- What a column other than a symbol holds. -/
inductive Content where
  | int (n : Int)
  /-- A floating-point number, by the numeral in the line. -/
  | float (numeral : Bytes)
  | string (t : Text)
  | bool (b : Bool)
deriving DecidableEq, Repr

structure Record where
  table : Text
  symbols : List (Text × Text)
  columns : List (Text × Content)
  /-- The nanoseconds since the epoch, unless the server is to choose them. -/
  timestamp : Option Nat
deriving DecidableEq, Repr

def Content.bytes : Content → Bytes
  | int n => Decimal.bytes n ++ Line.ascii "i"
  | float numeral => numeral
  | string t => Line.doubleQuote :: Line.escape Line.escapedQuoted t.utf8 ++ [Line.doubleQuote]
  | bool b => Line.ascii (if b then "t" else "f")

namespace Record

def nameBytes (name : Text) : Bytes := Line.escape Line.escapedInName name.utf8

/-- A symbol as it is written, with the comma before it. -/
def symbolBytes (symbol : Text × Text) : Bytes :=
  Line.comma :: nameBytes symbol.1 ++
    Line.equals :: Line.escape Line.escapedUnquoted symbol.2.utf8

/-- A column as it is written, after a separator. -/
def columnBytes (separator : UInt8) (column : Text × Content) : Bytes :=
  separator :: nameBytes column.1 ++ Line.equals :: column.2.bytes

/-- Columns as they are written: a space opens them, commas stand between them. -/
def columnsBytes : List (Text × Content) → Bytes
  | [] => []
  | column :: columns =>
    columnBytes Line.space column ++ columns.flatMap (columnBytes Line.comma)

def timestampBytes : Option Nat → Bytes
  | none => []
  | some n => Line.space :: Decimal.bytes n

/-- The line that says what the record says. -/
def line (r : Record) : Bytes :=
  nameBytes r.table ++ r.symbols.flatMap symbolBytes ++ columnsBytes r.columns ++
    timestampBytes r.timestamp ++ [Line.newline]

end Record

end LineProtocol
