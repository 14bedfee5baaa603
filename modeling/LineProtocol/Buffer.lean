import LineProtocol.Capacity
import LineProtocol.Row
import LineProtocol.Value.Display
/-!
# Buffers

A buffer holds finished rows and at most one row in progress.  The first error
of a row is kept aside, later calls for that row change nothing, and the call
that ends the row reports the error and discards the row.
-/

namespace LineProtocol

/-- How an operation without a result ends. -/
abbrev Outcome := Except Failure Unit

/-- Rows of the line protocol that wait to be sent. -/
structure Buffer where
  /-- The capacity that the buffer starts with and shrinks back to. -/
  initialSize : Capacity
  capacity : Capacity
  /-- The finished rows, without what was sent of them. -/
  committed : Bytes
  row : Bytes
  stage : Stage
  /-- The error that the row in progress will end with. -/
  pending : Option RowError
deriving DecidableEq

namespace Buffer

def empty (size : Capacity) : Buffer where
  initialSize := size
  capacity := size
  committed := []
  row := []
  stage := .start
  pending := none

/-- A buffer of the given size, which must be a positive number. -/
def ofSize (size : Value) : Except Failure Buffer :=
  match Capacity.ofValue size with
  | .error fault => .error (.fault fault)
  | .ok c =>
    if c.isNonpositive then
      match size.display with
      | .error fault => .error (.fault fault)
      | .ok shown =>
        .error <| .fault {
          kind := .badValue
          text := Text.ofString "init_buf_size must be positive, not " ++ shown }
    else .ok (empty c)

def bytes (b : Buffer) : Bytes := b.committed ++ b.row

def size (b : Buffer) : Nat := b.committed.length + b.row.length

/-- Everything buffered, as text.  A row that was sent in part may open with half a character,
which is shown as escapes. -/
def text (b : Buffer) : Text := Text.ofUtf8 b.bytes

/-- Drops all rows, the one in progress included. -/
def clear (b : Buffer) : Buffer := empty b.initialSize

/-- Drops the row in progress and its error. -/
def discard (b : Buffer) : Buffer :=
  { b with row := [], stage := .start, pending := none }

def grow (c : Capacity) (b : Buffer) : Buffer :=
  { b with initialSize := b.initialSize.afterGrowth c, capacity := c }

/-- Adds bytes to the row in progress, unless the capacity never grows to hold them. -/
def write? (data : Bytes) (b : Buffer) : Option Buffer :=
  (b.capacity.grow (b.size + data.length)).map fun c =>
    { b.grow c with row := b.row ++ data }

def commit (b : Buffer) : Buffer :=
  { b with committed := b.committed ++ b.row, row := [], stage := .start }

/-- Applies a call to the row in progress.  An error is kept aside; a fault leaves the buffer as it
was. -/
def apply (call : Call) (b : Buffer) : Buffer × Outcome :=
  if b.pending.isSome then (b, .ok ())
  else
    match call.encode b.stage with
    | .error (.error (.row e)) => ({ b with pending := some e }, .ok ())
    | .error failure => (b, .error failure)
    | .ok data =>
      match b.write? data with
      | some b => ({ b with stage := call.next b.stage }, .ok ())
      | none => (b, .error .endless)

def table (name : Value) : Buffer → Buffer × Outcome := apply (.table name)

/-- Adds a symbol, which must precede all other columns. -/
def symbol (name value : Value) : Buffer → Buffer × Outcome := apply (.symbol name value)

/-- Adds a column whose type follows from the value. -/
def column (name value : Value) : Buffer → Buffer × Outcome := apply (.column name value)

def typedColumn (kind : ColumnKind) (name value : Value) : Buffer → Buffer × Outcome :=
  apply (.typed kind name value)

/-- Ends the row in progress with a timestamp.  A row with an error is discarded; a fault leaves
the row open. -/
def endRow (timestamp : Value) (b : Buffer) : Buffer × Outcome :=
  match b.pending with
  | some e => (b.discard, .error (.error (.row e)))
  | none =>
    if b.stage = .start then (b.discard, .error (.error (.row .tableMissing)))
    else
      match timestamp.encodeTimestamp with
      | .error (.error e) => (b.discard, .error (.error e))
      | .error failure => (b, .error failure)
      | .ok data =>
        match b.write? data with
        | some b => (b.commit, .ok ())
        | none => (b, .error .endless)

/-- The timestamp of a row that leaves the choice to the server. -/
def serverTime : Value := .int (-1)

def endRowNow : Buffer → Buffer × Outcome := endRow serverTime

def consume (n : Nat) (b : Buffer) : Buffer := { b with committed := b.committed.drop n }

/-- Brings the capacity back to the least doubling of the initial size that holds what is left. -/
def shrink? (b : Buffer) : Option Buffer :=
  (b.initialSize.grow b.size).map fun c => { b with capacity := c }

@[simp] theorem length_bytes (b : Buffer) : b.bytes.length = b.size := by
  simp [bytes, size]

theorem bytes_write? {data : Bytes} {b c : Buffer} (h : b.write? data = some c) :
    c.bytes = b.bytes ++ data := by
  obtain ⟨_, _, rfl⟩ := Option.map_eq_some_iff.1 h
  simp [bytes, grow]

@[simp] theorem bytes_commit (b : Buffer) : b.commit.bytes = b.bytes := by
  simp [bytes, commit]

@[simp] theorem bytes_discard (b : Buffer) : b.discard.bytes = b.committed := by
  simp [bytes, discard]

theorem apply_of_pending {b : Buffer} {e : RowError} (h : b.pending = some e) (call : Call) :
    b.apply call = (b, .ok ()) := by
  simp [apply, h]

end Buffer

end LineProtocol
