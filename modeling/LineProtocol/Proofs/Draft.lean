import LineProtocol.Proofs.Reading
import LineProtocol.Row
import Mathlib.Algebra.Group.Nat.Defs
import Mathlib.Data.List.Forall2
/-!
# What calls ask for

A draft is a row as a caller asks for it: the values handed over for a table,
symbols and columns.  It denotes a record if every value is of the kind that its
place takes.  The encoding of calls succeeds exactly on the calls of such drafts,
and then it is the line of the record up to the timestamp.
-/

namespace LineProtocol

open Line

/-- Integers that a numeral can have the digits for. -/
def Decimal.Printable (n : Int) : Prop := n.natAbs < 10 ^ Decimal.maxDigits

/-- A value that is a text which can stand in a line in the given role. -/
def Value.IsText (role : TextRole) (v : Value) (t : Text) : Prop :=
  v.text? = some t ∧ Allowed role t

/-- What a value stands for in a column of the given type. -/
inductive ColumnKind.Denotes : ColumnKind → Value → Content → Prop
  | int {v : Value} {n : Int} (h : v.index = .ok n) (hn : Decimal.Printable n) :
      Denotes .int v (.int n)
  | float {v : Value} {x : Binary64} (h : v.readFloat = .number x) :
      Denotes .float v (.float x.datum.sixPlaces)
  | string {v : Value} {t : Text} (h : v.IsText .value t) : Denotes .string v (.string t)
  | bool {v : Value} {b : Bool} (h : v.truth? = some b) : Denotes .bool v (.bool b)

/-- A column as a caller asks for it: of a given type, or of the type that the value has. -/
structure Draft.Column where
  kind : Option ColumnKind
  name : Value
  value : Value

namespace Draft.Column

def call (c : Column) : Call :=
  match c.kind with
  | some kind => .typed kind c.name c.value
  | none => .column c.name c.value

def kind? (c : Column) : Option ColumnKind :=
  match c.kind with
  | some kind => some kind
  | none => c.value.columnKind?

/-- What the column says. -/
def Denotes (c : Column) (written : Text × Content) : Prop :=
  c.name.IsText .name written.1 ∧
    ∃ kind, c.kind? = some kind ∧ kind.Denotes c.value written.2

end Draft.Column

/-- A row as a caller asks for it. -/
structure Draft where
  table : Value
  symbols : List (Value × Value)
  columns : List Draft.Column

/-- The nanoseconds of a timestamp that is a whole number of them. -/
def Value.nanoseconds? : Value → Option Int
  | nanos v =>
    match v.number? with
    | some (.int n) => some n
    | _ => none
  | moment m => some m.nanoseconds
  | v => v.index.toOption

/-- What a timestamp says: nothing if it is negative. -/
def Value.IsTimestamp (v : Value) (timestamp : Option Nat) : Prop :=
  ∃ n, v.nanoseconds? = some n ∧
    if 0 ≤ n then Decimal.Printable n ∧ timestamp = some n.toNat else timestamp = none

namespace Draft

def symbolCalls (symbols : List (Value × Value)) : List Call :=
  symbols.map fun s => .symbol s.1 s.2

def calls (d : Draft) : List Call :=
  .table d.table :: (symbolCalls d.symbols ++ d.columns.map Column.call)

def SymbolDenotes (s : Value × Value) (t : Text × Text) : Prop :=
  s.1.IsText .name t.1 ∧ s.2.IsText .value t.2

/-- What the row says up to its timestamp. -/
structure Says (d : Draft) (r : Record) : Prop where
  table : d.table.IsText .name r.table
  symbols : List.Forall₂ SymbolDenotes d.symbols r.symbols
  columns : List.Forall₂ Column.Denotes d.columns r.columns

/-- What the row says when it ends with the given timestamp. -/
structure Denotes (d : Draft) (timestamp : Value) (r : Record) : Prop extends d.Says r where
  timestamp : timestamp.IsTimestamp r.timestamp

end Draft

/-! ## Single values -/

theorem Decimal.length_digits_le_iff {n k : Nat} (hk : 0 < k) :
    (digits n).length ≤ k ↔ n < 10 ^ k := by
  induction k generalizing n with
  | zero => omega
  | succ k ih =>
      by_cases hn : n < 10
      · have hpow : 10 ≤ 10 ^ (k + 1) := by
          calc 10 = 10 ^ 1 := by rfl
            _ ≤ 10 ^ (k + 1) := Nat.pow_le_pow_right (by omega) (by omega)
        rw [digits_of_lt hn]
        simp only [List.length_singleton]
        omega
      · rw [digits_of_le (by omega), List.length_append, List.length_singleton]
        by_cases hk0 : k = 0
        · subst hk0
          have hpos := List.length_pos_iff.2 (digits_ne_nil (n / 10))
          omega
        · have hdiv := ih (n := n / 10) (by omega)
          rw [Nat.pow_succ]
          omega

theorem Decimal.bytes?_eq (n : Int) [Decidable (Printable n)] :
    bytes? n = if Printable n then some (bytes n) else none := by
  have hiff : (digits n.natAbs).length ≤ maxDigits ↔ Printable n :=
    length_digits_le_iff (by decide)
  unfold bytes?
  simp only [hiff]

theorem Decimal.bytes?_eq_some_iff {n : Int} {bs : Bytes} :
    bytes? n = some bs ↔ Printable n ∧ bs = bytes n := by
  classical
  rw [bytes?_eq]
  split
  · next h => simp [h, eq_comm]
  · next h => simp [h]

theorem mapError_eq_ok_iff {α ε ε' : Type} {x : Except ε α} {f : ε → ε'} {a : α} :
    x.mapError f = .ok a ↔ x = .ok a := by
  cases x <;> simp [Except.mapError]

theorem Call.encodeName_eq_ok_iff {name : Value} {bs : Bytes} :
    Call.encodeName name = .ok bs ↔ ∃ t, name.IsText .name t ∧ bs = Record.nameBytes t := by
  simp only [Call.encodeName, mapError_eq_ok_iff, escapeName, escapeText_eq_ok_iff,
    Value.IsText, and_assoc]
  rfl

theorem escapeUnquoted_eq_ok_iff {value : Value} {bs : Bytes} :
    escapeUnquoted value = .ok bs ↔
      ∃ t, value.IsText .value t ∧ bs = escape escapedUnquoted t.utf8 := by
  simp only [escapeUnquoted, escapeText_eq_ok_iff, Value.IsText, and_assoc]

theorem escapeQuoted_eq_ok_iff {value : Value} {bs : Bytes} :
    escapeQuoted value = .ok bs ↔
      ∃ t, value.IsText .value t ∧ bs = escape escapedQuoted t.utf8 := by
  simp only [escapeQuoted, escapeText_eq_ok_iff, Value.IsText, and_assoc]

/-- A value is encoded exactly if it denotes a content, and then as that content is written. -/
theorem ColumnKind.encode_eq_ok_iff {kind : ColumnKind} {v : Value} {bs : Bytes} :
    kind.encode v = .ok bs ↔ ∃ c, kind.Denotes v c ∧ bs = c.bytes := by
  constructor
  · intro h
    cases kind with
    | int =>
        simp only [encode, encodeInt] at h
        split at h
        · split at h <;> contradiction
        · next n hn =>
          split at h
          · contradiction
          · next ds hds =>
            obtain ⟨hprint, rfl⟩ := Decimal.bytes?_eq_some_iff.1 hds
            cases h
            exact ⟨_, .int hn hprint, rfl⟩
    | float =>
        simp only [encode, encodeFloat] at h
        split at h
        · contradiction
        · split at h <;> contradiction
        · next x hx =>
          cases h
          exact ⟨_, .float hx, rfl⟩
    | string =>
        simp only [encode, encodeString] at h
        split at h
        · contradiction
        · split at h
          · contradiction
          · next ds hds =>
            obtain ⟨t, ht, rfl⟩ := escapeQuoted_eq_ok_iff.1 hds
            cases h
            exact ⟨_, .string ht, rfl⟩
    | bool =>
        simp only [encode, encodeBool] at h
        split at h
        · contradiction
        · next b hb =>
          cases h
          exact ⟨_, .bool hb, rfl⟩
  · rintro ⟨c, hc, rfl⟩
    cases hc with
    | int hn hprint =>
        simp only [encode, encodeInt, hn, Decimal.bytes?_eq_some_iff.2 ⟨hprint, rfl⟩]
        rfl
    | float hx =>
        simp only [encode, encodeFloat, hx]
        rfl
    | string ht =>
        simp only [encode, encodeString, ht.1, escapeQuoted_eq_ok_iff.2 ⟨_, ht, rfl⟩]
        rfl
    | bool hb =>
        simp only [encode, encodeBool, hb]
        rfl

/-! ## Single calls -/

theorem bind_eq_ok_iff {ε α β : Type} {x : Except ε α} {f : α → Except ε β} {b : β} :
    (x >>= f) = .ok b ↔ ∃ a, x = .ok a ∧ f a = .ok b := by
  cases x <;> simp [bind, Except.bind]

namespace Call

open Record

theorem exists_kind (call : Call) :
    (∃ name, call = .table name) ∨ (∃ name value, call = .symbol name value) ∨
      ∃ c : Draft.Column, call = c.call := by
  cases call with
  | table name => exact Or.inl ⟨name, rfl⟩
  | symbol name value => exact Or.inr (Or.inl ⟨name, value, rfl⟩)
  | typed kind name value => exact Or.inr (Or.inr ⟨⟨some kind, name, value⟩, rfl⟩)
  | column name value => exact Or.inr (Or.inr ⟨⟨none, name, value⟩, rfl⟩)

theorem encode_table_eq_ok_iff {stage : Stage} {name : Value} {bs : Bytes} :
    (Call.table name).encode stage = .ok bs ↔
      stage = .start ∧ ∃ t, name.IsText .name t ∧ bs = nameBytes t := by
  by_cases hstage : stage = .start
  · simp only [encode, hstage, ne_eq, not_true_eq_false, if_false, true_and]
    exact encodeName_eq_ok_iff
  · simp [encode, hstage, bind, Except.bind, throw, throwThe, MonadExceptOf.throw]

theorem encode_symbol_eq_ok_iff {stage : Stage} {name value : Value} {bs : Bytes} :
    (Call.symbol name value).encode stage = .ok bs ↔
      stage = .named ∧ ∃ s, Draft.SymbolDenotes (name, value) s ∧ bs = symbolBytes s := by
  cases stage with
  | start => simp [encode, bind, Except.bind, throw, throwThe, MonadExceptOf.throw]
  | columns => simp [encode, bind, Except.bind, throw, throwThe, MonadExceptOf.throw]
  | named =>
      simp only [encode, reduceCtorEq, if_false, true_and]
      constructor
      · intro h
        obtain ⟨ns, hname, h⟩ := bind_eq_ok_iff.1 h
        obtain ⟨vs, hvalue, h⟩ := bind_eq_ok_iff.1 h
        obtain ⟨t, ht, rfl⟩ := encodeName_eq_ok_iff.1 hname
        obtain ⟨u, hu, rfl⟩ := escapeUnquoted_eq_ok_iff.1 (mapError_eq_ok_iff.1 hvalue)
        cases h
        exact ⟨(t, u), ⟨ht, hu⟩, rfl⟩
      · rintro ⟨⟨t, u⟩, ⟨ht, hu⟩, rfl⟩
        rw [encodeName_eq_ok_iff.2 ⟨t, ht, rfl⟩,
          mapError_eq_ok_iff.2 (escapeUnquoted_eq_ok_iff.2 ⟨u, hu, rfl⟩)]
        rfl

def separator (stage : Stage) : UInt8 := if stage = .columns then comma else space

theorem encodeColumn_eq_ok_iff {stage : Stage} {kind : ColumnKind} {name value : Value}
    {bs : Bytes} :
    encodeColumn stage kind name value = .ok bs ↔
      stage ≠ .start ∧ ∃ c : Text × Content, (name.IsText .name c.1 ∧ kind.Denotes value c.2) ∧
        bs = columnBytes (separator stage) c := by
  unfold encodeColumn
  by_cases hstage : stage = .start
  · simp only [hstage, if_true, ne_eq, not_true_eq_false, false_and, iff_false]
    intro h
    obtain ⟨vs, -, h⟩ := bind_eq_ok_iff.1 h
    simp [bind, Except.bind, throw, throwThe, MonadExceptOf.throw] at h
  · simp only [hstage, if_false, ne_eq, not_false_eq_true, true_and]
    constructor
    · intro h
      obtain ⟨vs, hvalue, h⟩ := bind_eq_ok_iff.1 h
      obtain ⟨ns, hname, h⟩ := bind_eq_ok_iff.1 h
      obtain ⟨c, hc, rfl⟩ := ColumnKind.encode_eq_ok_iff.1 hvalue
      obtain ⟨t, ht, rfl⟩ := encodeName_eq_ok_iff.1 hname
      cases h
      exact ⟨(t, c), ⟨ht, hc⟩, rfl⟩
    · rintro ⟨⟨t, c⟩, ⟨ht, hc⟩, rfl⟩
      rw [ColumnKind.encode_eq_ok_iff.2 ⟨c, hc, rfl⟩]
      simp only [bind, Except.bind]
      rw [encodeName_eq_ok_iff.2 ⟨t, ht, rfl⟩]
      rfl

theorem encode_column_eq_ok_iff {stage : Stage} {c : Draft.Column} {bs : Bytes} :
    c.call.encode stage = .ok bs ↔
      stage ≠ .start ∧ ∃ written, c.Denotes written ∧
        bs = columnBytes (separator stage) written := by
  obtain ⟨kind, name, value⟩ := c
  cases kind with
  | some kind =>
      simp only [Draft.Column.call, encode, encodeColumn_eq_ok_iff, Draft.Column.Denotes,
        Draft.Column.kind?, Option.some.injEq, exists_eq_left']
  | none =>
      simp only [Draft.Column.call, encode, Draft.Column.Denotes, Draft.Column.kind?]
      cases hkind : value.columnKind? with
      | none => simp
      | some kind => simp only [encodeColumn_eq_ok_iff, Option.some.injEq, exists_eq_left']

theorem next_column (stage : Stage) (c : Draft.Column) : c.call.next stage = .columns := by
  obtain ⟨kind, name, value⟩ := c
  cases kind <;> rfl

/-! ## Sequences of calls -/

/-- What calls add to a row that has come to `stage`, and how far it has come then. -/
def encodeAll (stage : Stage) : List Call → Except Failure (Bytes × Stage)
  | [] => .ok ([], stage)
  | call :: calls => do
    let data ← call.encode stage
    let (rest, last) ← encodeAll (call.next stage) calls
    return (data ++ rest, last)

theorem encodeAll_cons_eq_ok_iff {stage last : Stage} {call : Call} {calls : List Call}
    {bs : Bytes} :
    encodeAll stage (call :: calls) = .ok (bs, last) ↔
      ∃ data rest, call.encode stage = .ok data ∧
        encodeAll (call.next stage) calls = .ok (rest, last) ∧ bs = data ++ rest := by
  rw [encodeAll]
  constructor
  · intro h
    obtain ⟨data, hdata, h⟩ := bind_eq_ok_iff.1 h
    obtain ⟨⟨rest, last'⟩, hrest, h⟩ := bind_eq_ok_iff.1 h
    cases h
    exact ⟨data, rest, hdata, hrest, rfl⟩
  · rintro ⟨data, rest, hdata, hrest, rfl⟩
    rw [hdata]
    simp only [bind, Except.bind, hrest]
    rfl

/-- After the first column only columns are accepted. -/
theorem encodeAll_columns_eq_ok_iff {calls : List Call} {bs : Bytes} {last : Stage} :
    encodeAll .columns calls = .ok (bs, last) ↔
      last = .columns ∧ ∃ columns written, calls = columns.map Draft.Column.call ∧
        List.Forall₂ Draft.Column.Denotes columns written ∧
        bs = written.flatMap (columnBytes comma) := by
  constructor
  · intro h
    induction calls generalizing bs with
    | nil =>
        cases h
        exact ⟨rfl, [], [], rfl, .nil, rfl⟩
    | cons call calls ih =>
        obtain ⟨data, rest, hdata, hrest, rfl⟩ := encodeAll_cons_eq_ok_iff.1 h
        rcases exists_kind call with ⟨name, rfl⟩ | ⟨name, value, rfl⟩ | ⟨c, rfl⟩
        · exact absurd (encode_table_eq_ok_iff.1 hdata).1 nofun
        · exact absurd (encode_symbol_eq_ok_iff.1 hdata).1 nofun
        · obtain ⟨-, w, hw, rfl⟩ := encode_column_eq_ok_iff.1 hdata
          rw [next_column] at hrest
          obtain ⟨hlast, columns, written, rfl, hall, rfl⟩ := ih hrest
          exact ⟨hlast, c :: columns, w :: written, rfl, .cons hw hall, rfl⟩
  · rintro ⟨rfl, columns, written, rfl, hall, rfl⟩
    induction hall with
    | nil => rfl
    | @cons c w columns written hw _ ih =>
        rw [List.map_cons, encodeAll_cons_eq_ok_iff]
        refine ⟨columnBytes comma w, _, encode_column_eq_ok_iff.2 ⟨nofun, w, hw, rfl⟩, ?_, rfl⟩
        rw [next_column]
        exact ih

theorem encodeAll_named_eq_ok_iff {calls : List Call} {bs : Bytes} {last : Stage} :
    encodeAll .named calls = .ok (bs, last) ↔
      ∃ symbols texts columns written,
        calls = Draft.symbolCalls symbols ++ columns.map Draft.Column.call ∧
        List.Forall₂ Draft.SymbolDenotes symbols texts ∧
        List.Forall₂ Draft.Column.Denotes columns written ∧
        bs = texts.flatMap symbolBytes ++ columnsBytes written ∧
        last = if written = [] then .named else .columns := by
  constructor
  · intro h
    induction calls generalizing bs with
    | nil =>
        cases h
        exact ⟨[], [], [], [], rfl, .nil, .nil, rfl, rfl⟩
    | cons call calls ih =>
        obtain ⟨data, rest, hdata, hrest, rfl⟩ := encodeAll_cons_eq_ok_iff.1 h
        rcases exists_kind call with ⟨name, rfl⟩ | ⟨name, value, rfl⟩ | ⟨c, rfl⟩
        · exact absurd (encode_table_eq_ok_iff.1 hdata).1 nofun
        · obtain ⟨-, s, hs, rfl⟩ := encode_symbol_eq_ok_iff.1 hdata
          obtain ⟨symbols, texts, columns, written, rfl, hsymbols, hcolumns, rfl, hlast⟩ :=
            ih hrest
          exact ⟨(name, value) :: symbols, s :: texts, columns, written, rfl,
            .cons hs hsymbols, hcolumns, by simp, hlast⟩
        · obtain ⟨-, w, hw, rfl⟩ := encode_column_eq_ok_iff.1 hdata
          rw [next_column] at hrest
          obtain ⟨hlast, columns, written, rfl, hall, rfl⟩ :=
            encodeAll_columns_eq_ok_iff.1 hrest
          exact ⟨[], [], c :: columns, w :: written, rfl, .nil, .cons hw hall, rfl, by simp [hlast]⟩
  · rintro ⟨symbols, texts, columns, written, rfl, hsymbols, hcolumns, rfl, rfl⟩
    induction hsymbols with
    | nil =>
        cases hcolumns with
        | nil => rfl
        | @cons c w columns written hw hall =>
            show encodeAll .named (c.call :: columns.map Draft.Column.call) = _
            rw [encodeAll_cons_eq_ok_iff]
            refine ⟨columnBytes space w, _, encode_column_eq_ok_iff.2 ⟨nofun, w, hw, rfl⟩, ?_, rfl⟩
            rw [next_column]
            exact encodeAll_columns_eq_ok_iff.2 ⟨by simp, columns, written, rfl, hall, rfl⟩
    | @cons s t symbols texts hs _ ih =>
        show encodeAll .named (.symbol s.1 s.2 :: _) = _
        rw [encodeAll_cons_eq_ok_iff]
        exact ⟨symbolBytes t, _, encode_symbol_eq_ok_iff.2 ⟨rfl, t, hs, rfl⟩, ih, by simp⟩

end Call

/-- The line of a record up to its timestamp. -/
def Record.body (r : Record) : Bytes :=
  nameBytes r.table ++ (r.symbols.flatMap symbolBytes ++ columnsBytes r.columns)

theorem Record.line_eq (r : Record) : r.line = r.body ++ endBytes r.timestamp := by
  simp [line, body, endBytes]

/-- Calls compose a row exactly if they are the calls of a draft whose values denote a record. -/
theorem Draft.encodeAll_eq_ok_iff {call : Call} {calls : List Call} {bs : Bytes} :
    (∃ last, Call.encodeAll .start (call :: calls) = .ok (bs, last)) ↔
      ∃ d : Draft, call :: calls = d.calls ∧ ∃ r : Record, d.Says r ∧ bs = r.body := by
  constructor
  · rintro ⟨last, h⟩
    obtain ⟨data, rest, hdata, hrest, rfl⟩ := Call.encodeAll_cons_eq_ok_iff.1 h
    rcases Call.exists_kind call with ⟨name, rfl⟩ | ⟨name, value, rfl⟩ | ⟨c, rfl⟩
    · obtain ⟨-, t, ht, rfl⟩ := Call.encode_table_eq_ok_iff.1 hdata
      obtain ⟨symbols, texts, columns, written, rfl, hsymbols, hcolumns, rfl, -⟩ :=
        Call.encodeAll_named_eq_ok_iff.1 hrest
      exact ⟨⟨name, symbols, columns⟩, rfl, ⟨t, texts, written, none⟩,
        ⟨ht, hsymbols, hcolumns⟩, rfl⟩
    · exact absurd (Call.encode_symbol_eq_ok_iff.1 hdata).1 nofun
    · exact absurd rfl (Call.encode_column_eq_ok_iff.1 hdata).1
  · rintro ⟨d, hcalls, r, hsays, rfl⟩
    refine ⟨if r.columns = [] then .named else .columns, ?_⟩
    rw [hcalls, Draft.calls, Call.encodeAll_cons_eq_ok_iff]
    exact ⟨Record.nameBytes r.table, _,
      Call.encode_table_eq_ok_iff.2 ⟨rfl, r.table, hsays.table, rfl⟩,
      Call.encodeAll_named_eq_ok_iff.2
        ⟨d.symbols, r.symbols, d.columns, r.columns, rfl, hsays.symbols, hsays.columns, rfl, rfl⟩,
      rfl⟩

/-! ## Drafts and their records -/

namespace Draft

theorem Column.call_injective : Function.Injective Column.call := by
  rintro ⟨kind, name, value⟩ ⟨kind', name', value'⟩ h
  cases kind <;> cases kind' <;> cases h <;> rfl

theorem Column.call_ne_symbol (c : Column) (name value : Value) : c.call ≠ .symbol name value := by
  obtain ⟨kind, _, _⟩ := c
  cases kind <;> exact nofun

theorem symbolCalls_append_inj {symbols symbols' : List (Value × Value)}
    {columns columns' : List Column}
    (h : symbolCalls symbols ++ columns.map Column.call =
      symbolCalls symbols' ++ columns'.map Column.call) :
    symbols = symbols' ∧ columns = columns' := by
  induction symbols generalizing symbols' with
  | nil =>
      cases symbols' with
      | nil => exact ⟨rfl, List.map_injective_iff.2 Column.call_injective h⟩
      | cons s symbols' =>
          cases columns with
          | nil => exact nomatch h
          | cons c columns => exact absurd (List.cons.inj h).1 (c.call_ne_symbol _ _)
  | cons s symbols ih =>
      cases symbols' with
      | nil =>
          cases columns' with
          | nil => exact nomatch h
          | cons c columns' => exact absurd (List.cons.inj h).1.symm (c.call_ne_symbol _ _)
      | cons s' symbols' =>
          obtain ⟨hhead, htail⟩ := List.cons.inj h
          obtain ⟨hsymbols, hcolumns⟩ := ih htail
          have hs : s = s' := Prod.ext (Call.symbol.inj hhead).1 (Call.symbol.inj hhead).2
          exact ⟨by rw [hs, hsymbols], hcolumns⟩

theorem calls_injective : Function.Injective calls := by
  rintro ⟨table, symbols, columns⟩ ⟨table', symbols', columns'⟩ h
  obtain ⟨htable, hrest⟩ := List.cons.inj h
  obtain ⟨rfl, rfl⟩ := symbolCalls_append_inj hrest
  cases htable
  rfl

end Draft

theorem ColumnKind.Denotes.writable {kind : ColumnKind} {v : Value} {c : Content}
    (h : kind.Denotes v c) : c.Writable := by
  cases h with
  | int => trivial
  | float => exact ⟨_, rfl⟩
  | string ht => exact ht.2
  | bool => trivial

theorem forall_mem_of_forall₂ {α β : Type} {R : α → β → Prop} {p : β → Prop} {as : List α}
    {bs : List β} (h : List.Forall₂ R as bs) (hp : ∀ a b, R a b → p b) : ∀ b ∈ bs, p b := by
  induction h with
  | nil => exact nofun
  | cons hab _ ih => exact List.forall_mem_cons.2 ⟨hp _ _ hab, ih⟩

theorem Draft.Says.writable {d : Draft} {r : Record} (h : d.Says r) : r.Writable where
  table := h.table.2
  symbols := forall_mem_of_forall₂ h.symbols fun _ _ hs => ⟨hs.1.2, hs.2.2⟩
  columns := forall_mem_of_forall₂ h.columns fun _ _ ⟨hname, _, _, hkind⟩ =>
    ⟨hname.2, hkind.writable⟩

end LineProtocol
