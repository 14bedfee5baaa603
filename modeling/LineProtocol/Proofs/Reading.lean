import LineProtocol.Proofs.Escape
import LineProtocol.Proofs.Numeral
/-!
# Lines are uniquely readable

Reading the line of a record gives back the record and leaves what follows the
line, so that a sequence of lines determines the sequence of records.  Each
reader stops at a delimiter that the next part begins with; the proofs go part
by part, with an arbitrary rest behind.
-/

namespace LineProtocol

open Line

/-- Contents that can stand in a line. -/
def Content.Writable : Content → Prop
  | int _ | bool _ => True
  | float numeral => ∃ x : Floating.Datum, numeral = x.sixPlaces
  | string t => Allowed .value t

namespace Record

/-- Records that can be written as a line. -/
structure Writable (r : Record) : Prop where
  table : Allowed .name r.table
  symbols : ∀ s ∈ r.symbols, Allowed .name s.1 ∧ Allowed .value s.2
  columns : ∀ c ∈ r.columns, Allowed .name c.1 ∧ c.2.Writable

theorem readName?_nameBytes {name : Text} (h : Allowed .name name) (rest : Bytes) :
    readName? (nameBytes name ++ equals :: rest) = some (name, rest) := by
  unfold readName?
  rw [readUntil?_nameBytes h (by decide)]
  simp [ofUtf8_utf8 h.encodable]

theorem readSymbol?_append {s : Text × Text} (hname : Allowed .name s.1)
    (hvalue : Allowed .value s.2) {b : UInt8} (hb : b ∈ delimiters) (rest : Bytes) :
    readSymbol? (nameBytes s.1 ++ equals :: (escape escapedUnquoted s.2.utf8 ++ b :: rest)) =
      some (s, b :: rest) := by
  unfold readSymbol?
  rw [readName?_nameBytes hname]
  simp only
  rw [readUntil?_escapedUnquoted hvalue hb]
  simp [ofUtf8_utf8 hvalue.encodable]

theorem readSymbols?_of_readSymbol? {bs rest : Bytes} {s : Text × Text}
    (h : readSymbol? bs = some (s, rest)) :
    readSymbols? (comma :: bs) =
      (readSymbols? rest).map fun (symbols, rest) => (s :: symbols, rest) := by
  rw [readSymbols?, if_pos rfl]
  split
  · next hnone =>
    rw [h] at hnone
    contradiction
  · next hsome =>
    rw [h] at hsome
    cases hsome
    rfl

theorem readSymbols?_of_ne_comma {b : UInt8} (hb : b ≠ comma) (rest : Bytes) :
    readSymbols? (b :: rest) = some ([], b :: rest) := by
  rw [readSymbols?, if_neg hb]

theorem readSymbols?_flatMap {symbols : List (Text × Text)}
    (h : ∀ s ∈ symbols, Allowed .name s.1 ∧ Allowed .value s.2) {b : UInt8}
    (hb : b ∈ delimiters) (hcomma : b ≠ comma) (rest : Bytes) :
    readSymbols? (symbols.flatMap symbolBytes ++ b :: rest) = some (symbols, b :: rest) := by
  induction symbols with
  | nil => exact readSymbols?_of_ne_comma hcomma rest
  | cons s symbols ih =>
      have hs := h s (by simp)
      have htail := ih fun t ht => h t (by simp [ht])
      obtain ⟨c, tail, hc, heq⟩ : ∃ c tail, c ∈ delimiters ∧
          symbols.flatMap symbolBytes ++ b :: rest = c :: tail := by
        cases symbols with
        | nil => exact ⟨b, rest, hb, rfl⟩
        | cons t symbols => exact ⟨comma, _, by decide, rfl⟩
      have hread := readSymbol?_append hs.1 hs.2 hc tail
      rw [← heq] at hread
      simp only [List.flatMap_cons, symbolBytes, List.cons_append, List.append_assoc]
      rw [readSymbols?_of_readSymbol? hread, htail]
      rfl

theorem readContent?_of_plain {bs : Bytes} {content : Content} (hne : bs ≠ [])
    (hplain : ∀ x ∈ bs, IsPlain x) (hread : readBare? bs = some content) {b : UInt8}
    (hb : b ∈ delimiters) (rest : Bytes) :
    readContent? (bs ++ b :: rest) = some (content, b :: rest) := by
  obtain ⟨c, cs, rfl⟩ := List.exists_cons_of_ne_nil hne
  have hquote : c ≠ doubleQuote := (hplain c (by simp)).2.2
  have huntil := readUntil?_append backslash_not_mem_delimiters
    (fun x hx => ⟨(hplain x hx).1, (hplain x hx).2.1⟩) hb rest
  simp only [List.cons_append] at huntil ⊢
  simp only [readContent?]
  rw [if_neg hquote, huntil]
  simp [hread]

theorem readContent?_bytes {content : Content} (h : content.Writable) {b : UInt8}
    (hb : b ∈ delimiters) (rest : Bytes) :
    readContent? (content.bytes ++ b :: rest) = some (content, b :: rest) := by
  cases content with
  | int n =>
      apply readContent?_of_plain _ _ (readBare?_int n) hb
      · exact List.append_ne_nil_of_right_ne_nil _ (by decide)
      · intro x hx
        rcases List.mem_append.1 hx with hx | hx
        · exact isPlain_of_mem_bytes hx
        · have hi : ∀ y ∈ ascii "i", IsPlain y := forall_mem_of_all (by decide)
          exact hi x hx
  | float numeral =>
      obtain ⟨x, rfl⟩ := h
      obtain ⟨front, last, hx, -, -⟩ := exists_sixPlaces_eq_append x
      apply readContent?_of_plain _ (fun _ hy => isPlain_of_mem_sixPlaces hy)
        (readBare?_sixPlaces x) hb
      rw [hx]
      simp
  | string t =>
      have ht : Allowed .value t := h
      simp only [Content.bytes, List.cons_append, List.append_assoc, List.nil_append,
        readContent?, if_true]
      rw [readUntil?_escapedQuoted]
      simp [ofUtf8_utf8 ht.encodable]
  | bool v =>
      apply readContent?_of_plain _ _ (readBare?_truth v) hb
      · cases v <;> decide
      · cases v <;> exact forall_mem_of_all (by decide)

theorem readColumn?_append {c : Text × Content} (hname : Allowed .name c.1)
    (hcontent : c.2.Writable) {b : UInt8} (hb : b ∈ delimiters) (rest : Bytes) :
    readColumn? (nameBytes c.1 ++ equals :: (c.2.bytes ++ b :: rest)) =
      some (c, b :: rest) := by
  unfold readColumn?
  rw [readName?_nameBytes hname]
  simp only
  rw [readContent?_bytes hcontent hb]
  rfl

theorem readColumns?_of_comma {bs rest : Bytes} {c : Text × Content}
    (h : readColumn? bs = some (c, comma :: rest)) :
    readColumns? bs = (readColumns? rest).map fun (columns, rest) => (c :: columns, rest) := by
  rw [readColumns?]
  split
  · next hnone =>
    rw [h] at hnone
    contradiction
  · next hnil =>
    rw [h] at hnil
    simp at hnil
  · next hsome =>
    rw [h] at hsome
    cases hsome
    rw [if_pos rfl]

theorem readColumns?_of_ne_comma {bs rest : Bytes} {c : Text × Content} {b : UInt8}
    (h : readColumn? bs = some (c, b :: rest)) (hb : b ≠ comma) :
    readColumns? bs = some ([c], b :: rest) := by
  rw [readColumns?]
  split
  · next hnone =>
    rw [h] at hnone
    contradiction
  · next hnil =>
    rw [h] at hnil
    simp at hnil
  · next hsome =>
    rw [h] at hsome
    cases hsome
    rw [if_neg hb]

/-- A column without its separator, and the columns after it, as they are written. -/
def columnsTail (c : Text × Content) (columns : List (Text × Content)) : Bytes :=
  nameBytes c.1 ++ equals :: (c.2.bytes ++ columns.flatMap (columnBytes comma))

theorem columnsBytes_cons (c : Text × Content) (columns : List (Text × Content)) :
    columnsBytes (c :: columns) = space :: columnsTail c columns := by
  simp [columnsBytes, columnBytes, columnsTail]

theorem readColumns?_columnsTail {c : Text × Content} {columns : List (Text × Content)}
    (h : ∀ d ∈ c :: columns, Allowed .name d.1 ∧ d.2.Writable) {b : UInt8}
    (hb : b ∈ delimiters) (hcomma : b ≠ comma) (rest : Bytes) :
    readColumns? (columnsTail c columns ++ b :: rest) = some (c :: columns, b :: rest) := by
  induction columns generalizing c with
  | nil =>
      have hc := h c (by simp)
      have hread := readColumn?_append hc.1 hc.2 hb rest
      simp only [columnsTail, List.flatMap_nil, List.append_nil, List.append_assoc,
        List.cons_append]
      exact readColumns?_of_ne_comma hread hcomma
  | cons d columns ih =>
      have hc := h c (by simp)
      have htail := ih fun e he => h e (List.mem_cons_of_mem c he)
      have hread := readColumn?_append (b := comma) hc.1 hc.2 (by decide)
        (columnsTail d columns ++ b :: rest)
      have heq : columnsTail c (d :: columns) ++ b :: rest =
          nameBytes c.1 ++ equals :: (c.2.bytes ++ comma :: (columnsTail d columns ++ b :: rest)) := by
        simp [columnsTail, columnBytes]
      rw [heq, readColumns?_of_comma hread, htail]
      rfl

theorem bytes_natCast (n : Nat) :
    Decimal.bytes n = (Decimal.digits n).map Decimal.digitByte := by
  have hsign : ¬((n : Int) < 0) := by omega
  simp [Decimal.bytes, Decimal.sign, hsign]

theorem readUntil?_decimal (n : Int) {b : UInt8} (hb : b ∈ delimiters) (rest : Bytes) :
    readUntil? delimiters (Decimal.bytes n ++ b :: rest) = some (Decimal.bytes n, b :: rest) :=
  readUntil?_append backslash_not_mem_delimiters
    (fun _ hx => ⟨(isPlain_of_mem_bytes hx).1, (isPlain_of_mem_bytes hx).2.1⟩) hb rest

def endBytes (timestamp : Option Nat) : Bytes := timestampBytes timestamp ++ [newline]

theorem readEnd?_endBytes (r : Record) (hr : r.timestamp = none) (timestamp : Option Nat)
    (rest : Bytes) :
    readEnd? r (endBytes timestamp ++ rest) = some ({ r with timestamp }, rest) := by
  cases timestamp with
  | none =>
      simp only [endBytes, timestampBytes, List.nil_append, List.cons_append, readEnd?, if_true]
      rw [← hr]
  | some n =>
      have hspace : space ≠ newline := by decide
      simp only [endBytes, timestampBytes, List.cons_append, List.append_assoc, List.nil_append,
        readEnd?, readTimestamp?]
      rw [if_neg hspace, if_pos trivial, readUntil?_decimal n (by decide)]
      simp only [if_true]
      rw [bytes_natCast, readNat?_digits]
      rfl

theorem exists_endBytes_eq_cons (timestamp : Option Nat) (rest : Bytes) :
    ∃ b tail, b ∈ delimiters ∧ b ≠ comma ∧ endBytes timestamp ++ rest = b :: tail := by
  cases timestamp with
  | none => exact ⟨newline, rest, by decide, by decide, rfl⟩
  | some n => exact ⟨space, _, by decide, by decide, rfl⟩

/-- A section without an equals sign is no column. -/
theorem readSections?_endBytes (r : Record) (timestamp : Option Nat) (rest : Bytes) :
    readSections? r (endBytes timestamp ++ rest) = readEnd? r (endBytes timestamp ++ rest) := by
  cases timestamp with
  | none =>
      have hspace : newline ≠ space := by decide
      simp [endBytes, timestampBytes, readSections?, hspace]
  | some n =>
      have hnone : readName? (Decimal.bytes n ++ newline :: rest) = none := by
        have hequals : newline ≠ equals := by decide
        unfold readName?
        rw [readUntil?_decimal n (by decide)]
        simp [hequals]
      simp only [endBytes, timestampBytes, List.cons_append, List.append_assoc, List.nil_append,
        readSections?]
      rw [if_neg (by simp [hnone])]

theorem readSections?_columnsBytes {r : Record} {columns : List (Text × Content)}
    (h : ∀ c ∈ columns, Allowed .name c.1 ∧ c.2.Writable) (hr : r.timestamp = none)
    (hcolumns : r.columns = []) (timestamp : Option Nat) (rest : Bytes) :
    readSections? r (columnsBytes columns ++ (endBytes timestamp ++ rest)) =
      some ({ r with columns, timestamp }, rest) := by
  cases columns with
  | nil =>
      simp only [columnsBytes, List.nil_append]
      rw [readSections?_endBytes, readEnd?_endBytes r hr, ← hcolumns]
  | cons c columns =>
      obtain ⟨b, tail, hb, hcomma, heq⟩ := exists_endBytes_eq_cons timestamp rest
      have hname : (readName? (columnsTail c columns ++ (endBytes timestamp ++ rest))).isSome := by
        simp only [columnsTail, List.append_assoc, List.cons_append]
        rw [readName?_nameBytes (h c (by simp)).1]
        rfl
      have hread := readColumns?_columnsTail h hb hcomma tail
      rw [← heq] at hread
      rw [columnsBytes_cons, List.cons_append]
      simp only [readSections?]
      rw [if_pos ⟨trivial, hname⟩, hread]
      exact readEnd?_endBytes { r with columns := c :: columns } hr timestamp rest

theorem line_append (r : Record) (rest : Bytes) :
    r.line ++ rest = nameBytes r.table ++ (r.symbols.flatMap symbolBytes ++
      (columnsBytes r.columns ++ (endBytes r.timestamp ++ rest))) := by
  simp [line, endBytes]

/-- What follows the name of the table starts with a delimiter, and what follows the symbols with
one that is no comma. -/
theorem exists_sections_eq_cons (columns : List (Text × Content)) (timestamp : Option Nat)
    (rest : Bytes) :
    ∃ b tail, b ∈ delimiters ∧ b ≠ comma ∧
      columnsBytes columns ++ (endBytes timestamp ++ rest) = b :: tail := by
  cases columns with
  | nil => exact exists_endBytes_eq_cons timestamp rest
  | cons c columns => exact ⟨space, _, by decide, by decide, rfl⟩

theorem read?_line {r : Record} (h : r.Writable) (rest : Bytes) :
    read? (r.line ++ rest) = some (r, rest) := by
  obtain ⟨b, tail, hb, hcomma, heq⟩ := exists_sections_eq_cons r.columns r.timestamp rest
  obtain ⟨c, after, hc, hafter⟩ : ∃ c after, c ∈ delimiters ∧
      r.symbols.flatMap symbolBytes ++ b :: tail = c :: after := by
    cases r.symbols with
    | nil => exact ⟨b, tail, hb, rfl⟩
    | cons s symbols => exact ⟨comma, _, by decide, rfl⟩
  have hsymbols := readSymbols?_flatMap h.symbols hb hcomma tail
  unfold read?
  rw [line_append, heq, hafter, readUntil?_nameBytes h.table hc]
  simp only
  rw [← hafter, hsymbols]
  simp only
  rw [← heq, readSections?_columnsBytes h.columns rfl rfl, ofUtf8_utf8 h.table.encodable]

theorem readAll?_of_read? {bs rest : Bytes} {r : Record} (h : read? bs = some (r, rest)) :
    readAll? bs = (readAll? rest).map (r :: ·) := by
  have hne : bs.isEmpty = false := by
    have hlt := length_lt_of_read? h
    cases bs with
    | nil => simp at hlt
    | cons b bs => rfl
  rw [readAll?, hne]
  simp only [Bool.false_eq_true, if_false]
  split
  · next hnone =>
    rw [h] at hnone
    contradiction
  · next hsome =>
    rw [h] at hsome
    cases hsome
    rfl

/-- Lines one after the other are read back as the records they were written from. -/
theorem readAll?_flatMap_line {rs : List Record} (h : ∀ r ∈ rs, r.Writable) :
    readAll? (rs.flatMap line) = some rs := by
  induction rs with
  | nil => simp [readAll?]
  | cons r rs ih =>
      have htail := ih fun s hs => h s (by simp [hs])
      rw [List.flatMap_cons, readAll?_of_read? (read?_line (h r (by simp)) _), htail]
      rfl

end Record

end LineProtocol
