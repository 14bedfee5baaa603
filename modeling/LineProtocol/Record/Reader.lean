import LineProtocol.Record
/-!
# Reading lines back

Outside of double quotes a comma, a space, an equals sign or a newline ends a
name or a value; between double quotes only a double quote does.  A backslash
makes the byte after it stand for itself.  The section after the first space
holds columns if it has an equals sign, and a timestamp otherwise.
-/

namespace LineProtocol.Record

/-- The bytes that end a name or an unquoted value. -/
def delimiters : Bytes := [Line.comma, Line.space, Line.equals, Line.newline]

/-- The bytes up to the first of `ends`, without escapes, and the rest from there. -/
def readUntil? (ends : Bytes) : Bytes → Option (Bytes × Bytes)
  | [] => some ([], [])
  | [b] => if b ∈ ends then some ([], [b]) else if b = Line.backslash then none else some ([b], [])
  | b :: c :: bs =>
    if b ∈ ends then some ([], b :: c :: bs)
    else if b = Line.backslash then (readUntil? ends bs).map fun (t, rest) => (c :: t, rest)
    else (readUntil? ends (c :: bs)).map fun (t, rest) => (b :: t, rest)

/-- The bytes of a decimal numeral as a number. -/
def readNat? (bs : Bytes) : Option Nat :=
  if !bs.isEmpty && bs.all (fun b => 0x30 ≤ b && b ≤ 0x39) then
    some (Decimal.ofDigits (bs.map fun b => b.toNat - 0x30))
  else none

/-- The bytes of a decimal numeral with an optional minus sign as a number. -/
def readInt? : Bytes → Option Int
  | [] => none
  | b :: bs =>
    if b = 0x2D then (readNat? bs).map fun n => -(n : Int)
    else (readNat? (b :: bs)).map fun n => (n : Int)

/-- What an unquoted value stands for: a truth value is a single letter, an integer ends in a
letter of its own. -/
def readBare? (bs : Bytes) : Option Content :=
  if bs = Line.ascii "t" then some (.bool true)
  else if bs = Line.ascii "f" then some (.bool false)
  else if (Line.ascii "i").isSuffixOf bs then (readInt? bs.dropLast).map .int
  else some (.float bs)

/-- A column's value, and the rest of the line. -/
def readContent? : Bytes → Option (Content × Bytes)
  | [] => none
  | b :: bs =>
    if b = Line.doubleQuote then
      match readUntil? [Line.doubleQuote] bs with
      | some (t, _ :: rest) => some (.string (.ofUtf8 t), rest)
      | _ => none
    else
      match readUntil? delimiters (b :: bs) with
      | some (t, rest) => (readBare? t).map fun content => (content, rest)
      | none => none

def readName? (bs : Bytes) : Option (Text × Bytes) :=
  match readUntil? delimiters bs with
  | some (name, b :: rest) => if b = Line.equals then some (.ofUtf8 name, rest) else none
  | _ => none

def readSymbol? (bs : Bytes) : Option ((Text × Text) × Bytes) :=
  match readName? bs with
  | none => none
  | some (name, bs) =>
    (readUntil? delimiters bs).map fun (value, rest) => ((name, .ofUtf8 value), rest)

def readColumn? (bs : Bytes) : Option ((Text × Content) × Bytes) :=
  match readName? bs with
  | none => none
  | some (name, bs) => (readContent? bs).map fun (content, rest) => ((name, content), rest)

theorem length_le_of_readUntil? {ends bs t rest : Bytes}
    (h : readUntil? ends bs = some (t, rest)) : rest.length ≤ bs.length := by
  fun_induction readUntil? ends bs generalizing t rest with
  | case1 => simp_all
  | case2 => simp_all
  | case3 => simp_all
  | case4 => simp_all
  | case5 => simp_all
  | case6 c bs _ ih =>
      obtain ⟨⟨u, r⟩, hu, he⟩ := Option.map_eq_some_iff.1 h
      simp only [Prod.mk.injEq] at he
      obtain ⟨rfl, rfl⟩ := he
      have := ih hu
      simp only [List.length_cons]
      omega
  | case7 b c bs _ _ ih =>
      obtain ⟨⟨u, r⟩, hu, he⟩ := Option.map_eq_some_iff.1 h
      simp only [Prod.mk.injEq] at he
      obtain ⟨rfl, rfl⟩ := he
      have := ih hu
      simp only [List.length_cons] at this ⊢
      omega

theorem length_lt_of_readName? {bs rest : Bytes} {name : Text}
    (h : readName? bs = some (name, rest)) : rest.length < bs.length := by
  unfold readName? at h
  split at h
  · next ht =>
    have hle := length_le_of_readUntil? ht
    split at h
    · simp only [Option.some.injEq, Prod.mk.injEq] at h
      obtain ⟨-, rfl⟩ := h
      simp only [List.length_cons] at hle
      omega
    · contradiction
  · contradiction

theorem length_lt_of_readSymbol? {bs rest : Bytes} {s : Text × Text}
    (h : readSymbol? bs = some (s, rest)) : rest.length < bs.length := by
  unfold readSymbol? at h
  split at h
  · contradiction
  · next hn =>
    obtain ⟨⟨v, r⟩, hv, he⟩ := Option.map_eq_some_iff.1 h
    simp only [Prod.mk.injEq] at he
    obtain ⟨-, rfl⟩ := he
    exact Nat.lt_of_le_of_lt (length_le_of_readUntil? hv) (length_lt_of_readName? hn)

theorem length_le_of_readContent? {bs rest : Bytes} {c : Content}
    (h : readContent? bs = some (c, rest)) : rest.length ≤ bs.length := by
  cases bs with
  | nil => simp [readContent?] at h
  | cons b bs =>
      simp only [readContent?] at h
      split at h
      · split at h
        · next ht =>
          have hle := length_le_of_readUntil? ht
          simp only [Option.some.injEq, Prod.mk.injEq] at h
          obtain ⟨-, rfl⟩ := h
          simp only [List.length_cons] at hle ⊢
          omega
        · contradiction
      · split at h
        · next ht =>
          obtain ⟨_, _, he⟩ := Option.map_eq_some_iff.1 h
          simp only [Prod.mk.injEq] at he
          obtain ⟨-, rfl⟩ := he
          exact length_le_of_readUntil? ht
        · contradiction

theorem length_lt_of_readColumn? {bs rest : Bytes} {c : Text × Content}
    (h : readColumn? bs = some (c, rest)) : rest.length < bs.length := by
  unfold readColumn? at h
  split at h
  · contradiction
  · next hn =>
    obtain ⟨⟨v, r⟩, hv, he⟩ := Option.map_eq_some_iff.1 h
    simp only [Prod.mk.injEq] at he
    obtain ⟨-, rfl⟩ := he
    exact Nat.lt_of_le_of_lt (length_le_of_readContent? hv) (length_lt_of_readName? hn)

/-- Symbols, each after a comma, and the rest of the line. -/
def readSymbols? : Bytes → Option (List (Text × Text) × Bytes)
  | [] => some ([], [])
  | b :: bs =>
    if b = Line.comma then
      match _h : readSymbol? bs with
      | none => none
      | some (symbol, rest) =>
        (readSymbols? rest).map fun (symbols, rest) => (symbol :: symbols, rest)
    else some ([], b :: bs)
termination_by bs => bs.length
decreasing_by
  have := length_lt_of_readSymbol? _h
  simp only [List.length_cons]
  omega

/-- Columns with commas between them, and the rest of the line. -/
def readColumns? (bs : Bytes) : Option (List (Text × Content) × Bytes) :=
  match _h : readColumn? bs with
  | none => none
  | some (column, []) => some ([column], [])
  | some (column, b :: rest) =>
    if b = Line.comma then
      (readColumns? rest).map fun (columns, rest) => (column :: columns, rest)
    else some ([column], b :: rest)
termination_by bs.length
decreasing_by
  have := length_lt_of_readColumn? _h
  simp only [List.length_cons] at this
  omega

/-- A timestamp with the newline after it, and the lines after that. -/
def readTimestamp? (bs : Bytes) : Option (Nat × Bytes) :=
  match readUntil? delimiters bs with
  | some (numeral, b :: rest) =>
    if b = Line.newline then (readNat? numeral).map fun n => (n, rest) else none
  | _ => none

/-- The end of a line after `r`, which may still lack a timestamp. -/
def readEnd? (r : Record) : Bytes → Option (Record × Bytes)
  | [] => none
  | b :: bs =>
    if b = Line.newline then some (r, bs)
    else if b = Line.space then
      (readTimestamp? bs).map fun (n, rest) => ({ r with timestamp := some n }, rest)
    else none

/-- What follows the symbols of a line: columns come first if the section after the space has an
equals sign. -/
def readSections? (r : Record) : Bytes → Option (Record × Bytes)
  | [] => none
  | b :: bs =>
    if b = Line.space ∧ (readName? bs).isSome then
      match readColumns? bs with
      | some (columns, rest) => readEnd? { r with columns } rest
      | none => none
    else readEnd? r (b :: bs)

/-- The first line of the bytes, and the lines after it. -/
def read? (bs : Bytes) : Option (Record × Bytes) :=
  match readUntil? delimiters bs with
  | none => none
  | some (table, rest) =>
    match readSymbols? rest with
    | none => none
    | some (symbols, rest) => readSections? ⟨.ofUtf8 table, symbols, [], none⟩ rest

theorem length_le_of_readSymbols? {bs rest : Bytes} {l : List (Text × Text)}
    (h : readSymbols? bs = some (l, rest)) : rest.length ≤ bs.length := by
  fun_induction readSymbols? bs generalizing l rest with
  | case1 => simp_all
  | case2 => contradiction
  | case3 bs s r hs ih =>
      obtain ⟨⟨m, q⟩, hm, he⟩ := Option.map_eq_some_iff.1 h
      simp only [Prod.mk.injEq] at he
      obtain ⟨-, rfl⟩ := he
      have := length_lt_of_readSymbol? hs
      have := ih hm
      simp only [List.length_cons]
      omega
  | case4 => simp_all

theorem length_le_of_readColumns? {bs rest : Bytes} {l : List (Text × Content)}
    (h : readColumns? bs = some (l, rest)) : rest.length ≤ bs.length := by
  fun_induction readColumns? bs generalizing l rest with
  | case1 => contradiction
  | case2 => simp_all
  | case3 bs column r hr ih =>
      obtain ⟨⟨m, q⟩, hm, he⟩ := Option.map_eq_some_iff.1 h
      simp only [Prod.mk.injEq] at he
      obtain ⟨-, rfl⟩ := he
      have := length_lt_of_readColumn? hr
      have := ih hm
      simp only [List.length_cons] at *
      omega
  | case4 bs column b r hr _ =>
      simp only [Option.some.injEq, Prod.mk.injEq] at h
      obtain ⟨-, rfl⟩ := h
      exact Nat.le_of_lt (length_lt_of_readColumn? hr)

theorem length_le_of_readTimestamp? {bs rest : Bytes} {n : Nat}
    (h : readTimestamp? bs = some (n, rest)) : rest.length ≤ bs.length := by
  unfold readTimestamp? at h
  split at h
  · next ht =>
    have hle := length_le_of_readUntil? ht
    split at h
    · obtain ⟨_, _, he⟩ := Option.map_eq_some_iff.1 h
      simp only [Prod.mk.injEq] at he
      obtain ⟨-, rfl⟩ := he
      simp only [List.length_cons] at hle
      omega
    · contradiction
  · contradiction

theorem length_lt_of_readEnd? {r s : Record} {bs rest : Bytes}
    (h : readEnd? r bs = some (s, rest)) : rest.length < bs.length := by
  cases bs with
  | nil => simp [readEnd?] at h
  | cons b bs =>
      simp only [readEnd?] at h
      split at h
      · simp only [Option.some.injEq, Prod.mk.injEq] at h
        obtain ⟨-, rfl⟩ := h
        simp
      · split at h
        · obtain ⟨⟨n, q⟩, hn, he⟩ := Option.map_eq_some_iff.1 h
          simp only [Prod.mk.injEq] at he
          obtain ⟨-, rfl⟩ := he
          have hle := length_le_of_readTimestamp? hn
          simp only [List.length_cons]
          omega
        · contradiction

theorem length_lt_of_readSections? {r s : Record} {bs rest : Bytes}
    (h : readSections? r bs = some (s, rest)) : rest.length < bs.length := by
  cases bs with
  | nil => simp [readSections?] at h
  | cons b bs =>
      simp only [readSections?] at h
      split at h
      · split at h
        · next hc =>
          have := length_le_of_readColumns? hc
          have := length_lt_of_readEnd? h
          simp only [List.length_cons]
          omega
        · contradiction
      · exact length_lt_of_readEnd? h

theorem length_lt_of_read? {bs rest : Bytes} {r : Record} (h : read? bs = some (r, rest)) :
    rest.length < bs.length := by
  unfold read? at h
  split at h
  · contradiction
  · next ht =>
    split at h
    · contradiction
    · next hs =>
      have := length_le_of_readUntil? ht
      have := length_le_of_readSymbols? hs
      have := length_lt_of_readSections? h
      omega

/-- The records of all lines, if the bytes are lines. -/
def readAll? (bs : Bytes) : Option (List Record) :=
  if bs.isEmpty then some []
  else
    match _h : read? bs with
    | none => none
    | some (r, rest) => (readAll? rest).map (r :: ·)
termination_by bs.length
decreasing_by exact length_lt_of_read? _h

end LineProtocol.Record
