import LineProtocol.Buffer
import LineProtocol.Proofs.Capacity
/-!
# What a buffer holds, apart from its room

The capacity of a buffer decides whether a write ever ends and nothing else.
`Contents` is a buffer without its capacities; the operations on contents are
those of the buffer, as long as they end.  Finished rows are only ever added to,
so everything that composes a row commutes with more finished rows in front.
-/

namespace LineProtocol

/-- A buffer without its capacities. -/
structure Contents where
  committed : Bytes
  row : Bytes
  stage : Stage
  pending : Option RowError

namespace Contents

/-- No row in progress and no finished row other than `committed`. -/
def between (committed : Bytes) : Contents := ⟨committed, [], .start, none⟩

def bytes (c : Contents) : Bytes := c.committed ++ c.row

def discard (c : Contents) : Contents := between c.committed

/-- Drops the row in progress if it has an error. -/
def settle (c : Contents) : Contents := if c.pending.isSome then c.discard else c

def apply (call : Call) (c : Contents) : Contents × Outcome :=
  if c.pending.isSome then (c, .ok ())
  else
    match call.encode c.stage with
    | .error (.error (.row e)) => ({ c with pending := some e }, .ok ())
    | .error failure => (c, .error failure)
    | .ok data => ({ c with row := c.row ++ data, stage := call.next c.stage }, .ok ())

def endRow (timestamp : Value) (c : Contents) : Contents × Outcome :=
  match c.pending with
  | some e => (c.discard, .error (.error (.row e)))
  | none =>
    if c.stage = .start then (c.discard, .error (.error (.row .tableMissing)))
    else
      match timestamp.encodeTimestamp with
      | .error (.error e) => (c.discard, .error (.error e))
      | .error failure => (c, .error failure)
      | .ok data => ({ between (c.committed ++ (c.row ++ data)) with pending := c.pending }, .ok ())

/-- The same with more finished rows in front. -/
def prepend (front : Bytes) (c : Contents) : Contents :=
  { c with committed := front ++ c.committed }

theorem prepend_apply (front : Bytes) (call : Call) (c : Contents) :
    (c.prepend front).apply call =
      ((c.apply call).1.prepend front, (c.apply call).2) := by
  obtain ⟨committed, row, stage, pending⟩ := c
  cases pending with
  | some e => rfl
  | none =>
      simp only [apply, prepend, Option.isSome_none, Bool.false_eq_true, if_false]
      split <;> rfl

theorem prepend_settle (front : Bytes) (c : Contents) :
    (c.prepend front).settle = c.settle.prepend front := by
  obtain ⟨committed, row, stage, pending⟩ := c
  cases pending <;> rfl

theorem prepend_endRow (front : Bytes) (timestamp : Value) (c : Contents) :
    (c.prepend front).endRow timestamp =
      ((c.endRow timestamp).1.prepend front, (c.endRow timestamp).2) := by
  obtain ⟨committed, row, stage, pending⟩ := c
  cases pending with
  | some e => rfl
  | none =>
      by_cases hs : stage = .start
      · simp [endRow, prepend, hs, discard, between]
      · simp only [endRow, prepend, hs, if_false]
        split
        · rfl
        · rfl
        · simp [between]

/-- All that a call can do. -/
theorem apply_cases (c : Contents) (call : Call) :
    (c.apply call).1 = c ∨ (∃ e, (c.apply call).1 = { c with pending := some e }) ∨
      ∃ data, call.encode c.stage = .ok data ∧
        (c.apply call).1 = { c with row := c.row ++ data, stage := call.next c.stage } := by
  unfold apply
  split
  · exact Or.inl rfl
  · split
    · exact Or.inr (Or.inl ⟨_, rfl⟩)
    · exact Or.inl rfl
    · next data hdata => exact Or.inr (Or.inr ⟨data, hdata, rfl⟩)

theorem endRow_cases (c : Contents) (timestamp : Value) :
    (∃ f, c.endRow timestamp = (c, .error f)) ∨ (∃ f, c.endRow timestamp = (c.discard, .error f)) ∨
      ∃ data, timestamp.encodeTimestamp = .ok data ∧
        c.endRow timestamp = (between (c.committed ++ (c.row ++ data)), .ok ()) := by
  unfold endRow
  split
  · exact Or.inr (Or.inl ⟨_, rfl⟩)
  · next hpending =>
    split
    · exact Or.inr (Or.inl ⟨_, rfl⟩)
    · split
      · exact Or.inr (Or.inl ⟨_, rfl⟩)
      · exact Or.inl ⟨_, rfl⟩
      · next data hdata => exact Or.inr (Or.inr ⟨data, hdata, by rw [hpending]; rfl⟩)

end Contents

/-! ## Failures of encoding -/

/-- A row error or a fault: the ways in which writing a value fails. -/
def Failure.IsLocal (f : Failure) : Prop :=
  (∃ e, f = .error (.row e)) ∨ ∃ fault, f = .fault fault

theorem ColumnKind.isLocal_of_encode {kind : ColumnKind} {v : Value} {f : Failure}
    (h : kind.encode v = .error f) : f.IsLocal := by
  cases kind with
  | int =>
      simp only [encode, encodeInt] at h
      split at h
      · split at h
        · cases h
          exact Or.inl ⟨_, rfl⟩
        · cases h
          exact Or.inr ⟨_, rfl⟩
      · split at h
        · cases h
          exact Or.inl ⟨_, rfl⟩
        · contradiction
  | float =>
      simp only [encode, encodeFloat] at h
      split at h
      · cases h
        exact Or.inl ⟨_, rfl⟩
      · split at h
        · cases h
          exact Or.inl ⟨_, rfl⟩
        · cases h
          exact Or.inr ⟨_, rfl⟩
      · contradiction
  | string =>
      simp only [encode, encodeString] at h
      split at h
      · cases h
        exact Or.inl ⟨_, rfl⟩
      · split at h
        · cases h
          exact Or.inl ⟨_, rfl⟩
        · contradiction
  | bool =>
      simp only [encode, encodeBool] at h
      split at h
      · cases h
        exact Or.inl ⟨_, rfl⟩
      · contradiction

theorem bind_eq_error_iff {ε α β : Type} {x : Except ε α} {f : α → Except ε β} {e : ε} :
    (x >>= f) = .error e ↔ x = .error e ∨ ∃ a, x = .ok a ∧ f a = .error e := by
  cases x <;> simp [bind, Except.bind]

theorem isLocal_of_mapError {α : Type} {x : Except RowError α} {f : Failure}
    (h : (x.mapError fun e => Failure.error (.row e)) = .error f) : f.IsLocal := by
  cases x with
  | error e =>
      cases h
      exact Or.inl ⟨e, rfl⟩
  | ok a => contradiction

namespace Call

theorem isLocal_of_encodeColumn {stage : Stage} {kind : ColumnKind} {name value : Value}
    {f : Failure} (h : encodeColumn stage kind name value = .error f) : f.IsLocal := by
  unfold encodeColumn at h
  rcases bind_eq_error_iff.1 h with h | ⟨encoded, -, h⟩
  · exact ColumnKind.isLocal_of_encode h
  by_cases hstage : stage = .start
  · rw [if_pos hstage] at h
    cases h
    exact Or.inl ⟨_, rfl⟩
  · rw [if_neg hstage] at h
    rcases bind_eq_error_iff.1 h with h | ⟨written, -, h⟩
    · exact isLocal_of_mapError h
    · contradiction

theorem isLocal_of_encode {stage : Stage} {call : Call} {f : Failure}
    (h : call.encode stage = .error f) : f.IsLocal := by
  cases call with
  | table name =>
      simp only [encode] at h
      split at h
      · cases h
        exact Or.inl ⟨_, rfl⟩
      · exact isLocal_of_mapError h
  | symbol name value =>
      simp only [encode] at h
      split at h
      · cases h
        exact Or.inl ⟨_, rfl⟩
      split at h
      · cases h
        exact Or.inl ⟨_, rfl⟩
      rcases bind_eq_error_iff.1 h with h | ⟨written, -, h⟩
      · exact isLocal_of_mapError h
      rcases bind_eq_error_iff.1 h with h | ⟨value, -, h⟩
      · exact isLocal_of_mapError h
      · contradiction
  | typed kind name value => exact isLocal_of_encodeColumn h
  | column name value =>
      simp only [encode] at h
      split at h
      · cases h
        exact Or.inl ⟨_, rfl⟩
      · exact isLocal_of_encodeColumn h

end Call

theorem Value.isLocal_timestampFailure (fault : Fault) :
    (Value.timestampFailure fault).IsLocal := by
  unfold timestampFailure
  split
  · exact Or.inl ⟨_, rfl⟩
  · exact Or.inr ⟨_, rfl⟩

theorem Value.isLocal_of_timestamp {v : Value} {f : Failure} (h : v.timestamp = .error f) :
    f.IsLocal := by
  unfold timestamp at h
  split at h
  · contradiction
  · contradiction
  · cases h
    exact Or.inr ⟨_, rfl⟩
  · split at h
    · contradiction
    · split at h
      · cases h
        exact Or.inl ⟨_, rfl⟩
      · cases h
        exact Or.inr ⟨_, rfl⟩

theorem Value.isLocal_of_encodeTimestamp {timestamp : Value} {f : Failure}
    (h : timestamp.encodeTimestamp = .error f) : f.IsLocal := by
  unfold encodeTimestamp at h
  split at h
  · next htimestamp =>
    cases h
    exact isLocal_of_timestamp htimestamp
  · unfold lineEnd at h
    split at h
    · cases h
      exact isLocal_timestampFailure _
    · split at h
      · split at h
        · cases h
          exact isLocal_timestampFailure _
        · split at h
          · cases h
            exact isLocal_timestampFailure _
          · contradiction
      · contradiction

theorem Outcome.ok_ne_endless : (.ok () : Outcome) ≠ .error .endless := nofun

theorem Outcome.error_ne_endless (e : SenderError) :
    (.error (.error e) : Outcome) ≠ .error .endless := nofun

theorem Failure.IsLocal.ne_endless {f : Failure} (h : f.IsLocal) : f ≠ .endless := by
  rcases h with ⟨e, rfl⟩ | ⟨fault, rfl⟩ <;> exact nofun

namespace Buffer

/-! ## Operations on buffers are operations on contents -/

/-- The buffer without its capacities. -/
def contents (b : Buffer) : Contents := ⟨b.committed, b.row, b.stage, b.pending⟩

theorem contents_bytes (b : Buffer) : b.contents.bytes = b.bytes := rfl

theorem contents_write? {data : Bytes} {b c : Buffer} (h : b.write? data = some c) :
    c.contents = { b.contents with row := b.row ++ data } := by
  obtain ⟨_, _, rfl⟩ := Option.map_eq_some_iff.1 h
  rfl

/-- A call that ends does to a buffer what it does to its contents. -/
theorem contents_apply {b : Buffer} {call : Call} (h : (b.apply call).2 ≠ .error .endless) :
    b.contents.apply call = ((b.apply call).1.contents, (b.apply call).2) := by
  unfold apply Contents.apply at *
  simp only [contents]
  by_cases hp : b.pending.isSome = true
  · simp only [hp, if_true]
  · simp only [hp, Bool.false_eq_true, if_false] at h ⊢
    generalize call.encode b.stage = result at h ⊢
    rcases result with ((e | e | e) | fault | _) | data
    case ok =>
      simp only at h ⊢
      cases hw : b.write? data with
      | none =>
          rw [hw] at h
          exact absurd rfl h
      | some c =>
          have hc := contents_write? hw
          simp only [contents, Contents.mk.injEq] at hc
          simp [hc]
    all_goals rfl

theorem contents_endRow {b : Buffer} {timestamp : Value}
    (h : (b.endRow timestamp).2 ≠ .error .endless) :
    b.contents.endRow timestamp = ((b.endRow timestamp).1.contents, (b.endRow timestamp).2) := by
  unfold endRow Contents.endRow at *
  simp only [contents]
  cases hp : b.pending with
  | some e => rfl
  | none =>
      simp only [hp] at h ⊢
      by_cases hs : b.stage = .start
      · simp only [hs, if_true]
        rfl
      · simp only [hs, if_false] at h ⊢
        generalize timestamp.encodeTimestamp = result at h ⊢
        rcases result with (e | fault | _) | data
        case ok =>
          simp only at h ⊢
          cases hw : b.write? data with
          | none =>
              rw [hw] at h
              exact absurd rfl h
          | some c =>
              have hc := contents_write? hw
              simp only [contents, Contents.mk.injEq] at hc
              simp [hc, hp, commit, Contents.between]
        case error.error => rfl
        all_goals simp [hp]

theorem apply_of_endless {b : Buffer} {call : Call} (h : (b.apply call).2 = .error .endless) :
    (b.apply call).1 = b := by
  unfold apply at h ⊢
  split at h
  · contradiction
  · next hpending =>
    rw [if_neg hpending]
    generalize call.encode b.stage = result at h ⊢
    rcases result with ((e | e | e) | fault | _) | data
    case ok =>
      simp only at h ⊢
      cases hw : b.write? data with
      | none => rfl
      | some c =>
          rw [hw] at h
          contradiction
    case error.error.row => contradiction
    all_goals rfl

theorem endRow_of_endless {b : Buffer} {timestamp : Value}
    (h : (b.endRow timestamp).2 = .error .endless) : (b.endRow timestamp).1 = b := by
  unfold endRow at h ⊢
  cases hp : b.pending with
  | some e =>
      rw [hp] at h
      exact absurd h nofun
  | none =>
      simp only [hp] at h ⊢
      by_cases hs : b.stage = .start
      · rw [if_pos hs] at h
        exact absurd h nofun
      · rw [if_neg hs] at h ⊢
        generalize timestamp.encodeTimestamp = result at h ⊢
        rcases result with (e | fault | _) | data
        case ok =>
          simp only at h ⊢
          cases hw : b.write? data with
          | none => rfl
          | some c =>
              rw [hw] at h
              contradiction
        case error.error => exact absurd h nofun
        all_goals rfl

/-- A call does to a buffer what it does to its contents, or nothing at all. -/
theorem contents_apply_or (b : Buffer) (call : Call) :
    (b.apply call).1 = b ∨ (b.apply call).1.contents = (b.contents.apply call).1 := by
  by_cases h : (b.apply call).2 = .error .endless
  · exact Or.inl (apply_of_endless h)
  · exact Or.inr (by rw [contents_apply h])

theorem contents_endRow_or (b : Buffer) (timestamp : Value) :
    (b.endRow timestamp).1 = b ∨
      (b.endRow timestamp).1.contents = (b.contents.endRow timestamp).1 := by
  by_cases h : (b.endRow timestamp).2 = .error .endless
  · exact Or.inl (endRow_of_endless h)
  · exact Or.inr (by rw [contents_endRow h])

/-! ## Buffers whose writes end -/

/-- A buffer whose room grows without bounds. -/
structure Boundless (b : Buffer) : Prop where
  initialSize : b.initialSize.Boundless
  capacity : b.capacity.Boundless

theorem boundless_empty {size : Capacity} (h : size.Boundless) : (empty size).Boundless := ⟨h, h⟩

namespace Boundless

variable {b : Buffer}

theorem exists_write? (h : b.Boundless) (data : Bytes) :
    ∃ c, b.write? data = some c ∧ c.Boundless := by
  obtain ⟨d, hd, hboundless⟩ := h.capacity.exists_grow (b.size + data.length)
  refine ⟨{ b.grow d with row := b.row ++ data }, by simp [write?, hd], ?_, hboundless⟩
  show (b.initialSize.afterGrowth d).Boundless
  rw [h.initialSize.afterGrowth]
  exact h.initialSize

theorem apply (h : b.Boundless) (call : Call) :
    (b.apply call).1.Boundless ∧ (b.apply call).2 ≠ .error .endless := by
  unfold Buffer.apply
  split
  · exact ⟨h, nofun⟩
  · split
    · exact ⟨⟨h.initialSize, h.capacity⟩, nofun⟩
    · next f hf =>
      refine ⟨h, ?_⟩
      have hne := (Call.isLocal_of_encode hf).ne_endless
      simpa using hne
    · next data hdata =>
      obtain ⟨c, hc, hboundless⟩ := h.exists_write? data
      rw [hc]
      exact ⟨⟨hboundless.initialSize, hboundless.capacity⟩, nofun⟩

theorem discard (h : b.Boundless) : b.discard.Boundless := ⟨h.initialSize, h.capacity⟩

theorem endRow (h : b.Boundless) (timestamp : Value) :
    (b.endRow timestamp).1.Boundless ∧ (b.endRow timestamp).2 ≠ .error .endless := by
  unfold Buffer.endRow
  split
  · exact ⟨h.discard, nofun⟩
  · split
    · exact ⟨h.discard, nofun⟩
    · split
      · exact ⟨h.discard, nofun⟩
      · next f hf =>
        refine ⟨h, ?_⟩
        have hne := (Value.isLocal_of_encodeTimestamp hf).ne_endless
        simpa using hne
      · next data hdata =>
        obtain ⟨c, hc, hboundless⟩ := h.exists_write? data
        rw [hc]
        exact ⟨⟨hboundless.initialSize, hboundless.capacity⟩, nofun⟩

theorem clear (h : b.Boundless) : b.clear.Boundless := ⟨h.initialSize, h.initialSize⟩

theorem consume (h : b.Boundless) (n : Nat) : (b.consume n).Boundless :=
  ⟨h.initialSize, h.capacity⟩

theorem exists_shrink? (h : b.Boundless) : ∃ c, b.shrink? = some c ∧ c.Boundless := by
  obtain ⟨d, hd, hboundless⟩ := h.initialSize.exists_grow b.size
  exact ⟨{ b with capacity := d }, by simp [shrink?, hd], h.initialSize, hboundless⟩

end Boundless

end Buffer

end LineProtocol
