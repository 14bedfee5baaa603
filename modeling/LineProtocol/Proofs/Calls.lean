import LineProtocol.Proofs.Growth
import LineProtocol.Proofs.Rows
import LineProtocol.Sender
/-!
# What calls do to a buffer

A call for the row in progress never touches a finished row.  It adds to the row,
or it leaves an error behind and nothing else, and after an error calls do nothing at
all.  The one thing that a call does not keep to itself is an object that is asked for
its number and answers with a fault of its own.
-/

namespace LineProtocol

/-! ## Faults of calls -/

/-- A value that a column of a given type asks for its number, and that answers with a fault which
is no error of the row. -/
inductive ColumnKind.Raises (fault : Fault) : ColumnKind → Value → Prop
  | int {v : Value} (h : v.index = .error fault) (hfault : fault.kind.family ≠ .wrongType) :
      Raises fault .int v
  | float {v : Value} (h : v.readFloat = .failed fault) (hfault : ¬IsConversionFault fault) :
      Raises fault .float v

/-- A column whose value answers with a fault that is no error of the row. -/
def Call.Raises (fault : Fault) : Call → Prop
  | typed kind _ value => kind.Raises fault value
  | column _ value => ∃ kind, value.columnKind? = some kind ∧ kind.Raises fault value
  | _ => False

theorem mapError_row_ne_fault {α : Type} {x : Except RowError α} {fault : Fault} :
    (x.mapError fun e => Failure.error (.row e)) ≠ .error (.fault fault) := by
  cases x <;> simp [Except.mapError]

theorem ColumnKind.encode_eq_fault_iff {kind : ColumnKind} {v : Value} {fault : Fault} :
    kind.encode v = .error (.fault fault) ↔ kind.Raises fault v := by
  constructor
  · intro h
    cases kind with
    | int =>
        simp only [encode, encodeInt] at h
        split at h
        · next hindex =>
          split at h
          · cases h
          · next hfault =>
            cases h
            exact .int hindex hfault
        · split at h <;> cases h
    | float =>
        simp only [encode, encodeFloat] at h
        split at h
        · cases h
        · next hfailed =>
          split at h
          · cases h
          · next hfault =>
            cases h
            exact .float hfailed hfault
        · cases h
    | string =>
        simp only [encode, encodeString] at h
        split at h
        · cases h
        · split at h <;> cases h
    | bool =>
        simp only [encode, encodeBool] at h
        split at h <;> cases h
  · intro h
    cases h with
    | int h hfault => simp only [encode, encodeInt, h, if_neg hfault]
    | float h hfault => simp only [encode, encodeFloat, h, if_neg hfault]

namespace Call

theorem encodeColumn_eq_fault_iff {stage : Stage} {kind : ColumnKind} {name value : Value}
    {fault : Fault} :
    encodeColumn stage kind name value = .error (.fault fault) ↔
      kind.encode value = .error (.fault fault) := by
  unfold encodeColumn
  rw [bind_eq_error_iff]
  refine or_iff_left ?_
  rintro ⟨encoded, -, h⟩
  by_cases hstage : stage = .start
  · rw [if_pos hstage] at h
    cases h
  · rw [if_neg hstage] at h
    rcases bind_eq_error_iff.1 h with hname | ⟨written, -, h⟩
    · exact mapError_row_ne_fault hname
    · cases h

theorem encode_eq_fault_iff {stage : Stage} {call : Call} {fault : Fault} :
    call.encode stage = .error (.fault fault) ↔ call.Raises fault := by
  cases call with
  | table name =>
      refine iff_of_false (fun h => ?_) not_false
      simp only [encode] at h
      split at h
      · cases h
      · exact mapError_row_ne_fault h
  | symbol name value =>
      refine iff_of_false (fun h => ?_) not_false
      simp only [encode] at h
      split at h
      · cases h
      split at h
      · cases h
      rcases bind_eq_error_iff.1 h with hname | ⟨written, -, h⟩
      · exact mapError_row_ne_fault hname
      rcases bind_eq_error_iff.1 h with hvalue | ⟨value, -, h⟩
      · exact mapError_row_ne_fault hvalue
      · cases h
  | typed kind name value =>
      simp only [encode]
      exact encodeColumn_eq_fault_iff.trans ColumnKind.encode_eq_fault_iff
  | column name value =>
      simp only [encode, Raises]
      cases value.columnKind? with
      | none => simp
      | some kind =>
          simp only [Option.some.injEq, exists_eq_left']
          exact encodeColumn_eq_fault_iff.trans ColumnKind.encode_eq_fault_iff

end Call

/-! ## Faults of timestamps -/

/-- A timestamp that cannot be written, for a reason that is no error of the row. -/
inductive Value.Unwritable : Value → Fault → Prop
  | unzoned {fault : Fault} : Unwritable (.unzoned fault) fault
  /-- An object that is no moment and fails to tell its integer. -/
  | unindexed {v : Value} {fault : Fault} (h : v.index = .error fault)
      (hfault : fault.kind.family ≠ .wrongType) : Unwritable v fault
  /-- Nanoseconds that are not compared with zero. -/
  | unsigned {v : Value} {fault : Fault} (h : v.compared .atLeast = .error fault)
      (hfault : fault.kind.family ≠ .badValue) : Unwritable (.nanos v) fault
  | infinite {v : Value} {x : Binary64} (hv : v.number? = some (.float x))
      (hx : x.datum = .infinite false) :
      Unwritable (.nanos v) (.of .overflow "cannot convert float infinity to integer")
  /-- Nanoseconds that are an object which is not below zero and fails to be written out. -/
  | unwritten {o : Foreign} {n : Value.Number} {fault : Fault} (hn : o.compared .atLeast = .ok n)
      (hsign : n.isNonnegative = true) (h : o.whole = .error fault)
      (hfault : fault.kind.family ≠ .badValue) : Unwritable (.nanos (.object o)) fault

namespace Value

theorem timestampFailure_eq_fault_iff {fault fault' : Fault} :
    timestampFailure fault = .fault fault' ↔ fault = fault' ∧ fault.kind.family ≠ .badValue := by
  unfold timestampFailure
  split
  · next hkind => exact iff_of_false nofun fun h => h.2 hkind
  · next hkind =>
    rw [Failure.fault.injEq]
    exact (and_iff_left hkind).symm

/-- Of the numbers that are not below zero, only infinity is not truncated to an integer. -/
theorem Number.truncate_eq_error_iff {n : Number} (hn : n.isNonnegative = true) {fault : Fault} :
    n.truncate = .error fault ↔ ∃ x : Binary64, n = .float x ∧ x.datum = .infinite false ∧
      fault = .of .overflow "cannot convert float infinity to integer" := by
  cases n with
  | int | ratio => simp [truncate]
  | float x =>
      replace hn : x.datum.isNonnegative = true := hn
      simp only [truncate, Number.float.injEq, exists_eq_left']
      cases hx : x.datum with
      | finite => simp
      | nan =>
          rw [hx] at hn
          contradiction
      | infinite negative =>
          rw [hx] at hn
          cases negative with
          | true => contradiction
          | false => simp [eq_comm]

theorem unwritable_nanos_iff {v : Value} {fault : Fault} :
    Unwritable (.nanos v) fault ↔
      (v.compared .atLeast = .error fault ∨ ∃ n, v.compared .atLeast = .ok n ∧
        n.isNonnegative = true ∧ v.whole n = .error fault) ∧ fault.kind.family ≠ .badValue := by
  constructor
  · intro h
    cases h with
    | unindexed h hfault =>
        cases h
        exact absurd rfl hfault
    | unsigned h hfault => exact ⟨Or.inl h, hfault⟩
    | @infinite _ x hv hx =>
        have hn : Number.isNonnegative (.float x) = true :=
          (congrArg Floating.Datum.isNonnegative hx).trans rfl
        refine ⟨Or.inr ⟨.float x, compared_of_number? hv _, hn, ?_⟩, by decide⟩
        rw [whole_of_number? hv]
        exact (Number.truncate_eq_error_iff hn).2 ⟨x, rfl, hx, rfl⟩
    | unwritten hn hsign h hfault => exact ⟨Or.inr ⟨_, hn, hsign, h⟩, hfault⟩
  · rintro ⟨h | ⟨n, hn, hsign, hwhole⟩, hfault⟩
    · exact .unsigned h hfault
    · by_cases hobject : ∃ o, v = .object o
      · obtain ⟨o, rfl⟩ := hobject
        exact .unwritten hn hsign hwhole hfault
      · have hnumber := number?_of_compared (not_exists.1 hobject) hn
        rw [whole_of_number? hnumber] at hwhole
        obtain ⟨x, rfl, hx, rfl⟩ := (Number.truncate_eq_error_iff hsign).1 hwhole
        exact .infinite hnumber hx

theorem lineEnd_eq_fault_iff {v : Value} {fault : Fault} :
    v.lineEnd = .error (.fault fault) ↔ Unwritable (.nanos v) fault := by
  rw [unwritable_nanos_iff]
  unfold lineEnd
  cases hn : v.compared .atLeast with
  | error fault' =>
      simp only [Except.error.injEq, timestampFailure_eq_fault_iff, reduceCtorEq, false_and,
        exists_false, or_false]
      exact and_congr_right fun h => by rw [h]
  | ok n =>
      simp only [Except.ok.injEq, exists_eq_left', reduceCtorEq, false_or]
      by_cases hsign : n.isNonnegative = true
      · rw [if_pos hsign]
        cases hwhole : v.whole n with
        | error fault' =>
            simp only [Except.error.injEq, timestampFailure_eq_fault_iff, hsign, true_and]
            exact and_congr_right fun h => by rw [h]
        | ok m =>
            refine iff_of_false (fun h => ?_) fun h => nomatch h.1.2
            dsimp only at h
            split at h
            · exact (timestampFailure_eq_fault_iff.1 (Except.error.inj h)).2 rfl
            · contradiction
      · rw [if_neg hsign]
        exact iff_of_false nofun fun h => hsign h.1.1

/-- A timestamp that is no `nanos` stands for an integer. -/
theorem timestamp_eq_ok {v w : Value} (h : v.timestamp = .ok w) :
    v = .nanos w ∨ ∃ n, w = .int n := by
  unfold timestamp at h
  split at h
  · cases h
    exact Or.inl rfl
  · cases h
    exact Or.inr ⟨_, rfl⟩
  · contradiction
  · split at h
    · cases h
      exact Or.inr ⟨_, rfl⟩
    · split at h <;> cases h

theorem timestamp_eq_fault_iff {v : Value} {fault : Fault} :
    v.timestamp = .error (.fault fault) ↔
      v = .unzoned fault ∨ v.index = .error fault ∧ fault.kind.family ≠ .wrongType := by
  have hnone : ∀ name, ¬(Except.error (ε := Fault) (α := Int) (.noInteger name) = .error fault ∧
      fault.kind.family ≠ .wrongType) := by
    rintro name ⟨⟨⟩, hfault⟩
    exact hfault rfl
  unfold timestamp
  split
  · exact iff_of_false nofun (not_or.2 ⟨nofun, hnone _⟩)
  · exact iff_of_false nofun (not_or.2 ⟨nofun, hnone _⟩)
  · refine Iff.trans ?_ (or_iff_left (hnone _)).symm
    simp
  · next hunzoned =>
    rw [or_iff_right (hunzoned fault)]
    cases v.index with
    | ok n => exact iff_of_false nofun nofun
    | error fault' =>
        dsimp only
        split
        · next hfault =>
          refine iff_of_false nofun ?_
          rintro ⟨⟨⟩, hnot⟩
          exact hnot hfault
        · next hfault =>
          constructor
          · rintro ⟨⟩
            exact ⟨rfl, hfault⟩
          · rintro ⟨⟨⟩, -⟩
            rfl

/-- An integer is always written, or it is an error of the row. -/
theorem not_unwritable_nanos_int (n : Int) (fault : Fault) :
    ¬Unwritable (.nanos (.int n)) fault := by
  intro h
  rcases (unwritable_nanos_iff.1 h).1 with hsign | ⟨m, hm, -, hwhole⟩
  · contradiction
  · cases hm
    contradiction

theorem encodeTimestamp_eq_fault_iff {v : Value} {fault : Fault} :
    v.encodeTimestamp = .error (.fault fault) ↔ v.Unwritable fault := by
  unfold encodeTimestamp
  constructor
  · intro h
    cases htimestamp : v.timestamp with
    | error failure =>
        rw [htimestamp] at h
        cases h
        rcases timestamp_eq_fault_iff.1 htimestamp with rfl | ⟨hindex, hfault⟩
        · exact .unzoned
        · exact .unindexed hindex hfault
    | ok w =>
        rw [htimestamp] at h
        have hw := lineEnd_eq_fault_iff.1 h
        rcases timestamp_eq_ok htimestamp with rfl | ⟨n, rfl⟩
        · exact hw
        · exact absurd hw (not_unwritable_nanos_int n fault)
  · intro h
    cases h with
    | unzoned => rfl
    | unindexed hindex hfault => rw [timestamp_eq_fault_iff.2 (Or.inr ⟨hindex, hfault⟩)]
    | unsigned h hfault => exact lineEnd_eq_fault_iff.2 (.unsigned h hfault)
    | infinite hv hx => exact lineEnd_eq_fault_iff.2 (.infinite hv hx)
    | unwritten hn hsign h hfault => exact lineEnd_eq_fault_iff.2 (.unwritten hn hsign h hfault)

end Value

namespace Buffer

/-! ## What a write changes -/

/-- The room of `c` is that of `b`, or what it has grown to. -/
def Grows (b c : Buffer) : Prop :=
  c.initialSize = b.initialSize ∧ c.capacity = b.capacity ∨
    ∃ n, b.capacity.grow n = some c.capacity ∧
      c.initialSize = b.initialSize.afterGrowth c.capacity

theorem grows_write? {data : Bytes} {b c : Buffer} (h : b.write? data = some c) : b.Grows c := by
  obtain ⟨d, hd, rfl⟩ := Option.map_eq_some_iff.1 h
  exact Or.inr ⟨_, hd, rfl⟩

theorem Grows.initialSize {b c : Buffer} (h : b.Grows c) (hsize : ∀ n, b.initialSize ≠ .cell n) :
    c.initialSize = b.initialSize := by
  rcases h with ⟨heq, -⟩ | ⟨n, -, heq⟩
  · exact heq
  · rw [heq, Capacity.afterGrowth_of_ne_cell hsize]

theorem committed_write? {data : Bytes} {b c : Buffer} (h : b.write? data = some c) :
    c.committed = b.committed := by
  obtain ⟨_, _, rfl⟩ := Option.map_eq_some_iff.1 h
  rfl

theorem pending_write? {data : Bytes} {b c : Buffer} (h : b.write? data = some c) :
    c.pending = b.pending := by
  obtain ⟨_, _, rfl⟩ := Option.map_eq_some_iff.1 h
  rfl

/-! ## Cases of a call -/

/-- The ways in which a call may end. -/
inductive Applied (b : Buffer) (call : Call) : Buffer × Outcome → Prop
  | ignored (e : RowError) (h : b.pending = some e) : Applied b call (b, .ok ())
  | refused (e : RowError) (h : b.pending = none)
      (he : call.encode b.stage = .error (.error (.row e))) :
      Applied b call ({ b with pending := some e }, .ok ())
  | raised (fault : Fault) (h : b.pending = none)
      (hfault : call.encode b.stage = .error (.fault fault)) :
      Applied b call (b, .error (.fault fault))
  | endless (data : Bytes) (h : b.pending = none) (hdata : call.encode b.stage = .ok data)
      (hnone : b.write? data = none) : Applied b call (b, .error .endless)
  | added (data : Bytes) (c : Buffer) (h : b.pending = none)
      (hdata : call.encode b.stage = .ok data) (hc : b.write? data = some c) :
      Applied b call ({ c with stage := call.next b.stage }, .ok ())

theorem applied (b : Buffer) (call : Call) : b.Applied call (b.apply call) := by
  unfold apply
  cases hpending : b.pending with
  | some e => exact .ignored e hpending
  | none =>
      simp only [Option.isSome_none, Bool.false_eq_true, if_false]
      cases hencode : call.encode b.stage with
      | error f =>
          rcases Call.isLocal_of_encode hencode with ⟨e, rfl⟩ | ⟨fault, rfl⟩
          · exact .refused e hpending hencode
          · exact .raised fault hpending hencode
      | ok data =>
          dsimp only
          cases hwrite : b.write? data with
          | none => exact .endless data hpending hencode hwrite
          | some c =>
              have hstage : c.stage = b.stage := by
                obtain ⟨d, -, rfl⟩ := Option.map_eq_some_iff.1 hwrite
                rfl
              dsimp only
              rw [hstage]
              exact .added data c hpending hencode hwrite

/-- The ways in which the end of a row may end. -/
inductive Ended (b : Buffer) (timestamp : Value) : Buffer × Outcome → Prop
  | reported (e : RowError) (h : b.pending = some e) :
      Ended b timestamp (b.discard, .error (.error (.row e)))
  | missing (h : b.pending = none) (hstage : b.stage = .start) :
      Ended b timestamp (b.discard, .error (.error (.row .tableMissing)))
  | refused (e : RowError) (h : b.pending = none)
      (he : timestamp.encodeTimestamp = .error (.error (.row e))) :
      Ended b timestamp (b.discard, .error (.error (.row e)))
  | raised (fault : Fault) (h : b.pending = none)
      (hfault : timestamp.encodeTimestamp = .error (.fault fault)) :
      Ended b timestamp (b, .error (.fault fault))
  | endless (data : Bytes) (h : b.pending = none)
      (hdata : timestamp.encodeTimestamp = .ok data) (hnone : b.write? data = none) :
      Ended b timestamp (b, .error .endless)
  | finished (data : Bytes) (c : Buffer) (h : b.pending = none) (hstage : b.stage ≠ .start)
      (hdata : timestamp.encodeTimestamp = .ok data) (hc : b.write? data = some c) :
      Ended b timestamp (c.commit, .ok ())

theorem ended (b : Buffer) (timestamp : Value) : b.Ended timestamp (b.endRow timestamp) := by
  unfold endRow
  cases hpending : b.pending with
  | some e => exact .reported e hpending
  | none =>
      by_cases hstage : b.stage = .start
      · simp only [hstage, if_true]
        exact .missing hpending hstage
      · simp only [hstage, if_false]
        cases hencode : timestamp.encodeTimestamp with
        | error f =>
            rcases Value.isLocal_of_encodeTimestamp hencode with ⟨e, rfl⟩ | ⟨fault, rfl⟩
            · exact .refused e hpending hencode
            · exact .raised fault hpending hencode
        | ok data =>
            dsimp only
            cases hwrite : b.write? data with
            | none => exact .endless data hpending hencode hwrite
            | some c => exact .finished data c hpending hstage hencode hwrite

theorem Ended.grows {b : Buffer} {timestamp : Value} {t : Buffer × Outcome}
    (h : b.Ended timestamp t) : b.Grows t.1 := by
  cases h with
  | reported | missing | refused | raised | endless => exact Or.inl ⟨rfl, rfl⟩
  | finished _ _ _ _ _ hc => exact (grows_write? hc :)

namespace Applied

variable {b : Buffer} {call : Call} {t : Buffer × Outcome}

theorem committed (h : b.Applied call t) : t.1.committed = b.committed := by
  cases h with
  | ignored | refused | raised | endless => rfl
  | added _ _ _ _ hc => exact (committed_write? hc :)

theorem grows (h : b.Applied call t) : b.Grows t.1 := by
  cases h with
  | ignored | refused | raised | endless => exact Or.inl ⟨rfl, rfl⟩
  | added _ _ _ _ hc => exact (grows_write? hc :)

/-- A call that does not return has no effect. -/
theorem of_ne_ok (h : b.Applied call t) (hfails : t.2 ≠ .ok ()) : t.1 = b := by
  cases h with
  | raised | endless => rfl
  | ignored | refused | added => exact absurd rfl hfails

/-- A call that leaves an error behind has no other effect. -/
theorem of_ne_pending (h : b.Applied call t) (hpending : t.1.pending ≠ b.pending) :
    t.1 = { b with pending := t.1.pending } := by
  cases h with
  | refused => rfl
  | ignored | raised | endless => exact absurd rfl hpending
  | added _ _ _ _ hc => exact absurd (pending_write? hc) hpending

theorem ne_error (h : b.Applied call t) (e : SenderError) : t.2 ≠ .error (.error e) := by
  cases h <;> exact nofun

end Applied

variable {b : Buffer} {call : Call}

theorem apply_of_raises {fault : Fault} (h : b.pending = none) (hraises : call.Raises fault) :
    b.apply call = (b, .error (.fault fault)) := by
  have hencode : call.encode b.stage = .error (.fault fault) := Call.encode_eq_fault_iff.2 hraises
  simp [apply, h, hencode]

theorem apply_returns (hb : b.Boundless) (h : b.pending ≠ none ∨ ∀ fault, ¬call.Raises fault) :
    (b.apply call).2 = .ok () := by
  have hends := (hb.apply call).2
  have happlied := b.applied call
  generalize b.apply call = t at happlied hends ⊢
  cases happlied with
  | ignored | refused | added => rfl
  | endless => exact absurd rfl hends
  | raised fault hpending hfault =>
      rcases h with hsome | hnone
      · exact absurd hpending hsome
      · exact absurd (Call.encode_eq_fault_iff.1 hfault) (hnone fault)

/-! ## The room of reachable buffers -/

/-- What holds of the room of an empty buffer holds of that of any reachable one, if it is kept by
growing, by shrinking and by starting over. -/
theorem Reachable.rooms {size : Capacity} (h : Reachable size b) {P : Capacity → Capacity → Prop}
    (hempty : P size size)
    (hgrow : ∀ first c n d, P first c → c.grow n = some d → P (first.afterGrowth d) d)
    (hshrink : ∀ first c n d, P first c → first.grow n = some d → P first d)
    (hclear : ∀ first c, P first c → P first first) : P b.initialSize b.capacity := by
  have hgrows : ∀ b c : Buffer, b.Grows c → P b.initialSize b.capacity →
      P c.initialSize c.capacity := by
    rintro b c (⟨hsize, hsame⟩ | ⟨n, hd, hsize⟩) hb
    · rwa [hsize, hsame]
    · rw [hsize]
      exact hgrow _ _ n _ hb hd
  induction h with
  | empty => exact hempty
  | apply _ call ih => exact hgrows _ _ (applied _ call).grows ih
  | endRow _ timestamp ih => exact hgrows _ _ (ended _ timestamp).grows ih
  | discard _ ih => exact ih
  | clear _ ih => exact hclear _ _ ih
  | consume _ n ih => exact ih
  | shrink _ hc ih =>
      obtain ⟨d, hd, rfl⟩ := Option.map_eq_some_iff.1 hc
      exact hshrink _ _ _ d ih hd

/-- The size that a buffer starts with stays what it was, unless it is kept in an array. -/
theorem Reachable.initialSize_eq {size : Capacity} (h : Reachable size b)
    (hsize : ∀ n, size ≠ .cell n) : b.initialSize = size := by
  refine h.rooms (P := fun first _ => first = size) rfl ?_ (fun _ _ _ _ heq _ => heq)
    (fun _ _ heq => heq)
  rintro first c n d rfl -
  exact Capacity.afterGrowth_of_ne_cell hsize d

/-! ## The promise of a call -/

/-- A call returns, unless it asks an object for a number and the answer is a fault that is no error
of the row, or doubling the capacity never makes it large enough.  If it does not return, it changes
nothing; if it leaves an error behind, it changes nothing else; and if there is an error already, it
changes nothing at all.  A call on a sender is one on its buffer. -/
theorem Reachable.apply_returns_iff {size : Capacity} (h : Reachable size b) (call : Call) :
    let t := b.apply call
    (size.Boundless → (t.2 = .ok () ↔ b.pending ≠ none ∨ ∀ fault, ¬call.Raises fault)) ∧
      (∀ fault, b.pending = none → call.Raises fault → t = (b, .error (.fault fault))) ∧
      (∀ e, t.2 ≠ .error (.error e)) ∧
      (t.2 ≠ .ok () → t.1 = b) ∧
      t.1.committed = b.committed ∧
      ((∀ n, size ≠ .cell n) → t.1.initialSize = b.initialSize) ∧
      (t.1.pending ≠ b.pending → t.1 = { b with pending := t.1.pending }) ∧
      (b.pending ≠ none → t = (b, .ok ())) ∧
      ∀ s : Sender, s.buffer = b → s.build call = ⟨{ s with buffer := t.1 }, [], t.2⟩ := by
  intro t
  refine ⟨fun hsize => ⟨fun hok => ?_, apply_returns (h.boundless hsize)⟩,
    fun fault => apply_of_raises, (b.applied call).ne_error, (b.applied call).of_ne_ok,
    (b.applied call).committed, fun hsize => ?_, (b.applied call).of_ne_pending,
    fun hpending => ?_, ?_⟩
  · -- a call that raises does not return
    by_contra hnot
    obtain ⟨hpending, hraises⟩ := not_or.1 hnot
    obtain ⟨fault, hfault⟩ := not_forall_not.1 hraises
    have hfailed := apply_of_raises (not_not.1 hpending) hfault
    rw [show t.2 = (b.apply call).2 from rfl, hfailed] at hok
    cases hok
  · apply (b.applied call).grows.initialSize
    rwa [h.initialSize_eq hsize]
  · obtain ⟨e, he⟩ := Option.ne_none_iff_exists'.1 hpending
    exact apply_of_pending he call
  · rintro s rfl
    rfl

/-- A column of a number that is too large for its conversion. -/
def overflowing : Call :=
  .typed .float (.text "x") <| .object
    { Foreign.plain "Wide" with standing := .real, float := .error (.of .overflow "too large") }

/-- A column of a number whose conversion fails for a reason of its own. -/
def broken : Call :=
  .typed .float (.text "x") <| .object
    { Foreign.plain "Broken" with standing := .real, float := .error (.of .runtime "boom") }

theorem apply_returns_iff_overflowing :
    let b := ((empty (.exact 8)).apply (.table (.text "t"))).1
    Reachable (.exact 8) b ∧ (b.apply overflowing).2 = .ok () ∧
      (b.apply overflowing).1 = { b with pending := (b.apply overflowing).1.pending } := by
  intro b
  have hreachable : Reachable (.exact 8) b := .apply .empty _
  obtain ⟨hreturns, -, -, -, -, -, hrefused, -⟩ := hreachable.apply_returns_iff overflowing
  refine ⟨hreachable, ?_, hrefused (by decide)⟩
  refine (hreturns (show (0 : Int) < 8 by decide)).2 (Or.inr ?_)
  rintro fault (_ | ⟨hfailed, hkind⟩)
  cases hfailed
  exact hkind (by decide)

/-- Not every call returns. -/
theorem not_returns_broken :
    ¬∀ (size : Capacity) (b : Buffer) (call : Call), size.Boundless → Reachable size b →
      (b.apply call).2 = .ok () := by
  intro hreturns
  have hok := hreturns (.exact 32768) _ broken (show (0 : Int) < 32768 by decide)
    (.apply .empty (.table (.text "t")))
  have hraises : broken.Raises (.of .runtime "boom") := .float rfl (by decide)
  rw [apply_of_raises (by decide) hraises] at hok
  cases hok

end Buffer

end LineProtocol
