import LineProtocol.Proofs.Discarding
import LineProtocol.Proofs.WellFormed
/-!
# When the next row can begin

The end of a row makes the buffer ready for the next one: the row is finished, or it is
dropped together with its error.  There is one exception.  A timestamp may fail for a
reason that is no error of the row: nanoseconds of a kind that is not compared with zero
or not written out, an object that fails to tell its integer, a moment whose zone fails
to tell its offset.  Such a fault leaves the row open.
-/

namespace LineProtocol

namespace Contents

/-- What holds `committed` and no row in progress, once a table is named: the row begins with the
name, unless the name is refused. -/
def opened (committed : Bytes) (name : Value) : Contents :=
  match Line.escapeName name with
  | .ok written => { between committed with row := written, stage := .named }
  | .error e => { between committed with pending := some e }

theorem apply_table_between (committed : Bytes) (name : Value) :
    (between committed).apply (.table name) = (opened committed name, .ok ()) := by
  have hencode : (Call.table name).encode .start =
      (Line.escapeName name).mapError fun e => .error (.row e) := rfl
  unfold apply opened
  rw [if_neg (by simp [between]), show (between committed).stage = .start from rfl, hencode]
  cases Line.escapeName name <;> rfl

end Contents

namespace Buffer

/-- Nothing of a row is in the buffer, and no error is kept for one. -/
structure Ready (b : Buffer) : Prop where
  pending : b.pending = none
  not_hasTable : ¬b.HasTable
  not_hasColumns : ¬b.HasColumns
  committed_eq : b.committed.length = b.bytes.length

variable {size : Capacity} {b : Buffer} {timestamp : Value} {t : Buffer × Outcome}

theorem ready_discard (b : Buffer) : b.discard.Ready :=
  ⟨rfl, absurd rfl, nofun, by rw [bytes_discard]; rfl⟩

theorem ready_commit (h : b.pending = none) : b.commit.Ready :=
  ⟨h, absurd rfl, nofun, by rw [bytes_commit]; rfl⟩

theorem Reachable.contents_of_ready (h : Reachable size b) (hready : b.Ready) :
    b.contents = .between b.committed :=
  h.contents_eq_between (not_not.1 hready.not_hasTable) hready.pending

theorem Ready.apply_table (h : Reachable size b) (hready : b.Ready) (name : Value)
    (hends : (b.apply (.table name)).2 ≠ .error .endless) :
    (b.apply (.table name)).2 = .ok () ∧
      (b.apply (.table name)).1.contents = .opened b.committed name := by
  have happlied := contents_apply hends
  rw [h.contents_of_ready hready, Contents.apply_table_between] at happlied
  obtain ⟨hcontents, houtcome⟩ := Prod.mk.inj happlied
  exact ⟨houtcome.symm, hcontents.symm⟩

/-! ## The end of a row -/

theorem endRow_of_unwritable {fault : Fault} (hpending : b.pending = none) (htable : b.HasTable)
    (hfault : timestamp.Unwritable fault) : b.endRow timestamp = (b, .error (.fault fault)) := by
  have hencode := Value.encodeTimestamp_eq_fault_iff.2 hfault
  unfold endRow
  rw [hpending]
  simp only [if_neg htable, hencode]

theorem endRow_eq_fault_iff {fault : Fault} :
    (b.endRow timestamp).2 = .error (.fault fault) ↔
      b.pending = none ∧ b.HasTable ∧ timestamp.Unwritable fault := by
  refine ⟨fun h => ?_, fun ⟨hpending, htable, hfault⟩ => ?_⟩
  · have htable : b.HasTable := by
      intro hstage
      unfold endRow at h
      cases hpending : b.pending <;> simp [hpending, hstage] at h
    have hended := b.ended timestamp
    generalize b.endRow timestamp = t at hended h
    cases hended with
    | raised fault' hpending hfault =>
        cases h
        exact ⟨hpending, htable, Value.encodeTimestamp_eq_fault_iff.1 hfault⟩
    | reported | missing | refused | endless | finished => cases h
  · rw [endRow_of_unwritable hpending htable hfault]

/-- The end of a row that returns has finished the row. -/
theorem Ended.of_ok (h : b.Ended timestamp t) (hok : t.2 = .ok ()) :
    t.1.Ready ∧ ∃ written, timestamp.encodeTimestamp = .ok written ∧
      t.1.bytes = b.bytes ++ written := by
  cases h with
  | finished written c hpending _ hwritten hc =>
      refine ⟨ready_commit ((pending_write? hc).trans hpending), written, hwritten, ?_⟩
      rw [bytes_commit, bytes_write? hc]
  | reported | missing | refused | raised | endless => cases hok

/-- The end of a row that fails with an error of its own has dropped the row. -/
theorem Ended.of_ne_ok (h : b.Ended timestamp t) (hends : t.2 ≠ .error .endless)
    (hnot : ∀ fault, t.2 ≠ .error (.fault fault)) (hfails : t.2 ≠ .ok ()) : t.1 = b.discard := by
  cases houtcome : t.2 with
  | ok => exact absurd houtcome hfails
  | error failure =>
      cases failure with
      | error e => exact h.eq_discard houtcome
      | fault fault => exact absurd houtcome (hnot fault)
      | endless => exact absurd houtcome hends

/-- Only a fault keeps a buffer from being ready. -/
theorem ready_endRow_iff_ne_fault (hends : (b.endRow timestamp).2 ≠ .error .endless) :
    (b.endRow timestamp).1.Ready ↔ ∀ fault, (b.endRow timestamp).2 ≠ .error (.fault fault) := by
  constructor
  · intro hready fault hfault
    obtain ⟨hpending, htable, hunwritable⟩ := endRow_eq_fault_iff.1 hfault
    rw [endRow_of_unwritable hpending htable hunwritable] at hready
    exact hready.not_hasTable htable
  · intro hnot
    have hended := b.ended timestamp
    by_cases hok : (b.endRow timestamp).2 = .ok ()
    · exact (hended.of_ok hok).1
    · rw [hended.of_ne_ok hends hnot hok]
      exact b.ready_discard

/-- The end of a row leaves a buffer ready for the next one, unless the row has a table and no error
and the timestamp cannot be written for a reason that is no error of the row.  Then this fault
passes through, and the buffer with its open row is what it was.  Otherwise the row is finished, or
it is dropped and the finished rows stay; and the next call that names a table begins a row. -/
theorem Reachable.ready_endRow_iff (h : Reachable size b) (timestamp : Value) :
    let t := b.endRow timestamp
    (size.Boundless → t.2 ≠ .error .endless) ∧
      (t.2 ≠ .error .endless →
        (t.1.Ready ↔ b.pending ≠ none ∨ ¬b.HasTable ∨ ∀ fault, ¬timestamp.Unwritable fault) ∧
        (∀ fault, b.pending = none → b.HasTable → timestamp.Unwritable fault →
          t = (b, .error (.fault fault))) ∧
        (t.1.Ready →
          (t.2 = .ok () → ∃ written, timestamp.encodeTimestamp = .ok written ∧
            t.1.bytes = b.bytes ++ written) ∧
          (t.2 ≠ .ok () → t.1.bytes = b.committed) ∧
          ∀ name, (t.1.apply (.table name)).2 ≠ .error .endless →
            (t.1.apply (.table name)).2 = .ok () ∧
              (t.1.apply (.table name)).1.contents = .opened t.1.committed name)) := by
  intro t
  have hended : b.Ended timestamp t := b.ended timestamp
  refine ⟨fun hsize => ((h.boundless hsize).endRow timestamp).2, fun hends => ⟨?_, ?_, ?_⟩⟩
  · rw [ready_endRow_iff_ne_fault hends]
    simp only [ne_eq, endRow_eq_fault_iff, not_and_or, forall_or_left]
  · exact fun _ => endRow_of_unwritable
  · intro hready
    have hnot := (ready_endRow_iff_ne_fault hends).1 hready
    refine ⟨fun hok => (hended.of_ok hok).2, fun hfails => ?_, fun name => ?_⟩
    · rw [hended.of_ne_ok hends hnot hfails, bytes_discard]
    · exact hready.apply_table (h.endRow timestamp) name

/-- A buffer with the table of a row. -/
def opening : Buffer := ((empty (.exact 8)).apply (.table (.text "t"))).1

theorem reachable_opening : Reachable (.exact 8) opening := .apply .empty _

theorem boundless_opening : (Capacity.exact 8).Boundless := by
  show (0 : Int) < 8
  decide

/-- Nanoseconds that are no number end the row like a negative timestamp, and the next row can
begin. -/
theorem ready_endRow_iff_nan :
    let t := opening.endRow (.nanos (.float ⟨0x7FF8000000000000⟩))
    t.1.bytes = [116, 10] ∧ t.1.Ready ∧
      (t.1.apply (.table (.text "u"))).1.contents = ⟨[116, 10], [117], .named, none⟩ := by
  intro t
  obtain ⟨hends, h⟩ := reachable_opening.ready_endRow_iff (.nanos (.float ⟨0x7FF8000000000000⟩))
  obtain ⟨hiff, -, hnext⟩ := h (hends boundless_opening)
  have hready : t.1.Ready := by
    refine hiff.2 (Or.inr (Or.inr fun fault hunwritable => ?_))
    rcases (Value.unwritable_nanos_iff.1 hunwritable).1 with hfault | ⟨n, hn, hsign, -⟩
    · contradiction
    · cases hn
      exact absurd hsign (by decide +kernel)
  obtain ⟨hok, -, htable⟩ := hnext hready
  have hreturns : t.2 = .ok () := by decide +kernel
  obtain ⟨written, hwritten, hbytes⟩ := hok hreturns
  obtain rfl : [10] = written := Except.ok.inj (Eq.trans (by decide +kernel) hwritten)
  have hcommitted : t.1.committed = [116, 10] := by decide +kernel
  have hbegun := (htable (.text "u") (by decide +kernel)).2
  rw [hcommitted] at hbegun
  refine ⟨hbytes.trans (by decide +kernel), hready, hbegun.trans ?_⟩
  rfl

/-- Not every end of a row leaves the buffer ready: a text is not compared with zero. -/
theorem not_ready_endRow_text :
    ¬∀ (size : Capacity) (b : Buffer) (timestamp : Value), size.Boundless → Reachable size b →
      (b.endRow timestamp).1.Ready := by
  intro hready
  have hfault : (Value.nanos (.text "abc")).Unwritable (.noComparison .atLeast "str") :=
    .unsigned rfl (by decide)
  have htable : opening.HasTable := by
    show opening.stage ≠ .start
    decide +kernel
  have h := hready (.exact 8) opening (.nanos (.text "abc")) boundless_opening reachable_opening
  rw [endRow_of_unwritable (by decide +kernel) htable hfault] at h
  exact h.not_hasTable htable

end Buffer

end LineProtocol
