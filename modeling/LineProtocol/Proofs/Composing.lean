import LineProtocol.Proofs.Contents
import LineProtocol.Proofs.Draft
/-!
# Composing rows

Calls followed by a timestamp make a finished row exactly if they are the calls
of a draft that denotes a record, and the row is then the line of that record.
Otherwise the row is discarded, and what it ends with is the error of the first
call that was refused.
-/

namespace LineProtocol

open Line

/-! ## The end of a line -/

theorem Value.timestamp_of_nanoseconds? {v : Value} {n : Int} (h : v.nanoseconds? = some n) :
    ∃ w, v.timestamp = .ok w ∧ w.number? = some (.int n) := by
  have hindex : ∀ v : Value, v.index = .ok n → (∀ w, v ≠ .nanos w) → (∀ m, v ≠ .moment m) →
      v.timestamp = .ok (.int n) := by
    intro v hv hnanos hmoment
    unfold timestamp
    split
    · exact absurd rfl (hnanos _)
    · exact absurd rfl (hmoment _)
    · contradiction
    · rw [hv]
  unfold nanoseconds? at h
  split at h
  · next w =>
    split at h
    · next m hm =>
      cases h
      exact ⟨w, rfl, hm⟩
    · contradiction
  · next m =>
    cases h
    exact ⟨.int m.nanoseconds, rfl, rfl⟩
  · next hnanos hmoment =>
    have hv : v.index = .ok n := by
      cases hv : v.index <;> rw [hv] at h <;> cases h
      rfl
    exact ⟨.int n, hindex v hv hnanos hmoment, rfl⟩

theorem Value.encodeTimestamp_of_nanoseconds? {v : Value} {n : Int}
    (h : v.nanoseconds? = some n) :
    v.encodeTimestamp =
      if 0 ≤ n then
        match Decimal.bytes? n with
        | none => .error (.error (.row (.badTimestamp .tooManyDigits)))
        | some bs => .ok (space :: bs ++ [newline])
      else .ok [newline] := by
  obtain ⟨w, hw, hnumber⟩ := timestamp_of_nanoseconds? h
  simp only [encodeTimestamp, hw, lineEnd, compared_of_number? hnumber, whole_of_number? hnumber,
    Number.isNonnegative, Number.truncate, decide_eq_true_eq]
  by_cases hn : 0 ≤ n
  · rw [if_pos hn, if_pos hn]
    cases Decimal.bytes? n with
    | none => rfl
    | some ds => rfl
  · rw [if_neg hn, if_neg hn]

theorem Value.encodeTimestamp_eq_ok_iff {v : Value} {n : Int} (h : v.nanoseconds? = some n)
    {bs : Bytes} :
    v.encodeTimestamp = .ok bs ↔ ∃ t, v.IsTimestamp t ∧ bs = Record.endBytes t := by
  rw [encodeTimestamp_of_nanoseconds? h]
  by_cases hn : 0 ≤ n
  · obtain ⟨k, rfl⟩ := Int.eq_ofNat_of_zero_le hn
    rw [if_pos hn]
    simp only [IsTimestamp, h, Option.some.injEq, exists_eq_left', if_pos hn, Int.toNat_natCast]
    cases hbytes : Decimal.bytes? k with
    | none =>
        have hprint : ¬Decimal.Printable k := fun hp => by
          rw [Decimal.bytes?_eq_some_iff.2 ⟨hp, rfl⟩] at hbytes
          contradiction
        simp [hprint]
    | some ds =>
        obtain ⟨hprint, rfl⟩ := Decimal.bytes?_eq_some_iff.1 hbytes
        simp [hprint, Record.endBytes, Record.timestampBytes, eq_comm]
  · rw [if_neg hn]
    simp only [IsTimestamp, h, Option.some.injEq, exists_eq_left', if_neg hn]
    simp [Record.endBytes, Record.timestampBytes, eq_comm]

/-! ## Refused calls -/

namespace Call

def refusal? (stage : Stage) (call : Call) : Option RowError :=
  match call.encode stage with
  | .error (.error (.row e)) => some e
  | _ => none

/-- The error of the first call that is refused. -/
def firstRefusal? : Stage → List Call → Option RowError
  | _, [] => none
  | stage, call :: calls => (call.refusal? stage).or (firstRefusal? (call.next stage) calls)

end Call

namespace Contents

/-- Applies calls up to the first that does not return. -/
def applyAll : List Call → Contents → Contents × Outcome
  | [], c => (c, .ok ())
  | call :: calls, c =>
    match c.apply call with
    | (c, .ok ()) => applyAll calls c
    | stuck => stuck

theorem apply_of_pending {c : Contents} {e : RowError} (h : c.pending = some e) (call : Call) :
    c.apply call = (c, .ok ()) := by
  simp [apply, h]

theorem applyAll_of_pending {c : Contents} {e : RowError} (h : c.pending = some e)
    (calls : List Call) : c.applyAll calls = (c, .ok ()) := by
  induction calls with
  | nil => rfl
  | cons call calls ih =>
      rw [applyAll, apply_of_pending h]
      exact ih

/-- Calls that all return either add what they encode or leave the error of the first that is
refused. -/
theorem applyAll_of_returns {c : Contents} (h : c.pending = none) {calls : List Call}
    (hreturns : (c.applyAll calls).2 = .ok ()) :
    (Call.firstRefusal? c.stage calls = none ∧ ∃ bs last,
        Call.encodeAll c.stage calls = .ok (bs, last) ∧
        (c.applyAll calls).1 = { c with row := c.row ++ bs, stage := last }) ∨
      ∃ e, Call.firstRefusal? c.stage calls = some e ∧
        (∀ bs last, Call.encodeAll c.stage calls ≠ .ok (bs, last)) ∧
        ∃ row stage, (c.applyAll calls).1 = ⟨c.committed, row, stage, some e⟩ := by
  induction calls generalizing c with
  | nil => exact Or.inl ⟨rfl, [], c.stage, rfl, by simp [applyAll]⟩
  | cons call calls ih =>
      cases hencode : call.encode c.stage with
      | error f =>
          rcases Call.isLocal_of_encode hencode with ⟨e, rfl⟩ | ⟨fault, rfl⟩
          · -- the first refused call
            have hstep : c.apply call = ({ c with pending := some e }, .ok ()) := by
              simp [apply, h, hencode]
            have hrest := applyAll_of_pending (c := { c with pending := some e }) rfl calls
            refine Or.inr ⟨e, by simp [Call.firstRefusal?, Call.refusal?, hencode], ?_,
              c.row, c.stage, by rw [applyAll, hstep]; simp [hrest]⟩
            intro bs last hall
            obtain ⟨data, -, hdata, -⟩ := Call.encodeAll_cons_eq_ok_iff.1 hall
            rw [hencode] at hdata
            contradiction
          · have hstep : c.apply call = (c, .error (.fault fault)) := by
              simp [apply, h, hencode]
            rw [applyAll, hstep] at hreturns
            contradiction
      | ok data =>
          let c' : Contents := { c with row := c.row ++ data, stage := call.next c.stage }
          have hstep : c.apply call = (c', .ok ()) := by
            simp [apply, h, hencode, c']
          have hall : c.applyAll (call :: calls) = c'.applyAll calls := by
            rw [applyAll, hstep]
          have hrefusal : Call.firstRefusal? c.stage (call :: calls) =
              Call.firstRefusal? (call.next c.stage) calls := by
            simp [Call.firstRefusal?, Call.refusal?, hencode]
          rw [hall] at hreturns ⊢
          rw [hrefusal]
          rcases ih (c := c') h hreturns with
            ⟨hnone, bs, last, hbs, hc⟩ | ⟨e, hsome, hnot, row, stage, hc⟩
          · refine Or.inl ⟨hnone, data ++ bs, last, ?_, ?_⟩
            · exact Call.encodeAll_cons_eq_ok_iff.2 ⟨data, bs, hencode, hbs, rfl⟩
            · rw [hc]
              simp [c']
          · refine Or.inr ⟨e, hsome, ?_, row, stage, hc⟩
            intro bs last hbs
            obtain ⟨-, rest, -, hrest, -⟩ := Call.encodeAll_cons_eq_ok_iff.1 hbs
            exact hnot rest last hrest

/-! ## The end of a row -/

/-- The error with which a row ends that denotes no record. -/
def rowError (calls : List Call) : RowError :=
  (Call.firstRefusal? .start calls).getD <|
    if calls = [] then .tableMissing else .badTimestamp .tooManyDigits

end Contents

theorem Call.next_ne_start {stage : Stage} {call : Call} {data : Bytes}
    (h : call.encode stage = .ok data) : call.next stage ≠ .start := by
  rcases exists_kind call with ⟨name, rfl⟩ | ⟨name, value, rfl⟩ | ⟨c, rfl⟩
  · exact nofun
  · obtain ⟨hstage, -⟩ := encode_symbol_eq_ok_iff.1 h
    rw [hstage]
    exact nofun
  · rw [next_column]
    exact nofun

theorem Call.last_ne_start {stage last : Stage} {calls : List Call} {bs : Bytes}
    (h : encodeAll stage calls = .ok (bs, last)) (hstage : calls = [] → stage ≠ .start) :
    last ≠ .start := by
  induction calls generalizing stage bs with
  | nil =>
      cases h
      exact hstage rfl
  | cons call calls ih =>
      obtain ⟨data, rest, hdata, hrest, -⟩ := encodeAll_cons_eq_ok_iff.1 h
      exact ih hrest fun _ => next_ne_start hdata

namespace Contents

variable {committed : Bytes} {calls : List Call} {timestamp : Value} {n : Int}

/-- The calls of a draft that denotes a record add the line of the record. -/
theorem endRow_of_denotes {d : Draft} {r : Record}
    (hreturns : ((between committed).applyAll d.calls).2 = .ok ())
    (hn : timestamp.nanoseconds? = some n) (hr : d.Denotes timestamp r) :
    ((between committed).applyAll d.calls).1.endRow timestamp =
      (between (committed ++ r.line), .ok ()) := by
  obtain ⟨last, hlast⟩ : ∃ last, Call.encodeAll .start d.calls = .ok (r.body, last) :=
    Draft.encodeAll_eq_ok_iff.2 ⟨d, rfl, r, hr.toSays, rfl⟩
  have hstage : last ≠ .start := Call.last_ne_start hlast nofun
  have hend : timestamp.encodeTimestamp = .ok (Record.endBytes r.timestamp) :=
    (Value.encodeTimestamp_eq_ok_iff hn).2 ⟨r.timestamp, hr.timestamp, rfl⟩
  rcases applyAll_of_returns rfl hreturns with ⟨-, bs, last', hbs, hc⟩ | ⟨e, -, hnot, -⟩
  · have heq : (bs, last') = (r.body, last) := Except.ok.inj (hbs.symm.trans hlast)
    cases heq
    rw [hc]
    simp [endRow, between, hstage, hend, Record.line_eq]
  · exact absurd hlast (hnot r.body last)

/-- Any other calls leave the finished rows as they were. -/
theorem endRow_of_not_denotes (hreturns : ((between committed).applyAll calls).2 = .ok ())
    (hn : timestamp.nanoseconds? = some n)
    (hnot : ∀ (d : Draft) (r : Record), calls = d.calls → ¬d.Denotes timestamp r) :
    ((between committed).applyAll calls).1.endRow timestamp =
      (between committed, .error (.error (.row (rowError calls)))) := by
  rcases applyAll_of_returns rfl hreturns with
    ⟨hnone, bs, last, hbs, hc⟩ | ⟨e, hsome, -, row, stage, hc⟩
  · cases calls with
    | nil => rfl
    | cons call calls =>
        have hstage : last ≠ .start := Call.last_ne_start hbs nofun
        obtain ⟨d, hd, r, ⟨htable, hsymbols, hcolumns⟩, rfl⟩ :=
          Draft.encodeAll_eq_ok_iff.1 ⟨last, hbs⟩
        have hend : timestamp.encodeTimestamp =
            .error (.error (.row (.badTimestamp .tooManyDigits))) := by
          cases hresult : timestamp.encodeTimestamp with
          | ok data =>
              obtain ⟨t, ht, -⟩ := (Value.encodeTimestamp_eq_ok_iff hn).1 hresult
              exact absurd ⟨⟨htable, hsymbols, hcolumns⟩, ht⟩
                (hnot d { r with timestamp := t } hd)
          | error f =>
              rw [Value.encodeTimestamp_of_nanoseconds? hn] at hresult
              split at hresult
              · split at hresult
                · exact hresult.symm
                · contradiction
              · contradiction
        have herror : rowError (call :: calls) = .badTimestamp .tooManyDigits := by
          have hfirst : Call.firstRefusal? .start (call :: calls) = none := hnone
          simp [rowError, hfirst]
        rw [hc, herror]
        simp [endRow, between, hstage, hend, discard]
  · have herror : rowError calls = e := by
      have hfirst : Call.firstRefusal? .start calls = some e := hsome
      simp [rowError, hfirst]
    rw [hc, herror]
    rfl

end Contents

end LineProtocol
