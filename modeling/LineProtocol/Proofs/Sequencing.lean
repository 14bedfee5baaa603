import LineProtocol.Proofs.Calls
/-!
# Calls before the table

A symbol or a column that comes before the table of its row is out of sequence, and the
end of the row says so.  A symbol misses the table whatever its arguments are, and the
name of a column never hides that the table is missing.  The value of a column is looked
at first, however, so a value that the column does not take is reported instead.
-/

namespace LineProtocol

/-! ## Values that a column does not take -/

/-- Why a column of a given type does not take a value. -/
inductive ColumnKind.Refuses : ColumnKind → Value → RowError → Prop
  | int {v : Value} {fault : Fault} (h : v.index = .error fault)
      (hfault : fault.kind.family = .wrongType) : Refuses .int v (.wrongKind .int v.typeName)
  | float {v : Value} (h : v.readFloat = .notANumber) :
      Refuses .float v (.wrongKind .float v.typeName)
  | string {v : Value} (h : v.text? = none) : Refuses .string v (.wrongKind .string v.typeName)
  | bool {v : Value} (h : v.truth? = none) : Refuses .bool v (.wrongKind .bool v.typeName)
  | tooLong {v : Value} {n : Int} (h : v.index = .ok n) (hn : ¬Decimal.Printable n) :
      Refuses .int v .integerTooLong
  | unconvertible {v : Value} {fault : Fault} (h : v.readFloat = .failed fault)
      (hfault : IsConversionFault fault) : Refuses .float v (.unconvertible v.typeName fault)
  /-- A text with a surrogate or a line break. -/
  | unwritable {v : Value} {t : Text} {e : RowError} (h : v.text? = some t)
      (he : Line.escapeQuoted v = .error e) : Refuses .string v e

/-- A column whose value is refused, which hides that the table is missing. -/
def Call.Hides (e : RowError) : Call → Prop
  | typed kind _ value => kind.Refuses value e
  | column _ value =>
    match value.columnKind? with
    | none => e = .noColumnKind value.typeName
    | some kind => kind.Refuses value e
  | _ => False

namespace Line

theorem byteError?_ne_tableMissing (role : TextRole) (shown : Text) (b : UInt8) :
    byteError? role shown b ≠ some .tableMissing := by
  unfold byteError?
  repeat' split
  all_goals exact nofun

theorem escapeText_ne_tableMissing (role : TextRole) (special : Bytes) (v : Value) :
    escapeText role special v ≠ .error .tableMissing := by
  intro h
  rcases bind_eq_error_iff.1 h with hencode | ⟨bs, -, hbytes⟩
  · unfold encodeText at hencode
    split at hencode
    · cases hencode
    · next t _ => cases hrun : t.encode <;> rw [hrun] at hencode <;> cases hencode
  · split at hbytes
    · next e he =>
      cases hbytes
      obtain ⟨b, -, hb⟩ := List.exists_of_findSome?_eq_some he
      exact byteError?_ne_tableMissing _ _ _ hb
    · cases hbytes

end Line

namespace ColumnKind

theorem Refuses.ne_tableMissing {kind : ColumnKind} {v : Value} {e : RowError}
    (h : kind.Refuses v e) : e ≠ .tableMissing := by
  rintro rfl
  cases h with
  | unwritable _ he => exact Line.escapeText_ne_tableMissing _ _ _ he

theorem encode_eq_error_iff {kind : ColumnKind} {v : Value} {e : RowError} :
    kind.encode v = .error (.error (.row e)) ↔ kind.Refuses v e := by
  constructor
  · intro h
    cases kind with
    | int =>
        simp only [encode, encodeInt] at h
        split at h
        · next hindex =>
          split at h
          · next hfault =>
            cases h
            exact .int hindex hfault
          · cases h
        · next n hn =>
          split at h
          · next hbytes =>
            cases h
            refine .tooLong hn fun hprint => ?_
            rw [Decimal.bytes?_eq_some_iff.2 ⟨hprint, rfl⟩] at hbytes
            cases hbytes
          · cases h
    | float =>
        simp only [encode, encodeFloat] at h
        split at h
        · next hnot =>
          cases h
          exact .float hnot
        · next fault hfailed =>
          split at h
          · next hfault =>
            cases h
            exact .unconvertible hfailed hfault
          · cases h
        · cases h
    | string =>
        simp only [encode, encodeString] at h
        split at h
        · next hnone =>
          cases h
          exact .string hnone
        · next t ht =>
          split at h
          · next e' he =>
            cases h
            exact .unwritable ht he
          · cases h
    | bool =>
        simp only [encode, encodeBool] at h
        split at h
        · next hnone =>
          cases h
          exact .bool hnone
        · cases h
  · intro h
    cases h with
    | int h hfault => simp only [encode, encodeInt, h, if_pos hfault]
    | float h | string h | bool h =>
        simp only [encode, encodeFloat, encodeString, encodeBool, h]
    | tooLong h hn =>
        have hnone : Decimal.bytes? _ = none := Option.eq_none_iff_forall_ne_some.2 fun bs hbs =>
          hn (Decimal.bytes?_eq_some_iff.1 hbs).1
        simp only [encode, encodeInt, h, hnone]
    | unconvertible h hfault => simp only [encode, encodeFloat, h, if_pos hfault]
    | unwritable h he => simp only [encode, encodeString, h, he]

end ColumnKind

/-! ## What a call leaves behind -/

namespace Call

variable {call : Call} {e : RowError}

theorem Hides.ne_tableMissing (h : call.Hides e) : e ≠ .tableMissing := by
  cases call with
  | table | symbol => exact h.elim
  | typed kind name value => exact ColumnKind.Refuses.ne_tableMissing h
  | column name value =>
      simp only [Hides] at h
      split at h
      · rw [h]
        exact nofun
      · exact h.ne_tableMissing

theorem encodeColumn_of_refuses {kind : ColumnKind} {value : Value} (h : kind.Refuses value e)
    (stage : Stage) (name : Value) :
    encodeColumn stage kind name value = .error (.error (.row e)) :=
  bind_eq_error_iff.2 (Or.inl (ColumnKind.encode_eq_error_iff.2 h))

/-- Without a table, a column whose value is taken finds the table missing, whatever its name is. -/
theorem encodeColumn_start {kind : ColumnKind} {value : Value} (hhides : ∀ e, ¬kind.Refuses value e)
    (hraises : ∀ fault, kind.encode value ≠ .error (.fault fault)) (name : Value) :
    encodeColumn .start kind name value = .error (.error (.row .tableMissing)) := by
  refine bind_eq_error_iff.2 (Or.inr ?_)
  cases hencode : kind.encode value with
  | ok bs => exact ⟨bs, rfl, rfl⟩
  | error f =>
      rcases ColumnKind.isLocal_of_encode hencode with ⟨e, rfl⟩ | ⟨fault, rfl⟩
      · exact absurd (ColumnKind.encode_eq_error_iff.1 hencode) (hhides e)
      · exact absurd hencode (hraises fault)

/-- A value that is refused is refused wherever the row has come to. -/
theorem encode_of_hides (h : call.Hides e) (stage : Stage) :
    call.encode stage = .error (.error (.row e)) := by
  cases call with
  | table | symbol => exact h.elim
  | typed kind name value => exact encodeColumn_of_refuses h stage name
  | column name value =>
      cases hkind : value.columnKind? with
      | none =>
          simp only [Hides, hkind] at h
          simp only [encode, hkind, h]
      | some kind =>
          simp only [Hides, hkind] at h
          simp only [encode, hkind]
          exact encodeColumn_of_refuses h stage name

/-- Without a table, a call that hides nothing finds the table missing. -/
theorem encode_start (htable : ∀ name, call ≠ .table name) (hraises : ∀ fault, ¬call.Raises fault)
    (hhides : ∀ e, ¬call.Hides e) : call.encode .start = .error (.error (.row .tableMissing)) := by
  have hfault : ∀ fault, call.encode .start ≠ .error (.fault fault) := fun fault h =>
    hraises fault (encode_eq_fault_iff.1 h)
  cases call with
  | table name => exact absurd rfl (htable name)
  | symbol name value => rfl
  | typed kind name value =>
      simp only [encode, ne_eq, encodeColumn_eq_fault_iff] at hfault
      exact encodeColumn_start hhides hfault name
  | column name value =>
      cases hkind : value.columnKind? with
      | none =>
          simp only [Hides, hkind] at hhides
          exact absurd rfl (hhides (.noColumnKind value.typeName))
      | some kind =>
          simp only [Hides, hkind] at hhides
          simp only [encode, hkind, ne_eq, encodeColumn_eq_fault_iff] at hfault ⊢
          exact encodeColumn_start hhides hfault name

end Call

/-! ## The report at the end of the row -/

namespace Buffer

variable {size : Capacity} {b : Buffer} {call : Call} {e : RowError}

theorem applyAll_of_pending (h : b.pending = some e) (calls : List Call) :
    b.applyAll calls = (b, .ok ()) := by
  induction calls with
  | nil => rfl
  | cons call calls ih => rw [applyAll_cons_of_ok (apply_of_pending h call), ih]

/-- Once a call is refused, the end of the row reports its error, whatever comes in between. -/
theorem endRow_applyAll_of_refused (hpending : b.pending = none)
    (hrefused : call.encode b.stage = .error (.error (.row e))) (calls : List Call)
    (timestamp : Value) :
    (b.applyAll (call :: calls)).2 = .ok () ∧
      (b.applyAll (call :: calls)).1.endRow timestamp = (b.discard, .error (.error (.row e))) := by
  have happlied : b.apply call = ({ b with pending := some e }, .ok ()) := by
    simp [apply, hpending, hrefused]
  rw [applyAll_cons_of_ok happlied, applyAll_of_pending rfl]
  exact ⟨rfl, rfl⟩

theorem Reachable.discard_eq (h : Reachable size b) (hstage : b.stage = .start)
    (hpending : b.pending = none) : b.discard = b := by
  obtain ⟨initialSize, capacity, committed, row, stage, pending⟩ := b
  obtain rfl : row = [] := h.row_eq_nil hstage
  obtain rfl : stage = .start := hstage
  obtain rfl : pending = none := hpending
  rfl

/-- In a row without a table and without an error, a symbol or a column that returns ends the row
with an error, whatever calls and whatever timestamp follow, and the buffer is what it was before.
The error is that the table is missing, unless the call is a column that does not take its value:
then it is what is wrong with the value. -/
theorem Reachable.endRow_before_table (h : Reachable size b) (hstage : b.stage = .start)
    (hpending : b.pending = none) (htable : ∀ name, call ≠ .table name)
    (hraises : ∀ fault, ¬call.Raises fault) (calls : List Call) (timestamp : Value) :
    let t := b.applyAll (call :: calls)
    t.2 = .ok () ∧ (t.1.endRow timestamp).1 = b ∧
      ((t.1.endRow timestamp).2 = .error (.error (.row .tableMissing)) ↔ ∀ e, ¬call.Hides e) ∧
      ∀ e, call.Hides e → (t.1.endRow timestamp).2 = .error (.error (.row e)) := by
  intro t
  have hended : ∀ e, call.encode .start = .error (.error (.row e)) →
      t.2 = .ok () ∧ t.1.endRow timestamp = (b, .error (.error (.row e))) := by
    intro e he
    have hrefused := endRow_applyAll_of_refused hpending (hstage ▸ he) calls timestamp
    rwa [h.discard_eq hstage hpending] at hrefused
  by_cases hhides : ∃ e, call.Hides e
  · obtain ⟨e, he⟩ := hhides
    obtain ⟨hreturns, hend⟩ := hended e (Call.encode_of_hides he .start)
    rw [hend]
    refine ⟨hreturns, rfl, iff_of_false ?_ fun hnot => hnot e he, fun e' he' => ?_⟩
    · intro hmissing
      cases hmissing
      exact he.ne_tableMissing rfl
    · exact congrArg Prod.snd (hend.symm.trans (hended e' (Call.encode_of_hides he' .start)).2)
  · have hnot := not_exists.1 hhides
    obtain ⟨hreturns, hend⟩ := hended _ (Call.encode_start htable hraises hnot)
    rw [hend]
    exact ⟨hreturns, rfl, iff_of_true rfl hnot, fun e he => absurd he (hnot e)⟩

/-- Neither a bad name nor the calls and the timestamp after it hide that the table is missing. -/
theorem endRow_before_table_named :
    let call : Call := .typed .int (.text "a.b") (.int 5)
    let t := (Buffer.empty (.exact 8)).applyAll [call, .table (.text "t"), .column .null .null]
    t.2 = .ok () ∧
      t.1.endRow .null = (Buffer.empty (.exact 8), .error (.error (.row .tableMissing))) := by
  intro call t
  have htable : ∀ name, call ≠ .table name := nofun
  have hraises : ∀ fault, ¬call.Raises fault := by
    rintro fault ⟨h, -⟩
    cases h
  have hhides : ∀ e, ¬call.Hides e := by
    intro e he
    have hnone := (ColumnKind.encode_eq_error_iff.2 he).symm.trans
      (show ColumnKind.int.encode (.int 5) = .ok [53, 105] by decide +kernel)
    cases hnone
  obtain ⟨hreturns, hsame, hmissing, -⟩ := Reachable.empty.endRow_before_table rfl rfl htable
    hraises [.table (.text "t"), .column .null .null] .null
  exact ⟨hreturns, Prod.ext hsame (hmissing.2 hhides)⟩

/-- A text with a line break hides that the table is missing. -/
theorem not_tableMissing_newline :
    ¬∀ (size : Capacity) (b : Buffer) (call : Call) (timestamp : Value), size.Boundless →
      Reachable size b → b.stage = .start → b.pending = none → (∀ name, call ≠ .table name) →
      (∀ fault, ¬call.Raises fault) →
      ((b.apply call).1.endRow timestamp).2 = .error (.error (.row .tableMissing)) := by
  intro hmissing
  have h := hmissing (.exact 8) (.empty (.exact 8)) (.typed .string (.text "x") (.text "a\nb"))
    serverTime (show (0 : Int) < 8 by decide) .empty rfl rfl nofun nofun
  revert h
  decide +kernel

end Buffer

end LineProtocol
