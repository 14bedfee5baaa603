import LineProtocol.Proofs.Composing
/-!
# Rows in buffers

A reachable buffer turns calls and a timestamp into a finished row exactly if they
denote a record, whatever it holds already.  Hence the rows that a buffer
accepted can be read back from its bytes.
-/

namespace LineProtocol

namespace Buffer

/-- Applies calls up to the first that does not return. -/
def applyAll : List Call → Buffer → Buffer × Outcome
  | [], b => (b, .ok ())
  | call :: calls, b =>
    match b.apply call with
    | (b, .ok ()) => applyAll calls b
    | stuck => stuck

theorem applyAll_cons_of_ok {b c : Buffer} {call : Call} (h : b.apply call = (c, .ok ()))
    (calls : List Call) : b.applyAll (call :: calls) = c.applyAll calls := by
  rw [applyAll, h]

theorem applyAll_cons_of_error {b c : Buffer} {call : Call} {f : Failure}
    (h : b.apply call = (c, .error f)) (calls : List Call) :
    b.applyAll (call :: calls) = (c, .error f) := by
  rw [applyAll, h]

theorem contents_applyAll {b : Buffer} {calls : List Call}
    (h : (b.applyAll calls).2 ≠ .error .endless) :
    b.contents.applyAll calls = ((b.applyAll calls).1.contents, (b.applyAll calls).2) := by
  induction calls generalizing b with
  | nil => rfl
  | cons call calls ih =>
      rcases hstep : b.apply call with ⟨c, f | ⟨⟩⟩
      · rw [applyAll_cons_of_error hstep] at h ⊢
        have hends : (b.apply call).2 ≠ .error .endless := by
          rw [hstep]
          exact h
        have hcontents := contents_apply hends
        rw [hstep] at hcontents
        rw [Contents.applyAll, hcontents]
      · rw [applyAll_cons_of_ok hstep] at h ⊢
        have hends : (b.apply call).2 ≠ .error .endless := by
          rw [hstep]
          exact Outcome.ok_ne_endless
        have hcontents := contents_apply hends
        rw [hstep] at hcontents
        rw [Contents.applyAll, hcontents]
        exact ih h

theorem Boundless.applyAll {b : Buffer} (h : b.Boundless) (calls : List Call) :
    (b.applyAll calls).1.Boundless := by
  induction calls generalizing b with
  | nil => exact h
  | cons call calls ih =>
      have hc := (h.apply call).1
      rcases hstep : b.apply call with ⟨c, f | ⟨⟩⟩
      · rw [applyAll_cons_of_error hstep]
        rwa [hstep] at hc
      · rw [applyAll_cons_of_ok hstep]
        rw [hstep] at hc
        exact ih hc

/-- Calls and the timestamp after them, on a buffer and on its contents. -/
theorem contents_endRow_applyAll {b b' c : Buffer} {committed : Bytes} {calls : List Call}
    {timestamp : Value} {outcome : Outcome} (hb : b.contents = .between committed)
    (hcalls : b.applyAll calls = (b', .ok ())) (hended : b'.endRow timestamp = (c, outcome))
    (houtcome : outcome ≠ .error .endless) :
    ((Contents.between committed).applyAll calls).2 = .ok () ∧
      ((Contents.between committed).applyAll calls).1.endRow timestamp = (c.contents, outcome) := by
  have hcallsEnd : (b.applyAll calls).2 ≠ .error .endless := by
    rw [hcalls]
    exact Outcome.ok_ne_endless
  have hrowEnds : (b'.endRow timestamp).2 ≠ .error .endless := by
    rw [hended]
    exact houtcome
  have happlied := contents_applyAll hcallsEnd
  rw [hb, hcalls] at happlied
  have hresult := contents_endRow hrowEnds
  rw [hended] at hresult
  rw [happlied]
  exact ⟨rfl, hresult⟩

/-- The buffers that operations lead to from an empty buffer of the given size. -/
inductive Reachable (size : Capacity) : Buffer → Prop
  | empty : Reachable size (.empty size)
  | apply {b : Buffer} (h : Reachable size b) (call : Call) : Reachable size (b.apply call).1
  | endRow {b : Buffer} (h : Reachable size b) (timestamp : Value) :
      Reachable size (b.endRow timestamp).1
  | discard {b : Buffer} (h : Reachable size b) : Reachable size b.discard
  | clear {b : Buffer} (h : Reachable size b) : Reachable size b.clear
  | consume {b : Buffer} (h : Reachable size b) (n : Nat) : Reachable size (b.consume n)
  | shrink {b c : Buffer} (h : Reachable size b) (hc : b.shrink? = some c) : Reachable size c

namespace Reachable

variable {size : Capacity} {b : Buffer}

theorem boundless (hsize : size.Boundless) (h : Reachable size b) : b.Boundless := by
  induction h with
  | empty => exact boundless_empty hsize
  | apply _ call ih => exact (ih.apply call).1
  | endRow _ timestamp ih => exact (ih.endRow timestamp).1
  | discard _ ih => exact ih.discard
  | clear _ ih => exact ih.clear
  | consume _ n ih => exact ih.consume n
  | shrink _ hc ih =>
      obtain ⟨d, hd, hboundless⟩ := ih.exists_shrink?
      rw [hc] at hd
      cases hd
      exact hboundless

/-- No row in progress means none of its bytes either. -/
theorem row_eq_nil (h : Reachable size b) (hstage : b.stage = .start) : b.row = [] := by
  suffices hidle : b.contents.stage = .start → b.contents.row = [] from hidle hstage
  clear hstage
  induction h with
  | empty => exact fun _ => rfl
  | @apply b _ call ih =>
      rcases contents_apply_or b call with hsame | hcontents
      · rwa [hsame]
      · rw [hcontents]
        rcases b.contents.apply_cases call with hc | ⟨e, hc⟩ | ⟨data, hdata, hc⟩
        · rwa [hc]
        · rwa [hc]
        · rw [hc]
          exact fun hstart => absurd hstart (Call.next_ne_start hdata)
  | @endRow b _ timestamp ih =>
      rcases contents_endRow_or b timestamp with hsame | hcontents
      · rwa [hsame]
      · rw [hcontents]
        rcases b.contents.endRow_cases timestamp with ⟨f, hc⟩ | ⟨f, hc⟩ | ⟨data, -, hc⟩
        · rwa [hc]
        · rw [hc]
          exact fun _ => rfl
        · rw [hc]
          exact fun _ => rfl
  | discard => exact fun _ => rfl
  | clear => exact fun _ => rfl
  | consume _ n ih => exact ih
  | shrink _ hc ih =>
      obtain ⟨_, _, rfl⟩ := Option.map_eq_some_iff.1 hc
      exact ih

theorem contents_eq_between (h : Reachable size b) (hstage : b.stage = .start)
    (hpending : b.pending = none) : b.contents = .between b.committed := by
  simp [contents, Contents.between, h.row_eq_nil hstage, hstage, hpending]

/-- Between rows, a timestamp ends the calls before it as a row exactly if they are the calls of a
draft that denotes a record, which adds the line of the record and nothing else.  Otherwise the
finished rows stay as they were, and what is reported is the first refused call or, if there is
none, the missing table or the timestamp. -/
theorem endRow_applyAll (h : Reachable size b) (hstage : b.stage = .start)
    (hpending : b.pending = none) {calls : List Call} (hcalls : (b.applyAll calls).2 = .ok ())
    {timestamp : Value} {n : Int} (hn : timestamp.nanoseconds? = some n) :
    let ended := (b.applyAll calls).1.endRow timestamp
    (size.Boundless → ended.2 ≠ .error .endless) ∧
      (ended.2 ≠ .error .endless →
        (ended.2 = .ok () ↔ ∃ (d : Draft) (r : Record), calls = d.calls ∧ d.Denotes timestamp r) ∧
        (∀ (d : Draft) (r : Record), calls = d.calls → d.Denotes timestamp r →
          ended.1.contents = .between (b.committed ++ r.line)) ∧
        (ended.2 ≠ .ok () →
          ended.2 = .error (.error (.row (Contents.rowError calls))) ∧
          ended.1.contents = .between b.committed)) := by
  intro ended
  refine ⟨fun hsize => ((h.boundless hsize).applyAll calls |>.endRow timestamp).2, fun hends => ?_⟩
  have happlied : b.applyAll calls = ((b.applyAll calls).1, .ok ()) := Prod.ext rfl hcalls
  have hrow : (b.applyAll calls).1.endRow timestamp = (ended.1, ended.2) := Prod.ext rfl rfl
  obtain ⟨hreturns, hended⟩ :=
    contents_endRow_applyAll (h.contents_eq_between hstage hpending) happlied hrow hends
  by_cases hdenotes : ∃ (d : Draft) (r : Record), calls = d.calls ∧ d.Denotes timestamp r
  · have hline : ∀ (d : Draft) (r : Record), calls = d.calls → d.Denotes timestamp r →
        (ended.1.contents, ended.2) = (.between (b.committed ++ r.line), .ok ()) := by
      rintro d r rfl hr
      exact hended.symm.trans (Contents.endRow_of_denotes hreturns hn hr)
    obtain ⟨d, r, hd, hr⟩ := hdenotes
    have hok : ended.2 = .ok () := (Prod.mk.inj (hline d r hd hr)).2
    refine ⟨iff_of_true hok ⟨d, r, hd, hr⟩, ?_, fun hne => absurd hok hne⟩
    intro d r hd hr
    exact (Prod.mk.inj (hline d r hd hr)).1
  · have hnot : ∀ (d : Draft) (r : Record), calls = d.calls → ¬d.Denotes timestamp r :=
      fun d r hd hr => hdenotes ⟨d, r, hd, hr⟩
    have herror := hended.symm.trans (Contents.endRow_of_not_denotes hreturns hn hnot)
    obtain ⟨hcontents, houtcome⟩ := Prod.mk.inj herror
    refine ⟨iff_of_false ?_ hdenotes, fun d r hd hr => absurd hr (hnot d r hd), fun _ => ?_⟩
    · rw [houtcome]
      exact nofun
    · exact ⟨houtcome, hcontents⟩

/-- An integer column in a fresh buffer. -/
theorem endRow_applyAll_int_column :
    let calls : List Call := [.table (.text "t"), .typed .int (.text "a") (.int 5)]
    ∃ (d : Draft) (r : Record), calls = d.calls ∧ d.Denotes (.int 7) r := by
  intro calls
  have hcalls : ((Buffer.empty (.exact 8)).applyAll calls).2 = .ok () := by decide +kernel
  have hn : (Value.int 7).nanoseconds? = some 7 := rfl
  obtain ⟨-, hends⟩ := endRow_applyAll .empty rfl rfl hcalls hn
  have hended : (((Buffer.empty (.exact 8)).applyAll calls).1.endRow (.int 7)).2 = .ok () := by
    decide +kernel
  have hreturns : (((Buffer.empty (.exact 8)).applyAll calls).1.endRow (.int 7)).2 ≠
      .error .endless := by
    rw [hended]
    exact Outcome.ok_ne_endless
  exact (hends hreturns).1.1 hended

end Reachable

/-! ## Reading accepted rows back -/

def addRow (d : Draft) (timestamp : Value) (b : Buffer) : Buffer × Outcome :=
  match b.applyAll d.calls with
  | (b, .ok ()) => b.endRow timestamp
  | stuck => stuck

def addRows : List (Draft × Value) → Buffer → Buffer × Outcome
  | [], b => (b, .ok ())
  | (d, timestamp) :: rows, b =>
    match b.addRow d timestamp with
    | (b, .ok ()) => addRows rows b
    | stuck => stuck

variable {b c : Buffer} {committed : Bytes}

/-- An accepted row adds the line of a record that its draft denotes. -/
theorem exists_denotes_of_addRow (hb : b.contents = .between committed) {d : Draft}
    {timestamp : Value} {n : Int} (hn : timestamp.nanoseconds? = some n)
    (h : b.addRow d timestamp = (c, .ok ())) :
    ∃ r : Record, d.Denotes timestamp r ∧ c.contents = .between (committed ++ r.line) := by
  unfold addRow at h
  rcases happlied : b.applyAll d.calls with ⟨b', f | ⟨⟩⟩
  · rw [happlied] at h
    exact absurd (Prod.mk.inj h).2 nofun
  rw [happlied] at h
  obtain ⟨hreturns, hended⟩ := contents_endRow_applyAll hb happlied h Outcome.ok_ne_endless
  by_cases hdenotes : ∃ r : Record, d.Denotes timestamp r
  · obtain ⟨r, hr⟩ := hdenotes
    have hline := hended.symm.trans (Contents.endRow_of_denotes hreturns hn hr)
    exact ⟨r, hr, (Prod.mk.inj hline).1⟩
  · have hnot : ∀ (d' : Draft) (r : Record), d.calls = d'.calls → ¬d'.Denotes timestamp r := by
      intro d' r hd hr
      rw [← Draft.calls_injective hd] at hr
      exact hdenotes ⟨r, hr⟩
    have herror := hended.symm.trans (Contents.endRow_of_not_denotes hreturns hn hnot)
    exact absurd (Prod.mk.inj herror).2 nofun

theorem exists_records_of_addRows {rows : List (Draft × Value)}
    (hrows : ∀ row ∈ rows, ∃ n, row.2.nanoseconds? = some n)
    (hb : b.contents = .between committed) (h : b.addRows rows = (c, .ok ())) :
    ∃ rs : List Record, List.Forall₂ (fun row r => row.1.Denotes row.2 r) rows rs ∧
      c.contents = .between (committed ++ rs.flatMap Record.line) := by
  induction rows generalizing b committed with
  | nil =>
      cases h
      exact ⟨[], .nil, by simp [hb]⟩
  | cons row rows ih =>
      obtain ⟨d, timestamp⟩ := row
      unfold addRows at h
      rcases hadded : b.addRow d timestamp with ⟨b', f | ⟨⟩⟩
      · rw [hadded] at h
        exact absurd (Prod.mk.inj h).2 nofun
      rw [hadded] at h
      obtain ⟨n, hn⟩ := hrows (d, timestamp) (by simp)
      obtain ⟨r, hr, hb'⟩ := exists_denotes_of_addRow hb hn hadded
      obtain ⟨rs, hrs, hc⟩ := ih (fun row hrow => hrows row (by simp [hrow])) hb' h
      exact ⟨r :: rs, .cons hr hrs, by simp [hc]⟩

/-- The rows that a fresh buffer accepts are what a reader makes of its bytes: for every row a
record that it denotes, in order. -/
theorem readAll?_bytes_of_addRows {size : Capacity} {rows : List (Draft × Value)}
    (hrows : ∀ row ∈ rows, ∃ n, row.2.nanoseconds? = some n)
    (haccepted : ((Buffer.empty size).addRows rows).2 = .ok ()) :
    ∃ rs : List Record, Record.readAll? ((Buffer.empty size).addRows rows).1.bytes = some rs ∧
      List.Forall₂ (fun row r => row.1.Denotes row.2 r) rows rs := by
  have hempty : (Buffer.empty size).contents = .between [] := rfl
  have hadded : (Buffer.empty size).addRows rows =
      (((Buffer.empty size).addRows rows).1, .ok ()) := Prod.ext rfl haccepted
  obtain ⟨rs, hrs, hc⟩ := exists_records_of_addRows hrows hempty hadded
  refine ⟨rs, ?_, hrs⟩
  have hbytes : ((Buffer.empty size).addRows rows).1.bytes = rs.flatMap Record.line := by
    rw [← contents_bytes, hc]
    simp [Contents.bytes, Contents.between]
  rw [hbytes]
  exact Record.readAll?_flatMap_line <|
    forall_mem_of_forall₂ hrs fun _ _ hr => hr.toSays.writable

/-- A row whose names and values hold delimiters, and a row that is nothing but its table. -/
theorem readAll?_bytes_of_delimiters :
    let rows : List (Draft × Value) :=
      [(⟨.text "a b", [(.text "", .text "c,d=")], [⟨some .string, .text "e", .text "\""⟩]⟩, .int 5),
        (⟨.text "", [], []⟩, serverTime)]
    ∃ rs : List Record, Record.readAll? ((Buffer.empty (.exact 8)).addRows rows).1.bytes = some rs ∧
      List.Forall₂ (fun row r => row.1.Denotes row.2 r) rows rs := by
  intro rows
  have hrows : ∀ row ∈ rows, ∃ n, row.2.nanoseconds? = some n := by
    intro row hrow
    simp only [rows, List.mem_cons, List.not_mem_nil, or_false] at hrow
    rcases hrow with rfl | rfl
    · exact ⟨5, rfl⟩
    · exact ⟨-1, rfl⟩
  have haccepted : ((Buffer.empty (.exact 8)).addRows rows).2 = .ok () := by decide +kernel
  exact readAll?_bytes_of_addRows hrows haccepted

end Buffer

end LineProtocol
