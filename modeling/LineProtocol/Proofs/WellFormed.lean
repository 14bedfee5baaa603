import LineProtocol.Proofs.Flushing
import LineProtocol.Proofs.Lines
import Mathlib.Data.List.DropRight
/-!
# Well-formed buffers

At any moment a buffer holds whole lines and then what the calls for the row in
progress have added so far, which is nothing before the first of them and holds no
newline.  The lines it ever held are those of the rows finished since all rows were
last dropped, and they are still there or were taken by connections.  So the
newlines in the buffer count the finished rows that were not taken to their end.
-/

namespace LineProtocol

open Line

/-! ## Rows in progress -/

namespace Call

variable {stage last : Stage} {calls : List Call} {bs : Bytes}

theorem encodeAll_concat {call : Call} {data : Bytes} (h : encodeAll stage calls = .ok (bs, last))
    (hcall : call.encode last = .ok data) :
    encodeAll stage (calls ++ [call]) = .ok (bs ++ data, call.next last) := by
  induction calls generalizing stage bs with
  | nil =>
      cases h
      exact encodeAll_cons_eq_ok_iff.2 ⟨data, [], hcall, rfl, (List.append_nil data).symm⟩
  | cons first calls ih =>
      obtain ⟨front, rest, hfirst, hrest, rfl⟩ := encodeAll_cons_eq_ok_iff.1 h
      exact encodeAll_cons_eq_ok_iff.2 ⟨front, rest ++ data, hfirst, ih hrest, List.append_assoc ..⟩

theorem newline_not_mem_of_encodeAll (h : encodeAll stage calls = .ok (bs, last)) :
    newline ∉ bs := by
  induction calls generalizing stage bs with
  | nil =>
      cases h
      exact List.not_mem_nil
  | cons call calls ih =>
      obtain ⟨data, rest, hdata, hrest, rfl⟩ := encodeAll_cons_eq_ok_iff.1 h
      have hcall := newline_not_mem_of_encode hdata
      exact fun hmem => (List.mem_append.1 hmem).elim hcall (ih hrest)

theorem eq_nil_of_encodeAll_start (h : encodeAll stage calls = .ok (bs, .start)) : bs = [] := by
  cases calls with
  | nil =>
      cases h
      rfl
  | cons call calls => exact absurd rfl (last_ne_start h nofun)

end Call

theorem atLineStart_drop {bs : Bytes} (h : AtLineStart bs) (n : Nat) : AtLineStart (bs.drop n) := by
  rcases h with rfl | ⟨front, rfl⟩
  · exact Or.inl List.drop_nil
  · by_cases hn : n ≤ front.length
    · exact Or.inr ⟨front.drop n, List.drop_append_of_le_length hn⟩
    · refine Or.inl (List.drop_eq_nil_of_le ?_)
      rw [List.length_append, List.length_singleton]
      omega

theorem IsLine.atLineStart_append {line : Bytes} (h : IsLine line) (bs : Bytes) :
    AtLineStart (bs ++ line) := by
  obtain ⟨body, -, rfl⟩ := h
  exact Or.inr ⟨bs ++ body, (List.append_assoc ..).symm⟩

namespace Buffer

/-- A table is named for the row in progress. -/
def HasTable (b : Buffer) : Prop := b.stage ≠ .start

/-- The row in progress has columns, and no more symbols may follow. -/
def HasColumns (b : Buffer) : Prop := b.stage = .columns

structure WellFormed (b : Buffer) : Prop where
  committed_le : b.committed.length ≤ b.bytes.length
  hasTable : b.HasColumns → b.HasTable
  /-- Before the table there is nothing of a row. -/
  committed_eq : ¬b.HasTable → b.committed.length = b.bytes.length
  lines : AtLineStart (b.bytes.take b.committed.length)
  newline_not_mem : newline ∉ b.bytes.drop b.committed.length
  /-- The row in progress is what some calls add, and it has come as far as they take it. -/
  composed : ∃ calls, Call.encodeAll .start calls =
    .ok (b.bytes.drop b.committed.length, b.stage)

namespace Reachable

variable {size : Capacity} {b : Buffer}

/-- The row in progress is made of the calls since the last row was ended. -/
theorem exists_calls (h : Reachable size b) :
    ∃ calls, Call.encodeAll .start calls = .ok (b.row, b.stage) := by
  suffices hcomposed : ∃ calls, Call.encodeAll .start calls =
      .ok (b.contents.row, b.contents.stage) from hcomposed
  have hnone : ∃ calls, Call.encodeAll .start calls = .ok ([], .start) := ⟨[], rfl⟩
  induction h with
  | empty => exact hnone
  | @apply b _ call ih =>
      rcases contents_apply_or b call with hsame | hcontents
      · rwa [hsame]
      · rw [hcontents]
        rcases b.contents.apply_cases call with hc | ⟨e, hc⟩ | ⟨data, hdata, hc⟩
        · rwa [hc]
        · rwa [hc]
        · obtain ⟨calls, hcalls⟩ := ih
          rw [hc]
          exact ⟨calls ++ [call], Call.encodeAll_concat hcalls hdata⟩
  | @endRow b _ timestamp ih =>
      rcases contents_endRow_or b timestamp with hsame | hcontents
      · rwa [hsame]
      · rw [hcontents]
        rcases b.contents.endRow_cases timestamp with ⟨f, hc⟩ | ⟨f, hc⟩ | ⟨data, -, hc⟩
        · rwa [hc]
        · rw [hc]
          exact hnone
        · rw [hc]
          exact hnone
  | discard => exact hnone
  | clear => exact hnone
  | consume _ n ih => exact ih
  | shrink _ hc ih =>
      obtain ⟨_, _, rfl⟩ := Option.map_eq_some_iff.1 hc
      exact ih

theorem newline_not_mem_row (h : Reachable size b) : newline ∉ b.row := by
  obtain ⟨calls, hcalls⟩ := h.exists_calls
  exact Call.newline_not_mem_of_encodeAll hcalls

/-- The finished rows end with a newline, however much of them was taken. -/
theorem atLineStart_committed (h : Reachable size b) : AtLineStart b.committed := by
  suffices hlines : AtLineStart b.contents.committed from hlines
  induction h with
  | empty => exact Or.inl rfl
  | @apply b _ call ih =>
      rcases contents_apply_or b call with hsame | hcontents
      · rwa [hsame]
      · rw [hcontents]
        rcases b.contents.apply_cases call with hc | ⟨e, hc⟩ | ⟨data, hdata, hc⟩
        · rwa [hc]
        · rwa [hc]
        · rwa [hc]
  | @endRow b hb timestamp ih =>
      rcases contents_endRow_or b timestamp with hsame | hcontents
      · rwa [hsame]
      · rw [hcontents]
        rcases b.contents.endRow_cases timestamp with ⟨f, hc⟩ | ⟨f, hc⟩ | ⟨data, hdata, hc⟩
        · rwa [hc]
        · rwa [hc]
        · rw [hc]
          have hline : IsLine (b.row ++ data) :=
            (Value.isLine_of_encodeTimestamp hdata).append hb.newline_not_mem_row
          exact hline.atLineStart_append b.committed
  | discard _ ih => exact ih
  | clear => exact Or.inl rfl
  | consume _ n ih => exact atLineStart_drop ih n
  | shrink _ hc ih =>
      obtain ⟨_, _, rfl⟩ := Option.map_eq_some_iff.1 hc
      exact ih

theorem wellFormed (h : Reachable size b) : b.WellFormed := by
  obtain ⟨calls, hcalls⟩ := h.exists_calls
  have hcommitted : b.bytes.take b.committed.length = b.committed := List.take_left
  have hrow : b.bytes.drop b.committed.length = b.row := List.drop_left
  refine ⟨?_, ?_, ?_, ?_, ?_, ⟨calls, ?_⟩⟩
  · rw [length_bytes]
    exact Nat.le_add_right _ _
  · intro hcolumns
    rw [HasTable, hcolumns]
    exact nofun
  · intro htable
    rw [HasTable, not_not] at htable
    rw [htable] at hcalls
    simp [bytes, Call.eq_nil_of_encodeAll_start hcalls]
  · rw [hcommitted]
    exact h.atLineStart_committed
  · rw [hrow]
    exact Call.newline_not_mem_of_encodeAll hcalls
  · rw [hrow]
    exact hcalls

end Reachable

end Buffer

/-! ## Counting rows -/

theorem count_newline_of_isLine {line : Bytes} (h : IsLine line) : line.count newline = 1 := by
  obtain ⟨body, hbody, rfl⟩ := h
  rw [List.count_append, List.count_eq_zero_of_not_mem hbody, List.count_singleton_self]

theorem count_newline_flatten {lines : List Bytes} (h : ∀ line ∈ lines, IsLine line) :
    lines.flatten.count newline = lines.length := by
  induction lines with
  | nil => rfl
  | cons line lines ih =>
      obtain ⟨hline, hlines⟩ := List.forall_mem_cons.1 h
      rw [List.flatten_cons, List.count_append, count_newline_of_isLine hline, ih hlines,
        List.length_cons, Nat.add_comm]

namespace Operation

def isClear : Operation → Bool
  | clear => true
  | _ => false

/-- The operations up to the last one that drops all rows. -/
def untilClear (ops : List Operation) : List Operation := ops.rdropWhile fun op => !op.isClear

/-- The operations after the last one that drops all rows. -/
def sinceClear (ops : List Operation) : List Operation := ops.rtakeWhile fun op => !op.isClear

theorem untilClear_append_sinceClear (ops : List Operation) :
    untilClear ops ++ sinceClear ops = ops :=
  List.rdropWhile_append_rtakeWhile

theorem ne_clear_of_mem_sinceClear {ops : List Operation} {op : Operation}
    (h : op ∈ sinceClear ops) : op ≠ clear := by
  have hkept := List.mem_rtakeWhile_imp h
  rintro rfl
  contradiction

theorem untilClear_eq_nil_or (ops : List Operation) :
    untilClear ops = [] ∨ ∃ before, untilClear ops = before ++ [clear] := by
  induction ops using List.reverseRecOn with
  | nil => exact Or.inl (List.rdropWhile_nil _)
  | append_singleton ops op ih =>
      cases op with
      | clear => exact Or.inr ⟨ops, List.rdropWhile_concat_neg _ _ _ (by decide)⟩
      | _ =>
          unfold untilClear
          rwa [List.rdropWhile_concat_pos _ _ _ rfl]

end Operation

namespace Sender

variable {s : Sender}

theorem run_append (front back : List Operation) (s : Sender) :
    s.run (front ++ back) = s.run front ++ (s.afterAll front).run back := by
  induction front generalizing s with
  | nil => rfl
  | cons op front ih =>
      show s.perform op :: (s.perform op).sender.run (front ++ back) = _
      rw [ih]
      rfl

theorem afterAll_append (front back : List Operation) (s : Sender) :
    s.afterAll (front ++ back) = (s.afterAll front).afterAll back :=
  List.foldl_append

theorem returns_append {front back : List Operation} :
    s.Returns (front ++ back) ↔ s.Returns front ∧ (s.afterAll front).Returns back := by
  simp [Returns, run_append, or_imp, forall_and]

/-- As long as rows are not dropped, what is finished is taken or still there. -/
theorem committed_append_lines {ops : List Operation}
    (hops : ∀ op ∈ ops, op.Regular ∧ op ≠ .clear) (hs : s.Regular) (hrow : newline ∉ s.buffer.row)
    (hreturns : s.Returns ops) :
    s.buffer.committed ++ (s.lines ops).flatten =
        s.delivered ops ++ (s.afterAll ops).buffer.committed ∧
      ∀ line ∈ s.lines ops, IsLine line := by
  induction ops generalizing s with
  | nil => exact ⟨List.append_nil _, List.forall_mem_nil _⟩
  | cons op ops ih =>
      obtain ⟨⟨hregular, hclear⟩, htail⟩ := List.forall_mem_cons.1 hops
      obtain ⟨hends, hrest⟩ := returns_cons.1 hreturns
      have hstep := perform_delivers hregular s
      have hcontents := hstep.contents hs hends
      obtain ⟨hfollow, hlines⟩ := committed_follow hclear hrow hends
      have hfree : newline ∉ (s.perform op).sender.buffer.row := by
        have hfollowed := op.newline_not_mem_row_follow (c := s.buffer.contents) hrow
        rw [hcontents] at hfollowed
        exact hfollowed
      obtain ⟨heq, hall⟩ := ih htail (hstep.regular hs) hfree hrest
      refine ⟨?_, ?_⟩
      · calc s.buffer.committed ++ (s.finished op ++ (s.perform op).sender.lines ops).flatten
            = (op.follow s.buffer.contents).committed ++
                ((s.perform op).sender.lines ops).flatten := by
              rw [List.flatten_append, ← List.append_assoc, hfollow]
          _ = (s.perform op).taken ++ ((s.perform op).sender.buffer.committed ++
                ((s.perform op).sender.lines ops).flatten) := by
              rw [hcontents]
              exact List.append_assoc ..
          _ = (s.perform op).taken ++ ((s.perform op).sender.delivered ops ++
                ((s.perform op).sender.afterAll ops).buffer.committed) := by
              rw [heq]
          _ = s.delivered (op :: ops) ++ (s.afterAll (op :: ops)).buffer.committed :=
              (List.append_assoc ..).symm
      · intro line hline
        exact (List.mem_append.1 hline).elim (hlines line) (hall line)

/-- The buffer of a sender is well-formed after any operations; and as many newlines are in it as
rows were finished since all rows were last dropped, less the newlines that connections took since
then.  If the size of the buffer is an integer, every operation comes to an end. -/
theorem wellFormed_afterAll {address size : Value} {clock : Binary64} {s : Sender}
    (hs : (create address size clock).1 = .ok s) {ops : List Operation}
    (hops : ∀ op ∈ ops, op.Regular) :
    (s.afterAll ops).buffer.WellFormed ∧
      (∀ k, size = .int k → s.Returns ops) ∧
      (s.Returns ops →
        let cleared := s.afterAll (Operation.untilClear ops)
        let recent := Operation.sinceClear ops
        (s.afterAll ops).buffer.bytes.count newline + (cleared.delivered recent).count newline =
          (cleared.lines recent).length) := by
  obtain ⟨⟨c, hbuffer, hboundless⟩, hconnection⟩ := of_create hs
  obtain ⟨_, -, -, hreachable⟩ := reachable_of_create hs
  refine ⟨(hreachable ops).wellFormed, fun k hk => ?_, fun hreturns => ?_⟩
  · apply returns_of_boundless hops
    rw [hbuffer]
    exact Buffer.boundless_empty (hboundless k hk)
  · intro cleared recent
    have hsplit : Operation.untilClear ops ++ recent = ops :=
      Operation.untilClear_append_sinceClear ops
    have hnone : cleared.buffer.committed = [] := by
      show (s.afterAll (Operation.untilClear ops)).buffer.committed = []
      rcases Operation.untilClear_eq_nil_or ops with hnil | ⟨before, hbefore⟩
      · rw [hnil]
        show s.buffer.committed = []
        rw [hbuffer]
        rfl
      · rw [hbefore, afterAll_concat]
        rfl
    have hregular : s.Regular := by
      intro connection hc
      rw [hconnection] at hc
      contradiction
    rw [← hsplit] at hops hreturns
    have hfirst : ∀ op ∈ Operation.untilClear ops, op.Regular :=
      fun op hop => hops op (List.mem_append_left _ hop)
    have hlater : ∀ op ∈ recent, op.Regular ∧ op ≠ .clear := fun op hop =>
      ⟨hops op (List.mem_append_right _ hop), Operation.ne_clear_of_mem_sinceClear hop⟩
    obtain ⟨heq, hlines⟩ := committed_append_lines hlater (regular_afterAll hfirst hregular)
      (hreachable _).newline_not_mem_row (returns_append.1 hreturns).2
    have hafter : cleared.afterAll recent = s.afterAll ops := by
      rw [← afterAll_append, hsplit]
    rw [hnone, List.nil_append, hafter] at heq
    have hcount : (cleared.delivered recent).count newline +
        (s.afterAll ops).buffer.committed.count newline = (cleared.lines recent).length := by
      rw [← List.count_append, ← heq, count_newline_flatten hlines]
    have hrow : (s.afterAll ops).buffer.row.count newline = 0 :=
      List.count_eq_zero_of_not_mem (hreachable ops).newline_not_mem_row
    rw [Buffer.bytes, List.count_append]
    omega

/-- A row that was dropped, one of which the connection took the first byte, and one in progress. -/
def interrupted : List Operation :=
  [.build (.table (.text "s")), .endRow Buffer.serverTime .null none, .clear,
    .connect .null (.ok .lost), .build (.table (.text "t")), .endRow Buffer.serverTime .null none,
    .flush .null none, .build (.table (.text "u"))]

theorem regular_interrupted : ∀ op ∈ interrupted, op.Regular := by
  intro op hop
  simp only [interrupted, List.mem_cons, List.not_mem_nil, or_false] at hop
  rcases hop with rfl | rfl | rfl | rfl | rfl | rfl | rfl | rfl
  case inr.inr.inr.inl => exact Connection.regular_lost
  all_goals trivial

theorem wellFormed_afterAll_interrupted :
    let cleared := fresh.afterAll (Operation.untilClear interrupted)
    let recent := Operation.sinceClear interrupted
    let b := (fresh.afterAll interrupted).buffer
    b.bytes = [newline, 117] ∧ b.WellFormed ∧
      b.bytes.count newline + (cleared.delivered recent).count newline =
        (cleared.lines recent).length := by
  obtain ⟨hwellFormed, hreturns, hcount⟩ := wellFormed_afterAll create_fresh regular_interrupted
  exact ⟨by decide +kernel, hwellFormed, hcount (hreturns 64 rfl)⟩

end Sender

end LineProtocol
