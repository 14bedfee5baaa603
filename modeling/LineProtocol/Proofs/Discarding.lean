import LineProtocol.Proofs.Calls
import LineProtocol.Proofs.Flushing
/-!
# Rows that leave no trace

A row that ends with an error of its own leaves the buffer as it was before the
row, except that the capacity may have grown for it.  The capacity that the row
left behind is one that the buffer without the row would have reached on its way to
some size.  That lasts: a later write grows both to the same capacity or leaves the
one ahead, and a flush brings both back to the same doubling of the first size.  No
result and no event depends on the capacity, so the two are never told apart.
-/

namespace LineProtocol

namespace Buffer

/-! ## Buffers that differ in their room -/

/-- The same buffer, but for a capacity that holds whatever the other holds. -/
structure Roomier (b c : Buffer) : Prop where
  same : c = { b with capacity := c.capacity }
  fits : ∀ size, b.capacity.fits size = true → c.capacity.fits size = true

/-- A buffer whose growth is not cut short. -/
structure Discrete (b : Buffer) : Prop where
  initialSize : b.initialSize.Discrete
  capacity : b.capacity.Discrete

/-- The same buffer, but for a capacity that may have grown before. -/
structure Ahead (b c : Buffer) : Prop where
  discrete : b.Discrete
  capacity : b.capacity.Ahead c.capacity
  same : c = { b with capacity := c.capacity }

variable {b c : Buffer} {call : Call} {timestamp : Value} {t : Buffer × Outcome}

theorem Grows.discrete (h : b.Grows c) (hb : b.Discrete) : c.Discrete := by
  rcases h with ⟨hsize, hcapacity⟩ | ⟨n, hd, hsize⟩
  · exact ⟨hsize ▸ hb.initialSize, hcapacity ▸ hb.capacity⟩
  · rw [hb.initialSize.afterGrowth] at hsize
    exact ⟨hsize ▸ hb.initialSize, hb.capacity.of_grow hd⟩

theorem Reachable.discrete {size : Capacity} (h : Reachable size b) (hsize : size.Discrete) :
    b.Discrete := by
  have hrooms : b.initialSize.Discrete ∧ b.capacity.Discrete := by
    refine h.rooms (P := fun first c => first.Discrete ∧ c.Discrete) ⟨hsize, hsize⟩ ?_ ?_
      (fun _ _ hfirst => ⟨hfirst.1, hfirst.1⟩)
    · rintro first c n d ⟨hfirst, hc⟩ hd
      rw [hfirst.afterGrowth]
      exact ⟨hfirst, hc.of_grow hd⟩
    · rintro first c n d ⟨hfirst, -⟩ hd
      exact ⟨hfirst, hfirst.of_grow hd⟩
  exact ⟨hrooms.1, hrooms.2⟩

namespace Ahead

theorem refl (h : b.Discrete) : b.Ahead b := ⟨h, Or.inl rfl, rfl⟩

theorem roomier (h : b.Ahead c) : b.Roomier c := ⟨h.same, fun _ => h.capacity.fits⟩

theorem exists_eq (h : b.Ahead c) : ∃ d, c = { b with capacity := d } := ⟨_, h.same⟩

/-- What has nothing to do with capacities keeps one buffer ahead of the other. -/
theorem map (h : b.Ahead c) {f : Buffer → Buffer}
    (hf : ∀ b d, f { b with capacity := d } = { f b with capacity := d })
    (hsize : ∀ b, (f b).initialSize = b.initialSize)
    (hcapacity : ∀ b, (f b).capacity = b.capacity) : (f b).Ahead (f c) := by
  refine ⟨⟨?_, ?_⟩, ?_, ?_⟩
  · rw [hsize]
    exact h.discrete.initialSize
  · rw [hcapacity]
    exact h.discrete.capacity
  · rw [hcapacity, hcapacity]
    exact h.capacity
  · rw [hcapacity, ← hf, ← h.same]

theorem discard (h : b.Ahead c) : b.discard.Ahead c.discard :=
  h.map (fun _ _ => rfl) (fun _ => rfl) (fun _ => rfl)

theorem consume (h : b.Ahead c) (n : Nat) : (b.consume n).Ahead (c.consume n) :=
  h.map (fun _ _ => rfl) (fun _ => rfl) (fun _ => rfl)

theorem clear (h : b.Ahead c) : b.clear.Ahead c.clear := by
  obtain ⟨d, rfl⟩ := h.exists_eq
  exact refl ⟨h.discrete.initialSize, h.discrete.initialSize⟩

/-- Shrinking starts over from the first size, and so catches up. -/
theorem shrink? (h : b.Ahead c) : c.shrink? = b.shrink? := by
  obtain ⟨d, rfl⟩ := h.exists_eq
  rfl

theorem write? (h : b.Ahead c) (data : Bytes) :
    b.write? data = none ∧ c.write? data = none ∨
      ∃ b' c', b.write? data = some b' ∧ c.write? data = some c' ∧ b'.Ahead c' := by
  obtain ⟨d, rfl⟩ := h.exists_eq
  rcases h.capacity.grow h.discrete.capacity (b.size + data.length) with
    ⟨hb, hc⟩ | ⟨b', c', hb, hc, hahead⟩
  · exact Or.inl ⟨congrArg (Option.map _) hb, congrArg (Option.map _) hc⟩
  · have hwrite : b.write? data = some { b.grow b' with row := b.row ++ data } :=
      congrArg (Option.map _) hb
    have hdiscrete := (grows_write? hwrite).discrete h.discrete
    refine Or.inr ⟨_, _, hwrite, congrArg (Option.map _) hc, hdiscrete, hahead, ?_⟩
    simp [grow, h.discrete.initialSize.afterGrowth]

theorem apply (h : b.Ahead c) (call : Call) :
    (b.apply call).1.Ahead (c.apply call).1 ∧ (c.apply call).2 = (b.apply call).2 := by
  have hwrite := h.write?
  -- what a call branches on, up to the write, does not depend on `d`
  obtain ⟨d, rfl⟩ := h.exists_eq
  unfold Buffer.apply
  dsimp only
  by_cases hpending : b.pending.isSome = true
  · rw [if_pos hpending, if_pos hpending]
    exact ⟨h, rfl⟩
  · rw [if_neg hpending, if_neg hpending]
    cases hencode : call.encode b.stage with
    | error f =>
        rcases Call.isLocal_of_encode hencode with ⟨e, rfl⟩ | ⟨fault, rfl⟩
        · have hrefused := h.map (f := fun b => { b with pending := some e }) (fun _ _ => rfl)
            (fun _ => rfl) (fun _ => rfl)
          exact ⟨hrefused, rfl⟩
        · exact ⟨h, rfl⟩
    | ok data =>
        dsimp only
        rcases hwrite data with ⟨hb, hc⟩ | ⟨b', c', hb, hc, hahead⟩
        · rw [hb, hc]
          exact ⟨h, rfl⟩
        · have hadded := hahead.map (f := fun b => { b with stage := call.next b.stage })
            (fun _ _ => rfl) (fun _ => rfl) (fun _ => rfl)
          rw [hb, hc]
          exact ⟨hadded, rfl⟩

theorem endRow (h : b.Ahead c) (timestamp : Value) :
    (b.endRow timestamp).1.Ahead (c.endRow timestamp).1 ∧
      (c.endRow timestamp).2 = (b.endRow timestamp).2 := by
  have hwrite := h.write?
  have hdiscard := h.discard
  obtain ⟨d, rfl⟩ := h.exists_eq
  obtain ⟨initialSize, capacity, committed, row, stage, pending⟩ := b
  unfold Buffer.endRow
  dsimp only
  cases pending with
  | some e => exact ⟨hdiscard, rfl⟩
  | none =>
      by_cases hstage : stage = .start
      · simp only [if_pos hstage]
        exact ⟨hdiscard, trivial⟩
      · simp only [if_neg hstage]
        cases hencode : timestamp.encodeTimestamp with
        | error f =>
            rcases Value.isLocal_of_encodeTimestamp hencode with ⟨e, rfl⟩ | ⟨fault, rfl⟩
            · exact ⟨hdiscard, rfl⟩
            · exact ⟨h, rfl⟩
        | ok data =>
            dsimp only
            rcases hwrite data with ⟨hb, hc⟩ | ⟨b', c', hb, hc, hahead⟩
            · rw [hb, hc]
              exact ⟨h, rfl⟩
            · rw [hb, hc]
              exact ⟨hahead.map (f := commit) (fun _ _ => rfl) (fun _ => rfl) (fun _ => rfl), rfl⟩

end Ahead

/-! ## Rows that are dropped -/

/-- What a row in progress leaves of the buffer before it. -/
structure Extends (b c : Buffer) : Prop where
  committed : c.committed = b.committed
  initialSize : c.initialSize = b.initialSize
  capacity : b.capacity.Ahead c.capacity

/-- Applies calls, whatever becomes of each. -/
def applyEach (calls : List Call) (b : Buffer) : Buffer :=
  calls.foldl (fun b call => (b.apply call).1) b

theorem Extends.apply (h : b.Extends c) (hb : b.Discrete) (hc : c.Discrete) (call : Call) :
    b.Extends (c.apply call).1 := by
  have happlied := c.applied call
  refine ⟨happlied.committed.trans h.committed, ?_, ?_⟩
  · exact (happlied.grows.initialSize hc.initialSize.ne_cell).trans h.initialSize
  · rcases happlied.grows with ⟨-, hcapacity⟩ | ⟨n, hd, -⟩
    · rw [hcapacity]
      exact h.capacity
    · exact h.capacity.grow_right hb.capacity hd

theorem Extends.applyEach (h : b.Extends c) (hb : b.Discrete) (hc : c.Discrete)
    (calls : List Call) : b.Extends (c.applyEach calls) := by
  induction calls generalizing c with
  | nil => exact h
  | cons call calls ih => exact ih (h.apply hb hc call) ((c.applied call).grows.discrete hc)

/-- Without the row, only its room is left. -/
theorem Extends.discard (h : b.Extends c) (hb : b.Discrete)
    (hcontents : b.contents = .between b.committed) : b.Ahead c.discard := by
  refine ⟨hb, h.capacity, ?_⟩
  obtain ⟨initialSize, capacity, committed, row, stage, pending⟩ := b
  cases hcontents
  simp [Buffer.discard, h.committed, h.initialSize]

theorem Ended.eq_discard {e : SenderError} (h : b.Ended timestamp t)
    (he : t.2 = .error (.error e)) : t.1 = b.discard := by
  cases h with
  | reported | missing | refused => rfl
  | raised | endless | finished => cases he

theorem Ended.pending_of_ok (h : b.Ended timestamp t) (hok : t.2 = .ok ()) :
    t.1.pending = none := by
  cases h with
  | finished _ _ hpending _ _ hc => exact (pending_write? hc).trans hpending
  | reported | missing | refused | raised | endless => cases hok

/-! ## Later uses of a buffer -/

/-- What a buffer may be asked to do. -/
inductive Use where
  | apply (call : Call)
  | endRow (timestamp : Value)
  | clear

def perform : Use → Buffer → Buffer × Outcome
  | .apply call, b => b.apply call
  | .endRow timestamp, b => b.endRow timestamp
  | .clear, b => (b.clear, .ok ())

/-- The buffers and outcomes of one use after the other, whatever becomes of each. -/
def run : List Use → Buffer → List (Buffer × Outcome)
  | [], _ => []
  | use :: uses, b =>
    let t := b.perform use
    t :: run uses t.1

/-- The same outcome, with buffers that are related. -/
def Alike (r : Buffer → Buffer → Prop) (t u : Buffer × Outcome) : Prop := r t.1 u.1 ∧ u.2 = t.2

theorem Ahead.perform (h : b.Ahead c) (use : Use) :
    Alike Ahead (b.perform use) (c.perform use) := by
  cases use with
  | apply call => exact h.apply call
  | endRow timestamp => exact h.endRow timestamp
  | clear => exact ⟨h.clear, rfl⟩

theorem Ahead.run (h : b.Ahead c) (uses : List Use) :
    List.Forall₂ (Alike Ahead) (b.run uses) (c.run uses) := by
  induction uses generalizing b c with
  | nil => exact .nil
  | cons use uses ih => exact .cons (h.perform use) (ih (h.perform use).1)

end Buffer

/-! ## Later operations of a sender -/

/-- The same outcome and the same events, with senders that differ only in related buffers. -/
structure Step.Alike (r : Buffer → Buffer → Prop) (t u : Step) : Prop where
  events : u.events = t.events
  outcome : u.outcome = t.outcome
  buffer : r t.sender.buffer u.sender.buffer
  same : u.sender = { t.sender with buffer := u.sender.buffer }

namespace Sender

variable {s : Sender} {c : Buffer}

open Buffer (Ahead)

theorem alike_of_ahead (h : s.buffer.Ahead c) (events : List Event) (outcome : Outcome) :
    Step.Alike Ahead ⟨s, events, outcome⟩ ⟨{ s with buffer := c }, events, outcome⟩ :=
  ⟨rfl, rfl, h, rfl⟩

theorem transmit_alike (h : s.buffer.Ahead c) (deadline : Option Deadline)
    (connection : Connection) :
    (s.transmit deadline connection).Alike Ahead
      (transmit deadline connection { s with buffer := c }) := by
  unfold transmit
  dsimp only
  rw [show c.committed = s.buffer.committed by rw [h.same]]
  generalize Transfer.run deadline connection.sends connection.timeouts s.clock
    s.buffer.committed = t
  obtain ⟨sent, fault, later, clock, events⟩ := t
  cases fault with
  | some fault =>
      dsimp only
      by_cases hsystem : fault.kind.isSystem = true
      · rw [if_pos hsystem, if_pos hsystem]
        exact ⟨rfl, rfl, h.consume sent, rfl⟩
      · rw [if_neg hsystem, if_neg hsystem]
        exact ⟨rfl, rfl, h, rfl⟩
  | none =>
      dsimp only
      rw [(h.consume sent).shrink?]
      cases hshrink : (s.buffer.consume sent).shrink? with
      | none => exact ⟨rfl, rfl, h, rfl⟩
      | some b =>
          -- both have shrunk to the same buffer
          obtain ⟨d, hd, rfl⟩ := Option.map_eq_some_iff.1 hshrink
          have hdiscrete := h.discrete.initialSize
          exact ⟨rfl, rfl, .refl ⟨hdiscrete, hdiscrete.of_grow hd⟩, rfl⟩

theorem deliver_of_ne_null {timeout : Value} (h : timeout ≠ .null) (connection : Connection)
    (s : Sender) :
    s.deliver timeout connection =
      match timeout.compared .atMost with
      | .error fault => s.raise fault []
      | .ok n =>
        if n.isNonpositive then s.fail .deadlinePassed []
        else
          match timeout.seconds n with
          | .error fault => s.raise fault []
          | .ok seconds =>
            s.transmit (some (.after timeout.precision s.clock seconds)) connection := by
  unfold deliver
  split
  · exact absurd rfl h
  · rfl

theorem deliver_alike (h : s.buffer.Ahead c) (timeout : Value) (connection : Connection) :
    (s.deliver timeout connection).Alike Ahead
      (deliver timeout connection { s with buffer := c }) := by
  by_cases hnull : timeout = .null
  · subst hnull
    unfold deliver
    rcases connection.changeTimeout with ⟨_ | fault, later⟩
    · have hsent := transmit_alike h none later
      exact ⟨congrArg (_ ++ ·) hsent.events, hsent.outcome, hsent.buffer, hsent.same⟩
    · exact ⟨rfl, rfl, h, rfl⟩
  · rw [deliver_of_ne_null hnull, deliver_of_ne_null hnull]
    cases timeout.compared .atMost with
    | error fault => exact alike_of_ahead h _ _
    | ok n =>
        dsimp only
        by_cases hnonpositive : n.isNonpositive = true
        · rw [if_pos hnonpositive, if_pos hnonpositive]
          exact alike_of_ahead h _ _
        · rw [if_neg hnonpositive, if_neg hnonpositive]
          cases timeout.seconds n with
          | error fault => exact alike_of_ahead h _ _
          | ok seconds => exact transmit_alike h _ connection

theorem flush_alike (h : s.buffer.Ahead c) (timeout : Value) (cancel : Cancellation) :
    (s.flush timeout cancel).Alike Ahead (flush timeout cancel { s with buffer := c }) := by
  have hpending : c.pending = s.buffer.pending := by rw [h.same]
  obtain ⟨address, b, connection, clock⟩ := s
  unfold flush
  dsimp only at hpending ⊢
  rw [hpending]
  cases b.pending with
  | some e => exact ⟨rfl, rfl, h.discard, rfl⟩
  | none =>
      cases connection with
      | none => exact ⟨rfl, rfl, h, rfl⟩
      | some connection =>
          dsimp only
          by_cases hcancel : cancel = some true
          · rw [if_pos hcancel, if_pos hcancel]
            exact ⟨rfl, rfl, h, rfl⟩
          · rw [if_neg hcancel, if_neg hcancel]
            exact deliver_alike h timeout connection

theorem isOverfull_of_ahead (h : s.buffer.Ahead c) :
    isOverfull { s with buffer := c } = s.isOverfull := by
  obtain ⟨d, rfl⟩ := h.exists_eq
  rfl

theorem endRow_alike (h : s.buffer.Ahead c) (timestamp timeout : Value) (cancel : Cancellation) :
    (s.endRow timestamp timeout cancel).Alike Ahead
      (endRow timestamp timeout cancel { s with buffer := c }) := by
  obtain ⟨hbuffer, houtcome⟩ := h.endRow timestamp
  rcases hb : s.buffer.endRow timestamp with ⟨b', outcome⟩
  rcases hc : c.endRow timestamp with ⟨c', outcome'⟩
  rw [hb, hc] at hbuffer houtcome
  obtain rfl : outcome' = outcome := houtcome
  rcases outcome' with f | ⟨⟩
  · rw [endRow_of_error hb, endRow_of_error (s := { s with buffer := c }) hc]
    exact ⟨rfl, rfl, hbuffer, rfl⟩
  · rw [endRow_of_ok hb, endRow_of_ok (s := { s with buffer := c }) hc]
    have hfull := isOverfull_of_ahead (s := { s with buffer := b' }) hbuffer
    dsimp only at hfull ⊢
    rw [hfull]
    split
    · exact flush_alike (s := { s with buffer := b' }) hbuffer timeout cancel
    · exact ⟨rfl, rfl, hbuffer, rfl⟩

theorem close_alike (h : s.buffer.Ahead c) :
    s.close.Alike Ahead (close { s with buffer := c }) := by
  have hsize : c.size = s.buffer.size := by
    obtain ⟨d, rfl⟩ := h.exists_eq
    rfl
  obtain ⟨address, b, connection, clock⟩ := s
  unfold close
  dsimp only
  rw [hsize]
  cases connection with
  | none => exact ⟨rfl, rfl, h, rfl⟩
  | some connection => exact ⟨rfl, rfl, h, rfl⟩

theorem leave_alike (h : s.buffer.Ahead c) (failed : Bool) :
    (s.leave failed).Alike Ahead (leave failed { s with buffer := c }) := by
  have hfirst : Step.Alike Ahead (if failed then s.done [] else s.flush .null none)
      (if failed then done [] { s with buffer := c }
        else flush .null none { s with buffer := c }) := by
    cases failed with
    | true => exact alike_of_ahead h _ _
    | false => exact flush_alike h .null none
  unfold leave
  generalize (if failed then s.done [] else s.flush .null none) = t at hfirst ⊢
  generalize (if failed then done [] { s with buffer := c }
    else flush .null none { s with buffer := c }) = u at hfirst ⊢
  have hclosed := close_alike hfirst.buffer
  rw [← hfirst.same] at hclosed
  refine ⟨?_, ?_, hclosed.buffer, hclosed.same⟩
  · show u.events ++ u.sender.close.events = t.events ++ t.sender.close.events
    rw [hfirst.events, hclosed.events]
  · simp only [Step.always, hfirst.outcome, hclosed.outcome]

theorem connect_alike (h : s.buffer.Ahead c) (timeout : Value) (reply : Except Fault Connection) :
    (s.connect timeout reply).Alike Ahead (connect timeout reply { s with buffer := c }) := by
  unfold connect
  dsimp only
  by_cases hconnection : s.connection.isSome = true
  · rw [if_pos hconnection, if_pos hconnection]
    exact alike_of_ahead h _ _
  · rw [if_neg hconnection, if_neg hconnection]
    cases reply with
    | error fault =>
        dsimp only
        by_cases hsystem : fault.kind.isSystem = true
        · rw [if_pos hsystem, if_pos hsystem]
          exact alike_of_ahead h _ _
        · rw [if_neg hsystem, if_neg hsystem]
          exact alike_of_ahead h _ _
    | ok connection =>
        dsimp only
        rcases connection.changeTimeout with ⟨_ | fault, later⟩
        · exact ⟨rfl, rfl, h, rfl⟩
        · exact alike_of_ahead h _ _

theorem perform_alike (h : s.buffer.Ahead c) (op : Operation) :
    (s.perform op).Alike Ahead (perform op { s with buffer := c }) := by
  cases op with
  | connect timeout reply => exact connect_alike h timeout reply
  | build call =>
      obtain ⟨hbuffer, houtcome⟩ := h.apply call
      exact ⟨rfl, houtcome, hbuffer, rfl⟩
  | endRow timestamp timeout cancel => exact endRow_alike h timestamp timeout cancel
  | flush timeout cancel => exact flush_alike h timeout cancel
  | leave failed => exact leave_alike h failed
  | close => exact close_alike h
  | clear => exact ⟨rfl, rfl, h.clear, rfl⟩

theorem run_alike (h : s.buffer.Ahead c) (ops : List Operation) :
    List.Forall₂ (Step.Alike Ahead) (s.run ops) (run ops { s with buffer := c }) := by
  induction ops generalizing s c with
  | nil => exact .nil
  | cons op ops ih =>
      have hstep := perform_alike h op
      refine .cons hstep ?_
      rw [hstep.same]
      exact ih hstep.buffer

/-! ## Senders whose row is dropped -/

theorem afterAll_build (calls : List Call) (s : Sender) :
    s.afterAll (calls.map .build) = { s with buffer := s.buffer.applyEach calls } := by
  induction calls generalizing s with
  | nil => rfl
  | cons call calls ih => exact ih _

theorem flush_ne_row_error (h : s.buffer.pending = none) (timeout : Value) (cancel : Cancellation)
    (e : RowError) : (s.flush timeout cancel).outcome ≠ .error (.error (.row e)) := fun he =>
  ErrorCode.not_mem_refusals ((flush_flushes h timeout cancel).failed _ he).1 e.code_mem_refusals

theorem flush_eq_of_row_error {timeout : Value} {cancel : Cancellation} {e : RowError}
    (h : (s.flush timeout cancel).outcome = .error (.error (.row e))) :
    s.flush timeout cancel =
      ⟨{ s with buffer := s.buffer.discard }, [], .error (.error (.row e))⟩ := by
  cases hpending : s.buffer.pending with
  | none => exact absurd h (flush_ne_row_error hpending timeout cancel e)
  | some e' =>
      rw [flush_of_pending hpending] at h ⊢
      rw [show e' = e by cases h; rfl]

theorem endRow_eq_of_row_error {timestamp timeout : Value} {cancel : Cancellation} {e : RowError}
    (h : (s.endRow timestamp timeout cancel).outcome = .error (.error (.row e))) :
    s.endRow timestamp timeout cancel =
      ⟨{ s with buffer := s.buffer.discard }, [], .error (.error (.row e))⟩ := by
  have hended := s.buffer.ended timestamp
  rcases hb : s.buffer.endRow timestamp with ⟨b, f | ⟨⟩⟩
  · rw [endRow_of_error hb] at h ⊢
    obtain rfl : f = .error (.row e) := Except.error.inj h
    rw [hb] at hended
    rw [show b = s.buffer.discard from hended.eq_discard rfl]
  · -- a row that was finished has no error that a flush could report
    rw [hb] at hended
    have hpending : b.pending = none := hended.pending_of_ok rfl
    rw [endRow_of_ok hb] at h
    split at h
    · exact absurd h (flush_ne_row_error (s := { s with buffer := b }) hpending timeout cancel e)
    · cases h

end Sender

/-- The operations that report the error of a row. -/
def Operation.EndsRow : Operation → Prop
  | endRow .. | flush .. => True
  | _ => False

theorem Sender.perform_eq_of_row_error {s : Sender} {op : Operation} (hop : op.EndsRow)
    {e : RowError} (h : (s.perform op).outcome = .error (.error (.row e))) :
    s.perform op = ⟨{ s with buffer := s.buffer.discard }, [], .error (.error (.row e))⟩ := by
  cases op with
  | endRow => exact endRow_eq_of_row_error h
  | flush => exact flush_eq_of_row_error h
  | connect | build | leave | close | clear => exact hop.elim

/-- The calls of a row that ends with an error of its own leave the buffer as it was but for its
capacity, which may be larger; and no later use of the buffer, and no later operation of a sender
with that buffer, can tell the difference: results and events are the same, and so are the buffers
but for their capacities.  The first size may be any integer, but no floating-point number and no
array, which would grow with the capacity. -/
theorem Buffer.Reachable.leaves_no_trace {size : Capacity} {b : Buffer} (h : Reachable size b)
    (hsize : size.Discrete) (hstage : b.stage = .start) (hpending : b.pending = none)
    (calls : List Call) :
    (∀ timestamp e,
      let t := (b.applyEach calls).endRow timestamp
      t.2 = .error (.error (.row e)) →
        b.Roomier t.1 ∧ ∀ uses, List.Forall₂ (Alike Roomier) (b.run uses) (t.1.run uses)) ∧
      ∀ s : Sender, s.buffer = b → ∀ op : Operation, op.EndsRow → ∀ e,
        let t := (s.afterAll (calls.map .build)).perform op
        t.outcome = .error (.error (.row e)) →
          t.events = [] ∧ b.Roomier t.sender.buffer ∧
            t.sender = { s with buffer := t.sender.buffer } ∧
            ∀ ops, List.Forall₂ (Step.Alike Roomier) (s.run ops) (t.sender.run ops) := by
  have hdiscrete := h.discrete hsize
  have hextends : b.Extends (b.applyEach calls) :=
    Extends.applyEach ⟨rfl, rfl, Or.inl rfl⟩ hdiscrete hdiscrete calls
  have hahead : b.Ahead (b.applyEach calls).discard :=
    hextends.discard hdiscrete (h.contents_eq_between hstage hpending)
  refine ⟨fun timestamp e => ?_, fun s hs op hop e => ?_⟩
  · intro t he
    rw [show t.1 = _ from ((b.applyEach calls).ended timestamp).eq_discard he]
    refine ⟨hahead.roomier, fun uses => (hahead.run uses).imp ?_⟩
    exact fun _ _ hstep => ⟨hstep.1.roomier, hstep.2⟩
  · intro t he
    subst hs
    have ht : t = ⟨{ s with buffer := (s.buffer.applyEach calls).discard }, [],
        .error (.error (.row e))⟩ := by
      have hperform : t = _ := Sender.perform_eq_of_row_error hop he
      rw [hperform, Sender.afterAll_build]
    rw [ht]
    refine ⟨rfl, hahead.roomier, rfl, fun ops => (Sender.run_alike hahead ops).imp ?_⟩
    exact fun _ _ hstep => ⟨hstep.events, hstep.outcome, hstep.buffer.roomier, hstep.same⟩

namespace Sender

/-- A sender with room for eight bytes, of which a finished row takes two. -/
def cramped : Sender :=
  afterAll [.build (.table (.text "t")), .endRow Buffer.serverTime .null none]
    ⟨⟨"h", 9009, false⟩, .empty (.exact 8), none, ⟨0⟩⟩

/-- A row that needs more room and then names a second table. -/
def overlong : List Call :=
  [.table (.text "u"), .symbol (.text "symbol") (.text "value"), .table (.text "v")]

/-- The row is dropped by a flush; the room that was made for it stays. -/
theorem leaves_no_trace_overlong :
    let t := (cramped.afterAll (overlong.map .build)).perform (.flush .null none)
    t.sender.buffer.capacity = .exact 16 ∧ cramped.buffer.capacity = .exact 8 ∧
      cramped.buffer.Roomier t.sender.buffer ∧
      ∀ ops, List.Forall₂ (Step.Alike Buffer.Roomier) (cramped.run ops) (t.sender.run ops) := by
  intro t
  have hreachable : Buffer.Reachable (.exact 8) cramped.buffer :=
    reachable_afterAll .empty _
  have hno := (hreachable.leaves_no_trace trivial (by decide) (by decide) overlong).2 cramped rfl
    (.flush .null none) trivial .tableRepeated
  obtain ⟨-, hroomier, -, hruns⟩ := hno rfl
  exact ⟨by decide +kernel, by decide +kernel, hroomier, hruns⟩

end Sender

end LineProtocol
