import LineProtocol.Proofs.Delivery
import LineProtocol.Proofs.Paths
import LineProtocol.Proofs.Rows
/-!
# Flushing

A flush reports the error of the row in progress and drops that row, or it takes
finished rows from the front and leaves the row in progress alone.  In the second
case, what it took is all that was finished if it returns, and what is left follows
what it took if it ends with an error.  Therefore the buffer of a sender only ever
holds what a buffer can hold.
-/

namespace LineProtocol

namespace ErrorCode

/-- The codes of errors of a row. -/
def refusals : List ErrorCode := [invalidCall, invalidName, invalidValue]

/-- The codes with which a flush of finished rows ends early. -/
def interruptions : List ErrorCode := [socket, deadlineExceeded, cancelled]

theorem not_mem_refusals {code : ErrorCode} (h : code ∈ interruptions) : code ∉ refusals := by
  revert h
  cases code <;> decide

end ErrorCode

theorem RowError.code_mem_refusals (e : RowError) : e.code ∈ ErrorCode.refusals := by
  cases e with
  | lineBreak role => cases role <;> simp [code, ErrorCode.refusals]
  | _ => simp [code, ErrorCode.refusals]

/-! ## What flushes take -/

namespace Buffer

/-- What a flush of a buffer takes, what it leaves, and how it ends. -/
inductive Sent (b : Buffer) : Bytes → Buffer → Outcome → Prop
  | dropped {e : RowError} (h : b.pending = some e) :
      Sent b [] b.discard (.error (.error (.row e)))
  | refused {e : TransportError} (hcode : e.code ∈ ErrorCode.interruptions)
      (hplain : ∀ fault sent total, e ≠ .flushFailed fault sent total) :
      Sent b [] b (.error (.error (.transport e)))
  | interrupted {n : Nat} {fault : Fault} (hn : n < b.committed.length)
      (hsystem : fault.kind.isSystem = true) :
      Sent b (b.committed.take n) (b.consume n)
        (.error (.error (.transport (.flushFailed fault n b.committed.length))))
  | raised {n : Nat} {fault : Fault} (hother : fault.kind.isSystem = false ∨ n = 0)
      (hn : n ≤ b.committed.length) : Sent b (b.committed.take n) b (.error (.fault fault))
  | endless (hnone : (b.consume b.committed.length).shrink? = none) :
      Sent b b.committed b (.error .endless)
  | finished {c : Buffer} (hc : (b.consume b.committed.length).shrink? = some c) :
      Sent b b.committed c (.ok ())

namespace Sent

variable {b c : Buffer} {taken : Bytes} {outcome : Outcome}

/-- Only finished rows are taken, from the front. -/
theorem isPrefix (h : b.Sent taken c outcome) : taken <+: b.committed := by
  cases h with
  | dropped | refused => exact List.nil_prefix
  | interrupted | raised => exact List.take_prefix _ _
  | endless | finished => exact List.prefix_rfl

/-- Without an error pending, all that changes is that finished rows are gone, and the room. -/
theorem exists_consume (h : b.Sent taken c outcome) (hpending : b.pending = none) :
    ∃ n, c = b.consume n ∨ (b.consume n).shrink? = some c := by
  cases h with
  | dropped h => exact nomatch hpending.symm.trans h
  | refused | raised | endless => exact ⟨0, Or.inl rfl⟩
  | @interrupted n => exact ⟨n, Or.inl rfl⟩
  | finished hc => exact ⟨_, Or.inr hc⟩

/-- What was taken leaves the buffer or not. -/
theorem committed_eq (h : b.Sent taken c outcome) :
    c.committed = b.committed ∨ c.committed = b.committed.drop taken.length := by
  cases h with
  | dropped | refused | raised | endless => exact Or.inl rfl
  | interrupted hn =>
      right
      rw [List.length_take_of_le hn.le]
      rfl
  | finished hc => exact Or.inr (congrArg Contents.committed (Sender.contents_shrink? hc))

/-- Of the finished rows, what was not taken is still there. -/
theorem isSuffix (h : b.Sent taken c outcome) :
    b.committed.drop taken.length <:+ c.committed := by
  rcases h.committed_eq with hcommitted | hcommitted
  · rw [hcommitted]
    exact List.drop_suffix _ _
  · exact ⟨[], hcommitted.symm⟩

/-- A flush that returns has taken all that was finished. -/
theorem of_ok (h : b.Sent taken c (.ok ())) : taken = b.committed ∧ c.committed = [] := by
  cases h with
  | finished hc =>
      refine ⟨rfl, ?_⟩
      rw [show c.committed = (b.consume b.committed.length).committed from
        congrArg Contents.committed (Sender.contents_shrink? hc)]
      exact List.drop_length

/-- Without an error pending, what is left follows what was taken before an error. -/
theorem of_error {e : SenderError} (h : b.Sent taken c (.error (.error e)))
    (hpending : b.pending = none) :
    e.code ∈ ErrorCode.interruptions ∧ taken ++ c.committed = b.committed := by
  cases h with
  | dropped h => exact nomatch hpending.symm.trans h
  | refused hcode => exact ⟨hcode, rfl⟩
  | @interrupted n fault =>
      refine ⟨?_, List.take_append_drop n b.committed⟩
      show (if fault.kind = .timedOut then ErrorCode.deadlineExceeded else .socket) ∈ _
      split <;> decide

theorem of_flushFailed {fault : Fault} {sent total : Nat}
    (h : b.Sent taken c (.error (.error (.transport (.flushFailed fault sent total))))) :
    fault.kind.isSystem = true ∧ c = b.consume taken.length := by
  cases h with
  | refused _ hplain => exact absurd rfl (hplain _ _ _)
  | interrupted hn hsystem => exact ⟨hsystem, by rw [List.length_take_of_le hn.le]⟩

theorem of_fault {fault : Fault} (h : b.Sent taken c (.error (.fault fault))) :
    c = b ∧ (fault.kind.isSystem = false ∨ taken = []) := by
  cases h with
  | raised hother => exact ⟨rfl, hother.imp_right fun hn => by rw [hn, List.take_zero]⟩

end Sent

end Buffer

namespace Sender

variable {s : Sender} {t : Transfer} {u : Step}

theorem Transmits.sent {c : Connection} (h : s.Transmits t u)
    (hsound : t.Sound c s.buffer.committed)
    (hshort : t.fault ≠ none → t.sent < s.buffer.committed.length) :
    s.buffer.Sent u.taken u.sender.buffer u.outcome := by
  have hall : t.fault = none → t.events.flatMap Event.taken = s.buffer.committed := by
    intro hnone
    rw [hsound.taken, hsound.sent_eq hnone, List.take_length]
  cases h with
  | interrupted h hsystem =>
      have htaken : t.events.flatMap Event.taken = s.buffer.committed.take t.sent := hsound.taken
      rw [Step.taken, fail, htaken]
      exact .interrupted (hshort (by rw [h]; exact Option.some_ne_none _)) hsystem
  | raised h hother =>
      have htaken : t.events.flatMap Event.taken = s.buffer.committed.take t.sent := hsound.taken
      rw [Step.taken, raise, htaken]
      exact .raised (Or.inl hother) hsound.sent_le
  | endless h hnone =>
      rw [hsound.sent_eq h] at hnone
      rw [Step.taken, hall h]
      exact .endless hnone
  | finished h hb =>
      rw [hsound.sent_eq h] at hb
      rw [Step.taken, done, List.flatMap_append, hall h]
      show s.buffer.Sent (s.buffer.committed ++ []) _ _
      rw [List.append_nil]
      exact .finished hb

theorem transmit_sent (deadline : Option Deadline) (c : Connection) (s : Sender) :
    s.buffer.Sent (s.transmit deadline c).taken (s.transmit deadline c).sender.buffer
      (s.transmit deadline c).outcome :=
  (s.transmits deadline c).sent (Transfer.sound_run ..) Transfer.sent_lt_of_fault

end Sender

theorem Flush.Goes.sent {f : Flush} {t : Step} (h : f.Goes t) :
    f.sender.buffer.Sent t.taken t.sender.buffer t.outcome := by
  have hraised : ∀ fault, f.sender.buffer.Sent [] f.sender.buffer (.error (.fault fault)) :=
    fun _ => .raised (Or.inr rfl) (Nat.zero_le _)
  cases h with
  | reported hpending => exact .dropped hpending
  | unconnected | cancelled => exact .refused (by decide) nofun
  | delivers _ _ _ h =>
      cases h with
      | unlifted | uncounted | overlong => exact hraised _
      | passed => exact .refused (by decide) nofun
      | lifted _ _ => exact Sender.transmit_sent none _ f.sender
      | limited => exact Sender.transmit_sent _ _ f.sender

/-- A step that leaves of `b` all but some finished rows from the front.  It took all of them if it
returns; and if it ends with an error, it took those that are missing. -/
structure Step.Flushes (b : Buffer) (t : Step) : Prop where
  buffer : ∃ n, t.sender.buffer = b.consume n ∨ (b.consume n).shrink? = some t.sender.buffer
  returned : t.outcome = .ok () → t.taken = b.committed ∧ t.sender.buffer.committed = []
  failed : ∀ e, t.outcome = .error (.error e) →
    e.code ∈ ErrorCode.interruptions ∧ t.taken ++ t.sender.buffer.committed = b.committed

namespace Sender

variable {s : Sender}

/-- Without an error pending, a flush is about finished rows only. -/
theorem flush_flushes (h : s.buffer.pending = none) (timeout : Value) (cancel : Cancellation) :
    (s.flush timeout cancel).Flushes s.buffer := by
  have hsent : s.buffer.Sent (s.flush timeout cancel).taken
      (s.flush timeout cancel).sender.buffer (s.flush timeout cancel).outcome :=
    (Flush.goes ⟨s, timeout, cancel⟩).sent
  refine ⟨hsent.exists_consume h, fun hok => ?_, fun e he => ?_⟩
  · rw [hok] at hsent
    exact hsent.of_ok
  · rw [he] at hsent
    exact hsent.of_error h

theorem flush_of_pending {e : RowError} (h : s.buffer.pending = some e) (timeout : Value)
    (cancel : Cancellation) :
    s.flush timeout cancel =
      ⟨{ s with buffer := s.buffer.discard }, [], .error (.error (.row e))⟩ := by
  unfold flush
  rw [h]

/-! ## Buffers of senders -/

theorem buffer_close (s : Sender) : s.close.sender.buffer = s.buffer := by
  unfold close
  split <;> rfl

theorem buffer_connect (timeout : Value) (reply : Except Fault Connection) (s : Sender) :
    (s.connect timeout reply).sender.buffer = s.buffer := by
  unfold connect
  split
  · rfl
  · split
    · dsimp only
      split <;> rfl
    · dsimp only
      split <;> rfl

variable {size : Capacity}

theorem reachable_flush (h : Buffer.Reachable size s.buffer) (timeout : Value)
    (cancel : Cancellation) : Buffer.Reachable size (s.flush timeout cancel).sender.buffer := by
  cases hpending : s.buffer.pending with
  | some e =>
      rw [flush_of_pending hpending]
      exact h.discard
  | none =>
      obtain ⟨n, hbuffer | hbuffer⟩ := (flush_flushes hpending timeout cancel).buffer
      · rw [hbuffer]
        exact h.consume n
      · exact (h.consume n).shrink hbuffer

theorem reachable_endRow (h : Buffer.Reachable size s.buffer) (timestamp timeout : Value)
    (cancel : Cancellation) :
    Buffer.Reachable size (s.endRow timestamp timeout cancel).sender.buffer := by
  have hended := h.endRow timestamp
  rcases hb : s.buffer.endRow timestamp with ⟨b, f | ⟨⟩⟩
  · rw [endRow_of_error hb]
    rwa [hb] at hended
  · rw [hb] at hended
    rw [endRow_of_ok hb]
    split
    · exact reachable_flush hended timeout cancel
    · exact hended

theorem reachable_perform (h : Buffer.Reachable size s.buffer) (op : Operation) :
    Buffer.Reachable size (s.perform op).sender.buffer := by
  cases op with
  | connect timeout reply =>
      show Buffer.Reachable size (s.connect timeout reply).sender.buffer
      rwa [buffer_connect]
  | build call => exact h.apply call
  | endRow timestamp timeout cancel => exact reachable_endRow h timestamp timeout cancel
  | flush timeout cancel => exact reachable_flush h timeout cancel
  | leave failed =>
      cases failed with
      | true =>
          show Buffer.Reachable size s.close.sender.buffer
          rwa [buffer_close]
      | false =>
          show Buffer.Reachable size (s.flush .null none).sender.close.sender.buffer
          rw [buffer_close]
          exact reachable_flush h .null none
  | close =>
      show Buffer.Reachable size s.close.sender.buffer
      rwa [buffer_close]
  | clear => exact h.clear

/-- The buffer of a sender is one that operations on buffers lead to. -/
theorem reachable_afterAll (h : Buffer.Reachable size s.buffer) (ops : List Operation) :
    Buffer.Reachable size (s.afterAll ops).buffer := by
  induction ops generalizing s with
  | nil => exact h
  | cons op ops ih => exact ih (reachable_perform h op)

end Sender

/-! ## New senders -/

/-- A new sender has a positive size, and whatever it is asked to do, its buffer is one of that
size. -/
theorem Sender.reachable_of_create {address size : Value} {clock : Binary64} {s : Sender}
    (h : (create address size clock).1 = .ok s) :
    ∃ c : Capacity, c.isNonpositive = false ∧ (∀ n, size = .int n → c.Boundless) ∧
      ∀ ops, Buffer.Reachable c (s.afterAll ops).buffer := by
  obtain ⟨⟨c, hbuffer, hboundless⟩, -⟩ := of_create h
  refine ⟨c, ?_, hboundless, fun ops => ?_⟩
  · obtain ⟨a, c', -, -, rfl⟩ := eq_of_create h
    cases hbuffer
    split
    · rfl
    · next hpositive => exact Bool.eq_false_iff.2 hpositive
  · apply reachable_afterAll
    rw [hbuffer]
    exact .empty

end LineProtocol
