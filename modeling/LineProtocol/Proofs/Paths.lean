import LineProtocol.Sender
/-!
# The ways in which operations go

Connecting, flushing, and sending what is finished each go one of a few ways.  Every
way is a case here, with the condition on which it is taken and the whole step that it
leads to, so that what holds of a flush is shown by cases of these and not by looking
into its definition.
-/

namespace LineProtocol

theorem Connection.changeTimeout_eq (c : Connection) :
    c.changeTimeout = (c.timeouts.head?.join, { c with timeouts := c.timeouts.tail }) := by
  obtain ⟨sends, _ | ⟨reply, timeouts⟩⟩ := c <;> rfl

namespace Sender

/-! ## Making a sender -/

/-- A new sender has an empty buffer of the given size, or of the default size if that is not
positive, and no connection. -/
theorem eq_of_create {address size : Value} {clock : Binary64} {s : Sender}
    (h : (create address size clock).1 = .ok s) :
    ∃ a c, Address.ofValue address = .ok a ∧ Capacity.ofValue size = .ok c ∧
      s = ⟨a, .empty (if c.isNonpositive then .exact Capacity.defaultSize else c), none,
        clock⟩ := by
  unfold create at h
  cases ha : Address.ofValue address with
  | error f =>
      rw [ha] at h
      contradiction
  | ok a =>
      cases hc : Capacity.ofValue size with
      | error fault =>
          rw [ha, hc] at h
          contradiction
      | ok c =>
          rw [ha, hc] at h
          refine ⟨a, c, rfl, rfl, ?_⟩
          by_cases hnonpositive : c.isNonpositive = true
          · simp only [if_pos hnonpositive] at h ⊢
            split at h <;> cases h
            rfl
          · simp only [if_neg hnonpositive] at h ⊢
            cases h
            rfl

/-! ## Sending what is finished -/

/-- The sender once a transfer is over. -/
def resume (t : Transfer) (s : Sender) : Sender :=
  { s with connection := some t.connection, clock := t.clock }

/-- The transfer of the finished rows. -/
def transfer (deadline : Option Deadline) (c : Connection) (s : Sender) : Transfer :=
  Transfer.run deadline c.sends c.timeouts s.clock s.buffer.committed

/-- The ways in which sending the finished rows goes, for each transfer. -/
inductive Transmits (s : Sender) (t : Transfer) : Step → Prop
  | interrupted {fault : Fault} (h : t.fault = some fault) (hsystem : fault.kind.isSystem = true) :
      Transmits s t <| fail (.flushFailed fault t.sent s.buffer.committed.length) t.events
        { s.resume t with buffer := s.buffer.consume t.sent }
  | raised {fault : Fault} (h : t.fault = some fault) (hother : fault.kind.isSystem = false) :
      Transmits s t ((s.resume t).raise fault t.events)
  | endless (h : t.fault = none) (hnone : (s.buffer.consume t.sent).shrink? = none) :
      Transmits s t ⟨s.resume t, t.events, .error .endless⟩
  | finished {b : Buffer} (h : t.fault = none) (hb : (s.buffer.consume t.sent).shrink? = some b) :
      Transmits s t <| done (t.events ++ [.log (.flushed t.sent s.address)])
        { s.resume t with buffer := b }

theorem transmits (deadline : Option Deadline) (c : Connection) (s : Sender) :
    s.Transmits (s.transfer deadline c) (s.transmit deadline c) := by
  unfold transmit transfer
  generalize Transfer.run deadline c.sends c.timeouts s.clock s.buffer.committed = t
  obtain ⟨sent, fault, later, clock, events⟩ := t
  cases fault with
  | some fault =>
      dsimp only
      split
      · next hsystem => exact .interrupted rfl hsystem
      · next hother => exact .raised rfl (Bool.eq_false_iff.2 hother)
  | none =>
      dsimp only
      split
      · next hnone => exact .endless rfl hnone
      · next hsome => exact .finished rfl hsome

/-- Sending the finished rows reports nothing but the fault that ended the transfer. -/
theorem Transmits.eq_flushFailed {s : Sender} {t : Transfer} {u : Step} {e : SenderError}
    (h : s.Transmits t u) (he : u.outcome = .error (.error e)) : ∃ fault, t.fault = some fault ∧
      e = .transport (.flushFailed fault t.sent s.buffer.committed.length) := by
  cases h with
  | interrupted h =>
      cases he
      exact ⟨_, h, rfl⟩
  | raised | endless | finished => cases he

end Sender

/-! ## Flushing -/

/-- A flush that is about to be made. -/
structure Flush where
  sender : Sender
  timeout : Value
  cancel : Cancellation

namespace Flush

def step (f : Flush) : Step := f.sender.flush f.timeout f.cancel

/-- The ways in which a flush over a connection goes. -/
inductive Delivers (f : Flush) (c : Connection) : Step → Prop
  | unlifted {fault : Fault} (hnull : f.timeout = .null)
      (hfault : c.timeouts.head?.join = some fault) :
      Delivers f c <| Sender.raise fault [.setTimeout none]
        { f.sender with connection := some { c with timeouts := c.timeouts.tail } }
  | lifted (hnull : f.timeout = .null) (hfault : c.timeouts.head?.join = none) :
      Delivers f c
        { f.sender.transmit none { c with timeouts := c.timeouts.tail } with
          events := [.setTimeout none] ++
            (f.sender.transmit none { c with timeouts := c.timeouts.tail }).events }
  | uncounted {fault : Fault} (hnull : f.timeout ≠ .null)
      (hfault : f.timeout.compared .atMost = .error fault) :
      Delivers f c (f.sender.raise fault [])
  | passed {n : Value.Number} (hnull : f.timeout ≠ .null)
      (hn : f.timeout.compared .atMost = .ok n) (hpassed : n.isNonpositive = true) :
      Delivers f c (f.sender.fail .deadlinePassed [])
  | overlong {n : Value.Number} {fault : Fault} (hnull : f.timeout ≠ .null)
      (hn : f.timeout.compared .atMost = .ok n) (hleft : n.isNonpositive = false)
      (hfault : f.timeout.seconds n = .error fault) : Delivers f c (f.sender.raise fault [])
  | limited {n : Value.Number} {seconds : Binary64} (hnull : f.timeout ≠ .null)
      (hn : f.timeout.compared .atMost = .ok n) (hleft : n.isNonpositive = false)
      (hseconds : f.timeout.seconds n = .ok seconds) :
      Delivers f c <|
        f.sender.transmit (some (.after f.timeout.precision f.sender.clock seconds)) c

/-- The ways in which a flush goes. -/
inductive Goes (f : Flush) : Step → Prop
  | reported {e : RowError} (h : f.sender.buffer.pending = some e) :
      Goes f ⟨{ f.sender with buffer := f.sender.buffer.discard }, [], .error (.error (.row e))⟩
  | unconnected (hpending : f.sender.buffer.pending = none) (h : f.sender.connection = none) :
      Goes f (f.sender.fail .notConnected [])
  | cancelled (hpending : f.sender.buffer.pending = none) (h : f.cancel = some true) :
      Goes f (f.sender.fail .cancelled [])
  | delivers {c : Connection} {t : Step} (hpending : f.sender.buffer.pending = none)
      (hcancel : f.cancel ≠ some true) (hc : f.sender.connection = some c) (h : f.Delivers c t) :
      Goes f t

theorem delivers (f : Flush) (c : Connection) : f.Delivers c (f.sender.deliver f.timeout c) := by
  unfold Sender.deliver
  split
  · next hnull =>
    rw [Connection.changeTimeout_eq]
    cases hfault : c.timeouts.head?.join with
    | some fault => exact .unlifted hnull hfault
    | none => exact .lifted hnull hfault
  · next hnull =>
    split
    · next hfault => exact .uncounted hnull hfault
    · next n hn =>
      split
      · next hpassed => exact .passed hnull hn hpassed
      · next hleft =>
        replace hleft := Bool.eq_false_iff.2 hleft
        split
        · next hfault => exact .overlong hnull hn hleft hfault
        · next hseconds => exact .limited hnull hn hleft hseconds

theorem goes (f : Flush) : f.Goes f.step := by
  unfold step Sender.flush
  split
  · next hpending => exact .reported hpending
  · next hpending =>
    split
    · next hnone => exact .unconnected hpending hnone
    · next c hc =>
      split
      · next hcancel => exact .cancelled hpending hcancel
      · next hcancel => exact .delivers hpending hcancel hc (f.delivers c)

end Flush

/-! ## Connecting -/

namespace Sender

/-- The ways in which connecting goes, for each reply. -/
inductive Connects (s : Sender) (timeout : Value) : Except Fault Connection → Step → Prop
  | already {reply : Except Fault Connection} (h : s.connection ≠ none) :
      Connects s timeout reply (s.fail .alreadyConnected [])
  | refused {fault : Fault} (h : s.connection = none) (hsystem : fault.kind.isSystem = true) :
      Connects s timeout (.error fault)
        (s.fail (.connectFailed s.address.text fault) [.connect s.address timeout false])
  | raised {fault : Fault} (h : s.connection = none) (hother : fault.kind.isSystem = false) :
      Connects s timeout (.error fault) (s.raise fault [.connect s.address timeout false])
  | abandoned {c : Connection} {fault : Fault} (h : s.connection = none)
      (hfault : c.timeouts.head?.join = some fault) :
      Connects s timeout (.ok c)
        (s.raise fault [.connect s.address timeout true, .setTimeout none])
  | opened {c : Connection} (h : s.connection = none) (hfault : c.timeouts.head?.join = none) :
      Connects s timeout (.ok c)
        (done [.connect s.address timeout true, .setTimeout none, .log (.connected s.address)]
          { s with connection := some { c with timeouts := c.timeouts.tail } })

theorem connects (timeout : Value) (reply : Except Fault Connection) (s : Sender) :
    s.Connects timeout reply (s.connect timeout reply) := by
  unfold connect
  cases hconnection : s.connection with
  | some c => exact .already (by rw [hconnection]; exact nofun)
  | none =>
      rw [if_neg (by simp)]
      cases reply with
      | error fault =>
          dsimp only
          split
          · next hsystem => exact .refused hconnection hsystem
          · next hother => exact .raised hconnection (Bool.eq_false_iff.2 hother)
      | ok c =>
          dsimp only
          rw [Connection.changeTimeout_eq]
          cases hfault : c.timeouts.head?.join with
          | some fault => exact .abandoned hconnection hfault
          | none => exact .opened hconnection hfault

end Sender

end LineProtocol
