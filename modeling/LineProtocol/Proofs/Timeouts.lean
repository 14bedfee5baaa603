import LineProtocol.Proofs.Arithmetic
import LineProtocol.Proofs.Sessions
/-!
# Timeouts

A flush sends under its own timeout, whatever flushes came before it on the same
connection.  Without a timeout of its own it first lifts the one in force.  With one,
each send gets the time that is left until the deadline, and there is some.  Once the
deadline has passed nothing is sent any more, and what was taken is gone from the
buffer.
-/

namespace LineProtocol

/-- The seconds of an integer or a floating-point number that is one, if there are such. -/
def Value.seconds? : Value → Option Binary64
  | int n => Binary64.ofInt? n
  | float x => if x.isNaN then none else some x
  | _ => none

namespace Flush

/-- The deadline of a flush that is not given up before it sets one. -/
def deadline? (f : Flush) : Option Deadline :=
  if f.sender.buffer.pending.isSome || f.cancel = some true then none
  else do
    let n ← (f.timeout.compared .atMost).toOption
    let seconds ← (f.timeout.seconds n).toOption
    return .after f.timeout.precision f.sender.clock seconds

/-- The flush may send now: the timeout in force is the time that is left until its deadline, and
there is some; or it is lifted, if the flush has no timeout of its own. -/
def Allows (f : Flush) (k : Channel) : Prop :=
  match f.timeout with
  | .null => k.timeout = some none
  | _ => ∃ d, f.deadline? = some d ∧ k.timeout = some (some (d.remaining k.clock)) ∧
      (d.remaining k.clock).isNonpositive = false

/-- The flush ended with the deadline, or with the fault of a send on the channel.  Nothing but what
was taken is missing from its buffer, unless the fault is one that passes through. -/
def Expires (f : Flush) (k : Channel) (t : Step) : Prop :=
  (∃ e : TransportError, t.outcome = .error (.error (.transport e)) ∧
      e.code = .deadlineExceeded ∧ t.sender.buffer = f.sender.buffer.consume t.taken.length) ∨
    ∃ front offered back fault, t.events = front ++ .send offered none :: back ∧
      (k.after front).fault? (.send offered none) = some fault ∧
      (fault.kind.isSystem = true →
        t.Reports fault ∧ t.sender.buffer = f.sender.buffer.consume t.taken.length) ∧
      (fault.kind.isSystem = false → t.outcome = .error (.fault fault))

end Flush

/-! ## Transfers of finished rows -/

namespace Sender

variable {s : Sender} {k : Channel} {t : Transfer} {u : Step}

/-- The events of a transfer, and what is logged after it. -/
theorem Transmits.events (h : s.Transmits t u) :
    ∃ rest, u.events = t.events ++ rest ∧ ∀ e ∈ rest, e.isCall = false := by
  cases h with
  | interrupted | raised | endless =>
      exact ⟨[], (List.append_nil _).symm, List.forall_mem_nil _⟩
  | finished => exact ⟨_, rfl, List.forall_mem_singleton.2 rfl⟩

/-- A transfer that a fault ends.  If it is one of the operating system, it is reported and what was
taken is gone; any other passes through. -/
theorem Transmits.of_fault {c : Connection} (h : s.Transmits t u)
    (hsound : t.Sound c s.buffer.committed) {fault : Fault} (hfault : t.fault = some fault) :
    (fault.kind.isSystem = true →
      (∃ sent total, u.outcome = .error (.error (.transport (.flushFailed fault sent total)))) ∧
        u.sender.buffer = s.buffer.consume u.taken.length) ∧
      (fault.kind.isSystem = false → u.outcome = .error (.fault fault)) := by
  cases h with
  | interrupted h hsystem =>
      obtain rfl := Option.some.inj (h.symm.trans hfault)
      have hsent : (t.events.flatMap Event.taken).length = t.sent := by
        rw [hsound.taken, List.length_take]
        exact Nat.min_eq_left hsound.sent_le
      refine ⟨fun _ => ⟨⟨_, _, rfl⟩, ?_⟩, fun hother => nomatch hsystem.symm.trans hother⟩
      show s.buffer.consume t.sent = s.buffer.consume (t.events.flatMap Event.taken).length
      rw [hsent]
  | raised h hother =>
      obtain rfl := Option.some.inj (h.symm.trans hfault)
      exact ⟨fun hsystem => (nomatch hother.symm.trans hsystem), fun _ => rfl⟩
  | endless h | finished h => exact nomatch h.symm.trans hfault

theorem transmit_sends (deadline : Option Deadline) (hclock : s.clock = k.clock) :
    k.Sends (·.Under deadline k.timeout) (s.transmit deadline k.replies).events := by
  obtain ⟨rest, hevents, hrest⟩ := (s.transmits deadline k.replies).events
  rw [hevents]
  exact Channel.Sends.append hrest (course_transfer deadline hclock).under

theorem transmit_stops {f : Flush} {d : Deadline} (hclock : f.sender.clock = k.clock) :
    k.Stops d f.sender.buffer.committed.length
      (f.Expires k (f.sender.transmit (some d) k.replies))
      (f.sender.transmit (some d) k.replies).events := by
  have htransmits := f.sender.transmits (some d) k.replies
  have hsound := f.sender.sound_transfer (some d) k.replies
  obtain ⟨rest, hevents, hrest⟩ := htransmits.events
  have hstops := Channel.Stops.append hrest (course_transfer (some d) hclock).stops
  rw [← hevents] at hstops
  refine hstops.mono ?_
  rintro (hdeadline | ⟨front, offered, fault, hfront, hfault, hends⟩)
  · obtain ⟨⟨sent, total, houtcome⟩, hbuffer⟩ := (htransmits.of_fault hsound hdeadline).1 rfl
    exact Or.inl ⟨_, houtcome, rfl, hbuffer⟩
  · obtain ⟨hsystem, hother⟩ := htransmits.of_fault hsound hends
    refine Or.inr ⟨front, offered, rest, fault, ?_, hfault, fun h => ?_, hother⟩
    · rw [hevents, hfront, List.append_assoc, List.singleton_append]
    · obtain ⟨⟨sent, total, houtcome⟩, hbuffer⟩ := hsystem h
      exact ⟨Step.reports_flushFailed houtcome, hbuffer⟩

end Sender

/-! ## Flushes -/

namespace Flush

variable {f : Flush} {k : Channel} {t : Step}

theorem deadline?_eq_some_iff {d : Deadline} :
    f.deadline? = some d ↔ (f.sender.buffer.pending = none ∧ f.cancel ≠ some true) ∧
      ∃ n seconds, f.timeout.compared .atMost = .ok n ∧ f.timeout.seconds n = .ok seconds ∧
        d = .after f.timeout.precision f.sender.clock seconds := by
  unfold deadline?
  split
  · next hgiven =>
    refine iff_of_false nofun ?_
    rintro ⟨⟨hpending, hcancel⟩, -⟩
    simp [hpending, hcancel] at hgiven
  · next hgiven =>
    have hopen : f.sender.buffer.pending = none ∧ f.cancel ≠ some true := by simpa using hgiven
    rw [and_iff_right hopen]
    cases f.timeout.compared .atMost with
    | error => simp [Except.toOption]
    | ok n => cases hseconds : f.timeout.seconds n <;> simp [Except.toOption, hseconds, eq_comm]

/-- Whatever a flush sends, it sends under its own timeout. -/
theorem Goes.sends (h : f.Goes t) (huses : f.sender.Uses k) : k.Sends f.Allows t.events := by
  cases h with
  | reported | unconnected | cancelled => exact Channel.each_nil
  | delivers hpending hcancel hc h =>
      obtain rfl := Option.some.inj (hc.symm.trans huses.connection)
      cases h with
      | uncounted | passed | overlong => exact Channel.each_nil
      | unlifted => exact Channel.each_singleton.2 nofun
      | lifted hnull hfault =>
          refine Channel.each_cons.2 ⟨nofun, ?_⟩
          have hsends := Sender.transmit_sends (k := k.next (.setTimeout none)) none huses.clock
          refine hsends.mono fun c e hc offered accepted he => ?_
          have hlifted : (k.next (.setTimeout none)).timeout = some none := by
            show (if k.replies.timeouts.head?.join.isSome then _ else _) = _
            rw [hfault]
            rfl
          have htimeout : c.timeout = some none := (hc offered accepted he).trans hlifted
          unfold Allows
          rw [hnull]
          exact htimeout
      | @limited n seconds hnull hn _ hseconds =>
          have hsends := Sender.transmit_sends
            (some (.after f.timeout.precision f.sender.clock seconds)) huses.clock
          refine hsends.mono fun c e hc offered accepted he => ?_
          unfold Allows
          split
          · next hnull' => exact absurd hnull' hnull
          · refine ⟨_, ?_, hc offered accepted he⟩
            exact deadline?_eq_some_iff.2 ⟨⟨hpending, hcancel⟩, n, seconds, hn, hseconds, rfl⟩

/-- A flush stops when its deadline has passed. -/
theorem Goes.stops (h : f.Goes t) (huses : f.sender.Uses k) {d : Deadline}
    (hd : f.deadline? = some d) :
    k.Stops d f.sender.buffer.committed.length (f.Expires k t) t.events := by
  obtain ⟨⟨hpending, hcancel⟩, n, seconds, hn, hseconds, rfl⟩ := deadline?_eq_some_iff.1 hd
  cases h with
  | reported hreported => exact nomatch hreported.symm.trans hpending
  | unconnected _ hnone => exact nomatch hnone.symm.trans huses.connection
  | cancelled _ hcancelled => exact absurd hcancelled hcancel
  | delivers _ _ hc h =>
      obtain rfl := Option.some.inj (hc.symm.trans huses.connection)
      cases h with
      | unlifted hnull | lifted hnull =>
          rw [hnull] at hn
          contradiction
      | uncounted _ hfault => exact nomatch hfault.symm.trans hn
      | overlong _ hn' _ hfault =>
          obtain rfl := Except.ok.inj (hn'.symm.trans hn)
          exact nomatch hfault.symm.trans hseconds
      | passed =>
          rintro front back hsplit -
          obtain ⟨rfl, rfl⟩ := List.append_eq_nil_iff.1 hsplit.symm
          exact ⟨fun _ _ => List.not_mem_nil, fun _ => Or.inl ⟨_, rfl, rfl, rfl⟩⟩
      | limited _ hn' _ hseconds' =>
          obtain rfl := Except.ok.inj (hn'.symm.trans hn)
          obtain rfl := Except.ok.inj (hseconds'.symm.trans hseconds)
          exact Sender.transmit_stops huses.clock

/-! ## The time that is left -/

/-- The deadline follows from the seconds of the timeout. -/
theorem eq_after_of_seconds? {seconds : Binary64} (h : f.timeout.seconds? = some seconds)
    {d : Deadline} (hd : f.deadline? = some d) :
    d = .after .double f.sender.clock seconds ∧ seconds.isNaN = false := by
  obtain ⟨-, m, x, hm, hx, rfl⟩ := deadline?_eq_some_iff.1 hd
  cases htimeout : f.timeout with
  | int n =>
      rw [htimeout] at h hm hx
      cases hm
      have hn : Binary64.ofInt? n = some seconds := h
      rw [show (Value.int n).seconds (.int n) = .ok seconds by
        simp only [Value.seconds, Value.Number.toBinary64, hn]] at hx
      cases hx
      exact ⟨rfl, Binary64.isNaN_of_isFinite (Binary64.isFinite_of_ofFraction? hn)⟩
  | float y =>
      rw [htimeout] at h hm hx
      cases hm
      cases hx
      rw [Value.seconds?] at h
      split at h
      · contradiction
      · next hnan =>
        cases h
        exact ⟨rfl, Bool.eq_false_iff.2 hnan⟩
  | _ =>
      rw [htimeout] at h
      contradiction

/-- While the clock shows finite numbers, the timeout in force is the positive difference between
the deadline and the reading of the clock. -/
theorem Allows.left {seconds : Binary64} (h : f.Allows k)
    (hseconds : f.timeout.seconds? = some seconds) (hstart : f.sender.clock.isFinite = true)
    (hnow : k.clock.isFinite = true) :
    k.timeout = some (some (f.sender.clock + seconds - k.clock)) ∧
      (f.sender.clock + seconds - k.clock).isPositive = true := by
  unfold Allows at h
  split at h
  · next hnull =>
    rw [hnull] at hseconds
    contradiction
  · obtain ⟨d, hd, htimeout, hleft⟩ := h
    obtain ⟨rfl, hnan⟩ := eq_after_of_seconds? hseconds hd
    rw [Deadline.remaining_after_double] at htimeout hleft
    have hnumber := Binary64.isNaN_sub_finite (Binary64.isNaN_finite_add hstart hnan) hnow
    exact ⟨htimeout, Binary64.isPositive_of_isNonpositive hnumber hleft⟩

end Flush

/-! ## Operations -/

namespace Sender

variable {s : Sender} {op : Operation} {t : Step} {k : Channel} {f : Flush}

theorem not_isCall_closing (t : Step) :
    ∀ e ∈ ([.close, .log (.closed t.sender.address t.sender.buffer.size)] : List Event),
      e.isCall = false := by
  simp [Event.isCall]

/-- Without a connection nothing is sent. -/
theorem Performs.send_not_mem (h : s.Performs op t) (hnone : s.connection = none)
    (offered : Bytes) (accepted : Option Nat) : Event.send offered accepted ∉ t.events := by
  cases h with
  | connect h => cases h <;> simp [fail, raise, done]
  | keeps _ h =>
      rw [(h.unconnected hnone).events]
      exact List.not_mem_nil
  | closes _ h hheld => exact absurd ((h.unconnected hnone).connection.trans hnone) hheld

theorem Begins.sends (h : s.Begins op t) (huses : s.Uses k) :
    k.Sends (fun c => ∃ f, s.flush? op = some f ∧ f.Allows c) t.events := by
  cases h with
  | idle _ hidle =>
      rw [hidle.events]
      exact Channel.each_nil
  | @flush f hf =>
      refine (f.goes.sends (uses_flush? hf huses)).mono fun c e hc offered accepted he => ?_
      exact ⟨f, hf, hc offered accepted he⟩

/-- Whatever is sent is sent by a flush under its own timeout. -/
theorem Performs.sends (h : s.Performs op t) (huses : s.Uses k) :
    k.Sends (fun c => ∃ f, s.flush? op = some f ∧ f.Allows c) t.events := by
  cases h with
  | connect h =>
      cases h with
      | already => exact Channel.each_nil
      | refused hnone | raised hnone | abandoned hnone | opened hnone =>
          exact nomatch hnone.symm.trans huses.connection
  | keeps _ h => exact h.sends huses
  | @closes _ t _ h => exact Channel.Sends.append (not_isCall_closing t) (h.sends huses)

theorem Begins.stops (h : s.Begins op t) (huses : s.Uses k) (hf : s.flush? op = some f)
    {d : Deadline} (hd : f.deadline? = some d) :
    k.Stops d f.sender.buffer.committed.length (f.Expires k t) t.events := by
  rw [h.eq_step hf]
  exact f.goes.stops (uses_flush? hf huses) hd

theorem expires_closing (h : f.Expires k t) : f.Expires k t.closing := by
  have htaken : t.closing.taken = t.taken := by
    show (t.events ++ _).flatMap Event.taken = _
    rw [List.flatMap_append]
    exact List.append_nil _
  unfold Flush.Expires
  rw [htaken]
  rcases h with hdeadline | ⟨front, offered, back, fault, hevents, hfault, hends⟩
  · exact Or.inl hdeadline
  · refine Or.inr ⟨front, offered, back ++ [.close, .log (.closed t.sender.address
      t.sender.buffer.size)], fault, ?_, hfault, hends⟩
    show t.events ++ _ = _
    rw [hevents, List.append_assoc, List.cons_append]

theorem Performs.stops (h : s.Performs op t) (huses : s.Uses k) (hf : s.flush? op = some f)
    {d : Deadline} (hd : f.deadline? = some d) :
    k.Stops d f.sender.buffer.committed.length (f.Expires k t) t.events := by
  cases h with
  | connect => contradiction
  | keeps _ h => exact h.stops huses hf hd
  | @closes _ t _ h =>
      exact (Channel.Stops.append (not_isCall_closing t) (h.stops huses hf hd)).mono
        expires_closing

end Sender

/-! ## Runs -/

theorem Ledger.Kept.latest {s : Sender} {l : Ledger} (h : l.Kept s) (hheld : s.connection ≠ none) :
    ∃ x older, l.sessions = x :: older ∧ s.Uses x.channel := by
  rcases h.sessions with ⟨hnone, -⟩ | ⟨x, older, k, hlatest, hserves, huses, -⟩
  · exact absurd hnone hheld
  · exact ⟨x, older, hlatest, hserves.channel.symm ▸ huses⟩

namespace Sender

variable {s : Sender}

/-- Nothing is sent under a timeout that is stale or over.  Whatever is sent in the course of
operations is sent by a flush on the latest connection, and of the changes of the timeout of that
connection the last that did not fail lifted it, if the flush has no timeout, or else set it to the
time that was left at that moment, which is more than zero.  For a timeout in seconds this is the
difference between the deadline and the reading of the clock, and positive as long as the readings
are finite.  Once the deadline has passed, the flush sends nothing more; if finished rows are left,
it reports the deadline and what was taken is gone, unless the send during which the deadline passed
itself failed, with a fault that is then reported. -/
theorem sends_in_time {address size : Value} {clock : Binary64}
    (hs : (create address size clock).1 = .ok s) (ops : List Operation) (op : Operation) :
    let before := s.afterAll ops
    let t := before.perform op
    (∀ front offered accepted back, t.events = front ++ .send offered accepted :: back →
      ∃ f x older, before.flush? op = some f ∧ (s.ledger ops).sessions = x :: older ∧
        let k := x.channel.after front
        f.Allows k ∧
          ∀ seconds, f.timeout.seconds? = some seconds → before.clock.isFinite = true →
            k.clock.isFinite = true →
            k.timeout = some (some (before.clock + seconds - k.clock)) ∧
              (before.clock + seconds - k.clock).isPositive = true) ∧
      ∀ f d, before.flush? op = some f → f.deadline? = some d → before.connection ≠ none →
        ∃ x older, (s.ledger ops).sessions = x :: older ∧
          x.channel.Stops d f.sender.buffer.committed.length (f.Expires x.channel t) t.events := by
  intro before t
  have hkept : (s.ledger ops).Kept before := kept_ledger (of_create hs).2 ops
  have hperforms := before.performs op
  refine ⟨?_, ?_⟩
  · intro front offered accepted back hsplit
    have hheld : before.connection ≠ none := by
      intro hnone
      refine hperforms.send_not_mem hnone offered accepted ?_
      show _ ∈ t.events
      rw [hsplit]
      exact List.mem_append_right front List.mem_cons_self
    obtain ⟨x, older, hlatest, huses⟩ := hkept.latest hheld
    obtain ⟨f, hf, hallows⟩ := hperforms.sends huses front _ back hsplit offered accepted rfl
    refine ⟨f, x, older, hf, hlatest, hallows, fun seconds hseconds hstart hnow => ?_⟩
    rw [← (connection_flush? hf).2] at hstart ⊢
    exact hallows.left hseconds hstart hnow
  · intro f d hf hd hheld
    obtain ⟨x, older, hlatest, huses⟩ := hkept.latest hheld
    exact ⟨x, older, hlatest, hperforms.stops huses hf hd⟩

end Sender

/-- A connection that takes a byte in two seconds, and another in ten. -/
def Connection.slow : Connection where
  sends := [⟨some ⟨0x4000000000000000⟩, .ok (some 1)⟩, ⟨some ⟨0x4024000000000000⟩, .ok (some 1)⟩]
  timeouts := []

/-- A connection that is lost after ten seconds. -/
def Connection.late : Connection where
  sends := [⟨some ⟨0x4024000000000000⟩, .error (.of .connectionReset "reset")⟩]
  timeouts := []

namespace Sender

/-- Of a row of three bytes, two are taken in twelve seconds; that is more than the five seconds of
the flush, of which three were left for the second byte. -/
theorem sends_in_time_slow :
    let t := (fresh.afterAll (begun .slow)).perform (.flush (.int 5) none)
    ∃ (f : Flush) (x : Session) (older : List Session),
      (fresh.ledger (begun .slow)).sessions = x :: older ∧
        (x.channel.after (t.events.take 3)).timeout = some (some ⟨0x4008000000000000⟩) ∧
        Binary64.isPositive ⟨0x4008000000000000⟩ = true ∧ f.Expires x.channel t := by
  have hevents : ((fresh.afterAll (begun .slow)).perform (.flush (.int 5) none)).events =
      [.setTimeout (some ⟨0x4014000000000000⟩), .send [116, 116, 10] (some 1),
        .setTimeout (some ⟨0x4008000000000000⟩)] ++ .send [116, 10] (some 1) :: [] := by rfl
  obtain ⟨hsends, hstops⟩ := sends_in_time create_fresh (begun .slow) (.flush (.int 5) none)
  obtain ⟨f, x, older, hf, hlatest, -, hleft⟩ := hsends _ _ _ _ hevents
  obtain ⟨x', older', hlatest', hstop⟩ := hstops f _ hf (by cases hf; rfl) nofun
  cases hf
  cases hlatest
  cases hlatest'
  obtain ⟨htimeout, hpositive⟩ :=
    hleft ⟨0x4014000000000000⟩ rfl (by decide +kernel) (by decide +kernel)
  obtain ⟨-, hshort⟩ := hstop _ [] (List.append_nil _).symm (by decide +kernel)
  exact ⟨_, _, _, rfl, htimeout, hpositive, hshort (by decide +kernel)⟩

/-- A flush whose deadline passes does not always report the deadline: here the connection is lost
in the meantime. -/
theorem not_deadlineExceeded_late :
    ¬∀ (ops : List Operation) (op : Operation) (f : Flush) (d : Deadline) (x : Session)
      (older : List Session),
      let t := (fresh.afterAll ops).perform op
      (fresh.afterAll ops).flush? op = some f → f.deadline? = some d →
        (fresh.ledger ops).sessions = x :: older →
        x.channel.Stops d f.sender.buffer.committed.length
          (∃ e : TransportError, t.outcome = .error (.error (.transport e)) ∧
            e.code = .deadlineExceeded) t.events := by
  intro hstops
  obtain ⟨-, hshort⟩ := hstops (begun .late) (.flush (.int 5) none) _ _ _ _ rfl rfl rfl _ []
    (List.append_nil _).symm (by decide +kernel)
  obtain ⟨e, he, hcode⟩ := hshort (by decide +kernel)
  cases he
  contradiction

end Sender

end LineProtocol
