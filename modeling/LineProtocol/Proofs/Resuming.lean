import LineProtocol.Proofs.Flushing
import LineProtocol.Proofs.Timeouts
/-!
# Where the next flush goes on

A flush that comes to an end takes finished rows from the front of the buffer, and what
it took leaves the buffer.  So the next flush begins with the byte after the last one
that was taken, whatever became of the connection in the meantime.  This fails in one
way: a fault that is none of the operating system passes through the flush, and then
what was taken before it stays in the buffer.
-/

namespace LineProtocol

namespace Flush

variable {f : Flush} {k : Channel} {t : Step} {fault : Fault}

/-- The ways in which a fault of a call ends a flush. -/
inductive Breaks (f : Flush) (fault : Fault) (t : Step) : Prop
  | reported (h : t.Reports fault) (hsystem : fault.kind.isSystem = true)
      (hbuffer : t.sender.buffer = f.sender.buffer.consume t.taken.length)
  | passed (h : t.outcome = .error (.fault fault)) (hbuffer : t.sender.buffer = f.sender.buffer)
      (hother : fault.kind.isSystem = false ∨ t.taken = [])

theorem breaks_of_outcome (hsent : f.sender.buffer.Sent t.taken t.sender.buffer t.outcome)
    (houtcome : (∃ sent total,
        t.outcome = .error (.error (.transport (.flushFailed fault sent total)))) ∨
      t.outcome = .error (.fault fault)) : f.Breaks fault t := by
  rcases houtcome with ⟨sent, total, h⟩ | h
  · rw [h] at hsent
    obtain ⟨hsystem, hbuffer⟩ := hsent.of_flushFailed
    exact .reported (Step.reports_flushFailed h) hsystem hbuffer
  · rw [h] at hsent
    obtain ⟨hbuffer, hother⟩ := hsent.of_fault
    exact .passed h hbuffer hother

/-- Only calls meet faults. -/
theorem fault?_of_not_isCall {e : Event} (h : e.isCall = false) (k : Channel) :
    k.fault? e = none := by
  cases e with
  | setTimeout | send => contradiction
  | connect | close | log => rfl

/-- When a call meets a fault, sending finished rows ends with that fault. -/
theorem transmit_of_fault {s : Sender} {deadline : Option Deadline} (hclock : s.clock = k.clock)
    {front back : List Event} {e : Event}
    (hsplit : (s.transmit deadline k.replies).events = front ++ e :: back)
    (hfault : (k.after front).fault? e = some fault) :
    (∃ sent total, (s.transmit deadline k.replies).outcome =
        .error (.error (.transport (.flushFailed fault sent total)))) ∨
      (s.transmit deadline k.replies).outcome = .error (.fault fault) := by
  have htransmits := s.transmits deadline k.replies
  obtain ⟨rest, hevents, hrest⟩ := htransmits.events
  have heach : k.Each (fun c e => ∀ f, c.fault? e = some f →
      (s.transfer deadline k.replies).fault = some f)
      (s.transmit deadline k.replies).events := by
    rw [hevents]
    refine Channel.each_append.2 ⟨(Sender.course_transfer deadline hclock).fault_eq, ?_⟩
    intro front e back hsplit f hf
    rw [fault?_of_not_isCall (hrest e (by simp [hsplit]))] at hf
    contradiction
  obtain ⟨hreported, hraised⟩ :=
    htransmits.of_fault (s.sound_transfer deadline k.replies) (heach _ _ _ hsplit fault hfault)
  cases hsystem : fault.kind.isSystem with
  | true => exact Or.inl (hreported hsystem).1
  | false => exact Or.inr (hraised hsystem)

/-- A fault of a call of a flush ends the flush. -/
theorem Goes.outcome_of_fault (h : f.Goes t) (huses : f.sender.Uses k) {front back : List Event}
    {e : Event} (hsplit : t.events = front ++ e :: back)
    (hfault : (k.after front).fault? e = some fault) :
    (∃ sent total, t.outcome = .error (.error (.transport (.flushFailed fault sent total)))) ∨
      t.outcome = .error (.fault fault) := by
  have hnone : t.events ≠ [] := by simp [hsplit]
  cases h with
  | reported | unconnected | cancelled => exact absurd rfl hnone
  | delivers _ _ hc h =>
      obtain rfl := Option.some.inj (hc.symm.trans huses.connection)
      cases h with
      | uncounted | passed | overlong => exact absurd rfl hnone
      | unlifted _ hlift =>
          obtain ⟨rfl, hsingle⟩ | ⟨-, hsingle⟩ := List.append_eq_singleton_iff.1 hsplit.symm
          · obtain rfl := (List.cons.inj hsingle).1
            rw [show fault = _ from Option.some.inj (hfault.symm.trans hlift)]
            exact Or.inr rfl
          · contradiction
      | lifted _ hlift =>
          cases front with
          | nil =>
              obtain rfl := (List.cons.inj hsplit).1
              exact nomatch hlift.symm.trans hfault
          | cons first front =>
              obtain ⟨rfl, hrest⟩ := List.cons.inj hsplit
              exact transmit_of_fault (k := k.next (.setTimeout none)) huses.clock hrest hfault
      | limited => exact transmit_of_fault huses.clock hsplit hfault

theorem Goes.breaks (h : f.Goes t) (huses : f.sender.Uses k) {front back : List Event} {e : Event}
    (hsplit : t.events = front ++ e :: back) (hfault : (k.after front).fault? e = some fault) :
    f.Breaks fault t :=
  breaks_of_outcome h.sent (h.outcome_of_fault huses hsplit hfault)

/-! ## The next flush -/

theorem eq_zero_of_consume {b : Buffer} {n : Nat} (hn : n ≤ b.committed.length)
    (h : b.consume n = b) : n = 0 := by
  have hlength : (b.committed.drop n).length = b.committed.length :=
    congrArg (fun b => b.committed.length) h
  rw [List.length_drop] at hlength
  omega

/-- A fault of any kind that a call of a flush meets ends the flush.  What was taken until then is
gone from the front of the buffer, and nothing else is, unless something was taken and the fault is
none of the operating system.  Then the next flush takes what follows that, whatever it is sent
over, and all of it if it returns. -/
theorem resumes_of_fault (huses : f.sender.Uses k) {front back : List Event} {e : Event}
    (hsplit : f.step.events = front ++ e :: back)
    (hfault : (k.after front).fault? e = some fault) :
    let t := f.step
    let n := t.taken.length
    (t.Reports fault ∨ t.outcome = .error (.fault fault)) ∧
      t.taken = f.sender.buffer.committed.take n ∧
      (t.sender.buffer = f.sender.buffer.consume n ↔ fault.kind.isSystem = true ∨ n = 0) ∧
      (fault.kind.isSystem = true ∨ n = 0 →
        t.sender.buffer.committed.length + n = f.sender.buffer.committed.length ∧
        ∀ next : Flush, next.sender.buffer = t.sender.buffer →
          t.taken ++ next.step.taken <+: f.sender.buffer.committed ∧
          (next.step.outcome = .ok () →
            t.taken ++ next.step.taken = f.sender.buffer.committed)) := by
  intro t n
  have hprefix : t.taken <+: f.sender.buffer.committed := f.goes.sent.isPrefix
  have htaken : t.taken = f.sender.buffer.committed.take n := List.prefix_iff_eq_take.1 hprefix
  have hremoved : t.sender.buffer = f.sender.buffer.consume n ↔
      fault.kind.isSystem = true ∨ n = 0 := by
    cases f.goes.breaks huses hsplit hfault with
    | reported _ hsystem hbuffer => exact iff_of_true hbuffer (Or.inl hsystem)
    | passed _ hbuffer hother =>
        constructor
        · intro hconsumed
          exact Or.inr (eq_zero_of_consume hprefix.length_le (hconsumed.symm.trans hbuffer))
        · intro hzero
          have hn : n = 0 := hzero.elim
            (fun hsystem => hother.elim (fun h => nomatch hsystem.symm.trans h)
              fun hnil => List.length_eq_zero_iff.2 hnil) id
          rw [hn]
          exact hbuffer
  refine ⟨?_, htaken, hremoved, fun hresumes => ?_⟩
  · cases f.goes.breaks huses hsplit hfault with
    | reported h => exact Or.inl h
    | passed h => exact Or.inr h
  · have hrest : t.sender.buffer.committed = f.sender.buffer.committed.drop n :=
      congrArg Buffer.committed (hremoved.2 hresumes)
    have hwhole : t.taken ++ t.sender.buffer.committed = f.sender.buffer.committed := by
      rw [htaken, hrest, List.take_append_drop]
    refine ⟨?_, fun next hnext => ?_⟩
    · rw [← hwhole, List.length_append, Nat.add_comm]
    · have hsent := next.goes.sent
      rw [hnext] at hsent
      refine ⟨?_, fun hok => ?_⟩
      · rw [← hwhole]
        exact (List.prefix_append_right_inj _).2 hsent.isPrefix
      · rw [hok] at hsent
        rw [hsent.of_ok.1, hwhole]

/-- The connection is lost after the first byte of a row, and the next one takes the others. -/
theorem resumes_of_fault_lost :
    let f : Flush := ⟨Sender.fresh.afterAll (Sender.begun .lost), .null, none⟩
    let next : Flush :=
      ⟨f.step.sender.afterAll [.close, .connect .null (.ok ⟨[], []⟩)], .null, none⟩
    f.step.taken = [116] ∧ f.step.taken ++ next.step.taken = [116, 116, 10] := by
  intro f next
  have huses : f.sender.Uses ⟨.lost, none, ⟨0⟩⟩ := ⟨rfl, rfl⟩
  have hevents : f.step.events =
      [.setTimeout none, .send [116, 116, 10] (some 1)] ++ .send [116, 10] none :: [] := by rfl
  obtain ⟨-, -, -, hresumes⟩ := resumes_of_fault huses hevents (by rfl)
  obtain ⟨-, hnext⟩ := hresumes (Or.inl (by decide))
  exact ⟨by rfl, (hnext next (by rfl)).2 (by rfl)⟩

end Flush

/-- A connection that takes one byte and then fails in a way of its own. -/
def Connection.broken : Connection where
  sends := [⟨none, .ok (some 1)⟩, ⟨none, .error (.of .runtime "boom")⟩]
  timeouts := []

namespace Flush

/-- Not every fault leaves a buffer without what was taken. -/
theorem not_resumes_broken :
    ¬∀ (f : Flush) (k : Channel), f.sender.Uses k → ∀ front e back fault,
      f.step.events = front ++ e :: back → (k.after front).fault? e = some fault →
        f.step.sender.buffer = f.sender.buffer.consume f.step.taken.length := by
  intro hremoved
  have hbuffer := hremoved ⟨Sender.fresh.afterAll (Sender.begun .broken), .null, none⟩
    ⟨.broken, none, ⟨0⟩⟩ ⟨rfl, rfl⟩ [.setTimeout none, .send [116, 116, 10] (some 1)]
    (.send [116, 10] none) [] _ rfl rfl
  exact absurd (congrArg Buffer.committed hbuffer) (by decide +kernel)

end Flush

end LineProtocol
