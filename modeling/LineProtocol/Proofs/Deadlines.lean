import LineProtocol.Proofs.Resuming
import LineProtocol.Proofs.Room
/-!
# What a report of the deadline means

The error of an exceeded deadline is reported by flushes only.  A flush that was given
a timeout reports it when the time is over.  A flush that was given none reports it in
one case: an attempt to send failed with a timeout of the operating system, which is of
the same kind of fault.  Every other fault of the operating system that such an attempt
ends with is reported as one of the socket.
-/

namespace LineProtocol

/-! ## Attempts that fail -/

/-- An attempt to send over the channel fails with the given fault. -/
def Channel.Fails (fault : Fault) (k : Channel) (events : List Event) : Prop :=
  ∃ front offered accepted back, events = front ++ .send offered accepted :: back ∧
    (k.after front).fault? (.send offered accepted) = some fault

namespace Channel.Fails

variable {k : Channel} {fault : Fault} {front back events rest : List Event}

theorem after (h : (k.after front).Fails fault back) : k.Fails fault (front ++ back) := by
  obtain ⟨first, offered, accepted, last, rfl, hfault⟩ := h
  refine ⟨front ++ first, offered, accepted, last, (List.append_assoc ..).symm, ?_⟩
  rwa [after_append]

theorem append (h : k.Fails fault events) (rest : List Event) : k.Fails fault (events ++ rest) := by
  obtain ⟨front, offered, accepted, back, rfl, hfault⟩ := h
  exact ⟨front, offered, accepted, back ++ rest, List.append_assoc .., hfault⟩

theorem of_append (h : k.Fails fault (events ++ rest)) (hrest : ∀ e ∈ rest, e.isCall = false) :
    k.Fails fault events := by
  obtain ⟨front, offered, accepted, back, hsplit, hfault⟩ := h
  rcases List.append_eq_append_iff.1 hsplit with ⟨later, -, rfl⟩ | ⟨later, rfl, hback⟩
  · exact absurd (List.mem_append_right later List.mem_cons_self)
      (send_not_mem hrest offered accepted)
  · cases later with
    | nil =>
        rw [List.nil_append] at hback
        exact absurd (hback ▸ List.mem_cons_self) (send_not_mem hrest offered accepted)
    | cons e later =>
        obtain ⟨rfl, -⟩ := List.cons.inj hback
        exact ⟨front, offered, accepted, later, rfl, hfault⟩

end Channel.Fails

/-- Without a deadline, only an attempt to send ends a transfer early. -/
theorem Transfer.Course.fails {deadline : Option Deadline} {k : Channel} {data : Bytes}
    {t : Transfer} {fault : Fault} (h : Course deadline k data t) (hnone : deadline = none)
    (hfault : t.fault = some fault) : k.Fails fault t.events := by
  induction h with
  | finished => cases hfault
  | expired hd | unset hd => exact nomatch hnone.symm.trans hd
  | failed _ hfails =>
      cases hfault
      exact .after ⟨[], _, _, [], rfl, hfails⟩
  | took _ _ _ hlater _ ih =>
      refine .after ?_
      rw [hlater]
      exact ih hfault

/-! ## Flushes -/

theorem ErrorCode.deadlineExceeded_not_mem_refusals : deadlineExceeded ∉ refusals := by decide

theorem RowError.code_ne_deadlineExceeded (e : RowError) : e.code ≠ .deadlineExceeded :=
  fun h => ErrorCode.deadlineExceeded_not_mem_refusals (h ▸ e.code_mem_refusals)

theorem TransportError.code_flushFailed_eq_deadlineExceeded_iff (fault : Fault)
    (sent total : Nat) :
    (flushFailed fault sent total).code = .deadlineExceeded ↔ fault.kind = .timedOut := by
  show (if fault.kind = .timedOut then ErrorCode.deadlineExceeded else .socket) = _ ↔ _
  split
  · next hkind => exact iff_of_true rfl hkind
  · next hkind => exact iff_of_false nofun hkind

/-- Without a deadline, sending finished rows reports nothing but the failure of an attempt. -/
theorem Sender.transmit_fails {s : Sender} {k : Channel} (hclock : s.clock = k.clock)
    {e : SenderError} (he : (s.transmit none k.replies).outcome = .error (.error e)) :
    ∃ fault sent total, e = .transport (.flushFailed fault sent total) ∧
      k.Fails fault (s.transmit none k.replies).events := by
  obtain ⟨fault, hfault, rfl⟩ := (s.transmits none k.replies).eq_flushFailed he
  obtain ⟨rest, hevents, -⟩ := (s.transmits none k.replies).events
  rw [hevents]
  exact ⟨fault, _, _, rfl, .append ((course_transfer none hclock).fails rfl hfault) rest⟩

namespace Flush.Goes

variable {f : Flush} {k : Channel} {t : Step} {fault : Fault}

/-- A fault of the operating system that an attempt to send ends with is reported. -/
theorem flushFailed_of_fails (h : f.Goes t) (huses : f.sender.Uses k)
    (hfails : k.Fails fault t.events) (hsystem : fault.kind.isSystem = true) :
    ∃ sent total, t.outcome = .error (.error (.transport (.flushFailed fault sent total))) := by
  obtain ⟨front, offered, accepted, back, hsplit, hfault⟩ := hfails
  refine (h.outcome_of_fault huses hsplit hfault).resolve_right fun hpassed => ?_
  have hexchanges : t.Exchanges k f.timeout.Uncountable := h.exchanges huses fun _ => id
  obtain ⟨e, hreported, -⟩ := (hexchanges.surfaces _ _ _ hsplit fault hfault).2 nofun hsystem
  exact nomatch hreported.symm.trans hpassed

/-- A flush without a timeout reports the deadline only after a timeout of the operating system. -/
theorem exists_timedOut (h : f.Goes t) (hnull : f.timeout = .null) {e : SenderError}
    (he : t.outcome = .error (.error e)) (hcode : e.code = .deadlineExceeded) :
    ∃ k fault, f.sender.Uses k ∧ k.Fails fault t.events ∧ fault.kind = .timedOut := by
  cases h with
  | @reported e' =>
      cases he
      exact absurd hcode e'.code_ne_deadlineExceeded
  | unconnected | cancelled =>
      cases he
      contradiction
  | @delivers c _ _ _ hc h =>
      cases h with
      | uncounted hsome | passed hsome | overlong hsome | limited hsome => exact absurd hnull hsome
      | unlifted => cases he
      | lifted =>
          let k : Channel := ⟨c, none, f.sender.clock⟩
          obtain ⟨fault, sent, total, rfl, hfails⟩ :=
            Sender.transmit_fails (k := k.next (.setTimeout none)) rfl he
          have hwhole : k.Fails fault ([.setTimeout none] ++ (f.sender.transmit none _).events) :=
            .after hfails
          refine ⟨k, fault, ⟨hc, rfl⟩, hwhole, ?_⟩
          exact (TransportError.code_flushFailed_eq_deadlineExceeded_iff fault sent total).1 hcode

end Flush.Goes

/-! ## Operations -/

namespace Sender

variable {s : Sender} {k : Channel} {op : Operation} {t : Step} {fault : Fault}

/-- Whatever else an operation reports without a flush, unless it connects, is about its row. -/
theorem eq_row_of_flush?_eq_none (h : s.flush? op = none) {e : SenderError}
    (he : (s.perform op).outcome = .error (.error e))
    (hconnect : ∀ timeout reply, op ≠ .connect timeout reply) : ∃ r, e = .row r := by
  cases op with
  | connect timeout reply => exact absurd rfl (hconnect timeout reply)
  | build call => exact absurd he ((s.buffer.applied call).ne_error e)
  | endRow timestamp timeout cancel =>
      replace he : (s.endRow timestamp timeout cancel).outcome = .error (.error e) := he
      have hended := s.buffer.ended timestamp
      rcases hb : s.buffer.endRow timestamp with ⟨b, failure | ⟨⟩⟩
      · rw [endRow_of_error hb] at he
        obtain rfl := Except.error.inj he
        rw [hb] at hended
        cases hended <;> exact ⟨_, rfl⟩
      · simp only [flush?, hb] at h
        rw [endRow_of_ok hb] at he
        split at h
        · contradiction
        · next hroom =>
          rw [if_neg hroom] at he
          cases he
  | flush => contradiction
  | leave failed =>
      cases failed with
      | false => contradiction
      | true => cases s.outcome_close.symm.trans he
  | close => cases s.outcome_close.symm.trans he
  | clear => cases he

/-- An operation that flushes makes no calls after the flush. -/
theorem Performs.events_of_flush? (h : s.Performs op t) {f : Flush} (hf : s.flush? op = some f) :
    ∃ rest, t.events = f.step.events ++ rest ∧ ∀ e ∈ rest, e.isCall = false := by
  cases h with
  | connect => contradiction
  | keeps _ h =>
      rw [h.eq_step hf]
      exact ⟨[], (List.append_nil _).symm, List.forall_mem_nil _⟩
  | @closes _ u _ h =>
      rw [← h.eq_step hf]
      exact ⟨_, rfl, not_isCall_closing u⟩

/-- Only flushes attempt to send. -/
theorem Performs.fails (h : s.Performs op t) (huses : s.Uses k) (hfails : k.Fails fault t.events) :
    ∃ f, s.flush? op = some f ∧ k.Fails fault f.step.events := by
  have ⟨front, offered, accepted, back, hsplit, _⟩ := hfails
  obtain ⟨f, hf, -⟩ := h.sends huses front _ back hsplit offered accepted rfl
  obtain ⟨rest, hevents, hrest⟩ := h.events_of_flush? hf
  rw [hevents] at hfails
  exact ⟨f, hf, hfails.of_append hrest⟩

theorem code_connect_ne_deadlineExceeded {timeout : Value} {reply : Except Fault Connection}
    {e : SenderError} (he : (s.connect timeout reply).outcome = .error (.error e)) :
    e.code ≠ .deadlineExceeded := by
  have hconnects := s.connects timeout reply
  generalize s.connect timeout reply = t at hconnects he
  cases hconnects with
  | already | refused =>
      cases he
      exact nofun
  | raised | abandoned | opened => cases he

/-- A flush without a timeout reports that the deadline is exceeded only if an attempt to send fails
with a timeout of the operating system, and no other operation reports it.  Whether there is a
timeout or not, a fault of the operating system that an attempt ends with is reported, as one of the
deadline if it is a timeout and as one of the socket if not. -/
theorem perform_deadlineExceeded (s : Sender) (op : Operation) :
    let t := s.perform op
    (∀ e, t.outcome = .error (.error e) → e.code = .deadlineExceeded →
      ∃ f, s.flush? op = some f ∧ (f.timeout = .null →
        ∃ k fault, s.Uses k ∧ k.Fails fault t.events ∧ fault.kind = .timedOut)) ∧
      ∀ k fault, s.Uses k → k.Fails fault t.events → fault.kind.isSystem = true →
        ∃ e : TransportError, t.outcome = .error (.error (.transport e)) ∧
          e.fault? = some fault ∧ e.cause? = some fault.kind ∧
          e.code = if fault.kind = .timedOut then .deadlineExceeded else .socket := by
  intro t
  have hperforms : s.Performs op t := s.performs op
  refine ⟨fun e he hcode => ?_, fun k fault huses hfails hsystem => ?_⟩
  · cases hf : s.flush? op with
    | none =>
        by_cases hconnect : ∃ timeout reply, op = .connect timeout reply
        · obtain ⟨timeout, reply, rfl⟩ := hconnect
          exact absurd hcode (code_connect_ne_deadlineExceeded he)
        · obtain ⟨r, rfl⟩ := eq_row_of_flush?_eq_none hf he fun timeout reply hop =>
            hconnect ⟨timeout, reply, hop⟩
          exact absurd hcode r.code_ne_deadlineExceeded
    | some f =>
        refine ⟨f, rfl, fun hnull => ?_⟩
        have hstep := (hperforms.of_flush? hf).2.symm.trans he
        obtain ⟨k, fault, huses, hfails, hkind⟩ := f.goes.exists_timedOut hnull hstep hcode
        obtain ⟨hconnection, hclock⟩ := connection_flush? hf
        obtain ⟨rest, hevents, -⟩ := hperforms.events_of_flush? hf
        rw [hevents]
        exact ⟨k, fault, ⟨hconnection.symm.trans huses.connection, hclock.symm.trans huses.clock⟩,
          hfails.append rest, hkind⟩
  · obtain ⟨f, hf, hflush⟩ := hperforms.fails huses hfails
    obtain ⟨sent, total, houtcome⟩ :=
      f.goes.flushFailed_of_fails (uses_flush? hf huses) hflush hsystem
    exact ⟨_, (hperforms.of_flush? hf).2.trans houtcome, rfl, rfl, rfl⟩

/-- The connection is lost in a flush without a timeout. -/
theorem perform_deadlineExceeded_lost :
    let t := (fresh.afterAll (begun .lost)).perform (.flush .null none)
    ∃ e : TransportError, t.outcome = .error (.error (.transport e)) ∧ e.code = .socket := by
  intro t
  have hfails : Channel.Fails (.of .connectionReset "reset") ⟨.lost, none, ⟨0⟩⟩ t.events :=
    ⟨[.setTimeout none, .send [116, 116, 10] (some 1)], [116, 10], none, [], by rfl, by rfl⟩
  obtain ⟨-, hreports⟩ :=
    perform_deadlineExceeded (fresh.afterAll (begun .lost)) (.flush .null none)
  obtain ⟨e, he, -, -, hcode⟩ := hreports _ _ ⟨rfl, rfl⟩ hfails rfl
  exact ⟨e, he, hcode⟩

end Sender

/-- A connection over which the operating system gives up sending. -/
def Connection.unreachable : Connection where
  sends := [⟨none, .error (.of (.ofNumber 110) "[Errno 110] Connection timed out")⟩]
  timeouts := []

namespace Sender

/-- Not every report of the deadline comes from a flush with a timeout. -/
theorem not_deadlineExceeded_unreachable :
    ¬∀ (ops : List Operation) (op : Operation) (e : SenderError),
      ((fresh.afterAll ops).perform op).outcome = .error (.error e) →
        e.code = .deadlineExceeded →
          ∃ f, (fresh.afterAll ops).flush? op = some f ∧ f.timeout ≠ .null := by
  intro htimeout
  obtain ⟨f, hf, hnull⟩ :=
    htimeout (begun .unreachable) (.flush .null none) _ (by rfl) (by rfl)
  cases hf
  exact hnull rfl

end Sender

end LineProtocol
