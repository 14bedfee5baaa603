import LineProtocol.Proofs.Resuming
import LineProtocol.Proofs.Room
/-!
# Leaving a block

On leaving a block that works with a sender, the connection is closed after whatever
came before, be it nothing or a flush that ended in any way.  Closing is the last thing
that happens to the connection, it does not change how leaving ends, and it does not
touch the buffer, which keeps all finished bytes that were not taken.
-/

namespace LineProtocol

theorem Channel.close_not_mem {k : Channel} {events : List Event} (h : k.Each Answers events) :
    .close ∉ events := by
  intro hmem
  obtain ⟨front, back, hsplit⟩ := List.append_of_mem hmem
  exact h front .close back hsplit

/-- The step `t` is the step `u` from `s`, and then the connection that `s` had, if any, is closed
for the first and last time. -/
structure Step.Releases (s : Sender) (t u : Step) : Prop where
  unconnected : t.sender.connection = none
  buffer : t.sender.buffer = u.sender.buffer
  outcome : t.outcome = u.outcome
  idle : s.connection = none → t.events = []
  /-- Before it is closed, the connection answers calls as its replies say. -/
  answers : ∀ c, s.connection = some c → Channel.Each Channel.Answers ⟨c, none, s.clock⟩ u.events
  once : .close ∉ u.events
  closes : s.connection ≠ none →
    t.events = u.events ++ [.close, .log (.closed u.sender.address u.sender.buffer.size)]

/-- Closing takes no bytes. -/
theorem Step.Releases.taken {s : Sender} {t u : Step} (h : t.Releases s u)
    (hidle : s.connection = none → u.events = []) : t.taken = u.taken := by
  unfold Step.taken
  by_cases hc : s.connection = none
  · rw [h.idle hc, hidle hc]
  · rw [h.closes hc, List.flatMap_append]
    exact List.append_nil _

namespace Sender

variable {s : Sender} {op : Operation} {u : Step}

/-- Closing after what an operation begins with releases the connection. -/
theorem Begins.released (h : s.Begins op u) : (u.always close).Releases s u := by
  cases hc : s.connection with
  | none =>
      obtain ⟨hevents, hconnection, -, -⟩ := h.unconnected hc
      rw [hc] at hconnection
      rw [always_close_of_none hconnection]
      refine ⟨hconnection, rfl, rfl, fun _ => hevents, by simp [hc], ?_, fun hne => absurd hc hne⟩
      rw [hevents]
      exact List.not_mem_nil
  | some c =>
      -- the operation kept the connection, so there is one to close
      obtain ⟨hanswers, huses, -, -⟩ := h.connected (k := ⟨c, none, s.clock⟩) ⟨hc, rfl⟩
      rw [Sender.always_close (by simp [huses.connection])]
      have honce : .close ∉ u.events := Channel.close_not_mem hanswers
      refine ⟨rfl, rfl, rfl, by simp [hc], fun d hd => ?_, honce, fun _ => rfl⟩
      obtain rfl := Option.some.inj (hc.symm.trans hd)
      exact hanswers

/-- Leaving a block releases the connection, and nothing is sent or lost if the block failed.  If it
did not, leaving ends as a flush does: it returns only if all finished rows were taken, and what was
not taken of them stays, in order.  Leaving comes to an end if the size of the buffer is an
integer. -/
theorem leave_releases {address size : Value} {clock : Binary64}
    (hs : (create address size clock).1 = .ok s) (ops : List Operation) (failed : Bool) :
    let before := s.afterAll ops
    let body := if failed then before.done [] else before.flush .null none
    let t := before.leave failed
    (∀ n, size = .int n → t.outcome ≠ .error .endless) ∧
      (t.outcome ≠ .error .endless → t.Releases before body ∧
        (failed = true → t.outcome = .ok () ∧ t.sender.buffer = before.buffer ∧
          ∀ e ∈ t.events, e.isCall = false) ∧
        (failed = false → (t.outcome = .ok () → t.taken = before.buffer.committed) ∧
          t.taken <+: before.buffer.committed ∧
          before.buffer.committed.drop t.taken.length <:+ t.sender.buffer.committed)) := by
  intro before body t
  have hbegins : before.Begins (.leave failed) body := by
    cases failed with
    | true => exact .idle rfl (idle_done rfl rfl)
    | false => exact .flush (f := ⟨before, .null, none⟩) rfl
  have hreleases : t.Releases before body := hbegins.released
  refine ⟨fun n hn => ?_, fun _ => ⟨hreleases, ?_, ?_⟩⟩
  · obtain ⟨c, -, hboundless, hreachable⟩ := reachable_of_create hs
    exact perform_ends ((hreachable ops).boundless (hboundless n hn)) (.leave failed)
  · rintro rfl
    refine ⟨hreleases.outcome, hreleases.buffer, ?_⟩
    by_cases hc : before.connection = none
    · rw [hreleases.idle hc]
      exact List.forall_mem_nil _
    · rw [hreleases.closes hc]
      simp [body, done, Event.isCall]
  · rintro rfl
    have hsent : before.buffer.Sent body.taken body.sender.buffer body.outcome :=
      (Flush.goes ⟨before, .null, none⟩).sent
    have htaken : t.taken = body.taken :=
      hreleases.taken fun hc => (hbegins.unconnected hc).events
    rw [htaken, hreleases.buffer, hreleases.outcome]
    refine ⟨fun hok => ?_, hsent.isPrefix, hsent.isSuffix⟩
    rw [hok] at hsent
    exact hsent.of_ok.1

/-- A fault passes through on leaving, and the connection is closed all the same. -/
theorem leave_releases_broken :
    let before := fresh.afterAll (begun .broken)
    let t := before.leave false
    t.sender.connection = none ∧ t.outcome = (before.flush .null none).outcome ∧
      t.outcome = .error (.fault (.of .runtime "boom")) ∧ t.taken = [116] ∧
      t.sender.buffer.committed = [116, 116, 10] := by
  intro before t
  obtain ⟨hends, hleft⟩ := leave_releases create_fresh (begun .broken) false
  obtain ⟨hreleases, -, -⟩ := hleft (hends 64 rfl)
  exact ⟨hreleases.unconnected, hreleases.outcome, by rfl, by rfl, by rfl⟩

end Sender

end LineProtocol
