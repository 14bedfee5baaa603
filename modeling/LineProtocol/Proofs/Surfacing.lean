import LineProtocol.Proofs.Exchange
/-!
# How faults surface

A fault of the operating system that meets an operation, when a connection is asked
for, when a timeout is changed or when bytes are sent, ends that operation.  It is
the cause of the error that is reported, except where the change lifts the timeout:
there it passes through as it is.  A failed attempt to connect leaves the sender as
it was.
-/

namespace LineProtocol

namespace Sender

/-- The channel on which an operation makes its calls, as it is when the operation starts. -/
structure Engages (s : Sender) (op : Operation) (k : Channel) : Prop where
  connection : s.peer? op = some k.replies
  clock : s.clock = k.clock

/-- A fault of the operating system passes through an operation only if it comes from an argument
or from a change that lifts the timeout. -/
def LetsThrough (s : Sender) (op : Operation) (t : Step) : Prop :=
  t.Lets fun fault => op.Raises fault ∨ ∃ k, s.Engages op k ∧ t.Lifts k fault

variable {s : Sender} {k : Channel} {op : Operation} {t : Step}

/-! ## Connecting -/

namespace Connects

variable {timeout : Value} {reply : Except Fault Connection}

/-- Only a connection that comes into being is used. -/
theorem surfacing (h : s.Connects timeout reply t) (hk : s.Engages (.connect timeout reply) k) :
    t.Surfacing k ∧ ∀ c, t.sender.connection = some c → c = (k.after t.events).replies := by
  have hopens : k.Each (fun c e => ∀ fault, c.fault? e = some fault → t.Surfaces e fault)
      [.connect s.address timeout true] := Channel.each_singleton.2 fun _ => nofun
  have hreplies := hk.connection
  cases h with
  | already hheld =>
      rw [peer?, if_pos (Option.isSome_iff_ne_none.2 hheld)] at hreplies
      contradiction
  | refused hnone | raised hnone =>
      rw [peer?, hnone] at hreplies
      contradiction
  | @abandoned c fault hnone hfault =>
      rw [peer?, hnone] at hreplies
      obtain rfl := Option.some.inj hreplies
      refine ⟨Channel.each_append.2 ⟨hopens, Channel.each_singleton.2 fun f hf => ?_⟩, ?_⟩
      · obtain rfl := Option.some.inj (hfault.symm.trans hf)
        exact ⟨fun _ => rfl, fun h => absurd rfl h⟩
      · intro c' hc'
        exact nomatch hnone.symm.trans hc'
  | @opened c hnone hfault =>
      rw [peer?, hnone] at hreplies
      obtain rfl := Option.some.inj hreplies
      refine ⟨Channel.each_append.2 ⟨hopens, Channel.each_cons.2 ⟨fun f hf => ?_, ?_⟩⟩, ?_⟩
      · exact nomatch hfault.symm.trans hf
      · exact Channel.each_singleton.2 fun _ => nofun
      · rintro _ ⟨⟩
        rfl

theorem letsThrough (h : s.Connects timeout reply t) :
    s.LetsThrough (.connect timeout reply) t := by
  cases h with
  | already | refused | opened => exact Step.lets_of_ne_fault fun _ => nofun
  | raised _ hsystem =>
      refine Step.lets_of_isSystem ?_
      rintro _ ⟨⟩
      exact hsystem
  | @abandoned c _ hnone hfault =>
      rintro _ ⟨⟩ -
      refine Or.inr ⟨⟨c, none, s.clock⟩, ⟨?_, rfl⟩, [.connect s.address timeout true], [], rfl,
        hfault⟩
      rw [peer?, hnone]
      rfl

theorem sender_of_ne_ok (h : s.Connects timeout reply t) (hfails : t.outcome ≠ .ok ()) :
    t.sender = s := by
  cases h with
  | already | refused | raised | abandoned => rfl
  | opened => exact absurd rfl hfails

end Connects

/-! ## Other operations -/

theorem Engages.uses (h : s.Engages op k) (hpeer : s.peer? op = s.connection) : s.Uses k :=
  ⟨hpeer.symm.trans h.connection, h.clock⟩

namespace Begins

theorem letsThrough (h : s.Begins op t) (hpeer : s.peer? op = s.connection) :
    s.LetsThrough op t := by
  cases hconnection : s.connection with
  | none => exact (h.unconnected hconnection).lets.mono fun _ => Or.inl
  | some c =>
      have hexchanges := h.connected (k := ⟨c, none, s.clock⟩) ⟨hconnection, rfl⟩
      exact hexchanges.lets.mono fun fault =>
        Or.imp_right fun hlifts => ⟨_, ⟨hpeer.trans hconnection, rfl⟩, hlifts⟩

end Begins

/-- Closing a connection has no part in how a step ends. -/
theorem surfacing_closing (h : t.Surfacing k) : t.closing.Surfacing k := by
  refine Channel.each_append.2 ⟨h.mono fun _ _ he => he, ?_⟩
  exact Channel.each_cons.2 ⟨fun _ => nofun, Channel.each_singleton.2 fun _ => nofun⟩

theorem letsThrough_closing (h : s.LetsThrough op t) : s.LetsThrough op t.closing := by
  intro fault hfault hsystem
  rcases h fault hfault hsystem with hraises | ⟨k, hk, front, back, hevents, hlifts⟩
  · exact Or.inl hraises
  · let closed : Event := .log (.closed t.sender.address t.sender.buffer.size)
    refine Or.inr ⟨k, hk, front, back ++ [.close, closed], ?_, hlifts⟩
    show t.events ++ [.close, closed] = _
    rw [hevents, List.append_assoc, List.cons_append]

/-! ## All operations -/

namespace Performs

theorem surfacing (h : s.Performs op t) (hk : s.Engages op k) :
    t.Surfacing k ∧ ∀ c, t.sender.connection = some c → c = (k.after t.events).replies := by
  cases h with
  | connect h => exact h.surfacing hk
  | keeps hpeer h =>
      have hexchanges := h.connected (hk.uses hpeer)
      refine ⟨hexchanges.surfaces, fun c hc => ?_⟩
      exact Option.some.inj (hc.symm.trans hexchanges.uses.connection)
  | closes hpeer h =>
      exact ⟨surfacing_closing (h.connected (hk.uses hpeer)).surfaces, nofun⟩

theorem letsThrough (h : s.Performs op t) : s.LetsThrough op t := by
  cases h with
  | connect h => exact h.letsThrough
  | keeps hpeer h => exact h.letsThrough hpeer
  | closes hpeer h => exact letsThrough_closing (h.letsThrough hpeer)

end Performs

/-- Faults of the operating system surface.  Whatever a sender is asked to do, the refusal of a
connection is reported as the cause of an error, and so is the fault of any call on a connection,
unless the call lifts the timeout: the fault then passes through as it is.  Nothing else lets such
a fault through, but for an argument that answers with one when it is asked for a number.
Connecting either succeeds or leaves the sender as it was. -/
theorem perform_surfaces (s : Sender) (op : Operation) :
    let t := s.perform op
    (∀ timeout fault, op = .connect timeout (.error fault) → s.connection = none →
        fault.kind.isSystem = true → t.Reports fault) ∧
      (∀ k, s.Engages op k →
        t.Surfacing k ∧ ∀ c, t.sender.connection = some c → c = (k.after t.events).replies) ∧
      s.LetsThrough op t ∧
      (∀ timeout reply, op = .connect timeout reply → t.outcome ≠ .ok () → t.sender = s) := by
  intro t
  refine ⟨?_, fun k hk => (s.performs op).surfacing hk, (s.performs op).letsThrough, ?_⟩
  · rintro timeout fault rfl hnone hsystem
    have ht : t = s.fail (.connectFailed s.address.text fault)
        [.connect s.address timeout false] := by
      show s.connect timeout (.error fault) = _
      simp [connect, hnone, hsystem]
    rw [ht]
    exact ⟨_, rfl, rfl, rfl, Or.inl rfl⟩
  · rintro timeout reply rfl hfails
    exact (s.connects timeout reply).sender_of_ne_ok hfails

/-- A connection is lost in the course of a flush, and this is what the flush reports. -/
theorem perform_surfaces_lost :
    ((fresh.afterAll (begun .lost)).perform (.flush .null none)).Reports
      (.of .connectionReset "reset") := by
  obtain ⟨-, hsurfaces, -⟩ := perform_surfaces (fresh.afterAll (begun .lost)) (.flush .null none)
  obtain ⟨hsurfacing, -⟩ := hsurfaces ⟨.lost, none, ⟨0⟩⟩ ⟨rfl, rfl⟩
  have hevents : ((fresh.afterAll (begun .lost)).perform (.flush .null none)).events =
      [.setTimeout none, .send [116, 116, 10] (some 1)] ++ .send [116, 10] none :: [] := by rfl
  exact (hsurfacing _ _ _ hevents _ rfl).2 nofun rfl

/-- Not every fault of a call is reported: the first change of the timeout of a new connection lets
its fault through. -/
theorem not_reports_unready :
    ¬∀ (s : Sender) (op : Operation) (k : Channel), s.Engages op k →
      ∀ front e back fault, (s.perform op).events = front ++ e :: back →
        (k.after front).fault? e = some fault → fault.kind.isSystem = true →
        (s.perform op).Reports fault := by
  intro hreports
  obtain ⟨e, he, -⟩ := hreports fresh (.connect .null (.ok .unready)) ⟨.unready, none, ⟨0⟩⟩
    ⟨rfl, rfl⟩ [.connect fresh.address .null true] (.setTimeout none) [] _ rfl rfl rfl
  cases he

end Sender

end LineProtocol
