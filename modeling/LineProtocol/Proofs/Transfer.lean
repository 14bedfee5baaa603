import LineProtocol.Connection
/-!
# What a transfer takes

A transfer hands over the data from its front, without gaps or repetitions, and
unless it fails it hands over all of it.  Over a connection whose faults come from
the operating system it fails with such faults only.
-/

namespace LineProtocol

/-- A connection whose faults all come from the operating system. -/
structure Connection.Regular (c : Connection) : Prop where
  sends : ∀ reply ∈ c.sends, ∀ fault, reply.answer = .error fault → fault.kind.isSystem = true
  timeouts : ∀ fault, some fault ∈ c.timeouts → fault.kind.isSystem = true

theorem Connection.Regular.changeTimeout {c : Connection} (h : c.Regular) :
    c.changeTimeout.2.Regular := by
  obtain ⟨sends, timeouts⟩ := c
  cases timeouts with
  | nil => exact h
  | cons reply timeouts =>
      exact ⟨h.sends, fun fault hf => h.timeouts fault (List.mem_cons_of_mem reply hf)⟩

namespace Transfer

/-! ## Arming -/

/-- Setting a timeout takes no bytes, and fails as a reply says. -/
structure Armed (timeouts : List (Option Fault))
    (armed : Option Fault × List (Option Fault) × List Event) : Prop where
  later : ∀ reply ∈ armed.2.1, reply ∈ timeouts
  taken : armed.2.2.flatMap Event.taken = []
  isSystem : (∀ fault, some fault ∈ timeouts → fault.kind.isSystem = true) →
    ∀ fault, armed.1 = some fault → fault.kind.isSystem = true

theorem armed_arm (deadline : Option Deadline) (clock : Binary64)
    (timeouts : List (Option Fault)) : Armed timeouts (arm deadline clock timeouts) := by
  unfold arm
  split
  · exact ⟨fun _ h => h, rfl, fun _ => nofun⟩
  · next d =>
    dsimp only
    split
    · refine ⟨fun _ h => h, rfl, fun _ fault hf => ?_⟩
      cases hf
      rfl
    · refine ⟨fun _ => List.mem_of_mem_tail, rfl, fun h fault hf => ?_⟩
      cases timeouts with
      | nil => contradiction
      | cons reply timeouts =>
          have hreply : reply = some fault := hf
          exact h fault (by simp [hreply])

/-! ## Running -/

/-- The transfer took the first bytes of the data, all of them if nothing failed; over a regular
connection it failed as the operating system does. -/
structure Sound (connection : Connection) (data : Bytes) (t : Transfer) : Prop where
  sent_le : t.sent ≤ data.length
  taken : t.events.flatMap Event.taken = data.take t.sent
  sent_eq : t.fault = none → t.sent = data.length
  regular : connection.Regular → t.connection.Regular
  isSystem : connection.Regular → ∀ fault, t.fault = some fault → fault.kind.isSystem = true

theorem sound_nil (connection : Connection) (clock : Binary64) :
    Sound connection [] ⟨0, none, connection, clock, []⟩ :=
  ⟨Nat.le_refl _, rfl, fun _ => rfl, fun h => h, fun _ => nofun⟩

variable {sends : List Reply} {timeouts later : List (Option Fault)} {events : List Event}
  {data : Bytes}

theorem sound_of_arm {fault : Fault} (h : Armed timeouts (some fault, later, events))
    (clock : Binary64) :
    Sound ⟨sends, timeouts⟩ data ⟨0, some fault, ⟨sends, later⟩, clock, events⟩ where
  sent_le := Nat.zero_le _
  taken := h.taken
  sent_eq := nofun
  regular := fun hr => ⟨hr.sends, fun f hf => hr.timeouts f (h.later _ hf)⟩
  isSystem := fun hr => h.isSystem hr.timeouts

theorem sound_of_fault {reply : Reply} {fault : Fault} (hreply : reply.answer = .error fault)
    (h : Armed timeouts (none, later, events)) (clock : Binary64) :
    Sound ⟨reply :: sends, timeouts⟩ data
      ⟨0, some fault, ⟨sends, later⟩, clock, events ++ [.send data none]⟩ where
  sent_le := Nat.zero_le _
  taken := by
    rw [List.flatMap_append, h.taken]
    rfl
  sent_eq := nofun
  regular := fun hr =>
    ⟨fun r hmem => hr.sends r (List.mem_cons_of_mem reply hmem),
      fun f hf => hr.timeouts f (h.later _ hf)⟩
  isSystem := by
    intro hr f hf
    cases hf
    exact hr.sends reply List.mem_cons_self fault hreply

/-- Taking some bytes and then the first of the others is taking the first bytes. -/
theorem Sound.after {accepted : Nat} {t : Transfer} {connection : Connection}
    (ht : t.Sound connection (data.drop accepted)) (haccepted : accepted ≤ data.length)
    (h : Armed timeouts (none, later, events)) {whole : Connection}
    (hwhole : whole.Regular → connection.Regular) :
    (t.after accepted (events ++ [.send data (some accepted)])).Sound whole data where
  sent_le := by
    have hle := ht.sent_le
    rw [List.length_drop] at hle
    show accepted + t.sent ≤ data.length
    omega
  taken := by
    show (events ++ [Event.send data (some accepted)] ++ t.events).flatMap Event.taken = _
    rw [List.flatMap_append, List.flatMap_append, h.taken, ht.taken]
    show [] ++ (data.take accepted ++ []) ++ _ = data.take (accepted + t.sent)
    rw [List.nil_append, List.append_nil, List.take_add]
  sent_eq := by
    intro hfault
    have heq := ht.sent_eq hfault
    rw [List.length_drop] at heq
    show accepted + t.sent = data.length
    omega
  regular := fun hr => ht.regular (hwhole hr)
  isSystem := fun hr => ht.isSystem (hwhole hr)

theorem sound_run (deadline : Option Deadline) (sends : List Reply)
    (timeouts : List (Option Fault)) (clock : Binary64) (data : Bytes) :
    (run deadline sends timeouts clock data).Sound ⟨sends, timeouts⟩ data := by
  induction sends generalizing timeouts clock data with
  | nil =>
      cases data with
      | nil => exact sound_nil _ _
      | cons b bs =>
          have harmed := armed_arm deadline clock timeouts
          rw [run]
          generalize arm deadline clock timeouts = armed at harmed ⊢
          rcases armed with ⟨_ | fault, later, events⟩
          · have hrest : Sound ⟨[], later⟩ ((b :: bs).drop (b :: bs).length)
                ⟨0, none, ⟨[], later⟩, clock, []⟩ := by
              rw [List.drop_length]
              exact sound_nil _ _
            have hsound := hrest.after (Nat.le_refl _) harmed
              fun hr : Connection.Regular ⟨[], timeouts⟩ =>
                ⟨hr.sends, fun f hf => hr.timeouts f (harmed.later _ hf)⟩
            rwa [after, List.append_nil] at hsound
          · exact sound_of_arm harmed clock
  | cons reply sends ih =>
      cases data with
      | nil => exact sound_nil _ _
      | cons b bs =>
          have harmed := armed_arm deadline clock timeouts
          rw [run]
          generalize arm deadline clock timeouts = armed at harmed ⊢
          rcases armed with ⟨_ | fault, later, events⟩
          · rcases reply with ⟨elapsed, fault | limit⟩
            · exact sound_of_fault rfl harmed _
            · exact (ih later _ _).after (Nat.min_le_right _ _) harmed fun hr =>
                ⟨fun r hmem => hr.sends r (List.mem_cons_of_mem _ hmem),
                  fun f hf => hr.timeouts f (harmed.later _ hf)⟩
          · exact sound_of_arm harmed clock

/-- A transfer that a fault ended has not taken everything. -/
theorem sent_lt_of_fault {deadline : Option Deadline} {sends : List Reply}
    {timeouts : List (Option Fault)} {clock : Binary64} {data : Bytes}
    (h : (run deadline sends timeouts clock data).fault ≠ none) :
    (run deadline sends timeouts clock data).sent < data.length := by
  induction sends generalizing timeouts clock data with
  | nil =>
      cases data with
      | nil => exact absurd rfl h
      | cons b bs =>
          rw [run] at h ⊢
          generalize arm deadline clock timeouts = armed at h ⊢
          rcases armed with ⟨_ | fault, later, events⟩
          · exact absurd rfl h
          · exact Nat.zero_lt_succ _
  | cons reply sends ih =>
      cases data with
      | nil => exact absurd rfl h
      | cons b bs =>
          rw [run] at h ⊢
          generalize arm deadline clock timeouts = armed at h ⊢
          rcases armed with ⟨_ | fault, later, events⟩
          · rcases reply with ⟨elapsed, fault | limit⟩
            · exact Nat.zero_lt_succ _
            · -- the rest was not taken to its end
              have hrest := ih h
              rw [List.length_drop] at hrest
              exact Nat.add_lt_of_lt_sub' hrest
          · exact Nat.zero_lt_succ _

end Transfer

end LineProtocol
