import LineProtocol.Connection
/-!
# Channels

A connection in use has a timeout in force, which is what the last change that did
not fail asked for, and it is used at a moment of the clock.  Both follow from the
calls that were made on it.  A transfer is a sequence of such calls.  Each of them is
answered by the next reply of the connection, the first fault ends the transfer, and
under a deadline nothing is sent before the timeout was set to the time that is left.
-/

namespace LineProtocol

/-- The reading of the clock after an attempt to send. -/
def Reply.clockAfter (reply : Reply) (clock : Binary64) : Binary64 :=
  match reply.elapsed with
  | none => clock
  | some seconds => clock + seconds

/-- A connection in use. -/
structure Channel where
  /-- The replies that are still to come. -/
  replies : Connection
  /-- The timeout in force, if one was ever set. -/
  timeout : Option (Option Binary64)
  clock : Binary64

namespace Channel

/-- The fault with which a call is answered, if it fails. -/
def fault? (k : Channel) : Event → Option Fault
  | .setTimeout _ => k.replies.timeouts.head?.join
  | .send .. =>
    match k.replies.sends with
    | ⟨_, .error fault⟩ :: _ => some fault
    | _ => none
  | _ => none

/-- The number of bytes that are taken of those offered, unless the attempt fails. -/
def accepts (k : Channel) (offered : Bytes) : Option Nat :=
  match k.replies.sends with
  | [] => some offered.length
  | ⟨_, .ok limit⟩ :: _ => some (min (limit.getD offered.length) offered.length)
  | ⟨_, .error _⟩ :: _ => none

/-- The channel after a call.  A change of the timeout that fails leaves the timeout as it was. -/
def next (k : Channel) : Event → Channel
  | .setTimeout seconds =>
    { k with
      replies := { k.replies with timeouts := k.replies.timeouts.tail }
      timeout := if k.replies.timeouts.head?.join.isSome then k.timeout else some seconds }
  | .send .. =>
    { k with
      replies := { k.replies with sends := k.replies.sends.tail }
      clock :=
        match k.replies.sends with
        | [] => k.clock
        | reply :: _ => reply.clockAfter k.clock }
  | _ => k

/-- An event that the channel may show: a call that went as its replies say, or a log entry. -/
def Answers (k : Channel) : Event → Prop
  | .send offered accepted => accepted = k.accepts offered
  | .setTimeout _ | .log _ => True
  | .connect .. | .close => False

def after (k : Channel) (events : List Event) : Channel := events.foldl next k

/-- `P` holds of every event and of the channel just before it. -/
def Each (P : Channel → Event → Prop) (k : Channel) (events : List Event) : Prop :=
  ∀ front e back, events = front ++ e :: back → P (k.after front) e

variable {P Q : Channel → Event → Prop} {k : Channel} {e : Event} {events front back : List Event}

theorem after_append (k : Channel) (front back : List Event) :
    k.after (front ++ back) = (k.after front).after back :=
  List.foldl_append

theorem after_concat (k : Channel) (front : List Event) (e : Event) :
    k.after (front ++ [e]) = (k.after front).next e :=
  after_append k front [e]

theorem each_nil : k.Each P [] := by
  intro front e back h
  simp at h

theorem each_cons : k.Each P (e :: events) ↔ P k e ∧ (k.next e).Each P events := by
  constructor
  · intro h
    refine ⟨h [] e events rfl, fun front e' back hsplit => h (e :: front) e' back ?_⟩
    rw [hsplit, List.cons_append]
  · rintro ⟨hhead, htail⟩ front e' back hsplit
    cases front with
    | nil =>
        cases hsplit
        exact hhead
    | cons first front =>
        cases hsplit
        exact htail front e' back rfl

theorem each_singleton : k.Each P [e] ↔ P k e := by
  rw [each_cons]
  exact and_iff_left each_nil

theorem each_append :
    k.Each P (front ++ back) ↔ k.Each P front ∧ (k.after front).Each P back := by
  induction front generalizing k with
  | nil => exact (and_iff_right each_nil).symm
  | cons e front ih =>
      rw [List.cons_append, each_cons, each_cons, ih, and_assoc]
      rfl

theorem Each.mono (h : k.Each P events) (hPQ : ∀ c e, P c e → Q c e) : k.Each Q events :=
  fun front e back hsplit => hPQ _ _ (h front e back hsplit)

/-- What is sent now is sent in time: the timeout in force is the time that the deadline leaves, and
this is not used up.  Without a deadline the timeout is still the first one. -/
def Under (deadline : Option Deadline) (first : Option (Option Binary64)) (k : Channel) : Prop :=
  match deadline with
  | none => k.timeout = first
  | some d =>
    k.timeout = some (some (d.remaining k.clock)) ∧ (d.remaining k.clock).isNonpositive = false

/-- `P` holds of the channel whenever something is sent. -/
def Sends (P : Channel → Prop) (k : Channel) (events : List Event) : Prop :=
  k.Each (fun c e => ∀ offered accepted, e = .send offered accepted → P c) events

/-- Once no time is left nothing is sent any more, and if fewer than `size` bytes were taken by
then, `Q` holds. -/
def Stops (d : Deadline) (size : Nat) (Q : Prop) (k : Channel) (events : List Event) : Prop :=
  ∀ front back, events = front ++ back →
    (d.remaining (k.after front).clock).isNonpositive = true →
      (∀ offered accepted, Event.send offered accepted ∉ back) ∧
        ((front.flatMap Event.taken).length < size → Q)

theorem Stops.mono {d : Deadline} {size : Nat} {Q R : Prop} (h : k.Stops d size Q events)
    (hQR : Q → R) : k.Stops d size R events := by
  intro front back hsplit hleft
  obtain ⟨hback, hshort⟩ := h front back hsplit hleft
  exact ⟨hback, fun hlt => hQR (hshort hlt)⟩

end Channel

/-! ## Events that are no calls -/

/-- A call on a connection, as opposed to its opening or closing and to what is logged. -/
def Event.isCall : Event → Bool
  | .setTimeout _ | .send .. => true
  | .connect .. | .close | .log _ => false

namespace Channel

variable {k : Channel} {events rest : List Event} (hrest : ∀ e ∈ rest, e.isCall = false)

include hrest

theorem after_of_not_call : k.after rest = k := by
  induction rest with
  | nil => rfl
  | cons e rest ih =>
      obtain ⟨he, hrest⟩ := List.forall_mem_cons.1 hrest
      have hnext : k.next e = k := by
        cases e with
        | setTimeout | send => contradiction
        | connect | close | log => rfl
      show (k.next e).after rest = k
      rw [hnext]
      exact ih hrest

theorem send_not_mem (offered : Bytes) (accepted : Option Nat) :
    Event.send offered accepted ∉ rest :=
  fun hmem => nomatch hrest _ hmem

theorem Sends.append {P : Channel → Prop} (h : k.Sends P events) : k.Sends P (events ++ rest) := by
  refine each_append.2 ⟨h, ?_⟩
  rintro front _ back hsplit offered accepted rfl
  have hmem : Event.send offered accepted ∈ rest :=
    hsplit ▸ List.mem_append_right front List.mem_cons_self
  exact absurd hmem (send_not_mem hrest offered accepted)

theorem Stops.append {d : Deadline} {size : Nat} {Q : Prop} (h : k.Stops d size Q events) :
    k.Stops d size Q (events ++ rest) := by
  intro front back hsplit hleft
  rcases List.append_eq_append_iff.1 hsplit with ⟨later, rfl, rfl⟩ | ⟨later, hfront, rfl⟩
  · -- the time is over after the last call
    obtain ⟨hlater, hback⟩ := List.forall_mem_append.1 hrest
    rw [after_append, after_of_not_call hlater] at hleft
    obtain ⟨-, hshort⟩ := h events [] (List.append_nil _).symm hleft
    refine ⟨send_not_mem hback, fun hlt => hshort ?_⟩
    rw [List.flatMap_append, List.length_append] at hlt
    omega
  · obtain ⟨hlater, hshort⟩ := h front later hfront hleft
    refine ⟨fun offered accepted hmem => ?_, hshort⟩
    rcases List.mem_append.1 hmem with hmem | hmem
    · exact hlater offered accepted hmem
    · exact send_not_mem hrest offered accepted hmem

end Channel

/-! ## Transfers -/

namespace Transfer

open Channel

/-- The calls before an attempt to send. -/
def arming (deadline : Option Deadline) (k : Channel) : List Event :=
  match deadline with
  | none => []
  | some d => [.setTimeout (some (d.remaining k.clock))]

/-- There is time left, and the timeout can be set to it. -/
def Ready (deadline : Option Deadline) (k : Channel) : Prop :=
  ∀ d, deadline = some d → (d.remaining k.clock).isNonpositive = false ∧
    k.fault? (.setTimeout (some (d.remaining k.clock))) = none

/-- The ways in which a transfer of `data` over a channel goes on. -/
inductive Course (deadline : Option Deadline) : Channel → Bytes → Transfer → Prop
  | finished (k : Channel) : Course deadline k [] ⟨0, none, k.replies, k.clock, []⟩
  | expired {k : Channel} {data : Bytes} {d : Deadline} (hd : deadline = some d)
      (hleft : (d.remaining k.clock).isNonpositive = true) :
      Course deadline k data ⟨0, some .deadline, k.replies, k.clock, []⟩
  | unset {k later : Channel} {data : Bytes} {d : Deadline} {fault : Fault}
      (hd : deadline = some d) (hleft : (d.remaining k.clock).isNonpositive = false)
      (hfault : k.fault? (.setTimeout (some (d.remaining k.clock))) = some fault)
      (hlater : k.after (arming deadline k) = later) :
      Course deadline k data ⟨0, some fault, later.replies, later.clock, arming deadline k⟩
  | failed {k later : Channel} {data : Bytes} {fault : Fault} (hready : Ready deadline k)
      (hfault : (k.after (arming deadline k)).fault? (.send data none) = some fault)
      (haccepts : (k.after (arming deadline k)).accepts data = none)
      (hlater : k.after (arming deadline k ++ [.send data none]) = later) :
      Course deadline k data
        ⟨0, some fault, later.replies, later.clock, arming deadline k ++ [.send data none]⟩
  | took {k later : Channel} {data : Bytes} {accepted : Nat} {t : Transfer}
      (hready : Ready deadline k)
      (hfault : (k.after (arming deadline k)).fault? (.send data (some accepted)) = none)
      (haccepts : (k.after (arming deadline k)).accepts data = some accepted)
      (hlater : k.after (arming deadline k ++ [.send data (some accepted)]) = later)
      (ht : Course deadline later (data.drop accepted) t) :
      Course deadline k data (t.after accepted (arming deadline k ++ [.send data (some accepted)]))

section Arming

variable (deadline : Option Deadline) (k : Channel)

/-- Arming only touches the timeouts. -/
theorem exists_after_arming : ∃ timeouts timeout,
    k.after (arming deadline k) = ⟨⟨k.replies.sends, timeouts⟩, timeout, k.clock⟩ := by
  cases deadline <;> exact ⟨_, _, rfl⟩

/-- Arming ends the transfer when no time is left or the timeout cannot be set. -/
theorem arm_cases :
    (∃ d, deadline = some d ∧ (d.remaining k.clock).isNonpositive = true ∧
        arm deadline k.clock k.replies.timeouts = (some .deadline, k.replies.timeouts, [])) ∨
      (∃ d fault, deadline = some d ∧ (d.remaining k.clock).isNonpositive = false ∧
        k.fault? (.setTimeout (some (d.remaining k.clock))) = some fault ∧
        arm deadline k.clock k.replies.timeouts =
          (some fault, (k.after (arming deadline k)).replies.timeouts, arming deadline k)) ∨
      Ready deadline k ∧ arm deadline k.clock k.replies.timeouts =
        (none, (k.after (arming deadline k)).replies.timeouts, arming deadline k) := by
  cases deadline with
  | none => exact Or.inr (Or.inr ⟨nofun, rfl⟩)
  | some d =>
      cases hleft : (d.remaining k.clock).isNonpositive with
      | true =>
          refine Or.inl ⟨d, rfl, hleft, ?_⟩
          simp only [arm, hleft, if_true]
      | false =>
          have harm : arm (some d) k.clock k.replies.timeouts =
              (k.replies.timeouts.head?.join, k.replies.timeouts.tail,
                [.setTimeout (some (d.remaining k.clock))]) := by
            simp only [arm, hleft, Bool.false_eq_true, if_false]
          right
          rw [harm]
          cases hfault : k.replies.timeouts.head?.join with
          | none =>
              refine Or.inr ⟨fun _ hd => ?_, rfl⟩
              cases hd
              exact ⟨hleft, hfault⟩
          | some fault => exact Or.inl ⟨d, fault, rfl, hleft, hfault, rfl⟩

end Arming

/-- A transfer over what is left of a channel follows a course. -/
theorem course_run (deadline : Option Deadline) (k : Channel) (data : Bytes) :
    Course deadline k data
      (run deadline k.replies.sends k.replies.timeouts k.clock data) := by
  induction hsends : k.replies.sends generalizing k data with
  | nil =>
      cases data with
      | nil =>
          rw [run, ← hsends]
          exact .finished k
      | cons b bs =>
          obtain ⟨timeouts, timeout, harmed⟩ := exists_after_arming deadline k
          rw [hsends] at harmed
          rw [run]
          rcases arm_cases deadline k with
            ⟨d, hd, hleft, harm⟩ | ⟨d, fault, hd, hleft, hfault, harm⟩ | ⟨hready, harm⟩
          · rw [harm, ← hsends]
            exact .expired hd hleft
          · rw [harm, harmed]
            exact .unset hd hleft hfault harmed
          · -- all of it is taken at once
            rw [harm, harmed]
            have hrest : Course deadline ⟨⟨[], timeouts⟩, timeout, k.clock⟩
                ((b :: bs).drop (b :: bs).length) ⟨0, none, ⟨[], timeouts⟩, k.clock, []⟩ := by
              rw [List.drop_length]
              exact .finished _
            have hcourse := Course.took hready (by rw [harmed]; rfl) (by rw [harmed]; rfl)
              (by rw [after_concat, harmed]; rfl) hrest
            rwa [after, List.append_nil] at hcourse
  | cons reply sends ih =>
      cases data with
      | nil =>
          rw [run, ← hsends]
          exact .finished k
      | cons b bs =>
          obtain ⟨timeouts, timeout, harmed⟩ := exists_after_arming deadline k
          rw [hsends] at harmed
          rw [run]
          rcases arm_cases deadline k with
            ⟨d, hd, hleft, harm⟩ | ⟨d, fault, hd, hleft, hfault, harm⟩ | ⟨hready, harm⟩
          · rw [harm, ← hsends]
            exact .expired hd hleft
          · rw [harm, harmed]
            exact .unset hd hleft hfault harmed
          · rw [harm, harmed]
            have hlater : ∀ accepted,
                k.after (arming deadline k ++ [.send (b :: bs) accepted]) =
                  ⟨⟨sends, timeouts⟩, timeout, reply.clockAfter k.clock⟩ := by
              intro accepted
              rw [after_concat, harmed]
              rfl
            obtain ⟨elapsed, fault | limit⟩ := reply
            · exact .failed hready (by rw [harmed]; rfl) (by rw [harmed]; rfl) (hlater none)
            · exact .took hready (by rw [harmed]; rfl) (by rw [harmed]; rfl) (hlater _)
                (ih ⟨⟨sends, timeouts⟩, timeout, _⟩ _ rfl)

/-! ## What a course tells -/

section Arming

variable {deadline : Option Deadline} {k : Channel}

theorem each_arming {P : Channel → Event → Prop}
    (h : ∀ d, deadline = some d → P k (.setTimeout (some (d.remaining k.clock)))) :
    k.Each P (arming deadline k) := by
  cases deadline with
  | none => exact each_nil
  | some d => exact each_singleton.2 (h d rfl)

theorem Ready.each_arming (h : Ready deadline k) :
    k.Each (fun c e => c.fault? e = none) (arming deadline k) :=
  Transfer.each_arming fun d hd => (h d hd).2

/-- While the timeout is set, the clock stands still. -/
theorem clock_of_arming {front back : List Event} (h : arming deadline k = front ++ back) :
    (k.after front).clock = k.clock := by
  cases deadline with
  | none =>
      obtain ⟨rfl, -⟩ := List.append_eq_nil_iff.1 h.symm
      rfl
  | some d =>
      rcases List.append_eq_singleton_iff.1 h.symm with ⟨rfl, -⟩ | ⟨rfl, -⟩
      · rfl
      · rfl

/-- In a stretch that starts with an attempt to send, the clock stands still up to the attempt. -/
theorem split_attempt {offered : Bytes} {accepted : Option Nat} {rest front back : List Event}
    (h : arming deadline k ++ [.send offered accepted] ++ rest = front ++ back) :
    (k.after front).clock = k.clock ∨
      ∃ later, front = arming deadline k ++ [.send offered accepted] ++ later ∧
        rest = later ++ back := by
  rcases List.append_eq_append_iff.1 h with ⟨later, rfl, hrest⟩ | ⟨later, hfront, hback⟩
  · exact Or.inr ⟨later, rfl, hrest⟩
  · rcases List.eq_nil_or_concat later with rfl | ⟨later, e, rfl⟩
    · rw [List.append_nil] at hfront
      exact Or.inr ⟨[], by rw [hfront, List.append_nil], by simpa using hback.symm⟩
    · rw [List.concat_eq_append, ← List.append_assoc] at hfront
      exact Or.inl (clock_of_arming (List.append_inj' hfront rfl).1)

theorem taken_arming : (arming deadline k).flatMap Event.taken = [] := by
  cases deadline <;> rfl

theorem Ready.under (h : Ready deadline k) :
    (k.after (arming deadline k)).Under deadline k.timeout := by
  cases deadline with
  | none => rfl
  | some d =>
      obtain ⟨hleft, hfault⟩ := h d rfl
      have hnone : k.replies.timeouts.head?.join = none := hfault
      refine ⟨?_, hleft⟩
      show (if k.replies.timeouts.head?.join.isSome then k.timeout else _) = _
      rw [hnone]
      rfl

end Arming

namespace Course

variable {deadline : Option Deadline} {k : Channel} {data : Bytes} {t : Transfer}

/-- The calls of a transfer went as the replies say, and it leaves the channel as they do.  No call
lifts the timeout. -/
theorem answers (h : Course deadline k data t) :
    k.Each (fun c e => c.Answers e ∧ e ≠ .setTimeout none) t.events ∧
      (k.after t.events).replies = t.connection ∧ (k.after t.events).clock = t.clock := by
  induction h with
  | finished | expired => exact ⟨each_nil, rfl, rfl⟩
  | unset _ _ _ hlater =>
      rw [hlater]
      exact ⟨each_arming fun _ _ => ⟨trivial, nofun⟩, rfl, rfl⟩
  | failed _ _ haccepts hlater =>
      rw [hlater]
      refine ⟨each_append.2 ⟨each_arming fun _ _ => ⟨trivial, nofun⟩, each_singleton.2 ?_⟩,
        rfl, rfl⟩
      exact ⟨haccepts.symm, nofun⟩
  | took _ _ haccepts hlater _ ih =>
      obtain ⟨hrest, hreplies, hclock⟩ := ih
      rw [Transfer.after, after_append, hlater]
      refine ⟨each_append.2 ⟨each_append.2 ⟨each_arming fun _ _ => ⟨trivial, nofun⟩, ?_⟩, ?_⟩,
        hreplies, hclock⟩
      · exact each_singleton.2 ⟨haccepts.symm, nofun⟩
      · rwa [hlater]

/-- A fault of a call is the fault that ends the transfer. -/
theorem fault_eq (h : Course deadline k data t) :
    k.Each (fun c e => ∀ fault, c.fault? e = some fault → t.fault = some fault) t.events := by
  have hnone : ∀ {t : Transfer} {c : Channel} {e : Event}, c.fault? e = none →
      ∀ fault, c.fault? e = some fault → t.fault = some fault := by
    intro t c e hnone fault hfault
    rw [hnone] at hfault
    contradiction
  induction h with
  | finished | expired => exact each_nil
  | unset hd _ hfault _ =>
      refine each_arming fun d' hd' fault' hfault' => ?_
      rw [hd] at hd'
      cases hd'
      exact hfault.symm.trans hfault'
  | failed hready hfault _ _ =>
      refine each_append.2 ⟨hready.each_arming.mono fun _ _ => hnone, each_singleton.2 ?_⟩
      exact fun _ => hfault.symm.trans
  | took hready hfault _ hlater _ ih =>
      refine each_append.2
        ⟨each_append.2 ⟨hready.each_arming.mono fun _ _ => hnone, each_singleton.2 ?_⟩, ?_⟩
      · exact hnone hfault
      · rwa [hlater]

/-- Whatever is sent is sent under the time that is left, and there is some; without a deadline the
timeout is not touched. -/
theorem under (h : Course deadline k data t) :
    k.Sends (fun c => c.Under deadline k.timeout) t.events := by
  induction h with
  | finished | expired => exact each_nil
  | unset => exact each_arming fun _ _ _ _ he => nomatch he
  | failed hready =>
      refine each_append.2 ⟨each_arming fun _ _ _ _ he => (nomatch he), each_singleton.2 ?_⟩
      exact fun _ _ _ => hready.under
  | @took k later data _ _ hready _ _ hlater _ ih =>
      refine each_append.2
        ⟨each_append.2 ⟨each_arming fun _ _ _ _ he => (nomatch he), each_singleton.2 ?_⟩, ?_⟩
      · exact fun _ _ _ => hready.under
      · rw [hlater]
        refine ih.mono fun c e hc offered accepted he => ?_
        have hunder := hc offered accepted he
        cases deadline with
        | none =>
            rw [← hlater] at hunder
            exact hunder
        | some d => exact hunder

/-- Once no time is left, nothing is sent any more.  If data is left then, the transfer ends with
the deadline as its fault, or with the fault of the send during which the time ran out. -/
theorem stops {d : Deadline} (h : Course (some d) k data t) :
    k.Stops d data.length
      (t.fault = some .deadline ∨
        ∃ front offered fault, t.events = front ++ [.send offered none] ∧
          (k.after front).fault? (.send offered none) = some fault ∧ t.fault = some fault)
      t.events := by
  induction h with
  | finished | expired =>
      intro front back hsplit _
      obtain ⟨rfl, rfl⟩ := List.append_eq_nil_iff.1 hsplit.symm
      exact ⟨fun _ _ => List.not_mem_nil, fun hlt => by simp_all⟩
  | unset hd hsome =>
      intro front back hsplit hleft
      cases hd
      replace hsplit : arming (some d) _ = front ++ back := hsplit
      rw [clock_of_arming hsplit, hsome] at hleft
      contradiction
  | failed hready hfault _ _ =>
      intro front back hsplit hleft
      rcases split_attempt ((List.append_nil _).trans hsplit) with hclock | ⟨rest, rfl, hrest⟩
      · rw [hclock, (hready d rfl).1] at hleft
        contradiction
      · obtain ⟨rfl, rfl⟩ := List.append_eq_nil_iff.1 hrest.symm
        exact ⟨fun _ _ => List.not_mem_nil, fun _ => Or.inr ⟨_, _, _, rfl, hfault, rfl⟩⟩
  | @took k later data accepted t hready _ _ hlater _ ih =>
      intro front back hsplit hleft
      rcases split_attempt hsplit with hclock | ⟨rest, rfl, hrest⟩
      · rw [hclock, (hready d rfl).1] at hleft
        contradiction
      · rw [after_append, hlater] at hleft
        obtain ⟨hback, hends⟩ := ih rest back hrest hleft
        refine ⟨hback, fun hlt => ?_⟩
        rw [List.flatMap_append, List.flatMap_append, taken_arming] at hlt
        have hshort : (rest.flatMap Event.taken).length < (data.drop accepted).length := by
          simp [Event.taken] at hlt ⊢
          omega
        rcases hends hshort with hdeadline | ⟨front, offered, fault, hevents, hfault, hends⟩
        · exact Or.inl hdeadline
        · refine Or.inr ⟨arming (some d) k ++ [.send data (some accepted)] ++ front, offered, fault,
            ?_, ?_, hends⟩
          · show _ ++ t.events = _
            rw [hevents, ← List.append_assoc]
          · rw [after_append, hlater]
            exact hfault

end Course

end Transfer

end LineProtocol
