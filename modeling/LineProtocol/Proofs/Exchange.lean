import LineProtocol.Proofs.Calls
import LineProtocol.Proofs.Channel
import LineProtocol.Proofs.Delivery
import LineProtocol.Proofs.Paths
/-!
# What operations do with a connection

An operation opens a connection, or it makes calls on the one in use and then keeps or
closes it.  The calls go as the replies of the connection say, and what they leave of
the connection is what the sender goes on with.  A fault of the operating system ends
the operation with an error that carries it, with one exception: the change that lifts
the timeout of an earlier flush lets a fault through.  Faults that objects among the
arguments answer with come from no call, and pass through whatever their kind is.
-/

namespace LineProtocol

/-- The fault that an error of the transport carries. -/
def TransportError.fault? : TransportError → Option Fault
  | connectFailed _ fault | flushFailed fault .. => some fault
  | _ => none

namespace Step

/-- A step that ends with an error of the transport whose cause is the given fault. -/
def Reports (fault : Fault) (t : Step) : Prop :=
  ∃ e : TransportError, t.outcome = .error (.error (.transport e)) ∧ e.fault? = some fault ∧
    e.cause? = some fault.kind ∧ (e.code = .socket ∨ e.code = .deadlineExceeded)

/-- What a fault of a call comes to: an error that carries it, unless the call lifts the timeout. -/
def Surfaces (e : Event) (fault : Fault) (t : Step) : Prop :=
  (e = .setTimeout none → t.outcome = .error (.fault fault)) ∧
    (e ≠ .setTimeout none → fault.kind.isSystem = true → t.Reports fault)

/-- Every fault of a call on the channel surfaces. -/
def Surfacing (k : Channel) (t : Step) : Prop :=
  k.Each (fun c e => ∀ fault, c.fault? e = some fault → t.Surfaces e fault) t.events

/-- The only faults of the operating system that pass through are those of which `P` holds. -/
def Lets (P : Fault → Prop) (t : Step) : Prop :=
  ∀ fault, t.outcome = .error (.fault fault) → fault.kind.isSystem = true → P fault

/-- A fault of a change that lifts the timeout. -/
def Lifts (k : Channel) (t : Step) (fault : Fault) : Prop :=
  ∃ front back, t.events = front ++ .setTimeout none :: back ∧
    (k.after front).fault? (.setTimeout none) = some fault

end Step

/-- The channel is what the sender has for a connection. -/
structure Sender.Uses (s : Sender) (k : Channel) : Prop where
  connection : s.connection = some k.replies
  clock : s.clock = k.clock

/-- A step that makes calls on a channel and keeps it.  Faults of which `P` holds do not come from
the channel. -/
structure Step.Exchanges (k : Channel) (P : Fault → Prop) (t : Step) : Prop where
  answers : k.Each Channel.Answers t.events
  uses : t.sender.Uses (k.after t.events)
  surfaces : t.Surfacing k
  lets : t.Lets fun fault => P fault ∨ t.Lifts k fault

/-! ## Faults of arguments -/

/-- A timeout that is not compared with zero or not added to the reading of a clock. -/
inductive Value.Uncountable : Value → Fault → Prop
  | uncompared {v : Value} {fault : Fault} (hnull : v ≠ .null)
      (h : v.compared .atMost = .error fault) : Uncountable v fault
  | unadded {v : Value} {n : Value.Number} {fault : Fault} (hn : v.compared .atMost = .ok n)
      (hleft : n.isNonpositive = false) (h : v.seconds n = .error fault) : Uncountable v fault

/-- The faults that an operation takes from an argument. -/
def Operation.Raises (fault : Fault) : Operation → Prop
  | build call => call.Raises fault
  | endRow timestamp timeout _ => timestamp.Unwritable fault ∨ timeout.Uncountable fault
  | flush timeout _ => timeout.Uncountable fault
  | _ => False

namespace Step

variable {k : Channel} {P Q : Fault → Prop} {t : Step}

theorem lets_of_isSystem (h : ∀ fault, t.outcome = .error (.fault fault) →
    fault.kind.isSystem = false) : t.Lets P := by
  intro fault hfault hsystem
  rw [h fault hfault] at hsystem
  contradiction

theorem lets_of_ne_fault (h : ∀ fault, t.outcome ≠ .error (.fault fault)) : t.Lets P :=
  lets_of_isSystem fun fault hfault => absurd hfault (h fault)

theorem Lets.mono (h : t.Lets P) (hPQ : ∀ fault, P fault → Q fault) : t.Lets Q :=
  fun fault hfault hsystem => hPQ fault (h fault hfault hsystem)

theorem reports_flushFailed {fault : Fault} {sent total : Nat}
    (h : t.outcome = .error (.error (.transport (.flushFailed fault sent total)))) :
    t.Reports fault := by
  refine ⟨_, h, rfl, rfl, ?_⟩
  show (if fault.kind = .timedOut then ErrorCode.deadlineExceeded else .socket) = _ ∨
    (if fault.kind = .timedOut then ErrorCode.deadlineExceeded else .socket) = _
  split
  · exact Or.inr rfl
  · exact Or.inl rfl

/-- A step whose calls, none of which lifts the timeout, come to the given fault. -/
theorem exchanges_of_calls {fault : Option Fault}
    (hanswers : k.Each (fun c e => c.Answers e ∧ e ≠ .setTimeout none) t.events)
    (huses : t.sender.Uses (k.after t.events))
    (hfault : k.Each (fun c e => ∀ f, c.fault? e = some f → fault = some f) t.events)
    (hreports : ∀ f, fault = some f → f.kind.isSystem = true → t.Reports f)
    (hlets : t.Lets P) : t.Exchanges k P := by
  refine ⟨hanswers.mono fun _ _ h => h.1, huses, ?_, hlets.mono fun _ => Or.inl⟩
  intro front e back hsplit f hf
  have hkeeps := (hanswers front e back hsplit).2
  exact ⟨fun hlifts => absurd hlifts hkeeps, fun _ => hreports f (hfault _ _ _ hsplit f hf)⟩

theorem exchanges_of_events_nil (h : t.sender.Uses k) (hevents : t.events = [])
    (hlets : t.Lets P) : t.Exchanges k P := by
  have hreports : ∀ f, (none : Option Fault) = some f → f.kind.isSystem = true → t.Reports f :=
    fun _ => nofun
  refine exchanges_of_calls ?_ ?_ ?_ hreports hlets
  · rw [hevents]
    exact Channel.each_nil
  · rwa [hevents]
  · rw [hevents]
    exact Channel.each_nil

/-- The change that lifts the timeout comes first, and its fault passes through. -/
theorem exchanges_of_lift {fault : Fault} (hfault : k.fault? (.setTimeout none) = some fault)
    (hevents : t.events = [.setTimeout none]) (huses : t.sender.Uses (k.next (.setTimeout none)))
    (houtcome : t.outcome = .error (.fault fault)) : t.Exchanges k P := by
  refine ⟨?_, ?_, ?_, ?_⟩
  · rw [hevents]
    exact Channel.each_singleton.2 trivial
  · rwa [hevents]
  · unfold Surfacing
    rw [hevents]
    refine Channel.each_singleton.2 fun f hf => ⟨fun _ => ?_, fun h => absurd rfl h⟩
    rw [houtcome, Option.some.inj (hfault.symm.trans hf)]
  · intro f hf _
    rw [houtcome] at hf
    cases hf
    exact Or.inr ⟨[], [], hevents, hfault⟩

/-- What follows the change that lifts the timeout. -/
theorem exchanges_after_lift (hfault : k.fault? (.setTimeout none) = none)
    (h : t.Exchanges (k.next (.setTimeout none)) P) :
    Exchanges k P { t with events := [.setTimeout none] ++ t.events } := by
  refine ⟨?_, h.uses, ?_, ?_⟩
  · exact Channel.each_cons.2 ⟨trivial, h.answers⟩
  · refine Channel.each_cons.2 ⟨fun f hf => ?_, h.surfaces⟩
    rw [hfault] at hf
    contradiction
  · intro f hf hsystem
    rcases h.lets f hf hsystem with hP | ⟨front, back, hevents, hraises⟩
    · exact Or.inl hP
    · exact Or.inr ⟨.setTimeout none :: front, back, congrArg _ hevents, hraises⟩

end Step

namespace Sender

variable {s : Sender} {k : Channel} {P : Fault → Prop}

/-! ## Flushes -/

theorem sound_transfer (deadline : Option Deadline) (c : Connection) (s : Sender) :
    (s.transfer deadline c).Sound c s.buffer.committed :=
  Transfer.sound_run ..

/-- The transfer of the finished rows takes the course that the replies of the channel give it. -/
theorem course_transfer (deadline : Option Deadline) (hclock : s.clock = k.clock) :
    Transfer.Course deadline k s.buffer.committed (s.transfer deadline k.replies) := by
  unfold transfer
  rw [hclock]
  exact Transfer.course_run deadline k s.buffer.committed

theorem transmit_exchanges (deadline : Option Deadline) (hclock : s.clock = k.clock) :
    (s.transmit deadline k.replies).Exchanges k P := by
  have hcourse := course_transfer deadline hclock
  have htransmits := s.transmits deadline k.replies
  generalize s.transfer deadline k.replies = t at hcourse htransmits
  generalize s.transmit deadline k.replies = u at htransmits ⊢
  obtain ⟨hanswers, hreplies, hlater⟩ := hcourse.answers
  have hfault := hcourse.fault_eq
  have huses : ∀ buffer, Uses { s.resume t with buffer } (k.after t.events) :=
    fun _ => ⟨congrArg some hreplies.symm, hlater.symm⟩
  have hnone : t.fault = none → ∀ f, t.fault = some f → f.kind.isSystem = true → u.Reports f := by
    intro hnone f hf
    exact nomatch hnone.symm.trans hf
  cases htransmits with
  | interrupted h =>
      refine Step.exchanges_of_calls hanswers (huses _) hfault ?_
        (Step.lets_of_ne_fault fun _ => nofun)
      intro f hf _
      obtain rfl := Option.some.inj (h.symm.trans hf)
      exact Step.reports_flushFailed rfl
  | raised h hother =>
      refine Step.exchanges_of_calls hanswers (huses _) hfault ?_ (Step.lets_of_isSystem ?_)
      · intro f hf hsystem
        obtain rfl := Option.some.inj (h.symm.trans hf)
        exact nomatch hother.symm.trans hsystem
      · rintro _ ⟨⟩
        exact hother
  | endless h =>
      exact Step.exchanges_of_calls hanswers (huses _) hfault (hnone h)
        (Step.lets_of_ne_fault fun _ => nofun)
  | finished h =>
      -- the entry of the log is no call
      have hlast : (k.after t.events).Each
          (fun c e => (c.Answers e ∧ e ≠ .setTimeout none) ∧ ∀ f, c.fault? e = some f →
            t.fault = some f) [.log (.flushed t.sent s.address)] :=
        Channel.each_singleton.2 ⟨⟨trivial, nofun⟩, fun _ => nofun⟩
      refine Step.exchanges_of_calls ?_ ?_
        (Channel.each_append.2 ⟨hfault, hlast.mono fun _ _ h => h.2⟩) (hnone h)
        (Step.lets_of_ne_fault fun _ => nofun)
      · exact Channel.each_append.2 ⟨hanswers, hlast.mono fun _ _ h => h.1⟩
      · show Uses _ (k.after (t.events ++ [_]))
        rw [Channel.after_concat]
        exact huses _

end Sender

namespace Flush

variable {f : Flush} {k : Channel} {P : Fault → Prop} {t : Step}

/-- A flush over a connection goes on with what the replies leave of it. -/
theorem Delivers.exchanges (h : f.Delivers k.replies t) (huses : f.sender.Uses k)
    (hP : ∀ fault, f.timeout.Uncountable fault → P fault) : t.Exchanges k P := by
  cases h with
  | unlifted _ hfault => exact Step.exchanges_of_lift hfault rfl ⟨rfl, huses.clock⟩ rfl
  | lifted _ hfault =>
      exact Step.exchanges_after_lift hfault
        (Sender.transmit_exchanges none (k := k.next (.setTimeout none)) huses.clock)
  | uncounted hnull hfault =>
      refine Step.exchanges_of_events_nil huses rfl ?_
      rintro _ ⟨⟩ -
      exact hP _ (.uncompared hnull hfault)
  | passed => exact Step.exchanges_of_events_nil huses rfl (Step.lets_of_ne_fault fun _ => nofun)
  | overlong _ hn hleft hfault =>
      refine Step.exchanges_of_events_nil huses rfl ?_
      rintro _ ⟨⟩ -
      exact hP _ (.unadded hn hleft hfault)
  | limited => exact Sender.transmit_exchanges _ huses.clock

/-- A flush makes calls on the connection in use. -/
theorem Goes.exchanges (h : f.Goes t) (huses : f.sender.Uses k)
    (hP : ∀ fault, f.timeout.Uncountable fault → P fault) : t.Exchanges k P := by
  cases h with
  | reported =>
      exact Step.exchanges_of_events_nil ⟨huses.connection, huses.clock⟩ rfl
        (Step.lets_of_ne_fault fun _ => nofun)
  | unconnected | cancelled =>
      exact Step.exchanges_of_events_nil huses rfl (Step.lets_of_ne_fault fun _ => nofun)
  | delivers _ _ hc h =>
      obtain rfl := Option.some.inj (hc.symm.trans huses.connection)
      exact h.exchanges huses hP

end Flush

/-! ## Parts of operations -/

/-- A step without calls. -/
structure Step.Idle (s : Sender) (P : Fault → Prop) (t : Step) : Prop where
  events : t.events = []
  connection : t.sender.connection = s.connection
  clock : t.sender.clock = s.clock
  lets : t.Lets P

/-- The step after which the connection is closed as well. -/
def Step.closing (t : Step) : Step where
  sender := { t.sender with connection := none }
  events := t.events ++ [.close, .log (.closed t.sender.address t.sender.buffer.size)]
  outcome := t.outcome

namespace Sender

/-- The flush that is part of an operation: one that is asked for, one of an overfull buffer at the
end of a row, or one on leaving a block that did not fail. -/
def flush? (s : Sender) : Operation → Option Flush
  | .flush timeout cancel => some ⟨s, timeout, cancel⟩
  | .leave false => some ⟨s, .null, none⟩
  | .endRow timestamp timeout cancel =>
    match s.buffer.endRow timestamp with
    | (buffer, .ok ()) =>
      let s := { s with buffer }
      if s.isOverfull then some ⟨s, timeout, cancel⟩ else none
    | (_, .error _) => none
  | _ => none

/-- An operation up to the closing of the connection: it flushes, or it makes no calls. -/
inductive Begins (s : Sender) (op : Operation) : Step → Prop
  | flush {f : Flush} (h : s.flush? op = some f) : Begins s op f.step
  | idle {t : Step} (hnone : s.flush? op = none) (h : t.Idle s fun fault => op.Raises fault) :
      Begins s op t

variable {s : Sender} {k : Channel} {op : Operation} {t : Step}

theorem idle_done {P : Fault → Prop} {later : Sender}
    (hconnection : later.connection = s.connection) (hclock : later.clock = s.clock) :
    (later.done []).Idle s P :=
  ⟨rfl, hconnection, hclock, Step.lets_of_ne_fault fun _ => nofun⟩

theorem connection_flush? {f : Flush} (h : s.flush? op = some f) :
    f.sender.connection = s.connection ∧ f.sender.clock = s.clock := by
  cases op with
  | flush timeout cancel =>
      cases h
      exact ⟨rfl, rfl⟩
  | leave failed =>
      cases failed with
      | false =>
          cases h
          exact ⟨rfl, rfl⟩
      | true => contradiction
  | endRow timestamp timeout cancel =>
      simp only [flush?] at h
      split at h
      · split at h
        · cases h
          exact ⟨rfl, rfl⟩
        · contradiction
      · contradiction
  | _ => contradiction

theorem uses_flush? {f : Flush} (h : s.flush? op = some f) (huses : s.Uses k) :
    f.sender.Uses k := by
  obtain ⟨hconnection, hclock⟩ := connection_flush? h
  exact ⟨hconnection.trans huses.connection, hclock.trans huses.clock⟩

/-- The timeout of a flush is an argument of the operation. -/
theorem raises_of_flush? {f : Flush} (h : s.flush? op = some f) {fault : Fault}
    (hfault : f.timeout.Uncountable fault) : op.Raises fault := by
  cases op with
  | flush timeout cancel =>
      cases h
      exact hfault
  | leave failed =>
      cases failed with
      | false =>
          cases h
          rcases hfault with ⟨hnull, -⟩ | ⟨hn, -, -⟩
          · exact absurd rfl hnull
          · contradiction
      | true => contradiction
  | endRow timestamp timeout cancel =>
      simp only [flush?] at h
      split at h
      · split at h
        · cases h
          exact Or.inr hfault
        · contradiction
      · contradiction
  | _ => contradiction

theorem build_begins (call : Call) : s.Begins (.build call) (s.build call) := by
  refine .idle rfl ⟨rfl, rfl, rfl, ?_⟩
  intro fault hfault _
  have happlied := s.buffer.applied call
  have houtcome : (s.buffer.apply call).2 = .error (.fault fault) := hfault
  generalize s.buffer.apply call = t at happlied houtcome
  cases happlied with
  | raised _ _ hencode =>
      cases houtcome
      exact Call.encode_eq_fault_iff.1 hencode
  | ignored | refused | endless | added => cases houtcome

theorem endRow_begins (timestamp timeout : Value) (cancel : Cancellation) :
    s.Begins (.endRow timestamp timeout cancel) (s.endRow timestamp timeout cancel) := by
  have hended := s.buffer.ended timestamp
  rcases hb : s.buffer.endRow timestamp with ⟨b, f | ⟨⟩⟩
  · rw [endRow_of_error hb]
    refine .idle (by simp only [flush?, hb]) ⟨rfl, rfl, rfl, ?_⟩
    rintro fault ⟨⟩ -
    rw [hb] at hended
    cases hended with
    | raised _ _ hfault => exact Or.inl (Value.encodeTimestamp_eq_fault_iff.1 hfault)
  · rw [endRow_of_ok hb]
    split
    · next hfull =>
      exact .flush (f := ⟨{ s with buffer := b }, timeout, cancel⟩)
        (by simp only [flush?, hb, hfull, if_true])
    · next hroom =>
      refine .idle (by simp only [flush?, hb, hroom, Bool.false_eq_true, if_false]) ?_
      exact idle_done rfl rfl

theorem Begins.eq_step {f : Flush} (h : s.Begins op t) (hf : s.flush? op = some f) :
    t = f.step := by
  cases h with
  | flush hf' => rw [Option.some.inj (hf'.symm.trans hf)]
  | idle hnone => exact nomatch hnone.symm.trans hf

/-- Without a connection there is nothing to make calls on. -/
theorem Begins.unconnected (h : s.Begins op t) (hnone : s.connection = none) :
    t.Idle s fun fault => op.Raises fault := by
  cases h with
  | idle _ hidle => exact hidle
  | @flush f hf =>
      obtain ⟨hconnection, hclock⟩ := connection_flush? hf
      have hgoes := f.goes
      generalize f.step = t at hgoes ⊢
      cases hgoes with
      | reported | unconnected | cancelled =>
          exact ⟨rfl, hconnection, hclock, Step.lets_of_ne_fault fun _ => nofun⟩
      | delivers _ _ hc => exact nomatch (hconnection.trans hnone).symm.trans hc

theorem Begins.connected (h : s.Begins op t) (huses : s.Uses k) :
    t.Exchanges k fun fault => op.Raises fault := by
  cases h with
  | idle _ hidle =>
      refine Step.exchanges_of_events_nil ⟨?_, ?_⟩ hidle.events hidle.lets
      · exact hidle.connection.trans huses.connection
      · exact hidle.clock.trans huses.clock
  | @flush f hf =>
      exact f.goes.exchanges (uses_flush? hf huses) fun fault => raises_of_flush? hf

end Sender

/-- A connection whose timeout cannot be changed at first. -/
def Connection.unready : Connection := ⟨[], [some (.of .system "bad")]⟩

namespace Sender

/-- Connects and finishes a row of three bytes. -/
def begun (c : Connection) : List Operation :=
  [.connect .null (.ok c), .build (.table (.text "tt")), .endRow Buffer.serverTime .null none]

/-! ## Closing -/

variable {s : Sender} {op : Operation} {t : Step}

theorem always_close_of_none (h : t.sender.connection = none) : t.always close = t := by
  obtain ⟨later, events, outcome⟩ := t
  have hclose : later.close = later.done [] := by
    unfold close
    rw [show later.connection = none from h]
  unfold Step.always
  rw [hclose]
  cases outcome <;> simp [done]

theorem always_close (h : t.sender.connection ≠ none) : t.always close = t.closing := by
  obtain ⟨c, hc⟩ := Option.ne_none_iff_exists'.1 h
  unfold Step.always close
  rw [hc]
  cases houtcome : t.outcome <;> simp [Step.closing, done, houtcome]

/-! ## Operations -/

/-- The connection on which an operation makes its calls: the one that it opens or the one in
use. -/
def peer? (s : Sender) : Operation → Option Connection
  | .connect _ reply => if s.connection.isSome then none else reply.toOption
  | _ => s.connection

/-- What an operation does: it opens a connection, or it makes calls on the one in use and then
keeps or closes it. -/
inductive Performs (s : Sender) : Operation → Step → Prop
  | connect {timeout : Value} {reply : Except Fault Connection} {t : Step}
      (h : s.Connects timeout reply t) : Performs s (.connect timeout reply) t
  | keeps {op : Operation} {t : Step} (hpeer : s.peer? op = s.connection) (h : s.Begins op t) :
      Performs s op t
  | closes {op : Operation} {t : Step} (hpeer : s.peer? op = s.connection) (h : s.Begins op t)
      (hheld : t.sender.connection ≠ none) : Performs s op t.closing

theorem Begins.always_close (h : s.Begins op t) (hpeer : s.peer? op = s.connection) :
    s.Performs op (t.always close) := by
  by_cases hheld : t.sender.connection = none
  · rw [always_close_of_none hheld]
    exact .keeps hpeer h
  · rw [Sender.always_close hheld]
    exact .closes hpeer h hheld

theorem performs (s : Sender) (op : Operation) : s.Performs op (s.perform op) := by
  cases op with
  | connect timeout reply => exact .connect (s.connects timeout reply)
  | build call => exact .keeps rfl (build_begins call)
  | endRow timestamp timeout cancel => exact .keeps rfl (endRow_begins timestamp timeout cancel)
  | flush timeout cancel => exact .keeps rfl (.flush (f := ⟨s, timeout, cancel⟩) rfl)
  | leave failed =>
      cases failed with
      | false => exact Begins.always_close (.flush (f := ⟨s, .null, none⟩) rfl) rfl
      | true =>
          exact Begins.always_close (t := s.done []) (.idle rfl (idle_done rfl rfl)) rfl
  | close => exact Begins.always_close (t := s.done []) (.idle rfl (idle_done rfl rfl)) rfl
  | clear => exact .keeps rfl (.idle rfl (idle_done rfl rfl))

end Sender

end LineProtocol
