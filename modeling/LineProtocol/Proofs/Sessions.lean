import Mathlib.Data.List.Chain
import LineProtocol.Proofs.Exchange
/-!
# What becomes of connections

Every connection that comes into being starts a session, which holds the calls that
are made from then on until the next one comes into being.  A session ends when its
connection is closed.  One kind of session is never ended and yet not held by the
sender: that of a connection whose timeout could not be changed at first.
-/

namespace LineProtocol

/-- A connection and the calls that are made on it. -/
structure Session where
  /-- The channel as it comes into being. -/
  opened : Channel
  calls : List Event

namespace Session

/-- The channel after the calls. -/
def channel (x : Session) : Channel := x.opened.after x.calls

def isClosed (x : Session) : Bool := x.calls.any fun e => e matches .close

/-- The first change of the timeout failed. -/
def isAbandoned (x : Session) : Bool := (x.opened.fault? (.setTimeout none)).isSome

/-- The calls are answered by the replies of the connection, and after it is closed there are no
more of them. -/
def InOrder (x : Session) : Prop :=
  ∃ calls, (x.calls = calls ∨ x.calls = calls ++ [.close]) ∧ x.opened.Each Channel.Answers calls

end Session

/-- The sessions, latest first. -/
structure Ledger where
  sessions : List Session
  /-- The calls that are made before there is any connection. -/
  stray : List Event

namespace Ledger

/-- Takes down an event of an operation that may open the given channel. -/
def note (opens : Option Channel) (l : Ledger) (e : Event) : Ledger :=
  match e, opens, l.sessions with
  | .log _, _, _ | .connect _ _ false, _, _ => l
  | .connect _ _ true, some k, sessions => { l with sessions := ⟨k, []⟩ :: sessions }
  | e, _, x :: older => { l with sessions := { x with calls := x.calls ++ [e] } :: older }
  | e, _, [] => { l with stray := l.stray ++ [e] }

end Ledger

namespace Sender

/-- The channel that an operation opens, if it opens one. -/
def opens? (s : Sender) : Operation → Option Channel
  | .connect _ (.ok c) => some ⟨c, none, s.clock⟩
  | _ => none

/-- The sessions after operations, if these were there before them. -/
def ledgerFrom (l : Ledger) : List Operation → Sender → Ledger
  | [], _ => l
  | op :: ops, s =>
    let step := s.perform op
    ledgerFrom (step.events.foldl (Ledger.note (s.opens? op)) l) ops step.sender

/-- The sessions of operations on a new sender. -/
def ledger (ops : List Operation) (s : Sender) : Ledger := ledgerFrom ⟨[], []⟩ ops s

end Sender

/-! ## One session -/

namespace Session

/-- A session in use, and the channel that its calls leave. -/
structure Serves (x : Session) (k : Channel) : Prop where
  answers : x.opened.Each Channel.Answers x.calls
  channel : x.channel = k
  ready : x.isAbandoned = false

/-- A session that is over. -/
inductive Over (x : Session) : Prop
  | closed {calls : List Event} (hcalls : x.calls = calls ++ [.close])
      (hanswers : x.opened.Each Channel.Answers calls) (hready : x.isAbandoned = false)
  | abandoned (hcalls : x.calls = [.setTimeout none]) (hfault : x.isAbandoned = true)

variable {x : Session} {k : Channel} {opens : Option Channel} {older : List Session}
  {stray : List Event}

theorem Serves.inOrder (h : x.Serves k) : x.InOrder := ⟨x.calls, Or.inl rfl, h.answers⟩

theorem Over.inOrder (h : x.Over) : x.InOrder := by
  cases h with
  | closed hcalls hanswers => exact ⟨_, Or.inr hcalls, hanswers⟩
  | abandoned hcalls =>
      exact ⟨_, Or.inl hcalls, Channel.each_singleton.2 trivial⟩

theorem Serves.isClosed (h : x.Serves k) : x.isClosed = false := by
  rw [Session.isClosed, List.any_eq_false]
  intro e he
  obtain ⟨front, back, hsplit⟩ := List.append_of_mem he
  have hanswers := h.answers front e back hsplit
  cases e <;> simp_all [Channel.Answers]

theorem Over.isClosed (h : x.Over) : x.isClosed = !x.isAbandoned := by
  cases h with
  | closed hcalls _ hready => simp [Session.isClosed, hcalls, hready]
  | abandoned hcalls hfault => simp [Session.isClosed, hcalls, hfault]

/-- A call goes to the session in use. -/
theorem Serves.note {e : Event} (h : x.Serves k) (he : k.Answers e) :
    ∃ y, Ledger.note opens ⟨x :: older, stray⟩ e = ⟨y :: older, stray⟩ ∧ y.Serves (k.next e) := by
  have hconcat : ({ x with calls := x.calls ++ [e] } : Session).Serves (k.next e) := by
    refine ⟨?_, ?_, h.ready⟩
    · refine Channel.each_append.2 ⟨h.answers, Channel.each_singleton.2 ?_⟩
      rwa [← h.channel] at he
    · show x.opened.after (x.calls ++ [e]) = _
      rw [Channel.after_concat, ← h.channel]
      rfl
  cases e with
  | connect | close => exact absurd he not_false
  | log => exact ⟨x, rfl, h⟩
  | setTimeout | send => exact ⟨_, rfl, hconcat⟩

theorem Serves.foldl_note {events : List Event} (h : x.Serves k)
    (hevents : k.Each Channel.Answers events) :
    ∃ y, events.foldl (Ledger.note opens) ⟨x :: older, stray⟩ = ⟨y :: older, stray⟩ ∧
      y.Serves (k.after events) := by
  induction events generalizing x k with
  | nil => exact ⟨x, rfl, h⟩
  | cons e events ih =>
      obtain ⟨he, hrest⟩ := Channel.each_cons.1 hevents
      obtain ⟨y, hnote, hy⟩ := h.note he
      rw [List.foldl_cons, hnote]
      exact ih hy hrest

end Session

/-! ## All sessions -/

/-- No call is stray, and of the sessions at most the latest is not over: the one of the connection
that the sender holds. -/
structure Ledger.Kept (s : Sender) (l : Ledger) : Prop where
  stray : l.stray = []
  sessions : (s.connection = none ∧ ∀ x ∈ l.sessions, x.Over) ∨
    ∃ x older k, l.sessions = x :: older ∧ x.Serves k ∧ s.Uses k ∧ ∀ y ∈ older, y.Over

namespace Sender

variable {s : Sender} {l : Ledger} {op : Operation} {t : Step}

theorem Connects.kept {timeout : Value} {reply : Except Fault Connection}
    (h : s.Connects timeout reply t) (hl : l.Kept s) :
    (t.events.foldl (Ledger.note (s.opens? (.connect timeout reply))) l).Kept t.sender := by
  obtain ⟨sessions, stray⟩ := l
  obtain ⟨rfl, hsessions⟩ := hl
  have hover : s.connection = none → ∀ x ∈ sessions, x.Over := by
    intro hnone
    rcases hsessions with ⟨-, hover⟩ | ⟨x, older, k, -, -, huses, -⟩
    · exact hover
    · exact nomatch hnone.symm.trans huses.connection
  cases h with
  | already => exact ⟨rfl, hsessions⟩
  | refused hnone | raised hnone => exact ⟨rfl, Or.inl ⟨hnone, hover hnone⟩⟩
  | @abandoned c fault hnone hfault =>
      refine ⟨rfl, Or.inl ⟨hnone, List.forall_mem_cons.2 ⟨.abandoned rfl ?_, hover hnone⟩⟩⟩
      exact Option.isSome_iff_exists.2 ⟨fault, hfault⟩
  | @opened c hnone hfault =>
      refine ⟨rfl, Or.inr ⟨_, sessions, _, rfl, ⟨?_, rfl, ?_⟩, ⟨rfl, rfl⟩, hover hnone⟩⟩
      · exact Channel.each_singleton.2 trivial
      · exact Option.isSome_eq_false_iff.2 (Option.isNone_iff_eq_none.2 hfault)

theorem Begins.kept (h : s.Begins op t) (hl : l.Kept s) (opens : Option Channel) :
    (t.events.foldl (Ledger.note opens) l).Kept t.sender := by
  obtain ⟨sessions, stray⟩ := l
  obtain ⟨rfl, ⟨hnone, hover⟩ | ⟨x, older, k, hlatest, hserves, huses, hover⟩⟩ := hl
  · have hidle := h.unconnected hnone
    rw [hidle.events]
    exact ⟨rfl, Or.inl ⟨hidle.connection.trans hnone, hover⟩⟩
  · cases hlatest
    have hexchanges := h.connected huses
    obtain ⟨y, hnote, hy⟩ := hserves.foldl_note hexchanges.answers
    rw [hnote]
    exact ⟨rfl, Or.inr ⟨y, older, _, rfl, hy, hexchanges.uses, hover⟩⟩

theorem kept_closing (hl : l.Kept t.sender) (hheld : t.sender.connection ≠ none)
    (opens : Option Channel) :
    (([.close, .log (.closed t.sender.address t.sender.buffer.size)] : List Event).foldl
      (Ledger.note opens) l).Kept t.closing.sender := by
  obtain ⟨sessions, stray⟩ := l
  obtain ⟨rfl, ⟨hnone, -⟩ | ⟨x, older, k, hlatest, hserves, -, hover⟩⟩ := hl
  · exact absurd hnone hheld
  · cases hlatest
    refine ⟨rfl, Or.inl ⟨rfl, List.forall_mem_cons.2 ⟨?_, hover⟩⟩⟩
    exact .closed rfl hserves.answers hserves.ready

theorem Performs.kept (h : s.Performs op t) (hl : l.Kept s) :
    (t.events.foldl (Ledger.note (s.opens? op)) l).Kept t.sender := by
  cases h with
  | connect h => exact h.kept hl
  | keeps _ h => exact h.kept hl _
  | @closes _ t _ h hheld =>
      show Ledger.Kept _ (List.foldl _ _ (t.events ++ _))
      rw [List.foldl_append]
      exact kept_closing (h.kept hl _) hheld _

theorem kept_ledgerFrom (ops : List Operation) (hl : l.Kept s) :
    (ledgerFrom l ops s).Kept (s.afterAll ops) := by
  induction ops generalizing s l with
  | nil => exact hl
  | cons op ops ih => exact ih ((s.performs op).kept hl)

/-- The sessions of a sender that starts without a connection are kept. -/
theorem kept_ledger (hnone : s.connection = none) (ops : List Operation) :
    (s.ledger ops).Kept (s.afterAll ops) :=
  kept_ledgerFrom ops ⟨rfl, Or.inl ⟨hnone, List.forall_mem_nil _⟩⟩

/-! ## Opening and closing -/

end Sender

/-- Whether a connection comes into being or is closed, if either happens. -/
def Event.turn? : Event → Option Bool
  | .connect _ _ opened => if opened then some true else none
  | .close => some false
  | _ => none

def Step.turns (t : Step) : List Bool := t.events.filterMap Event.turn?

namespace Sender

variable {s : Sender} {op : Operation} {t : Step}

/-- The openings and closings of connections in the course of operations. -/
def turns (ops : List Operation) (s : Sender) : List Bool := (s.run ops).flatMap Step.turns

theorem turns_of_answers {k : Channel} {events : List Event}
    (h : k.Each Channel.Answers events) : events.filterMap Event.turn? = [] := by
  refine List.filterMap_eq_nil_iff.2 fun e he => ?_
  obtain ⟨front, back, hsplit⟩ := List.append_of_mem he
  have hanswers := h front e back hsplit
  cases e with
  | connect | close => exact absurd hanswers not_false
  | setTimeout | send | log => rfl

theorem Begins.turns (h : s.Begins op t) :
    t.turns = [] ∧ t.sender.connection.isSome = s.connection.isSome := by
  cases hconnection : s.connection with
  | none =>
      have hidle := h.unconnected hconnection
      refine ⟨?_, ?_⟩
      · rw [Step.turns, hidle.events]
        rfl
      · rw [hidle.connection, hconnection]
  | some c =>
      have hexchanges := h.connected (k := ⟨c, none, s.clock⟩) ⟨hconnection, rfl⟩
      refine ⟨turns_of_answers hexchanges.answers, ?_⟩
      rw [hexchanges.uses.connection]
      rfl

/-- An operation opens a connection only where there is none, and closes one only where there is
one. -/
theorem Performs.turns (h : s.Performs op t) :
    t.turns = [] ∧ t.sender.connection.isSome = s.connection.isSome ∨
      t.turns = [true] ∧ s.connection.isSome = false ∧
        (t.outcome = .ok () → t.sender.connection.isSome = true) ∨
      t.turns = [false] ∧ s.connection.isSome = true ∧ t.sender.connection.isSome = false := by
  cases h with
  | connect h =>
      cases h with
      | already | refused | raised => exact Or.inl ⟨rfl, rfl⟩
      | abandoned hnone => exact Or.inr (Or.inl ⟨rfl, by rw [hnone]; rfl, nofun⟩)
      | opened hnone => exact Or.inr (Or.inl ⟨rfl, by rw [hnone]; rfl, fun _ => rfl⟩)
  | keeps _ h => exact Or.inl h.turns
  | @closes _ t _ h hheld =>
      obtain ⟨hturns, hsame⟩ := h.turns
      refine Or.inr (Or.inr ⟨?_, ?_, rfl⟩)
      · show (t.events ++ _).filterMap Event.turn? = _
        rw [List.filterMap_append, show t.events.filterMap Event.turn? = [] from hturns]
        rfl
      · rw [← hsame]
        exact Option.isSome_iff_ne_none.2 hheld

/-- Connections are opened and closed in turns as long as no operation that opens one fails. -/
theorem isChain_turns {ops : List Operation}
    (h : ∀ t ∈ s.run ops, true ∈ t.turns → t.outcome = .ok ()) :
    (s.connection.isSome :: s.turns ops).IsChain (· ≠ ·) := by
  induction ops generalizing s with
  | nil => exact List.isChain_singleton _
  | cons op ops ih =>
      obtain ⟨hhead, htail⟩ := List.forall_mem_cons.1 h
      have hrest := ih htail
      show (_ :: ((s.perform op).turns ++ turns ops (s.perform op).sender)).IsChain _
      rcases (s.performs op).turns with ⟨hturns, hsame⟩ | ⟨hturns, hnone, hopens⟩ |
        ⟨hturns, hsome, hclosed⟩
      · rw [hturns, ← hsame]
        exact hrest
      · rw [hturns, hnone]
        rw [hopens (hhead (by rw [hturns]; exact List.mem_singleton_self true))] at hrest
        exact List.isChain_cons_cons.2 ⟨nofun, hrest⟩
      · rw [hturns, hsome]
        rw [hclosed] at hrest
        exact List.isChain_cons_cons.2 ⟨nofun, hrest⟩

end Sender

/-! ## The sessions of a run -/

/-- The connections that are neither closed nor abandoned, as their calls left them. -/
def Ledger.held (l : Ledger) : List Connection :=
  (l.sessions.filter fun x => !x.isClosed && !x.isAbandoned).map fun x => x.channel.replies

theorem Ledger.Kept.held {s : Sender} {l : Ledger} (h : l.Kept s) :
    l.held = s.connection.toList := by
  have hover : ∀ {xs : List Session}, (∀ x ∈ xs, x.Over) →
      xs.filter (fun x => !x.isClosed && !x.isAbandoned) = [] := by
    intro xs hxs
    refine List.filter_eq_nil_iff.2 fun x hx => ?_
    rw [(hxs x hx).isClosed]
    cases x.isAbandoned <;> decide
  unfold Ledger.held
  rcases h.sessions with ⟨hnone, hall⟩ | ⟨x, older, k, hlatest, hserves, huses, hall⟩
  · rw [hover hall, hnone]
    rfl
  · rw [hlatest, List.filter_cons_of_pos, hover hall, huses.connection, ← hserves.channel]
    · rfl
    · rw [hserves.isClosed, hserves.ready]
      rfl

theorem Ledger.Kept.forall_mem {s : Sender} {l : Ledger} (h : l.Kept s) :
    ∀ x ∈ l.sessions, x.InOrder ∧ (x.isAbandoned = true → x.calls = [.setTimeout none]) := by
  have hover : ∀ x : Session, x.Over →
      x.InOrder ∧ (x.isAbandoned = true → x.calls = [.setTimeout none]) := by
    intro x hx
    refine ⟨hx.inOrder, fun habandoned => ?_⟩
    cases hx with
    | closed _ _ hready => exact nomatch hready.symm.trans habandoned
    | abandoned hcalls => exact hcalls
  rcases h.sessions with ⟨-, hall⟩ | ⟨x, older, k, hlatest, hserves, -, hall⟩
  · exact fun x hx => hover x (hall x hx)
  · rw [hlatest]
    refine List.forall_mem_cons.2 ⟨⟨hserves.inOrder, fun habandoned => ?_⟩,
      fun y hy => hover y (hall y hy)⟩
    exact nomatch hserves.ready.symm.trans habandoned

namespace Sender

variable {s : Sender}

/-- No connection leaks, but one whose timeout cannot be changed at first.  After any operations,
every call was made on the latest connection at the time and was answered by its replies, and none
was made after the connection was closed; so none is closed twice.  Of the connections that are not
closed, the sender holds all but those that were dropped because the first change of their timeout
failed; no other call was made on these.  If there are none of these, connections are opened and
closed in turns. -/
theorem sessions_in_order {address size : Value} {clock : Binary64}
    (hs : (create address size clock).1 = .ok s) (ops : List Operation) :
    let l := s.ledger ops
    l.stray = [] ∧ (∀ x ∈ l.sessions, x.InOrder) ∧
      l.held = (s.afterAll ops).connection.toList ∧
      (∀ x ∈ l.sessions, x.isAbandoned = true → x.calls = [.setTimeout none]) ∧
      ((∀ t ∈ s.run ops, true ∈ t.turns → t.outcome = .ok ()) →
        (false :: s.turns ops).IsChain (· ≠ ·)) := by
  intro l
  have hnone := (of_create hs).2
  have hkept := kept_ledger hnone ops
  refine ⟨hkept.stray, fun x hx => (hkept.forall_mem x hx).1, hkept.held,
    fun x hx => (hkept.forall_mem x hx).2, fun hopens => ?_⟩
  have hturns := isChain_turns hopens
  rwa [hnone] at hturns

/-- A connection is lost in the course of a flush and closed; the sender holds the next one. -/
theorem sessions_in_order_lost :
    let ops : List Operation :=
      begun .lost ++ [.flush .null none, .close, .connect .null (.ok .lost)]
    (fresh.ledger ops).held = [.lost] ∧ (false :: fresh.turns ops).IsChain (· ≠ ·) := by
  intro ops
  obtain ⟨-, -, hheld, -, hturns⟩ := sessions_in_order create_fresh ops
  refine ⟨hheld, hturns ?_⟩
  decide +kernel

/-- The connection whose timeout cannot be changed at first is neither closed nor held. -/
theorem not_held_unready :
    ¬∀ ops : List Operation, ((fresh.ledger ops).sessions.filter fun x => !x.isClosed).map
      (fun x => x.channel.replies) = (fresh.afterAll ops).connection.toList := by
  intro hheld
  exact nomatch hheld [.connect .null (.ok .unready)]

end Sender

end LineProtocol
