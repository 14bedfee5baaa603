import LineProtocol.Proofs.Readiness
import Mathlib.Data.List.ReduceOption
/-!
# Flushes that are refused

Before a flush touches the connection there are four obstacles to it: an error of the
row in progress, no connection, a request to give up, and a timeout that is already
over.  The first of those that apply is reported, in this order, and nothing is sent.
The error of the row takes that row with it.  Any other obstacle leaves the sender as it
was, so that the row can be gone on with and a later flush finds the same finished rows.
-/

namespace LineProtocol

/-- Whether a timeout is over before anything is sent. -/
def Value.isOver (timeout : Value) : Bool :=
  match timeout.compared .atMost with
  | .ok n => n.isNonpositive
  | .error _ => false

theorem Value.isOver_iff {timeout : Value} :
    timeout.isOver = true ↔ ∃ n, timeout.compared .atMost = .ok n ∧ n.isNonpositive = true := by
  unfold isOver
  cases timeout.compared .atMost <;> simp

namespace Flush

/-- The errors that keep a flush from being made, the one that is reported first. -/
def obstacles (f : Flush) : List SenderError :=
  [f.sender.buffer.pending.map .row,
    if f.sender.connection.isNone then some (.transport .notConnected) else none,
    if f.cancel = some true then some (.transport .cancelled) else none,
    if f.timeout.isOver then some (.transport .deadlinePassed) else none].reduceOption

/-- What an obstacle leaves: an error of the row drops the row. -/
def refused (e : SenderError) (f : Flush) : Step where
  sender := { f.sender with buffer := f.sender.buffer.settle }
  events := []
  outcome := .error (.error e)

end Flush

namespace Buffer

variable {b : Buffer}

theorem settle_of_pending_eq_none (h : b.pending = none) : b.settle = b := by
  unfold settle
  rw [h]
  rfl

theorem settle_of_pending {r : RowError} (h : b.pending = some r) : b.settle = b.discard := by
  unfold settle
  rw [h]
  rfl

theorem committed_settle (b : Buffer) : b.settle.committed = b.committed :=
  (congrArg Contents.committed b.contents_settle).trans b.contents.committed_settle

end Buffer

namespace Flush

variable {f : Flush} {t : Step} {c : Connection} {e : SenderError} {later : List SenderError}

theorem refused_transport (h : f.sender.buffer.pending = none) (e : TransportError) :
    f.refused (.transport e) = f.sender.fail e [] := by
  unfold refused
  rw [Buffer.settle_of_pending_eq_none h]
  rfl

theorem mem_obstacles_iff : e ∈ f.obstacles ↔
    (∃ r, f.sender.buffer.pending = some r ∧ e = .row r) ∨
      f.sender.connection = none ∧ e = .transport .notConnected ∨
      f.cancel = some true ∧ e = .transport .cancelled ∨
      (∃ n, f.timeout.compared .atMost = .ok n ∧ n.isNonpositive = true) ∧
        e = .transport .deadlinePassed := by
  unfold obstacles
  rw [List.reduceOption_mem_iff]
  simp only [List.mem_cons, List.not_mem_nil, or_false, eq_comm (a := some e),
    Option.map_eq_some_iff, Option.ite_none_right_eq_some, Option.some.injEq,
    Option.isNone_iff_eq_none, Value.isOver_iff, eq_comm (b := e)]

/-- Over a connection, a timeout that is over keeps a flush from being made. -/
theorem Delivers.of_passed (h : f.Delivers c t)
    (hpassed : f.timeout.isOver = true) :
    t = f.sender.fail .deadlinePassed [] := by
  obtain ⟨n, hn, hnonpositive⟩ := Value.isOver_iff.1 hpassed
  have hnull : f.timeout ≠ .null := by
    intro hnull
    rw [hnull] at hn
    cases hn
  cases h with
  | unlifted hsome | lifted hsome => exact absurd hsome hnull
  | uncounted _ hfault => exact nomatch hfault.symm.trans hn
  | passed => rfl
  | overlong _ hn' hleft | limited _ hn' hleft =>
      obtain rfl := Except.ok.inj (hn'.symm.trans hn)
      exact nomatch hleft.symm.trans hnonpositive

theorem step_of_obstacles (h : f.obstacles = e :: later) : f.step = f.refused e := by
  unfold obstacles at h
  unfold step Sender.flush
  cases hpending : f.sender.buffer.pending with
  | some r =>
      rw [hpending, Option.map_some, List.reduceOption_cons_of_some] at h
      obtain rfl := (List.cons.inj h).1
      unfold refused
      rw [Buffer.settle_of_pending hpending]
  | none =>
      rw [hpending, Option.map_none, List.reduceOption_cons_of_none] at h
      have hrefused := refused_transport hpending
      cases hconnection : f.sender.connection with
      | none =>
          rw [hconnection, if_pos Option.isNone_none, List.reduceOption_cons_of_some] at h
          obtain rfl := (List.cons.inj h).1
          exact (hrefused _).symm
      | some c =>
          rw [hconnection, if_neg nofun, List.reduceOption_cons_of_none] at h
          dsimp only
          by_cases hcancel : f.cancel = some true
          · rw [if_pos hcancel, List.reduceOption_cons_of_some] at h
            obtain rfl := (List.cons.inj h).1
            rw [if_pos hcancel, hrefused]
          · rw [if_neg hcancel, List.reduceOption_cons_of_none] at h
            rw [if_neg hcancel]
            by_cases hpassed : f.timeout.isOver = true
            · rw [if_pos hpassed, List.reduceOption_cons_of_some] at h
              obtain rfl := (List.cons.inj h).1
              rw [(f.delivers c).of_passed hpassed, hrefused]
            · rw [if_neg hpassed, List.reduceOption_cons_of_none] at h
              contradiction

/-- Without an obstacle, a flush reports nothing but the failure of an attempt to send. -/
theorem eq_flushFailed_of_obstacles (h : f.obstacles = [])
    (he : f.step.outcome = .error (.error e)) :
    ∃ fault sent total, e = .transport (.flushFailed fault sent total) := by
  have hnone := fun e' => mt mem_obstacles_iff.2 (h ▸ List.not_mem_nil (a := e'))
  have hgoes := f.goes
  generalize f.step = t at hgoes he
  cases hgoes with
  | reported hpending => exact absurd (Or.inl ⟨_, hpending, rfl⟩) (hnone _)
  | unconnected _ hconnection =>
      exact absurd (Or.inr (Or.inl ⟨hconnection, rfl⟩)) (hnone _)
  | cancelled _ hcancel =>
      exact absurd (Or.inr (Or.inr (Or.inl ⟨hcancel, rfl⟩))) (hnone _)
  | delivers _ _ _ h =>
      cases h with
      | unlifted | uncounted | overlong => cases he
      | passed _ hn hpassed =>
          exact absurd (Or.inr (Or.inr (Or.inr ⟨⟨_, hn, hpassed⟩, rfl⟩))) (hnone _)
      | lifted | limited =>
          obtain ⟨fault, -, rfl⟩ := (f.sender.transmits _ _).eq_flushFailed he
          exact ⟨fault, _, _, rfl⟩

theorem sublist_code_cons {p : Prop} [Decidable p] (e : SenderError)
    {rest : List (Option SenderError)} {codes : List ErrorCode}
    (h : (rest.reduceOption.map SenderError.code).Sublist codes) :
    (((if p then some e else none) :: rest).reduceOption.map SenderError.code).Sublist
      (e.code :: codes) := by
  split
  · exact h.cons_cons e.code
  · exact h.cons e.code

/-- The codes of the obstacles stand in a fixed order. -/
theorem sublist_code_obstacles (f : Flush) :
    (f.obstacles.map SenderError.code).Sublist <|
      f.sender.buffer.pending.toList.map RowError.code ++
        [.socket, .cancelled, .deadlineExceeded] := by
  have hnil : (([] : List (Option SenderError)).reduceOption.map SenderError.code).Sublist [] :=
    List.nil_sublist []
  have hpassed := sublist_code_cons (p := f.timeout.isOver)
    (.transport .deadlinePassed) hnil
  have hcancelled := sublist_code_cons (p := f.cancel = some true) (.transport .cancelled) hpassed
  have hothers := sublist_code_cons (p := f.sender.connection.isNone) (.transport .notConnected)
    hcancelled
  unfold obstacles
  cases f.sender.buffer.pending with
  | none => exact hothers
  | some r => exact hothers.cons_cons r.code

/-- A flush reports the first obstacle, before anything happens to the connection; and if there is
none, only the failure of an attempt to send.  Obstacles stand in this order: the error of the row
in progress, no connection, a request to give up, and a timeout that is over.  The first takes the
row with it and leaves the finished rows, ready for the next one; with any other the sender is what
it was.  In either case a later flush takes from the front of the same finished rows, and all of
them if it returns. -/
theorem step_refused (f : Flush) :
    let b := f.sender.buffer
    let t := f.step
    (∀ e, e ∈ f.obstacles ↔
      (∃ r, b.pending = some r ∧ e = .row r) ∨
        f.sender.connection = none ∧ e = .transport .notConnected ∨
        f.cancel = some true ∧ e = .transport .cancelled ∨
        (∃ n, f.timeout.compared .atMost = .ok n ∧ n.isNonpositive = true) ∧
          e = .transport .deadlinePassed) ∧
      (f.obstacles.map SenderError.code).Sublist
        (b.pending.toList.map RowError.code ++ [.socket, .cancelled, .deadlineExceeded]) ∧
      (f.obstacles = [] → ∀ e, t.outcome = .error (.error e) →
        ∃ fault sent total, e = .transport (.flushFailed fault sent total)) ∧
      ∀ e later, f.obstacles = e :: later →
        t.outcome = .error (.error e) ∧ t.events = [] ∧
          (b.pending = none → t.sender = f.sender) ∧
          (b.pending ≠ none → t.sender = { f.sender with buffer := b.discard } ∧
            t.sender.buffer.Ready ∧ t.sender.buffer.bytes = b.committed) ∧
          ∀ next : Flush, next.sender.buffer.committed = t.sender.buffer.committed →
            next.step.taken <+: b.committed ∧
              (next.step.outcome = .ok () → next.step.taken = b.committed) := by
  intro b t
  refine ⟨fun e => mem_obstacles_iff, f.sublist_code_obstacles,
    fun hnil e => eq_flushFailed_of_obstacles hnil, fun e later hobstacles => ?_⟩
  have ht : t = f.refused e := step_of_obstacles hobstacles
  rw [ht]
  refine ⟨rfl, rfl, fun hpending => ?_, fun hpending => ?_, fun next hnext => ?_⟩
  · show { f.sender with buffer := b.settle } = f.sender
    rw [Buffer.settle_of_pending_eq_none hpending]
  · obtain ⟨r, hr⟩ := Option.ne_none_iff_exists'.1 hpending
    have hbuffer : (f.refused e).sender.buffer = b.discard := Buffer.settle_of_pending hr
    rw [hbuffer]
    exact ⟨congrArg (fun buffer => { f.sender with buffer }) hbuffer, b.ready_discard,
      b.bytes_discard⟩
  · replace hnext : next.sender.buffer.committed = b.committed :=
      hnext.trans b.committed_settle
    have hsent := next.goes.sent
    rw [← hnext]
    refine ⟨hsent.isPrefix, fun hok => ?_⟩
    rw [hok] at hsent
    exact hsent.of_ok.1

end Flush

namespace Sender

/-- Finishes a row, and then names two tables for the next one. -/
def entangled : List Operation :=
  [.build (.table (.text "t")), .endRow Buffer.serverTime .null none,
    .build (.table (.text "u")), .build (.table (.text "v"))]

end Sender

namespace Flush

/-- With all the obstacles at once the error of the row is reported, and the row is gone.  The
finished row is sent once there are none. -/
theorem step_refused_entangled :
    let f : Flush := ⟨Sender.fresh.afterAll Sender.entangled, .int 0, some true⟩
    let next : Flush :=
      ⟨f.step.sender.afterAll [.connect .null (.ok ⟨[], []⟩)], .null, some false⟩
    f.obstacles.length = 4 ∧ f.step.outcome = .error (.error (.row .tableRepeated)) ∧
      f.step.events = [] ∧ f.step.sender.buffer.bytes = [116, 10] ∧
      next.step.taken = [116, 10] := by
  intro f next
  obtain ⟨-, -, -, hrefused⟩ := f.step_refused
  have hobstacles : f.obstacles = .row .tableRepeated ::
      [.transport .notConnected, .transport .cancelled, .transport .deadlinePassed] := by rfl
  obtain ⟨houtcome, hevents, -, hdropped, hlater⟩ := hrefused _ _ hobstacles
  obtain ⟨-, -, hbytes⟩ := hdropped (by decide +kernel)
  obtain ⟨-, htaken⟩ := hlater next (by rfl)
  exact ⟨by rfl, houtcome, hevents, hbytes, htaken (by rfl)⟩

end Flush

end LineProtocol
