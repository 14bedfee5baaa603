import LineProtocol.Proofs.Room
import LineProtocol.Proofs.Timeouts
/-!
# What each attempt to send offers

A flush sends the finished rows in as many attempts as it takes.  Each attempt offers
all that the ones before it left, so that none offers nothing, and if every attempt
takes something there are no more of them than bytes.  A flush that returns has sent
the finished rows and nothing else.  What it leaves is the row in progress, in as
little room as the first size of the buffer allows.
-/

namespace LineProtocol

/-! ## Attempts -/

namespace Event

/-- An attempt to send. -/
def isSend : Event → Bool
  | send .. => true
  | connect .. | setTimeout _ | close | log _ => false

variable {e : Event}

theorem isSend_of_not_isCall (h : e.isCall = false) : e.isSend = false := by
  cases e with
  | send | setTimeout => contradiction
  | connect | close | log => rfl

theorem taken_of_not_isSend (h : e.isSend = false) : e.taken = [] := by
  cases e with
  | send => contradiction
  | connect | setTimeout | close | log => rfl

end Event

/-- The attempts to send among the events offer `data`, and then each what the ones before left of
it, until nothing is left or one of them fails. -/
inductive Offers : Bytes → List Event → Prop
  | nil (data : Bytes) : Offers data []
  | other {data : Bytes} {e : Event} {events : List Event} (he : e.isSend = false)
      (h : Offers data events) : Offers data (e :: events)
  | failed {data : Bytes} {events : List Event} (hdata : data ≠ [])
      (h : ∀ e ∈ events, e.isSend = false) : Offers data (.send data none :: events)
  | took {data : Bytes} {n : Nat} {events : List Event} (hdata : data ≠ []) (hn : n ≤ data.length)
      (h : Offers (data.drop n) events) : Offers data (.send data (some n) :: events)

namespace Offers

variable {data : Bytes} {events front back : List Event}

theorem of_others (h : ∀ e ∈ events, e.isSend = false) : Offers data events := by
  induction events with
  | nil => exact .nil data
  | cons e events ih =>
      obtain ⟨he, hevents⟩ := List.forall_mem_cons.1 h
      exact .other he (ih hevents)

theorem after_others (hfront : ∀ e ∈ front, e.isSend = false) (h : Offers data events) :
    Offers data (front ++ events) := by
  induction front with
  | nil => exact h
  | cons e front ih =>
      obtain ⟨he, hfront⟩ := List.forall_mem_cons.1 hfront
      exact .other he (ih hfront)

theorem then_others (h : Offers data events) (hback : ∀ e ∈ back, e.isSend = false) :
    Offers data (events ++ back) := by
  induction h with
  | nil => exact of_others hback
  | other he _ ih => exact .other he ih
  | failed hdata h => exact .failed hdata (List.forall_mem_append.2 ⟨h, hback⟩)
  | took hdata hn _ ih => exact .took hdata hn ih

/-- Every attempt offers something, namely what was not taken before. -/
theorem offered (h : Offers data events) {offered : Bytes} {accepted : Option Nat}
    (hsplit : events = front ++ .send offered accepted :: back) :
    offered = data.drop (front.flatMap Event.taken).length ∧ offered ≠ [] ∧
      ∀ n, accepted = some n → n ≤ offered.length := by
  induction h generalizing front with
  | nil => simp at hsplit
  | other he _ ih =>
      cases front with
      | nil =>
          obtain ⟨rfl, -⟩ := List.cons.inj hsplit
          contradiction
      | cons first front =>
          obtain ⟨rfl, hrest⟩ := List.cons.inj hsplit
          rw [List.flatMap_cons, Event.taken_of_not_isSend he]
          exact ih hrest
  | failed hdata h =>
      cases front with
      | nil =>
          cases hsplit
          exact ⟨rfl, hdata, nofun⟩
      | cons first front =>
          obtain ⟨-, hrest⟩ := List.cons.inj hsplit
          exact nomatch h (.send offered accepted) (by simp [hrest])
  | @took data n events hdata hn _ ih =>
      cases front with
      | nil =>
          cases hsplit
          exact ⟨rfl, hdata, fun n h => Option.some.inj h ▸ hn⟩
      | cons first front =>
          obtain ⟨rfl, hrest⟩ := List.cons.inj hsplit
          obtain ⟨hoffered, hne, haccepted⟩ := ih hrest
          refine ⟨?_, hne, haccepted⟩
          have hlength : (Event.send data (some n)).taken.length = n := List.length_take_of_le hn
          rw [hoffered, List.drop_drop, List.flatMap_cons, List.length_append, hlength]

/-- If every attempt that does not fail takes something, there are no more attempts than bytes. -/
theorem countP_le (h : Offers data events)
    (htakes : ∀ offered, Event.send offered (some 0) ∉ events) :
    events.countP Event.isSend ≤ data.length := by
  induction h with
  | nil => exact Nat.zero_le _
  | @other _ e _ he _ ih =>
      rw [List.countP_cons_of_neg (by simp [he])]
      exact ih fun offered hmem => htakes offered (List.mem_cons_of_mem e hmem)
  | failed hdata h =>
      rw [List.countP_cons_of_pos rfl, List.countP_eq_zero.2 fun e he => by simp [h e he]]
      exact List.length_pos_of_ne_nil hdata
  | @took data n events hdata hn _ ih =>
      have hrest := ih fun offered hmem => htakes offered (List.mem_cons_of_mem _ hmem)
      have hpositive : n ≠ 0 := by
        rintro rfl
        exact htakes data List.mem_cons_self
      rw [List.length_drop] at hrest
      rw [List.countP_cons_of_pos rfl]
      omega

end Offers

/-! ## Transfers -/

namespace Transfer

/-- Arming sends nothing. -/
theorem isSend_arm {deadline : Option Deadline} {clock : Binary64}
    {timeouts later : List (Option Fault)} {fault : Option Fault} {events : List Event}
    (h : arm deadline clock timeouts = (fault, later, events)) :
    ∀ e ∈ events, e.isSend = false := by
  unfold arm at h
  split at h
  · cases h
    exact List.forall_mem_nil _
  · dsimp only at h
    split at h
    · cases h
      exact List.forall_mem_nil _
    · cases h
      exact List.forall_mem_singleton.2 rfl

theorem offers_run (deadline : Option Deadline) (sends : List Reply)
    (timeouts : List (Option Fault)) (clock : Binary64) (data : Bytes) :
    Offers data (run deadline sends timeouts clock data).events := by
  induction sends, timeouts, clock, data using run.induct deadline with
  | case1 =>
      rw [run]
      exact .nil _
  | case2 sends timeouts clock b bs fault later events harm =>
      simp only [run, harm]
      exact .of_others (isSend_arm harm)
  | case3 timeouts clock b bs later events harm =>
      simp only [run, harm]
      refine .after_others (isSend_arm harm) (.took (List.cons_ne_nil b bs) (Nat.le_refl _) ?_)
      exact .nil _
  | case4 timeouts clock b bs later events harm reply sends fault hanswer =>
      simp only [run, harm, hanswer]
      refine .after_others (isSend_arm harm) (.failed (List.cons_ne_nil b bs) ?_)
      exact List.forall_mem_nil _
  | case5 timeouts clock b bs data later events harm reply sends now limit hanswer accepted ih =>
      simp only [run, harm, hanswer, after, List.append_assoc]
      refine .after_others (isSend_arm harm) ?_
      exact .took (List.cons_ne_nil b bs) (Nat.min_le_right _ _) ih

end Transfer

/-! ## Flushes -/

namespace Sender

theorem offers_transmit (deadline : Option Deadline) (c : Connection) (s : Sender) :
    Offers s.buffer.committed (s.transmit deadline c).events := by
  obtain ⟨rest, hevents, hrest⟩ := (s.transmits deadline c).events
  rw [hevents]
  have hoffers : Offers s.buffer.committed (s.transfer deadline c).events :=
    Transfer.offers_run ..
  exact hoffers.then_others fun e he => Event.isSend_of_not_isCall (hrest e he)

end Sender

theorem Flush.Goes.offers {f : Flush} {t : Step} (h : f.Goes t) :
    Offers f.sender.buffer.committed t.events := by
  cases h with
  | reported | unconnected | cancelled => exact .nil _
  | delivers _ _ _ h =>
      cases h with
      | uncounted | passed | overlong => exact .nil _
      | unlifted => exact .other rfl (.nil _)
      | lifted => exact .other rfl (Sender.offers_transmit none _ f.sender)
      | limited => exact Sender.offers_transmit _ _ f.sender

/-- A flush that returns leaves the row in progress as it was, in the least room for it. -/
theorem Buffer.Sent.kept {b c : Buffer} {taken : Bytes} (h : b.Sent taken c (.ok ())) :
    c.contents = { b.contents with committed := [] } ∧ c.bytes = b.row ∧
      ∃ k, c.Doubled b.initialSize k ∧ c.Tight b.initialSize k := by
  cases h with
  | finished hc =>
      have hcontents : c.contents = { b.contents with committed := [] } := by
        rw [Sender.contents_shrink? hc]
        simp [contents, consume]
      have hbytes : c.contents.bytes = b.row := by
        rw [hcontents]
        rfl
      exact ⟨hcontents, hbytes, exists_doubled_of_shrink? (b := b.consume _) hc⟩

namespace Sender

/-- Each attempt of a flush to send offers exactly the finished rows that are not taken yet, which
is never nothing, and takes a part of them at most.  Unless some attempt takes nothing without
failing, there are no more attempts than bytes.  A flush that returns has sent the finished rows and
nothing else.  The row in progress is what it was, and the capacity is the first size after the
fewest doublings that make room for it. -/
theorem flush_offers (s : Sender) (timeout : Value) (cancel : Cancellation) :
    let b := s.buffer
    let t := s.flush timeout cancel
    let c := t.sender.buffer
    (∀ front offered accepted back, t.events = front ++ .send offered accepted :: back →
      offered = b.committed.drop (front.flatMap Event.taken).length ∧ offered ≠ [] ∧
        ∀ n, accepted = some n → n ≤ offered.length) ∧
      ((∀ offered, Event.send offered (some 0) ∉ t.events) →
        t.events.countP Event.isSend ≤ b.committed.length) ∧
      (b.Boundless → t.outcome ≠ .error .endless) ∧
      (t.outcome = .ok () →
        t.taken = b.committed ∧ c.contents = { b.contents with committed := [] } ∧
          c.bytes = b.row ∧
          ∃ k, c.Doubled b.initialSize k ∧ c.Tight b.initialSize k ∧
            ∀ n, b.initialSize.integer? = some n →
              c.capacity.integer? = some (2 ^ k * n) ∧ (b.row.length : Int) ≤ 2 ^ k * n ∧
                ∀ j, (b.row.length : Int) ≤ 2 ^ j * n → k ≤ j) := by
  intro b t c
  have hgoes := Flush.goes ⟨s, timeout, cancel⟩
  refine ⟨fun front offered accepted back => hgoes.offers.offered, hgoes.offers.countP_le,
    hgoes.flushed.ends, fun hok => ?_⟩
  have hsent : b.Sent t.taken c t.outcome := hgoes.sent
  rw [hok] at hsent
  obtain ⟨hcontents, hbytes, k, hdoubled, htight⟩ := hsent.kept
  refine ⟨hsent.of_ok.1, hcontents, hbytes, k, hdoubled, htight, fun n hn => ?_⟩
  have hreserves := hdoubled.reserves hn
  have hsize : c.size = b.row.length := by rw [← Buffer.length_bytes, hbytes]
  refine ⟨hreserves.capacity, hsize ▸ hreserves.fits, fun j hj => ?_⟩
  by_contra hlt
  have hsmall := htight.lt hn (Nat.lt_of_not_le hlt)
  rw [hsize] at hsmall
  exact absurd hj (not_le.2 hsmall)

/-- Two bytes are sent one by one, and the capacity that was doubled for the next row is as it was
at first. -/
theorem flush_offers_halved :
    let s := { fresh with buffer := .empty (.exact 4) }.afterAll
      [.connect .null (.ok ⟨[⟨none, .ok (some 1)⟩], []⟩), .build (.table (.text "t")),
        .endRow Buffer.serverTime .null none, .build (.table (.text "uuu"))]
    let t := s.flush .null none
    s.buffer.capacity = .exact 8 ∧ t.events.countP Event.isSend ≤ 2 ∧ t.taken = [116, 10] ∧
      t.sender.buffer.bytes = [117, 117, 117] ∧ t.sender.buffer.capacity.integer? = some 4 := by
  intro s t
  obtain ⟨-, hcount, -, hreturns⟩ := s.flush_offers .null none
  have hevents : t.events = [.setTimeout none, .send [116, 10] (some 1), .send [10] (some 1),
      .log (.flushed 2 s.address)] := by rfl
  obtain ⟨htaken, -, hbytes, k, -, -, hleast⟩ := hreturns (by rfl)
  obtain ⟨hcapacity, -, hk⟩ := hleast 4 (by rfl)
  obtain rfl : k = 0 := Nat.le_zero.1 (hk 0 (by decide +kernel))
  exact ⟨by rfl, hcount (by rw [show (s.flush .null none).events = _ from hevents]; simp),
    htaken.trans (by rfl), hbytes.trans (by rfl), hcapacity⟩

end Sender

end LineProtocol
