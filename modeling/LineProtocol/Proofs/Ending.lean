import LineProtocol.Proofs.Calls
import LineProtocol.Proofs.WellFormed
/-!
# What the end of a row reports

The error with which a row ends tells what became of the row.  An error of the row
means that the row was dropped and nothing was sent.  Any other error, like no
error at all, means that the row is finished: a part of it may have been taken,
and the rest of it is still in the buffer.
-/

namespace LineProtocol

open Line

/-- What can be compared with zero and is greater holds nothing at all. -/
theorem Capacity.fits_zero {c : Capacity} (h : c.isNonpositive = false) : c.fits 0 = true := by
  cases c with
  | truth b | flag b => simp [fits]
  | exact n | word f n | cell n =>
      simp only [isNonpositive, decide_eq_false_iff_not, fits, decide_eq_true_eq] at h ⊢
      omega
  | ratio q =>
      simp only [isNonpositive, decide_eq_false_iff_not, not_le, fits, decide_eq_true_eq] at h ⊢
      exact_mod_cast h.le
  | float f x =>
      simp only [isNonpositive, Binary64.isNonpositive, fits] at h ⊢
      cases hx : x.datum with
      | finite negative significand exponent =>
          rw [hx] at h
          cases negative with
          | true => contradiction
          | false => simp [Floating.Datum.isBelow]
      | infinite negative =>
          rw [hx] at h
          exact congrArg not h
      | nan => rfl

/-- A timestamp that is a number of nanoseconds is written out or is an error of the row. -/
theorem Value.encodeTimestamp_ne_fault {v : Value} {n : Int} (h : v.nanoseconds? = some n)
    (fault : Fault) : v.encodeTimestamp ≠ .error (.fault fault) := by
  rw [encodeTimestamp_of_nanoseconds? h]
  split
  · split <;> exact nofun
  · exact nofun

namespace Buffer

variable {b : Buffer}

/-! ## Room for nothing -/

theorem Reachable.fits_zero {size : Capacity} (h : Reachable size b) (hsize : size.fits 0 = true) :
    b.initialSize.fits 0 = true := by
  refine h.rooms (P := fun first _ => first.fits 0 = true) hsize ?_ (fun _ _ _ _ hfits _ => hfits)
    (fun _ _ hfits => hfits)
  intro first c n d hfits hd
  cases first with
  | cell m => exact Capacity.fits_of_le (Nat.zero_le n) (Capacity.fits_of_grow hd)
  | _ => exact hfits

/-! ## Rows that end -/

/-- With a number of nanoseconds, a row is dropped for an error of its own or is finished. -/
theorem endRow_of_nanoseconds? {timestamp : Value} {n : Int} (hn : timestamp.nanoseconds? = some n)
    (b : Buffer) :
    (∃ e, b.endRow timestamp = (b.discard, .error (.error (.row e)))) ∨
      b.endRow timestamp = (b, .error .endless) ∨
      ∃ ts c, timestamp.IsTimestamp ts ∧ b.HasTable ∧ b.pending = none ∧
        b.write? (Record.endBytes ts) = some c ∧ b.endRow timestamp = (c.commit, .ok ()) := by
  have hended := b.ended timestamp
  generalize b.endRow timestamp = t at hended ⊢
  cases hended with
  | reported e => exact Or.inl ⟨e, rfl⟩
  | missing => exact Or.inl ⟨_, rfl⟩
  | refused e => exact Or.inl ⟨e, rfl⟩
  | raised fault _ hfault => exact absurd hfault (Value.encodeTimestamp_ne_fault hn fault)
  | endless => exact Or.inr (Or.inl rfl)
  | finished data c hpending hstage hdata hc =>
      obtain ⟨ts, hts, rfl⟩ := (Value.encodeTimestamp_eq_ok_iff hn).1 hdata
      exact Or.inr (Or.inr ⟨ts, c, hts, hstage, hpending, hc, rfl⟩)

theorem contents_commit_of_write? {data : Bytes} {c : Buffer} (hpending : b.pending = none)
    (h : b.write? data = some c) :
    c.commit.contents = .between (b.committed ++ (b.row ++ data)) := by
  obtain ⟨_, _, rfl⟩ := Option.map_eq_some_iff.1 h
  simp [contents, commit, grow, Contents.between, hpending]

end Buffer

/-! ## Finished rows -/

/-- A step on a sender that was ready for a new row and held only `finished`.  Whatever is gone
was taken, and the sender is ready for a new row again. -/
structure Step.Keeps (finished : Bytes) (t : Step) : Prop where
  codes : ∀ e, t.outcome = .error (.error e) → e.code ∈ ErrorCode.interruptions
  bytes : t.outcome = .ok () ∨ (∃ e, t.outcome = .error (.error e)) →
    t.taken ++ t.sender.buffer.bytes = finished
  ready : t.sender.buffer.contents = .between t.sender.buffer.committed
  fits : t.outcome = .ok () → t.sender.buffer.initialSize.fits t.sender.pendingSize = true

namespace Sender

variable {s : Sender}

theorem keeps_flush {finished : Bytes} (h : s.buffer.contents = .between finished)
    {timeout : Value} {cancel : Cancellation}
    (hfits : (s.flush timeout cancel).sender.buffer.initialSize.fits 0 = true) :
    (s.flush timeout cancel).Keeps finished := by
  have hcommitted : s.buffer.committed = finished := congrArg Contents.committed h
  have hflushes := flush_flushes (s := s) (congrArg Contents.pending h) timeout cancel
  generalize s.flush timeout cancel = t at hflushes hfits ⊢
  have hready : t.sender.buffer.contents = .between t.sender.buffer.committed := by
    obtain ⟨k, hk⟩ := hflushes.buffer
    have hcontents : t.sender.buffer.contents = (s.buffer.consume k).contents := by
      rcases hk with hk | hk
      · rw [hk]
      · exact contents_shrink? hk
    have hconsumed : (s.buffer.consume k).contents = .between (finished.drop k) := by
      rw [← hcommitted]
      simp only [Contents.between, Buffer.contents, Contents.mk.injEq] at h
      simp [Buffer.contents, Buffer.consume, Contents.between, h]
    rw [hcontents, hconsumed, show t.sender.buffer.committed = _ from
      congrArg Contents.committed (hcontents.trans hconsumed)]
    rfl
  have hrow : t.sender.buffer.row = [] := congrArg Contents.row hready
  refine ⟨fun e he => (hflushes.failed e he).1, ?_, hready, fun hok => ?_⟩
  · rintro (hok | ⟨e, he⟩)
    · obtain ⟨htaken, hnone⟩ := hflushes.returned hok
      rw [Buffer.bytes, hrow, hnone, htaken, hcommitted]
      exact List.append_nil finished
    · rw [Buffer.bytes, hrow, List.append_nil, (hflushes.failed e he).2, hcommitted]
  · have hsize : t.sender.pendingSize = 0 := by
      rw [pendingSize, Buffer.size, hrow, (hflushes.returned hok).2]
      rfl
    rwa [hsize]

theorem keeps_done {finished : Bytes} (h : s.buffer.contents = .between finished)
    (hfits : s.isOverfull = false) : (s.done []).Keeps finished where
  codes := fun _ he => nomatch he
  bytes := fun _ => by
    show s.buffer.contents.bytes = finished
    rw [h]
    exact List.append_nil finished
  ready := by
    show s.buffer.contents = .between s.buffer.contents.committed
    rw [h]
    rfl
  fits := fun _ => by
    show s.buffer.initialSize.fits s.buffer.size = true
    simpa [isOverfull] using hfits

theorem keeps_endRow {size : Capacity} (hs : Buffer.Reachable size s.buffer)
    (hsize : size.fits 0 = true) {timestamp : Value} {data : Bytes} {b : Buffer}
    (hpending : s.buffer.pending = none) (hb : s.buffer.write? data = some b)
    (h : s.buffer.endRow timestamp = (b.commit, .ok ())) (timeout : Value) (cancel : Cancellation) :
    (s.endRow timestamp timeout cancel).Keeps
      (s.buffer.committed ++ (s.buffer.row ++ data)) := by
  have hcontents := Buffer.contents_commit_of_write? hpending hb
  have hfits := (reachable_endRow hs timestamp timeout cancel).fits_zero hsize
  rw [endRow_of_ok h] at hfits ⊢
  split at hfits
  · next hfull =>
    rw [if_pos hfull]
    exact keeps_flush hcontents hfits
  · next hroom =>
    rw [if_neg hroom]
    exact keeps_done hcontents (Bool.eq_false_iff.2 hroom)

/-- What the end of a row reports tells what became of the row.  After an error of the row, the row
is gone and nothing was sent.  After any other error or none, the row is a line behind those that
were finished before, of which nothing is gone but what the connection took.  In any case the next
row can begin; and without an error, what is left does not exceed the size that the buffer had at
first. -/
theorem endRow_reports {address size : Value} {clock : Binary64}
    (hs : (create address size clock).1 = .ok s) (ops : List Operation) {timestamp : Value}
    {n : Int} (hn : timestamp.nanoseconds? = some n) (timeout : Value) (cancel : Cancellation) :
    let before := s.afterAll ops
    let t := before.endRow timestamp timeout cancel
    (∀ k, size = .int k → t.outcome ≠ .error .endless) ∧
      (∀ e, t.outcome = .error (.error e) → e.code ∈ ErrorCode.refusals →
        t.events = [] ∧ t.sender = { before with buffer := before.buffer.discard }) ∧
      (∀ e, t.outcome = .error (.error e) → e.code ∉ ErrorCode.refusals →
        e.code ∈ ErrorCode.interruptions) ∧
      (t.outcome = .ok () ∨
          (∃ e, t.outcome = .error (.error e) ∧ e.code ∉ ErrorCode.refusals) →
        before.buffer.HasTable ∧ ∃ ts, timestamp.IsTimestamp ts ∧
          IsLine (before.buffer.row ++ Record.endBytes ts) ∧
          t.taken ++ t.sender.buffer.bytes =
            before.buffer.committed ++ (before.buffer.row ++ Record.endBytes ts)) ∧
      (t.outcome ≠ .error .endless →
        t.sender.buffer.contents = .between t.sender.buffer.committed) ∧
      (t.outcome = .ok () → t.sender.buffer.initialSize.fits t.sender.pendingSize = true) := by
  intro before t
  obtain ⟨c, hpositive, hboundless, hreachable⟩ := reachable_of_create hs
  have hbefore : Buffer.Reachable c before.buffer := hreachable ops
  have hends : ∀ k, size = .int k → t.outcome ≠ .error .endless := fun k hk =>
    ((endRow_delivers timestamp timeout cancel before).ends
      (hbefore.boundless (hboundless k hk))).2
  rcases before.buffer.endRow_of_nanoseconds? hn with
    ⟨e, he⟩ | hendless | ⟨ts, b, hts, htable, hpending, hwrite, hok⟩
  · -- the row is dropped before anything is sent
    have ht : t = ⟨{ before with buffer := before.buffer.discard }, [],
        .error (.error (.row e))⟩ := endRow_of_error he timeout cancel
    rw [ht]
    refine ⟨fun _ _ h => (nomatch h), fun _ _ _ => ⟨rfl, rfl⟩, fun e' he' hcode => ?_, ?_,
      fun _ => rfl, fun h => (nomatch h)⟩
    · cases he'
      exact absurd e.code_mem_refusals hcode
    · rintro (hok | ⟨e', he', hcode⟩)
      · cases hok
      · cases he'
        exact absurd e.code_mem_refusals hcode
  · have ht : t = ⟨before, [], .error .endless⟩ := endRow_of_error hendless timeout cancel
    refine ⟨hends, ?_⟩
    rw [ht]
    refine ⟨fun _ h => (nomatch h), fun _ h => (nomatch h), ?_, fun h => absurd rfl h,
      fun h => (nomatch h)⟩
    rintro (hok | ⟨e, he, -⟩)
    · cases hok
    · cases he
  · -- the row is finished, so that only a flush can fail
    have hkeeps : t.Keeps
        (before.buffer.committed ++ (before.buffer.row ++ Record.endBytes ts)) :=
      keeps_endRow hbefore (Capacity.fits_zero hpositive) hpending hwrite hok timeout cancel
    have hline : IsLine (before.buffer.row ++ Record.endBytes ts) :=
      (Value.isLine_of_encodeTimestamp
        ((Value.encodeTimestamp_eq_ok_iff hn).2 ⟨ts, hts, rfl⟩)).append hbefore.newline_not_mem_row
    refine ⟨hends, fun e he hcode => ?_, fun e he _ => hkeeps.codes e he, fun hkept => ?_,
      fun _ => hkeeps.ready, hkeeps.fits⟩
    · exact absurd hcode (ErrorCode.not_mem_refusals (hkeeps.codes e he))
    · refine ⟨htable, ts, hts, hline, hkeeps.bytes ?_⟩
      exact hkept.imp_right fun ⟨e, he, _⟩ => ⟨e, he⟩

/-- A new sender that sends each row as soon as it ends. -/
def eager : Sender := ⟨⟨"h", 9009, false⟩, .empty (.exact 1), none, ⟨0⟩⟩

theorem create_eager : (create (.text "h") (.int 1) ⟨0⟩).1 = .ok eager := rfl

/-- The connection takes the first byte of a row and is lost; the row is kept nevertheless. -/
theorem endRow_reports_lost :
    let ops : List Operation := [.connect .null (.ok .lost), .build (.table (.text "t"))]
    let before := eager.afterAll ops
    let t := before.endRow Buffer.serverTime .null none
    t.taken = [116] ∧ t.sender.buffer.bytes = [newline] ∧
      (∃ e, t.outcome = .error (.error e) ∧ e.code ∈ ErrorCode.interruptions) ∧
      ∃ ts, IsLine (before.buffer.row ++ Record.endBytes ts) ∧
        t.taken ++ t.sender.buffer.bytes =
          before.buffer.committed ++ (before.buffer.row ++ Record.endBytes ts) := by
  intro ops before t
  have hnow : Buffer.serverTime.nanoseconds? = some (-1) := rfl
  obtain ⟨-, -, hcodes, hkept, -⟩ := endRow_reports create_eager ops hnow .null none
  obtain ⟨e, he, hcode⟩ : ∃ e, t.outcome = .error (.error e) ∧ e.code ∉ ErrorCode.refusals :=
    ⟨_, rfl, by decide +kernel⟩
  obtain ⟨-, ts, -, hline, hbytes⟩ := hkept (Or.inr ⟨e, he, hcode⟩)
  exact ⟨by decide +kernel, by decide +kernel, ⟨e, he, hcodes e he hcode⟩, ts, hline, hbytes⟩

end Sender

end LineProtocol
