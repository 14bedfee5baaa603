import LineProtocol.Proofs.Discarding
import LineProtocol.Proofs.Ending
import LineProtocol.Proofs.Exchange
/-!
# How much room a buffer takes

The capacity of a buffer is its first size, doubled some number of times.  It rises
with what is buffered and does not fall when rows are discarded or sent in part.  Only
dropping all rows and a flush that returns bring it down: to the first size, or to its
least doubling that holds the row in progress.
-/

namespace LineProtocol

namespace Capacity

/-- The number that an amount is, if that is an integer without bounds. -/
def integer? : Capacity → Option Int
  | truth b => some b.toInt
  | exact n => some n
  | _ => none

variable {c : Capacity} {n : Int}

theorem integer?_double (h : c.integer? = some n) : c.double.integer? = some (2 * n) := by
  cases c with
  | truth b | exact m =>
      cases h
      rfl
  | _ => contradiction

theorem integer?_iterate_double (h : c.integer? = some n) (k : Nat) :
    (Capacity.double^[k] c).integer? = some (2 ^ k * n) := by
  induction k with
  | zero => simpa using h
  | succ k ih =>
      rw [Function.iterate_succ_apply', integer?_double ih, ← mul_assoc, ← pow_succ']

theorem fits_iff_of_integer? (h : c.integer? = some n) (size : Nat) :
    c.fits size = true ↔ (size : Int) ≤ n := by
  cases c with
  | truth b =>
      cases h
      cases b <;> simp [fits]
  | exact m =>
      cases h
      exact decide_eq_true_iff
  | _ => contradiction

theorem boundless_of_integer? (h : c.integer? = some n) (hn : 0 < n) : c.Boundless := by
  cases c with
  | truth b =>
      cases h
      cases b with
      | true => rfl
      | false => exact absurd hn (by decide)
  | exact m =>
      cases h
      exact hn
  | _ => contradiction

theorem Boundless.isNonpositive (h : c.Boundless) : c.isNonpositive = false := by
  cases c with
  | truth b =>
      have hb : b = true := h
      rw [hb]
      rfl
  | exact n => exact decide_eq_false (not_le.2 (show 0 < n from h))
  | ratio q => exact decide_eq_false (not_le.2 (show 0 < q from h))
  | _ => exact h.elim

end Capacity

namespace Buffer

/-! ## Numbers of doublings -/

/-- A buffer whose capacity is its first size, doubled `k` times, and holds what is buffered. -/
structure Doubled (size : Capacity) (k : Nat) (b : Buffer) : Prop where
  initialSize : b.initialSize = size
  capacity : b.capacity = Capacity.double^[k] size
  fits : b.capacity.fits b.size = true

/-- No smaller doubling of the first size holds what is buffered. -/
def Tight (size : Capacity) (k : Nat) (b : Buffer) : Prop :=
  ∀ i < k, (Capacity.double^[i] size).fits b.size = false

variable {size : Capacity} {k : Nat} {b c : Buffer}

theorem fits_of_write? {data : Bytes} (h : b.write? data = some c) :
    c.capacity.fits c.size = true := by
  obtain ⟨d, hd, rfl⟩ := Option.map_eq_some_iff.1 h
  show Capacity.fits (b.committed.length + (b.row ++ data).length) d = true
  rw [List.length_append, ← Nat.add_assoc]
  exact Capacity.fits_of_grow hd

theorem size_commit (b : Buffer) : b.commit.size = b.size := by
  rw [← length_bytes, bytes_commit, length_bytes]

theorem size_consume_le (n : Nat) (b : Buffer) : (b.consume n).size ≤ b.size := by
  show (b.committed.drop n).length + b.row.length ≤ b.committed.length + b.row.length
  rw [List.length_drop]
  omega

theorem doubled_empty (hsize : size.Boundless) : (empty size).Doubled size 0 :=
  ⟨rfl, rfl, Capacity.fits_zero hsize.isNonpositive⟩

/-- Shrinking forgets how often the first size was doubled before. -/
theorem exists_doubled_of_shrink? (hc : b.shrink? = some c) :
    ∃ l, c.Doubled b.initialSize l ∧ c.Tight b.initialSize l := by
  obtain ⟨d, hd, rfl⟩ := Option.map_eq_some_iff.1 hc
  obtain ⟨l, -, rfl, hfits, hfirst⟩ := Capacity.growWithin_eq_some_iff.1 hd
  exact ⟨l, ⟨rfl, rfl, hfits⟩, hfirst⟩

namespace Doubled

theorem of_le (h : b.Doubled size k) (hinitial : c.initialSize = b.initialSize)
    (hcapacity : c.capacity = b.capacity) (hle : c.size ≤ b.size) : c.Doubled size k := by
  refine ⟨hinitial.trans h.initialSize, hcapacity.trans h.capacity, ?_⟩
  rw [hcapacity]
  exact Capacity.fits_of_le hle h.fits

theorem discard (h : b.Doubled size k) : b.discard.Doubled size k :=
  h.of_le rfl rfl (Nat.le_add_right _ _)

theorem consume (h : b.Doubled size k) (n : Nat) : (b.consume n).Doubled size k :=
  h.of_le rfl rfl (size_consume_le n b)

theorem commit (h : b.Doubled size k) : b.commit.Doubled size k :=
  h.of_le rfl rfl (size_commit b).le

theorem clear (h : b.Doubled size k) (hsize : size.Boundless) : b.clear.Doubled size 0 := by
  unfold Buffer.clear
  rw [h.initialSize]
  exact doubled_empty hsize

/-- Writing doubles the capacity as often as it must. -/
theorem write? (h : b.Doubled size k) (hsize : size.Boundless) {data : Bytes}
    (hc : b.write? data = some c) : ∃ l ≥ k, c.Doubled size l := by
  have hfits := fits_of_write? hc
  obtain ⟨d, hd, rfl⟩ := Option.map_eq_some_iff.1 hc
  obtain ⟨j, -, rfl, -⟩ := Capacity.growWithin_eq_some_iff.1 hd
  refine ⟨j + k, Nat.le_add_left k j, ?_, ?_, hfits⟩
  · show b.initialSize.afterGrowth _ = size
    rw [h.initialSize, hsize.afterGrowth]
  · show Capacity.double^[j] b.capacity = _
    rw [h.capacity, Function.iterate_add_apply]

theorem apply (h : b.Doubled size k) (hsize : size.Boundless) (call : Call) :
    ∃ l ≥ k, (b.apply call).1.Doubled size l := by
  have happlied := b.applied call
  generalize b.apply call = t at happlied ⊢
  cases happlied with
  | ignored | raised | endless => exact ⟨k, le_rfl, h⟩
  | refused => exact ⟨k, le_rfl, h.of_le rfl rfl le_rfl⟩
  | added data c _ _ hc =>
      obtain ⟨l, hl, hdoubled⟩ := h.write? hsize hc
      exact ⟨l, hl, hdoubled.of_le rfl rfl le_rfl⟩

theorem endRow (h : b.Doubled size k) (hsize : size.Boundless) (timestamp : Value) :
    ∃ l ≥ k, (b.endRow timestamp).1.Doubled size l := by
  have hended := b.ended timestamp
  generalize b.endRow timestamp = t at hended ⊢
  cases hended with
  | reported | missing | refused => exact ⟨k, le_rfl, h.discard⟩
  | raised | endless => exact ⟨k, le_rfl, h⟩
  | finished data c _ _ _ hc =>
      obtain ⟨l, hl, hdoubled⟩ := h.write? hsize hc
      exact ⟨l, hl, hdoubled.commit⟩

theorem shrink? (h : b.Doubled size k) (hc : b.shrink? = some c) :
    ∃ l, c.Doubled size l ∧ c.Tight size l := by
  rw [← h.initialSize]
  exact exists_doubled_of_shrink? hc

/-- What a buffer may be asked to do brings the number of doublings down only by dropping all
rows. -/
theorem perform (h : b.Doubled size k) (hsize : size.Boundless) (use : Use) :
    ∃ l, (b.perform use).1.Doubled size l ∧ (use = .clear → l = 0) ∧ (use ≠ .clear → k ≤ l) := by
  cases use with
  | apply call =>
      obtain ⟨l, hl, hdoubled⟩ := h.apply hsize call
      exact ⟨l, hdoubled, nofun, fun _ => hl⟩
  | endRow timestamp =>
      obtain ⟨l, hl, hdoubled⟩ := h.endRow hsize timestamp
      exact ⟨l, hdoubled, nofun, fun _ => hl⟩
  | clear => exact ⟨0, h.clear hsize, fun _ => rfl, fun hne => absurd rfl hne⟩

end Doubled

theorem Reachable.exists_doubled (h : Reachable size b) (hsize : size.Boundless) :
    ∃ k, b.Doubled size k := by
  induction h with
  | empty => exact ⟨0, doubled_empty hsize⟩
  | apply _ call ih =>
      obtain ⟨k, hk⟩ := ih
      obtain ⟨l, -, hl⟩ := hk.apply hsize call
      exact ⟨l, hl⟩
  | endRow _ timestamp ih =>
      obtain ⟨k, hk⟩ := ih
      obtain ⟨l, -, hl⟩ := hk.endRow hsize timestamp
      exact ⟨l, hl⟩
  | discard _ ih => exact ih.imp fun _ hk => hk.discard
  | clear _ ih =>
      obtain ⟨k, hk⟩ := ih
      exact ⟨0, hk.clear hsize⟩
  | consume _ n ih => exact ih.imp fun _ hk => hk.consume n
  | shrink _ hc ih =>
      obtain ⟨k, hk⟩ := ih
      obtain ⟨l, hl, -⟩ := hk.shrink? hc
      exact ⟨l, hl⟩

theorem perform_ends (h : b.Boundless) (use : Use) : (b.perform use).2 ≠ .error .endless := by
  cases use with
  | apply call => exact (h.apply call).2
  | endRow timestamp => exact (h.endRow timestamp).2
  | clear => exact nofun

/-! ## Flushes -/

/-- The ways in which a flush may end. -/
inductive Flushed (b : Buffer) : Buffer → Outcome → Prop
  | dropped (e : RowError) : Flushed b b.discard (.error (.error (.row e)))
  | interrupted (sent : Nat) {f : Failure} (hf : f ≠ .endless) :
      Flushed b (b.consume sent) (.error f)
  | endless (hnone : (b.consume b.committed.length).shrink? = none) :
      Flushed b b (.error .endless)
  | finished {c : Buffer} (hc : (b.consume b.committed.length).shrink? = some c) :
      Flushed b c (.ok ())

namespace Flushed

variable {outcome : Outcome}

theorem ne_endless (h : b.Flushed c outcome)
    (hshrink : (b.consume b.committed.length).shrink? ≠ none) : outcome ≠ .error .endless := by
  cases h with
  | dropped | finished => exact nofun
  | interrupted _ hf =>
      intro heq
      exact hf (Except.error.inj heq)
  | endless hnone => exact absurd hnone hshrink

theorem ends (h : b.Flushed c outcome) (hb : b.Boundless) : outcome ≠ .error .endless := by
  obtain ⟨d, hd, -⟩ := (hb.consume b.committed.length).exists_shrink?
  exact h.ne_endless (by rw [hd]; exact nofun)

/-- A flush that returns leaves the row in progress and no more room than that takes; any other
leaves the capacity as it was. -/
theorem exists_doubled (h : b.Flushed c outcome) (hb : b.Doubled size k) :
    ∃ l, c.Doubled size l ∧ (outcome = .ok () → c.bytes = b.row ∧ c.Tight size l) ∧
      (outcome ≠ .ok () → l = k) := by
  cases h with
  | dropped => exact ⟨k, hb.discard, nofun, fun _ => rfl⟩
  | interrupted sent => exact ⟨k, hb.consume sent, nofun, fun _ => rfl⟩
  | endless => exact ⟨k, hb, nofun, fun _ => rfl⟩
  | finished hc =>
      obtain ⟨l, hdoubled, htight⟩ := (hb.consume _).shrink? hc
      refine ⟨l, hdoubled, fun _ => ⟨?_, htight⟩, fun hne => absurd rfl hne⟩
      obtain ⟨d, -, rfl⟩ := Option.map_eq_some_iff.1 hc
      simp [bytes, Buffer.consume]

end Flushed

theorem Sent.flushed {taken : Bytes} {outcome : Outcome} (h : b.Sent taken c outcome) :
    b.Flushed c outcome := by
  cases h with
  | dropped => exact .dropped _
  | refused | raised => exact .interrupted 0 nofun
  | @interrupted n => exact .interrupted n nofun
  | endless hnone => exact .endless hnone
  | finished hc => exact .finished hc

end Buffer

theorem Flush.Goes.flushed {f : Flush} {t : Step} (h : f.Goes t) :
    f.sender.buffer.Flushed t.sender.buffer t.outcome :=
  h.sent.flushed

/-! ## Sizes that are integers -/

namespace Buffer

/-- A buffer of the given first size, which is `n` bytes, whose capacity is `k` doublings of that
and not exceeded. -/
structure Reserves (size : Capacity) (n : Int) (k : Nat) (b : Buffer) : Prop where
  initialSize : b.initialSize = size
  capacity : b.capacity.integer? = some (2 ^ k * n)
  fits : (b.size : Int) ≤ 2 ^ k * n

variable {size : Capacity} {n : Int} {k : Nat} {b : Buffer}

theorem Doubled.reserves (h : b.Doubled size k) (hn : size.integer? = some n) :
    b.Reserves size n k := by
  have hcapacity : b.capacity.integer? = some (2 ^ k * n) := by
    rw [h.capacity]
    exact Capacity.integer?_iterate_double hn k
  exact ⟨h.initialSize, hcapacity, (Capacity.fits_iff_of_integer? hcapacity b.size).1 h.fits⟩

theorem Tight.lt (h : b.Tight size k) (hn : size.integer? = some n) {i : Nat} (hi : i < k) :
    2 ^ i * n < (b.size : Int) := by
  by_contra hle
  have hroom := (Capacity.fits_iff_of_integer? (Capacity.integer?_iterate_double hn i) b.size).2
    (by omega)
  rw [h i hi] at hroom
  contradiction

/-- If the first size is enough, it has not been doubled. -/
theorem Tight.eq_zero (h : b.Tight size k) (hfits : size.fits b.size = true) : k = 0 := by
  by_contra hk
  have hsmall := h 0 (by omega)
  rw [Function.iterate_zero_apply, hfits] at hsmall
  contradiction

end Buffer

/-! ## Operations -/

theorem Buffer.Doubled.mirror {size : Capacity} {k : Nat} {b : Buffer} (h : b.Doubled size k)
    (hsize : size.Boundless) (op : Operation) :
    ∃ l, (op.mirror b).Doubled size l ∧ (op = .clear → l = 0) ∧ (op ≠ .clear → k ≤ l) := by
  have hsettle : b.settle.Doubled size k := by
    unfold settle
    split
    · exact h.discard
    · exact h
  cases op with
  | build call =>
      obtain ⟨l, hl, hdoubled⟩ := h.apply hsize call
      exact ⟨l, hdoubled, nofun, fun _ => hl⟩
  | endRow timestamp =>
      obtain ⟨l, hl, hdoubled⟩ := h.endRow hsize timestamp
      exact ⟨l, hdoubled, nofun, fun _ => hl⟩
  | clear => exact ⟨0, h.clear hsize, fun _ => rfl, fun hne => absurd rfl hne⟩
  | flush => exact ⟨k, hsettle, nofun, fun _ => le_rfl⟩
  | leave failed =>
      cases failed with
      | false => exact ⟨k, hsettle, nofun, fun _ => le_rfl⟩
      | true => exact ⟨k, h, nofun, fun _ => le_rfl⟩
  | connect | close => exact ⟨k, h, nofun, fun _ => le_rfl⟩

/-- What an operation asks of the buffer before anything is sent. -/
def Operation.use? : Operation → Option Buffer.Use
  | .build call => some (.apply call)
  | .endRow timestamp _ _ => some (.endRow timestamp)
  | .clear => some .clear
  | .connect .. | .flush .. | .leave _ | .close => none

namespace Sender

variable {s : Sender} {op : Operation} {t : Step} {f : Flush}

theorem buffer_flush? (h : s.flush? op = some f) :
    f.sender.buffer = s.buffer ∨
      ∃ timestamp, f.sender.buffer = (s.buffer.endRow timestamp).1 := by
  cases op with
  | flush timeout cancel =>
      cases h
      exact Or.inl rfl
  | leave failed =>
      cases failed with
      | false =>
          cases h
          exact Or.inl rfl
      | true => contradiction
  | endRow timestamp timeout cancel =>
      simp only [flush?] at h
      split at h
      · next hended =>
        split at h
        · cases h
          exact Or.inr ⟨timestamp, by rw [hended]⟩
        · contradiction
      · contradiction
  | _ => contradiction

theorem reachable_flush? {size : Capacity} (h : Buffer.Reachable size s.buffer)
    (hf : s.flush? op = some f) : Buffer.Reachable size f.sender.buffer := by
  rcases buffer_flush? hf with hbuffer | ⟨timestamp, hbuffer⟩
  · rwa [hbuffer]
  · rw [hbuffer]
    exact h.endRow timestamp

/-- An operation that flushes leaves the buffer as the flush does, and ends like it. -/
theorem Performs.of_flush? (h : s.Performs op t) (hf : s.flush? op = some f) :
    t.sender.buffer = f.step.sender.buffer ∧ t.outcome = f.step.outcome := by
  cases h with
  | connect => contradiction
  | keeps _ h =>
      rw [h.eq_step hf]
      exact ⟨rfl, rfl⟩
  | closes _ h =>
      rw [← h.eq_step hf]
      exact ⟨rfl, rfl⟩

theorem Performs.taken_of_flush? (h : s.Performs op t) (hf : s.flush? op = some f) :
    t.taken = f.step.taken := by
  cases h with
  | connect => contradiction
  | keeps _ h => rw [h.eq_step hf]
  | closes _ h =>
      rw [← h.eq_step hf, Step.taken, Step.closing, List.flatMap_append]
      exact List.append_nil _

theorem outcome_close (s : Sender) : s.close.outcome = .ok () := by
  unfold close
  split <;> rfl

theorem endRow_of_flush?_eq_none {timestamp timeout : Value} {cancel : Cancellation}
    (h : s.flush? (.endRow timestamp timeout cancel) = none) :
    s.endRow timestamp timeout cancel =
      ⟨{ s with buffer := (s.buffer.endRow timestamp).1 }, [], (s.buffer.endRow timestamp).2⟩ := by
  rcases hended : s.buffer.endRow timestamp with ⟨b, e | ⟨⟩⟩
  · exact endRow_of_error hended timeout cancel
  · simp only [flush?, hended] at h
    rw [endRow_of_ok hended]
    split at h
    · contradiction
    · next hroom =>
      rw [if_neg hroom]
      rfl

/-- Without a flush, an operation ends as what it asks of the buffer. -/
theorem outcome_of_use? (h : s.flush? op = none) {use : Buffer.Use} (huse : op.use? = some use) :
    (s.perform op).outcome = (s.buffer.perform use).2 := by
  cases op with
  | build | clear =>
      cases huse
      rfl
  | endRow timestamp timeout cancel =>
      cases huse
      exact congrArg Step.outcome (endRow_of_flush?_eq_none h)
  | _ => contradiction

theorem outcome_of_use?_eq_none (h : s.flush? op = none) (huse : op.use? = none) :
    (s.perform op).outcome ≠ .error .endless := by
  cases op with
  | connect timeout reply =>
      have hconnects := s.connects timeout reply
      show (s.connect timeout reply).outcome ≠ .error .endless
      generalize s.connect timeout reply = t at hconnects ⊢
      cases hconnects <;> exact nofun
  | leave failed =>
      cases failed with
      | false => contradiction
      | true =>
          show s.close.outcome ≠ .error .endless
          rw [outcome_close]
          exact Outcome.ok_ne_endless
  | close =>
      show s.close.outcome ≠ .error .endless
      rw [outcome_close]
      exact Outcome.ok_ne_endless
  | _ => contradiction

/-- Without a flush, an operation does to the buffer what it does where nothing is ever sent. -/
theorem perform_of_flush?_eq_none (h : s.flush? op = none) :
    (s.perform op).sender.buffer = op.mirror s.buffer ∧
      (s.buffer.Boundless → (s.perform op).outcome ≠ .error .endless) := by
  refine ⟨?_, fun hb => ?_⟩
  · cases op with
    | connect timeout reply => exact s.buffer_connect timeout reply
    | build | clear => rfl
    | endRow =>
        exact congrArg (fun t : Step => t.sender.buffer) (endRow_of_flush?_eq_none h)
    | flush => contradiction
    | leave failed =>
        cases failed with
        | false => contradiction
        | true => exact s.buffer_close
    | close => exact s.buffer_close
  · cases huse : op.use? with
    | none => exact outcome_of_use?_eq_none h huse
    | some use =>
        rw [outcome_of_use? h huse]
        exact Buffer.perform_ends hb use

variable {size : Capacity} {k : Nat}

theorem perform_ends (h : s.buffer.Boundless) (op : Operation) :
    (s.perform op).outcome ≠ .error .endless := by
  cases hf : s.flush? op with
  | none => exact (perform_of_flush?_eq_none hf).2 h
  | some f =>
      rw [((s.performs op).of_flush? hf).2]
      apply f.goes.flushed.ends
      rcases buffer_flush? hf with hbuffer | ⟨timestamp, hbuffer⟩
      · rwa [hbuffer]
      · rw [hbuffer]
        exact (h.endRow timestamp).1

/-- A flush that returns brings the number of doublings down to what is left, and dropping all rows
brings it down to none.  Otherwise it does not fall. -/
theorem perform_doubled (h : s.buffer.Doubled size k) (hsize : size.Boundless) (op : Operation) :
    ∃ l, (s.perform op).sender.buffer.Doubled size l ∧ (op = .clear → l = 0) ∧
      (∀ f, s.flush? op = some f → (s.perform op).outcome = .ok () →
        (s.perform op).sender.buffer.bytes = f.sender.buffer.row ∧
          (s.perform op).sender.buffer.Tight size l) ∧
      (l < k → op = .clear ∨ s.flush? op ≠ none ∧ (s.perform op).outcome = .ok ()) := by
  cases hf : s.flush? op with
  | none =>
      obtain ⟨l, hdoubled, hclear, hgrows⟩ := h.mirror hsize op
      refine ⟨l, ?_, hclear, fun f => nofun, fun hlt => Or.inl ?_⟩
      · rwa [(perform_of_flush?_eq_none hf).1]
      · by_contra hne
        exact absurd (hgrows hne) (by omega)
  | some f =>
      obtain ⟨m, hm, hbefore⟩ : ∃ m ≥ k, f.sender.buffer.Doubled size m := by
        rcases buffer_flush? hf with hbuffer | ⟨timestamp, hbuffer⟩
        · exact ⟨k, le_rfl, hbuffer ▸ h⟩
        · rw [hbuffer]
          exact h.endRow hsize timestamp
      obtain ⟨hbuffer, houtcome⟩ := (s.performs op).of_flush? hf
      rw [hbuffer, houtcome]
      obtain ⟨l, hdoubled, hreturned, hfailed⟩ :=
        f.goes.flushed.exists_doubled hbefore
      refine ⟨l, hdoubled, ?_, ?_, fun hlt => Or.inr ⟨nofun, ?_⟩⟩
      · rintro rfl
        contradiction
      · rintro _ ⟨⟩ hok
        exact hreturned hok
      · by_contra hne
        have hsame := hfailed hne
        omega

theorem buffer_of_create {address size : Value} {clock : Binary64}
    (h : (create address size clock).1 = .ok s) {c : Capacity}
    (hc : Capacity.ofValue size = .ok c) (hpositive : c.isNonpositive = false) :
    s.buffer = .empty c := by
  obtain ⟨a, d, -, hd, rfl⟩ := eq_of_create h
  obtain rfl := Except.ok.inj (hd.symm.trans hc)
  exact congrArg Buffer.empty (if_neg (Bool.eq_false_iff.1 hpositive))

/-- A buffer that starts with a positive integer of bytes never changes that size, and its capacity
is always the size doubled some number of times, and never exceeded.  In the course of operations
the number of doublings falls only if all rows are dropped, which brings it to none, or in a flush
that returns: this leaves the row in progress and the fewest doublings that hold it, hence none if
there is no row in progress or the first size is enough for it.  Every operation comes to an end. -/
theorem capacity_afterAll {address size : Value} {clock : Binary64}
    (hs : (create address size clock).1 = .ok s) {c : Capacity}
    (hc : Capacity.ofValue size = .ok c) {n : Int} (hn : c.integer? = some n)
    (hpositive : 0 < n) :
    (Buffer.ofSize size = .ok (.empty c) ∧
      ∀ b, Buffer.Reachable c b → ∃ k, b.Reserves c n k ∧ ∀ use,
        (b.perform use).2 ≠ .error .endless ∧ ∃ l, (b.perform use).1.Reserves c n l ∧
          (use = .clear → l = 0) ∧ (use ≠ .clear → k ≤ l)) ∧
      ∀ ops op,
        let before := s.afterAll ops
        let t := before.perform op
        t.outcome ≠ .error .endless ∧
          ∃ k l, before.buffer.Reserves c n k ∧ t.sender.buffer.Reserves c n l ∧
            (op = .clear → l = 0) ∧
            (∀ f, before.flush? op = some f → t.outcome = .ok () →
              t.sender.buffer.bytes = f.sender.buffer.row ∧
                (∀ i < l, 2 ^ i * n < (t.sender.buffer.size : Int)) ∧
                (f.sender.buffer.stage = .start ∨ (f.sender.buffer.row.length : Int) ≤ n →
                  l = 0)) ∧
            (l < k → op = .clear ∨ before.flush? op ≠ none ∧ t.outcome = .ok ()) := by
  have hsize : c.Boundless := Capacity.boundless_of_integer? hn hpositive
  refine ⟨⟨?_, fun b hb => ?_⟩, fun ops op => ?_⟩
  · simp [Buffer.ofSize, hc, hsize.isNonpositive]
  · obtain ⟨k, hk⟩ := hb.exists_doubled hsize
    refine ⟨k, hk.reserves hn, fun use => ⟨Buffer.perform_ends (hb.boundless hsize) use, ?_⟩⟩
    obtain ⟨l, hl, hfalls⟩ := hk.perform hsize use
    exact ⟨l, hl.reserves hn, hfalls⟩
  · intro before t
    have hbefore : Buffer.Reachable c before.buffer := by
      apply reachable_afterAll
      rw [buffer_of_create hs hc hsize.isNonpositive]
      exact .empty
    obtain ⟨k, hk⟩ := hbefore.exists_doubled hsize
    obtain ⟨l, hl, hclear, hflush, hfalls⟩ := perform_doubled hk hsize op
    refine ⟨perform_ends (hbefore.boundless hsize) op, k, l, hk.reserves hn, hl.reserves hn, hclear,
      fun f hf hok => ?_, hfalls⟩
    obtain ⟨hbytes, htight⟩ := hflush f hf hok
    refine ⟨hbytes, fun i => htight.lt hn, fun hrow => htight.eq_zero ?_⟩
    rw [Capacity.fits_iff_of_integer? hn, ← Buffer.length_bytes, hbytes]
    rcases hrow with hstage | hroom
    · rw [(reachable_flush? hbefore hf).row_eq_nil hstage]
      exact hpositive.le
    · exact hroom

/-- A row needs two doublings, and is sent as soon as it ends. -/
theorem capacity_afterAll_eager :
    let before := eager.afterAll
      [.connect .null (.ok ⟨[], []⟩), .build (.table (.text "tt"))]
    let t := before.perform (.endRow Buffer.serverTime .null none)
    before.buffer.capacity = .exact 2 ∧ t.sender.buffer.Reserves (.exact 1) 1 0 := by
  intro before t
  obtain ⟨-, hruns⟩ := capacity_afterAll create_eager (c := .exact 1) rfl (n := 1) rfl (by decide)
  obtain ⟨-, k, l, -, hl, -, hflush, -⟩ := hruns
    [.connect .null (.ok ⟨[], []⟩), .build (.table (.text "tt"))]
    (.endRow Buffer.serverTime .null none)
  obtain ⟨-, -, hzero⟩ := hflush ⟨{ before with buffer := _ }, .null, none⟩ rfl (by rfl)
  obtain rfl : l = 0 := hzero (Or.inl (by decide +kernel))
  exact ⟨by rfl, hl⟩

end Sender

end LineProtocol
