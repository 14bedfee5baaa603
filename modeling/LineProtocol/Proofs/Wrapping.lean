import LineProtocol.Proofs.Room
/-!
# First sizes of fixed width

An exact size doubles past every other.  An integer of fixed width wraps around: the next
doubling may be negative, a later one greater than all before, and from some doubling on all
are zero.  So there may be none with room for a write, and that write goes on forever.
Nothing else does: a capacity holds what is buffered and is a doubling of the first size, so
that bringing it down ends there at the latest.
-/

namespace LineProtocol

/-! ## Integers of fixed width -/

namespace WordFormat

/-- The greatest power of two of a format. -/
def top (f : WordFormat) : Nat := if f.signed then 2 ^ (f.width - 2) else 2 ^ (f.width - 1)

variable {f : WordFormat} {n : Int}

/-- A format with a positive number has a bit for it, and one for the sign if there are signs. -/
theorem two_pow_width (hn : 0 < n) (h : f.wrap n = n) :
    Nat.pow 2 f.width = if f.signed then 4 * f.top else 2 * f.top := by
  obtain ⟨signed, width⟩ := f
  cases signed with
  | false =>
      cases width with
      | zero =>
          simp [wrap] at h
          omega
      | succ w => simp [top, Nat.pow_succ, Nat.mul_comm]
  | true =>
      match width with
      | 0 =>
          simp [wrap] at h
          omega
      | 1 =>
          have hlt := Int.bmod_lt (x := n) (m := 2) (by decide)
          simp [wrap] at h
          omega
      | w + 2 =>
          simp [top, Nat.pow_succ]
          omega

theorem width_pos (hn : 0 < n) (h : f.wrap n = n) : 0 < f.width := by
  by_contra hzero
  have hwidth := two_pow_width hn h
  rw [Nat.eq_zero_of_not_pos hzero, show Nat.pow 2 0 = 1 from rfl] at hwidth
  split at hwidth <;> omega

theorem wrap_lt (hn : 0 < n) (h : f.wrap n = n) (m : Int) : f.wrap m < 2 * f.top := by
  have hwidth := two_pow_width hn h
  have hpos : 0 < Nat.pow 2 f.width := Nat.two_pow_pos _
  unfold wrap
  split
  · next hsigned =>
    rw [if_pos hsigned] at hwidth
    have hlt := Int.bmod_lt (x := m) hpos
    omega
  · next hsigned =>
    rw [if_neg hsigned] at hwidth
    have hlt := Int.emod_lt_of_pos m (Int.natCast_pos.2 hpos)
    omega

theorem wrap_eq_self {m : Int} (hn : 0 < n) (h : f.wrap n = n) (hm : 0 ≤ m)
    (hlt : m < 2 * f.top) : f.wrap m = m := by
  have hwidth := two_pow_width hn h
  unfold wrap
  split
  · next hsigned =>
    rw [if_pos hsigned] at hwidth
    exact Int.bmod_eq_of_le_mul_two (by omega) (by omega)
  · next hsigned =>
    rw [if_neg hsigned] at hwidth
    exact Int.emod_eq_of_lt hm (by omega)

end WordFormat

/-- Doubling does not pass a number without coming between it and its double. -/
theorem exists_doubling {n m : Nat} (hn : 0 < n) (h : n < 2 * m) :
    ∃ k, m ≤ 2 ^ k * n ∧ 2 ^ k * n < 2 * m := by
  by_cases hm : m ≤ n
  · refine ⟨0, ?_⟩
    rw [pow_zero, one_mul]
    exact ⟨hm, h⟩
  · obtain ⟨k, hk⟩ := exists_doubling (n := 2 * n) (m := m) (by omega) (by omega)
    refine ⟨k + 1, ?_⟩
    rw [pow_succ, mul_assoc]
    exact hk
termination_by m - n

/-- Integers of every kind that doubles in its own arithmetic. -/
def Value.IsInteger : Value → Prop
  | .bool _ | .int _ => True
  | .word f n => f.wrap n = n
  | _ => False

namespace Capacity

/-! ## Growth that ends -/

/-- Whether some number of doublings makes room for `size` bytes. -/
def Reaches (c : Capacity) (size : Nat) : Prop :=
  ∃ k, (Capacity.double^[k] c).fits size = true

variable {c d : Capacity} {n : Int} {m : Nat}

theorem Discrete.grow_eq_none_iff (h : c.Discrete) : c.grow m = none ↔ ¬c.Reaches m := by
  constructor
  · rintro hnone ⟨k, hk⟩
    obtain ⟨d, hd⟩ := h.exists_grow hk
    rw [hnone] at hd
    contradiction
  · intro hnot
    cases hd : c.grow m with
    | none => rfl
    | some d =>
        obtain ⟨k, rfl, hfits, -⟩ := h.grow_eq_some_iff.1 hd
        exact absurd ⟨k, hfits⟩ hnot

/-- Growth that has come some way ends where it would have ended from the start. -/
theorem Ahead.grow_eq_none_iff (h : c.Ahead d) (hc : c.Discrete) :
    d.grow m = none ↔ ¬c.Reaches m := by
  rw [← hc.grow_eq_none_iff]
  rcases h.grow hc m with ⟨hnone, hnone'⟩ | ⟨e, e', hsome, hsome', -⟩
  · exact iff_of_true hnone' hnone
  · rw [hsome, hsome']
    simp

theorem Ahead.reaches (h : c.Ahead d) (hc : c.Discrete) (hfits : d.fits m = true) :
    c.Reaches m := by
  by_contra hnot
  have hnone := (h.grow_eq_none_iff hc).2 hnot
  rw [grow_of_fits hfits] at hnone
  contradiction

theorem Ahead.exists_iterate (h : c.Ahead d) (hc : c.Discrete) :
    ∃ k, d = Capacity.double^[k] c := by
  rcases h with rfl | ⟨size, hd⟩
  · exact ⟨0, rfl⟩
  · obtain ⟨k, hk, -⟩ := hc.grow_eq_some_iff.1 hd
    exact ⟨k, hk⟩

theorem Boundless.reaches (h : c.Boundless) (m : Nat) : c.Reaches m := by
  obtain ⟨k, -, hk⟩ := h.exists_fits m
  exact ⟨k, hk⟩

/-! ## Integers -/

/-- The number that an amount is, if that is an integer, exact or of fixed width. -/
def whole? : Capacity → Option Int
  | word _ n => some n
  | c => c.integer?

theorem exists_whole?_double (h : c.whole? = some n) : ∃ m, c.double.whole? = some m := by
  cases c with
  | truth | exact | word => exact ⟨_, rfl⟩
  | _ => contradiction

theorem exists_whole?_iterate_double (h : c.whole? = some n) (k : Nat) :
    ∃ m, (Capacity.double^[k] c).whole? = some m := by
  induction k with
  | zero => exact ⟨n, h⟩
  | succ k ih =>
      obtain ⟨m, hm⟩ := ih
      rw [Function.iterate_succ_apply']
      exact exists_whole?_double hm

theorem fits_iff_of_whole? (h : c.whole? = some n) (size : Nat) :
    c.fits size = true ↔ (size : Int) ≤ n := by
  cases c with
  | word f m =>
      cases h
      exact decide_eq_true_iff
  | _ =>
      refine fits_iff_of_integer? ?_ size
      exact h

/-- Positive integers, those of fixed width within their range. -/
structure Whole (c : Capacity) (n : Int) : Prop where
  whole? : c.whole? = some n
  pos : 0 < n
  wrap : ∀ f, c = word f n → f.wrap n = n

namespace Whole

theorem fits_zero (h : c.Whole n) : c.fits 0 = true :=
  (fits_iff_of_whole? h.whole? 0).2 h.pos.le

theorem boundless_or_word (h : c.Whole n) : c.Boundless ∨ ∃ f, c = word f n := by
  cases c with
  | word f m =>
      obtain rfl : m = n := Option.some.inj h.whole?
      exact Or.inr ⟨f, rfl⟩
  | _ => exact Or.inl (boundless_of_integer? h.whole? h.pos)

theorem discrete (h : c.Whole n) : c.Discrete := by
  cases c with
  | word f m =>
      obtain rfl : m = n := Option.some.inj h.whole?
      exact WordFormat.width_pos h.pos (h.wrap f rfl)
  | truth | exact => trivial
  | _ => exact absurd h.whole? nofun

/-- Whatever growth ends at is positive, although it may pass numbers that are not. -/
theorem exists_of_ahead (h : c.Whole n) (hd : c.Ahead d) : ∃ m, d.whole? = some m ∧ 0 < m := by
  rcases hd with rfl | ⟨size, hd⟩
  · exact ⟨n, h.whole?, h.pos⟩
  · by_cases hfits : c.fits size = true
    · rw [grow_of_fits hfits] at hd
      cases hd
      exact ⟨n, h.whole?, h.pos⟩
    · obtain ⟨k, rfl, hroom, -⟩ := h.discrete.grow_eq_some_iff.1 hd
      obtain ⟨m, hm⟩ := exists_whole?_iterate_double h.whole? k
      have hle := (fits_iff_of_whole? hm size).1 hroom
      have hsize : size ≠ 0 := by
        rintro rfl
        exact hfits h.fits_zero
      exact ⟨m, hm, by omega⟩

end Whole

theorem iterate_double_word_of_wrap {f : WordFormat} (h : f.wrap n = n) (k : Nat) :
    Capacity.double^[k] (word f n) = word f (f.wrap (2 ^ k * n)) := by
  cases k with
  | zero => rw [pow_zero, one_mul, h, Function.iterate_zero_apply]
  | succ k => exact iterate_double_word k f n

theorem reaches_word_iff {f : WordFormat} (h : f.wrap n = n) :
    (word f n).Reaches m ↔ ∃ k, (m : Int) ≤ f.wrap (2 ^ k * n) := by
  refine exists_congr fun k => ?_
  rw [iterate_double_word_of_wrap h]
  exact decide_eq_true_iff

theorem reaches_word_of_le {f : WordFormat} (hn : 0 < n) (h : f.wrap n = n) (hm : m ≤ f.top) :
    (word f n).Reaches m := by
  rw [reaches_word_iff h]
  have hlt := WordFormat.wrap_lt hn h n
  rw [h] at hlt
  lift n to Nat using hn.le
  -- one of the first doublings lies between that power and its double, where none has wrapped
  obtain ⟨k, hlow, hhigh⟩ := exists_doubling (n := n) (m := f.top) (by omega) (by omega)
  refine ⟨k, ?_⟩
  rw [WordFormat.wrap_eq_self hn h (by positivity) (by exact_mod_cast hhigh)]
  exact_mod_cast hm.trans hlow

/-- What an integer reaches for certain: everything, or the greatest power of two of its kind. -/
theorem Whole.reaches (h : c.Whole n) (hm : ∀ f, c = word f n → m ≤ f.top) : c.Reaches m := by
  rcases h.boundless_or_word with hboundless | ⟨f, rfl⟩
  · exact hboundless.reaches m
  · exact reaches_word_of_le h.pos (h.wrap f rfl) (hm f rfl)

theorem lt_of_reaches_word {f : WordFormat} (hn : 0 < n) (h : f.wrap n = n)
    (hm : (word f n).Reaches m) : m < 2 * f.top := by
  obtain ⟨k, hk⟩ := (reaches_word_iff h).1 hm
  have hlt := WordFormat.wrap_lt hn h (2 ^ k * n)
  omega

theorem eq_word_of_ofValue {v : Value} {f : WordFormat} (hv : v.IsInteger)
    (h : ofValue v = .ok (word f n)) : v = .word f n := by
  cases v with
  | word =>
      cases h
      rfl
  | bool | int => cases h
  | _ => exact hv.elim

end Capacity

namespace Buffer

variable {size : Capacity} {n : Int} {b c : Buffer}

/-! ## Room for what is buffered -/

/-- A buffer whose capacity is the first size, doubled some number of times, and a positive number
that is not exceeded. -/
structure Holds (size : Capacity) (b : Buffer) : Prop where
  doubled : ∃ k, b.Doubled size k
  whole : ∃ n, b.capacity.whole? = some n ∧ 0 < n ∧ (b.size : Int) ≤ n

namespace Reachable

theorem fits (h : Reachable size b) (hsize : size.fits 0 = true) :
    b.capacity.fits b.size = true := by
  induction h with
  | empty => exact hsize
  | @apply b _ call ih =>
      have happlied := b.applied call
      generalize b.apply call = t at happlied ⊢
      cases happlied with
      | ignored | refused | raised | endless => exact ih
      | added data c _ _ hc =>
          show c.capacity.fits c.size = true
          exact fits_of_write? hc
  | @endRow b _ timestamp ih =>
      have hdiscard := Capacity.fits_of_le (c := b.capacity) (Nat.le_add_right _ _) ih
      have hended := b.ended timestamp
      generalize b.endRow timestamp = t at hended ⊢
      cases hended with
      | reported | missing | refused => exact hdiscard
      | raised | endless => exact ih
      | finished data c _ _ _ hc =>
          show c.capacity.fits c.commit.size = true
          rw [size_commit]
          exact fits_of_write? hc
  | discard _ ih => exact Capacity.fits_of_le (Nat.le_add_right _ _) ih
  | clear h _ => exact h.fits_zero hsize
  | @consume b _ n ih => exact Capacity.fits_of_le (size_consume_le n b) ih
  | shrink _ hc _ =>
      obtain ⟨d, hd, rfl⟩ := Option.map_eq_some_iff.1 hc
      exact Capacity.fits_of_grow hd

theorem ahead (h : Reachable size b) (hsize : size.Discrete) : size.Ahead b.capacity := by
  have hrooms := h.rooms (P := fun first c => first = size ∧ size.Ahead c) ⟨rfl, Or.inl rfl⟩
    ?_ ?_ ?_
  · exact hrooms.2
  · rintro first c n d ⟨rfl, hc⟩ hd
    exact ⟨hsize.afterGrowth d, hc.grow_right hsize hd⟩
  · rintro first c n d ⟨rfl, -⟩ hd
    exact ⟨rfl, Or.inr ⟨n, hd⟩⟩
  · rintro first c ⟨rfl, -⟩
    exact ⟨rfl, Or.inl rfl⟩

theorem holds (h : Reachable size b) (hsize : size.Whole n) : b.Holds size := by
  have hdiscrete := hsize.discrete
  have hfits := h.fits hsize.fits_zero
  have hahead := h.ahead hdiscrete
  obtain ⟨k, hk⟩ := hahead.exists_iterate hdiscrete
  obtain ⟨m, hm, hpos⟩ := hsize.exists_of_ahead hahead
  exact ⟨⟨k, h.initialSize_eq hdiscrete.ne_cell, hk, hfits⟩,
    m, hm, hpos, (Capacity.fits_iff_of_whole? hm b.size).1 hfits⟩

theorem write?_eq_none_iff (h : Reachable size b) (hsize : size.Discrete) {data : Bytes} :
    b.write? data = none ↔ ¬size.Reaches (b.size + data.length) := by
  rw [← (h.ahead hsize).grow_eq_none_iff hsize]
  exact Option.map_eq_none_iff

/-- The capacity that the buffer has is one at which bringing it down may end. -/
theorem shrink?_ne_none (h : Reachable size b) (hsize : size.Whole n) : b.shrink? ≠ none := by
  have hdiscrete := hsize.discrete
  have hreaches := (h.ahead hdiscrete).reaches hdiscrete (h.fits hsize.fits_zero)
  intro hnone
  have hgrow := Option.map_eq_none_iff.1 hnone
  rw [h.initialSize_eq hdiscrete.ne_cell] at hgrow
  exact hdiscrete.grow_eq_none_iff.1 hgrow hreaches

end Reachable

/-! ## Uses that write -/

/-- What a use adds to the row in progress, if it comes to that. -/
def addition? (b : Buffer) : Use → Option Bytes
  | .apply call => if b.pending = none then (call.encode b.stage).toOption else none
  | .endRow timestamp =>
    if b.pending = none ∧ b.stage ≠ .start then timestamp.encodeTimestamp.toOption else none
  | .clear => none

theorem apply_endless_iff {call : Call} :
    (b.apply call).2 = .error .endless ↔
      ∃ data, b.addition? (.apply call) = some data ∧ b.write? data = none := by
  have happlied := b.applied call
  generalize b.apply call = t at happlied ⊢
  cases happlied with
  | ignored e h => simp [addition?, h]
  | refused e h he => simp [addition?, h, he, Except.toOption]
  | raised fault h hfault => simp [addition?, h, hfault, Except.toOption]
  | endless data h hdata hnone => simp [addition?, h, hdata, hnone, Except.toOption]
  | added data c h hdata hc => simp [addition?, h, hdata, hc, Except.toOption]

theorem endRow_endless_iff {timestamp : Value} :
    (b.endRow timestamp).2 = .error .endless ↔
      ∃ data, b.addition? (.endRow timestamp) = some data ∧ b.write? data = none := by
  by_cases hstage : b.stage = .start
  · have hmissing : (b.endRow timestamp).2 ≠ .error .endless := by
      unfold endRow
      cases b.pending with
      | some e => exact nofun
      | none =>
          rw [if_pos hstage]
          exact nofun
    simp [addition?, hstage, hmissing]
  · have hended := b.ended timestamp
    generalize b.endRow timestamp = t at hended ⊢
    cases hended with
    | reported e h => simp [addition?, h]
    | missing h hstart => exact absurd hstart hstage
    | refused e h he => simp [addition?, he, Except.toOption]
    | raised fault h hfault => simp [addition?, hfault, Except.toOption]
    | endless data h hdata hnone => simp [addition?, h, hstage, hdata, hnone, Except.toOption]
    | finished data c h _ hdata hc => simp [addition?, h, hstage, hdata, hc, Except.toOption]

theorem perform_endless_iff (b : Buffer) (use : Use) :
    (b.perform use).2 = .error .endless ↔
      ∃ data, b.addition? use = some data ∧ b.write? data = none := by
  cases use with
  | apply call => exact apply_endless_iff
  | endRow timestamp => exact endRow_endless_iff
  | clear => simp [perform, addition?]

theorem Reachable.perform_endless_iff (h : Reachable size b) (hsize : size.Discrete) (use : Use) :
    (b.perform use).2 = .error .endless ↔
      ∃ data, b.addition? use = some data ∧ ¬size.Reaches (b.size + data.length) := by
  rw [Buffer.perform_endless_iff]
  simp only [h.write?_eq_none_iff hsize]

/-- A buffer of a size that is an integer starts with that number, which is positive. -/
theorem whole_of_ofSize {value : Value} (h : ofSize value = .ok b) (hvalue : value.IsInteger) :
    ∃ c n, Capacity.ofValue value = .ok c ∧ b = .empty c ∧ c.isNonpositive = false ∧
      c.Whole n := by
  unfold ofSize at h
  split at h
  · contradiction
  · next c hc =>
    split at h
    · split at h <;> contradiction
    · next hpositive =>
      have hpos := Bool.eq_false_iff.2 hpositive
      cases h
      refine ⟨c, ?_⟩
      cases value with
      | bool b =>
          cases hc
          cases b with
          | false => contradiction
          | true => exact ⟨1, rfl, rfl, rfl, rfl, by decide, nofun⟩
      | int n =>
          cases hc
          exact ⟨n, rfl, rfl, hpos, rfl, not_le.1 (of_decide_eq_false hpos), nofun⟩
      | word f n =>
          cases hc
          refine ⟨n, rfl, rfl, hpos, rfl, not_le.1 (of_decide_eq_false hpos), ?_⟩
          rintro f' ⟨⟩
          exact hvalue
      | _ => exact hvalue.elim

end Buffer

/-! ## Operations -/

namespace Sender

variable {s : Sender} {op : Operation} {f : Flush}

/-- An operation that comes to a flush has come to the end of what it asks of the buffer. -/
theorem perform_use?_of_flush? (hf : s.flush? op = some f) {use : Buffer.Use}
    (huse : op.use? = some use) : (s.buffer.perform use).2 = .ok () := by
  cases op with
  | endRow timestamp =>
      cases huse
      show (s.buffer.endRow timestamp).2 = .ok ()
      simp only [flush?] at hf
      split at hf
      · next hended => rw [hended]
      · contradiction
  | build | clear => contradiction
  | _ => contradiction

variable {size : Capacity} {n : Int}

theorem perform_endless_iff (hs : Buffer.Reachable size s.buffer) (hsize : size.Whole n)
    (op : Operation) :
    (s.perform op).outcome = .error .endless ↔
      ∃ use data, op.use? = some use ∧ s.buffer.addition? use = some data ∧
        ¬size.Reaches (s.buffer.size + data.length) := by
  have hbuffer := hs.perform_endless_iff hsize.discrete
  cases hf : s.flush? op with
  | none =>
      cases huse : op.use? with
      | none =>
          refine iff_of_false (outcome_of_use?_eq_none hf huse) ?_
          rintro ⟨use, data, ⟨⟩, -⟩
      | some use =>
          rw [outcome_of_use? hf huse, hbuffer]
          simp
  | some f =>
      have hreachable := reachable_flush? hs hf
      rw [((s.performs op).of_flush? hf).2]
      refine iff_of_false
        (f.goes.flushed.ne_endless ((hreachable.consume _).shrink?_ne_none hsize)) ?_
      rintro ⟨use, data, huse, hdata, hnot⟩
      have hendless := (hbuffer use).2 ⟨data, hdata, hnot⟩
      rw [perform_use?_of_flush? hf huse] at hendless
      contradiction

/-- For every first size that is a positive integer, of whatever kind, the capacity is that size
doubled some number of times, a positive number that is not exceeded, and it can always be brought
down for what is left.  An operation goes on forever if it has to add to the row in progress and no
number of doublings makes room for that, and in no other case.  An exact integer reaches every size.
An integer of fixed width reaches every size up to the greatest power of two of its kind, and none
from twice that power on. -/
theorem ends_iff_reaches {size : Value} {b₀ : Buffer} (hb₀ : Buffer.ofSize size = .ok b₀)
    (hsize : size.IsInteger) :
    (∀ b, Buffer.Reachable b₀.capacity b →
      b.Holds b₀.capacity ∧ (∀ k, (b.consume k).shrink? ≠ none) ∧
        ∀ use, (b.perform use).2 = .error .endless ↔
          ∃ data, b.addition? use = some data ∧
            ¬b₀.capacity.Reaches (b.size + data.length)) ∧
      (∀ address clock s, (create address size clock).1 = .ok s → ∀ ops op,
        let before := s.afterAll ops
        let t := before.perform op
        t.sender.buffer.Holds b₀.capacity ∧
          (t.outcome = .error .endless ↔
            ∃ use data, op.use? = some use ∧ before.buffer.addition? use = some data ∧
              ¬b₀.capacity.Reaches (before.buffer.size + data.length))) ∧
      (∀ m, (∀ f n, size = .word f n → m ≤ f.top) → b₀.capacity.Reaches m) ∧
      ∀ f n, size = .word f n → ∀ m,
        (b₀.capacity.Reaches m ↔ ∃ k, (m : Int) ≤ f.wrap (2 ^ k * n)) ∧
          (b₀.capacity.Reaches m → m < 2 * f.top) := by
  obtain ⟨c, n, hc, rfl, hpositive, hwhole⟩ := Buffer.whole_of_ofSize hb₀ hsize
  refine ⟨fun b hb => ⟨hb.holds hwhole, fun k => (hb.consume k).shrink?_ne_none hwhole,
    hb.perform_endless_iff hwhole.discrete⟩, ?_, fun m hm => ?_, ?_⟩
  · intro address clock s hs ops op before t
    have hbefore : Buffer.Reachable c before.buffer := by
      apply reachable_afterAll
      rw [buffer_of_create hs hc hpositive]
      exact .empty
    exact ⟨(reachable_perform hbefore op).holds hwhole, perform_endless_iff hbefore hwhole op⟩
  · exact hwhole.reaches fun f hf => hm f n (Capacity.eq_word_of_ofValue hsize (hf ▸ hc))
  · rintro f n rfl m
    cases hc
    obtain rfl := Option.some.inj hwhole.whole?
    have hwrap := hwhole.wrap f rfl
    exact ⟨Capacity.reaches_word_iff hwrap, Capacity.lt_of_reaches_word hwhole.pos hwrap⟩

/-- In eight bits with a sign, doubling 43 gives 86, -84 and 88.  There is room for 88 bytes, and
none for 128. -/
theorem ends_iff_reaches_wrapped :
    let size := Value.word ⟨true, 8⟩ 43
    let b := Buffer.empty (.word ⟨true, 8⟩ 43)
    let table := fun length => Buffer.Use.apply <|
      .table (.text (List.replicate length (CodePoint.ofChar 'a')))
    Buffer.ofSize size = .ok b ∧ size.IsInteger ∧
      (b.perform (table 88)).2 ≠ .error .endless ∧
      (b.perform (table 128)).2 = .error .endless := by
  intro size b table
  have hb : Buffer.ofSize size = .ok b := rfl
  have hsize : size.IsInteger := rfl
  obtain ⟨hbuffers, -, -, hword⟩ := ends_iff_reaches hb hsize
  obtain ⟨-, -, hendless⟩ := hbuffers b .empty
  have hadds : ∀ length ∈ [88, 128], b.addition? (table length) =
      some (List.replicate length 0x61) := by decide +kernel
  refine ⟨hb, hsize, fun h => ?_, ?_⟩
  · obtain ⟨data, hdata, hnot⟩ := (hendless (table 88)).1 h
    rw [hadds 88 (by decide)] at hdata
    cases hdata
    exact hnot (((hword _ 43 rfl 88).1).2 ⟨3, by decide⟩)
  · refine (hendless (table 128)).2 ⟨_, hadds 128 (by decide), fun hreaches => ?_⟩
    exact absurd ((hword _ 43 rfl 128).2 hreaches) (by decide)

/-- In eight bits with a sign, doubling 64 gives -128, and zero from then on: a table whose name has
65 bytes is waited for forever. -/
theorem not_ends_wrapped :
    let size := Value.word ⟨true, 8⟩ 64
    let b := Buffer.empty (.word ⟨true, 8⟩ 64)
    let name := Value.text (List.replicate 65 (CodePoint.ofChar 'a'))
    Buffer.ofSize size = .ok b ∧ size.IsInteger ∧ (b.table name).2 = .error .endless ∧
      ∃ data, (Call.table name).encode b.stage = .ok data ∧
        ∀ k, (Capacity.double^[k] b.capacity).fits (b.size + data.length) = false := by
  intro size b name
  have hdiscrete : b.capacity.Discrete := show 0 < 8 by decide
  have hnone : b.capacity.grow 65 = none := by decide +kernel
  refine ⟨rfl, rfl, by decide +kernel, List.replicate 65 0x61, by decide +kernel, fun k => ?_⟩
  by_contra hfits
  exact hdiscrete.grow_eq_none_iff.1 hnone ⟨k, Bool.not_eq_false _ ▸ hfits⟩

end Sender

end LineProtocol
