import LineProtocol.Decimal.Literal
import LineProtocol.Proofs.Draft
/-!
# The grammar of integer literals

An integer literal consists of digits with single underscores between them, a sign that
may be missing, and blanks around both.  Reading a text gives a number if and only if the
text is a literal of that number (`ofText?_eq_some_iff`).  The decimal numeral of a number
is one of its literals (`isLiteral_text`), and a number with a literal has a numeral
(`IsLiteral.printable`).
-/

namespace LineProtocol

/-- No digit of any script is blank. -/
theorem CodePoint.isBlank_of_digit? {c : CodePoint} (h : c.digit?.isSome = true) :
    c.isBlank = false := by
  have hall : ∀ z ∈ digitZeros, ∀ i < 10, (CodePoint.ofNat (z + i)).isBlank = false := by
    decide +kernel
  rw [digit?, Option.isSome_map] at h
  obtain ⟨z, hz⟩ := Option.isSome_iff_exists.1 h
  have hrange := List.find?_some hz
  simp only [Bool.and_eq_true, decide_eq_true_eq] at hrange
  have hval : c = CodePoint.ofNat (z + (c.val - z)) := by
    rw [show z + (c.val - z) = c.val by omega, CodePoint.ofNat, dif_pos c.val_lt]
  rw [hval]
  exact hall z (List.mem_of_find?_eq_some hz) _ (by omega)

namespace Text

variable {before middle after t : Text}

theorem dropWhile_isBlank_append (hbefore : ∀ c ∈ before, c.isBlank = true)
    (ht : ∀ c ∈ t.head?, c.isBlank = false) : (before ++ t).dropWhile CodePoint.isBlank = t := by
  rw [List.dropWhile_append_of_pos hbefore]
  cases t with
  | nil => rfl
  | cons c t => exact List.dropWhile_cons_of_neg (by rw [ht c rfl]; decide)

/-- Trimming takes off all blanks around a text that holds none. -/
theorem trimBlank_append (hbefore : ∀ c ∈ before, c.isBlank = true)
    (hmiddle : ∀ c ∈ middle, c.isBlank = false) (hne : middle ≠ [])
    (hafter : ∀ c ∈ after, c.isBlank = true) :
    trimBlank (before ++ middle ++ after) = middle := by
  have hfirst : ∀ c ∈ (middle ++ after).head?, c.isBlank = false := by
    intro c hc
    rw [List.head?_append_of_ne_nil _ hne] at hc
    exact hmiddle c (List.mem_of_mem_head? hc)
  have hlast : ∀ c ∈ middle.reverse.head?, c.isBlank = false := fun c hc =>
    hmiddle c (List.mem_reverse.1 (List.mem_of_mem_head? hc))
  have hreverse : ∀ c ∈ after.reverse, c.isBlank = true := fun c hc =>
    hafter c (List.mem_reverse.1 hc)
  rw [trimBlank, List.append_assoc, dropWhile_isBlank_append hbefore hfirst,
    List.reverse_append, dropWhile_isBlank_append hreverse hlast, List.reverse_reverse]

theorem exists_eq_append_trimBlank (t : Text) : ∃ before after,
    t = before ++ t.trimBlank ++ after ∧ (∀ c ∈ before, c.isBlank = true) ∧
      ∀ c ∈ after, c.isBlank = true := by
  let rest := t.dropWhile CodePoint.isBlank
  refine ⟨t.takeWhile CodePoint.isBlank, (rest.reverse.takeWhile CodePoint.isBlank).reverse, ?_,
    fun c hc => List.mem_takeWhile_imp hc,
    fun c hc => List.mem_takeWhile_imp (List.mem_reverse.1 hc)⟩
  have hrest : t.trimBlank ++ (rest.reverse.takeWhile CodePoint.isBlank).reverse = rest := by
    rw [trimBlank, ← List.reverse_append, List.takeWhile_append_dropWhile, List.reverse_reverse]
  rw [List.append_assoc, hrest, List.takeWhile_append_dropWhile]

end Text

namespace Decimal

/-- The text writes the digits `l`, with at most one underscore between neighbours. -/
inductive Grouped : Text → List Nat → Prop
  | last {c : CodePoint} {d : Nat} (hd : c.digit? = some d) : Grouped [c] [d]
  | cons {c : CodePoint} {d : Nat} {t : Text} {l : List Nat} (hd : c.digit? = some d)
      (ht : Grouped t l) : Grouped (c :: t) (d :: l)
  | underscore {c : CodePoint} {d : Nat} {t : Text} {l : List Nat} (hd : c.digit? = some d)
      (ht : Grouped t l) : Grouped (c :: CodePoint.ofChar '_' :: t) (d :: l)

/-- The text writes an integer with an optional sign, and with few enough digits. -/
inductive Signed : Text → Int → Prop
  | unsigned {t : Text} {l : List Nat} (ht : Grouped t l) (hl : l.length ≤ maxDigits) :
      Signed t (ofDigits l)
  | plus {t : Text} {l : List Nat} (ht : Grouped t l) (hl : l.length ≤ maxDigits) :
      Signed (CodePoint.ofChar '+' :: t) (ofDigits l)
  | minus {t : Text} {l : List Nat} (ht : Grouped t l) (hl : l.length ≤ maxDigits) :
      Signed (CodePoint.ofChar '-' :: t) (-(ofDigits l : Int))

/-- The text is a literal of `n`: an integer that is written between blanks. -/
def IsLiteral (t : Text) (n : Int) : Prop :=
  ∃ before middle after : Text, t = before ++ middle ++ after ∧ Signed middle n ∧
    (∀ c ∈ before, c.isBlank = true) ∧ ∀ c ∈ after, c.isBlank = true

variable {t : Text} {l : List Nat} {n : Int}

theorem Grouped.exists_cons (h : Grouped t l) :
    ∃ c rest, t = c :: rest ∧ c.digit?.isSome = true := by
  cases h with
  | last hd | cons hd | underscore hd => exact ⟨_, _, rfl, Option.isSome_of_eq_some hd⟩

theorem groupedDigits?_of_grouped (h : Grouped t l) : groupedDigits? t = some l := by
  induction h with
  | last hd =>
      rw [groupedDigits?, hd]
      rfl
  | cons hd ht ih =>
      -- the next code point is a digit, so it is no underscore
      obtain ⟨u, rest, rfl, hu⟩ := ht.exists_cons
      have hne : u ≠ CodePoint.ofChar '_' := by
        rintro rfl
        exact absurd hu (by decide)
      simp only [groupedDigits?, hd, if_neg hne, ih, Option.bind_eq_bind, Option.bind_some]
      rfl
  | underscore hd ht ih =>
      simp only [groupedDigits?, hd, if_true, ih, Option.bind_eq_bind, Option.bind_some]
      rfl

theorem grouped_of_groupedDigits? (h : groupedDigits? t = some l) : Grouped t l := by
  induction t using groupedDigits?.induct generalizing l with
  | case1 => contradiction
  | case2 c =>
      obtain ⟨d, hd, rfl⟩ := Option.map_eq_some_iff.1 h
      exact .last hd
  | case3 c u rest ihrest ihnext =>
      rw [groupedDigits?] at h
      obtain ⟨d, hd, h⟩ := Option.bind_eq_some_iff.1 h
      dsimp only at h
      split at h
      · next hu =>
        obtain ⟨tail, htail, h⟩ := Option.bind_eq_some_iff.1 h
        cases h
        rw [hu]
        exact .underscore hd (ihrest htail)
      · obtain ⟨tail, htail, h⟩ := Option.bind_eq_some_iff.1 h
        cases h
        exact .cons hd (ihnext htail)

theorem unsigned?_bind_eq_some_iff : (unsigned? t >>= fun m => some (m : Int)) = some n ↔
    ∃ l, Grouped t l ∧ l.length ≤ maxDigits ∧ n = ofDigits l := by
  constructor
  · intro h
    obtain ⟨m, hm, h⟩ := Option.bind_eq_some_iff.1 h
    obtain ⟨l, hl, hm⟩ := Option.bind_eq_some_iff.1 hm
    split at hm
    · next hlength =>
      cases hm
      exact ⟨l, grouped_of_groupedDigits? hl, hlength, (Option.some.inj h).symm⟩
    · contradiction
  · rintro ⟨l, hl, hlength, rfl⟩
    unfold unsigned?
    rw [groupedDigits?_of_grouped hl]
    simp only [Option.bind_eq_bind, Option.bind_some, if_pos hlength]

theorem signed?_of_signed (h : Signed t n) : signed? t = some n := by
  cases h with
  | unsigned ht hl =>
      have hread := unsigned?_bind_eq_some_iff.2 ⟨_, ht, hl, rfl⟩
      obtain ⟨c, rest, rfl, hc⟩ := ht.exists_cons
      have hminus : c ≠ CodePoint.ofChar '-' := by
        rintro rfl
        exact absurd hc (by decide)
      have hplus : c ≠ CodePoint.ofChar '+' := by
        rintro rfl
        exact absurd hc (by decide)
      rw [signed?, if_neg hminus, if_neg hplus]
      exact congrArg (Option.map id) hread
  | plus ht hl =>
      rw [signed?, if_neg (by decide), if_pos rfl]
      exact congrArg (Option.map id) (unsigned?_bind_eq_some_iff.2 ⟨_, ht, hl, rfl⟩)
  | minus ht hl =>
      rw [signed?, if_pos rfl]
      exact congrArg (Option.map Neg.neg) (unsigned?_bind_eq_some_iff.2 ⟨_, ht, hl, rfl⟩)

theorem signed_of_signed? (h : signed? t = some n) : Signed t n := by
  unfold signed? at h
  split at h
  · contradiction
  · split at h
    · next hc =>
      obtain ⟨m, hm, rfl⟩ := Option.map_eq_some_iff.1 h
      obtain ⟨l, hl, hlength, rfl⟩ := unsigned?_bind_eq_some_iff.1 hm
      rw [hc]
      exact .minus hl hlength
    · split at h
      · next hc =>
        obtain ⟨m, hm, rfl⟩ := Option.map_eq_some_iff.1 h
        obtain ⟨l, hl, hlength, rfl⟩ := unsigned?_bind_eq_some_iff.1 hm
        rw [hc]
        exact .plus hl hlength
      · obtain ⟨m, hm, rfl⟩ := Option.map_eq_some_iff.1 h
        obtain ⟨l, hl, hlength, rfl⟩ := unsigned?_bind_eq_some_iff.1 hm
        exact .unsigned hl hlength

theorem Grouped.isBlank (h : Grouped t l) : ∀ c ∈ t, c.isBlank = false := by
  induction h with
  | last hd =>
      exact List.forall_mem_singleton.2 (CodePoint.isBlank_of_digit? (Option.isSome_of_eq_some hd))
  | cons hd ht ih =>
      exact List.forall_mem_cons.2
        ⟨CodePoint.isBlank_of_digit? (Option.isSome_of_eq_some hd), ih⟩
  | underscore hd ht ih =>
      exact List.forall_mem_cons.2
        ⟨CodePoint.isBlank_of_digit? (Option.isSome_of_eq_some hd),
          List.forall_mem_cons.2 ⟨by decide, ih⟩⟩

theorem Signed.isBlank (h : Signed t n) : ∀ c ∈ t, c.isBlank = false := by
  cases h with
  | unsigned ht => exact ht.isBlank
  | plus ht | minus ht => exact List.forall_mem_cons.2 ⟨by decide, ht.isBlank⟩

theorem Signed.ne_nil (h : Signed t n) : t ≠ [] := by
  rintro rfl
  exact nomatch signed?_of_signed h

/-- The literals of integers are the texts that are read as integers. -/
theorem ofText?_eq_some_iff : ofText? t = some n ↔ IsLiteral t n := by
  constructor
  · intro h
    obtain ⟨before, after, ht, hbefore, hafter⟩ := t.exists_eq_append_trimBlank
    exact ⟨before, t.trimBlank, after, ht, signed_of_signed? h, hbefore, hafter⟩
  · rintro ⟨before, middle, after, rfl, hmiddle, hbefore, hafter⟩
    rw [ofText?, Text.trimBlank_append hbefore hmiddle.isBlank hmiddle.ne_nil hafter]
    exact signed?_of_signed hmiddle

theorem IsLiteral.ne_nil (h : IsLiteral t n) : t ≠ [] := by
  rintro rfl
  exact nomatch ofText?_eq_some_iff.2 h

theorem Grouped.lt_ten (h : Grouped t l) : ∀ d ∈ l, d < 10 := by
  induction h with
  | last hd => exact List.forall_mem_singleton.2 (CodePoint.digit?_lt hd)
  | cons hd ht ih | underscore hd ht ih =>
      exact List.forall_mem_cons.2 ⟨CodePoint.digit?_lt hd, ih⟩

theorem foldl_lt (h : ∀ d ∈ l, d < 10) (n : Nat) :
    l.foldl (fun n d => 10 * n + d) n < (n + 1) * 10 ^ l.length := by
  induction l generalizing n with
  | nil => simp
  | cons d l ih =>
      obtain ⟨hd, hl⟩ := List.forall_mem_cons.1 h
      calc l.foldl (fun n d => 10 * n + d) (10 * n + d)
          < (10 * n + d + 1) * 10 ^ l.length := ih hl _
        _ ≤ (n + 1) * 10 * 10 ^ l.length := Nat.mul_le_mul_right _ (by omega)
        _ = (n + 1) * 10 ^ (l.length + 1) := by rw [Nat.mul_assoc, ← Nat.pow_succ']

theorem Grouped.ofDigits_lt (h : Grouped t l) (hl : l.length ≤ maxDigits) :
    ofDigits l < 10 ^ maxDigits := by
  calc ofDigits l < (0 + 1) * 10 ^ l.length := foldl_lt h.lt_ten 0
    _ = 10 ^ l.length := by rw [Nat.zero_add, Nat.one_mul]
    _ ≤ 10 ^ maxDigits := Nat.pow_le_pow_right (by decide) hl

/-- A number with a literal has few enough digits to be written out. -/
theorem IsLiteral.printable (h : IsLiteral t n) : Printable n := by
  obtain ⟨_, _, _, -, hsigned, -⟩ := h
  cases hsigned with
  | unsigned ht hl | plus ht hl => exact ht.ofDigits_lt hl
  | minus ht hl => exact lt_of_eq_of_lt (Int.natAbs_neg _) (ht.ofDigits_lt hl)

theorem printable_of_lt (h : n.natAbs < 10 ^ 5) : Printable n :=
  h.trans_le (Nat.pow_le_pow_right (by decide) (by decide))

theorem digit?_digitByte {d : Nat} (hd : d < 10) :
    (CodePoint.ofByte (digitByte d)).digit? = some d := by
  have hall : ∀ d : Fin 10, (CodePoint.ofByte (digitByte d)).digit? = some d.val := by decide
  exact hall ⟨d, hd⟩

theorem grouped_map_digitByte (hne : l ≠ []) (hl : ∀ d ∈ l, d < 10) :
    Grouped ((l.map digitByte).map CodePoint.ofByte) l := by
  induction l with
  | nil => exact absurd rfl hne
  | cons d l ih =>
      obtain ⟨hd, hl⟩ := List.forall_mem_cons.1 hl
      cases l with
      | nil => exact .last (digit?_digitByte hd)
      | cons e l => exact .cons (digit?_digitByte hd) (ih (List.cons_ne_nil e l) hl)

/-- The decimal numeral of a number is a literal of it. -/
theorem isLiteral_text (hn : Printable n) : IsLiteral (text n) n := by
  have hdigits : Grouped (((digits n.natAbs).map digitByte).map CodePoint.ofByte)
      (digits n.natAbs) :=
    grouped_map_digitByte (digits_ne_nil _) fun _ => lt_ten_of_mem_digits
  have hlength : (digits n.natAbs).length ≤ maxDigits := (length_digits_le_iff (by decide)).2 hn
  have hsigned : Signed (text n) n := by
    unfold text bytes sign
    by_cases h : n < 0
    · have hminus := Signed.minus hdigits hlength
      rw [ofDigits_digits, show -(n.natAbs : Int) = n by omega] at hminus
      rw [decide_eq_true h]
      exact hminus
    · have hunsigned := Signed.unsigned hdigits hlength
      rw [ofDigits_digits, show (n.natAbs : Int) = n by omega] at hunsigned
      rw [decide_eq_false h]
      exact hunsigned
  exact ⟨[], text n, [], by simp, hsigned, nofun, nofun⟩

end Decimal

end LineProtocol
