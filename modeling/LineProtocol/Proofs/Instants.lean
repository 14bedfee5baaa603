import LineProtocol.Calendar
import Mathlib.Data.List.Lex
/-!
# Instants and their nanoseconds

A clock shows a date and a time of day, and every microsecond it goes on to the next
reading by the rules of the calendar.  The nanoseconds of a moment are a thousand times
the microseconds that such a clock takes from the epoch to the moment, less the offset of
the clock.  Hence they tell the order of instants, and of a moment in universal time they
tell what the clock shows.
-/

namespace LineProtocol

/-! ## Clocks -/

/-- The date after a date. -/
inductive Date.Next : Date → Date → Prop
  | day {d e : Date} (hyear : e.year = d.year) (hmonth : e.month = d.month)
      (hday : e.day = d.day + 1) : Next d e
  | month {d e : Date} (hlast : d.day = Calendar.daysInMonth d.year d.month)
      (hyear : e.year = d.year) (hmonth : e.month = d.month + 1) (hday : e.day = 1) : Next d e
  | year {d e : Date} (hlast : d.month = 12 ∧ d.day = 31) (hyear : e.year = d.year + 1)
      (hmonth : e.month = 1) (hday : e.day = 1) : Next d e

/-- The time of day one microsecond after another on the same day. -/
inductive TimeOfDay.Next : TimeOfDay → TimeOfDay → Prop
  | microsecond {t u : TimeOfDay} (hhour : u.hour = t.hour) (hminute : u.minute = t.minute)
      (hsecond : u.second = t.second) (hmicrosecond : u.microsecond = t.microsecond + 1) :
      Next t u
  | second {t u : TimeOfDay} (hlast : t.microsecond = 999999) (hhour : u.hour = t.hour)
      (hminute : u.minute = t.minute) (hsecond : u.second = t.second + 1)
      (hmicrosecond : u.microsecond = 0) : Next t u
  | minute {t u : TimeOfDay} (hlast : t.second = 59 ∧ t.microsecond = 999999)
      (hhour : u.hour = t.hour) (hminute : u.minute = t.minute + 1) (hsecond : u.second = 0)
      (hmicrosecond : u.microsecond = 0) : Next t u
  | hour {t u : TimeOfDay} (hlast : t.minute = 59 ∧ t.second = 59 ∧ t.microsecond = 999999)
      (hhour : u.hour = t.hour + 1) (hminute : u.minute = 0) (hsecond : u.second = 0)
      (hmicrosecond : u.microsecond = 0) : Next t u

def TimeOfDay.first : TimeOfDay := ⟨0, 0, 0, 0, by decide, by decide, by decide, by decide⟩

def TimeOfDay.last : TimeOfDay :=
  ⟨23, 59, 59, 999999, by decide, by decide, by decide, by decide⟩

/-- What a clock shows. -/
structure Reading where
  date : Date
  time : TimeOfDay

namespace Reading

/-- What a clock shows a microsecond later. -/
inductive Next : Reading → Reading → Prop
  | sameDay (date : Date) {t u : TimeOfDay} (h : t.Next u) : Next ⟨date, t⟩ ⟨date, u⟩
  | midnight {d e : Date} (h : d.Next e) : Next ⟨d, .last⟩ ⟨e, .first⟩

/-- A clock goes from one reading to another in so many microseconds. -/
inductive Elapses : Nat → Reading → Reading → Prop
  | zero (r : Reading) : Elapses 0 r r
  | succ {n : Nat} {r s t : Reading} (h : r.Next s) (hs : Elapses n s t) : Elapses (n + 1) r t

/-- So many microseconds lie between what a clock shows first and what it shows second; the number
is negative if it shows the second one earlier. -/
inductive Lapse : Int → Reading → Reading → Prop
  | onward {n : Nat} {r s : Reading} (h : Elapses n r s) : Lapse n r s
  | back {n : Nat} {r s : Reading} (h : Elapses n s r) : Lapse (-n) r s

end Reading

/-- From the year down to the day. -/
def Date.fields (d : Date) : List Nat := [d.year, d.month, d.day]

/-- From the hour down to the microsecond. -/
def TimeOfDay.fields (t : TimeOfDay) : List Nat := [t.hour, t.minute, t.second, t.microsecond]

/-- In the order of the calendar: by the date, and on one day by the time. -/
inductive Reading.Before : Reading → Reading → Prop
  | date {r s : Reading} (h : List.Lex (· < ·) r.date.fields s.date.fields) : Before r s
  | time {r s : Reading} (hdate : r.date = s.date)
      (h : List.Lex (· < ·) r.time.fields s.time.fields) : Before r s

namespace Moment

def reading (m : Moment) : Reading := ⟨m.date, m.time⟩

/-- How far the clock that shows the moment is ahead of universal time, in microseconds. -/
def ahead (m : Moment) : Int := m.offset.getD 0

/-- So many microseconds lie between two moments.  As much as the clock of the second one is ahead
of the clock of the first one, it shows more. -/
def Lapse (k : Int) (m n : Moment) : Prop := m.reading.Lapse (k + (n.ahead - m.ahead)) n.reading

def epoch : Moment := ⟨.epoch, .first, some 0⟩

end Moment

/-! ## Days of the calendar -/

namespace Calendar

def daysInYear (year : Nat) : Nat := if isLeap year then 366 else 365

theorem isLeap_iff (year : Nat) :
    isLeap year = true ↔ 4 ∣ year ∧ (¬100 ∣ year ∨ 400 ∣ year) := by
  simp only [isLeap, Bool.and_eq_true, Bool.or_eq_true, decide_eq_true_eq, ne_eq,
    Nat.dvd_iff_mod_eq_zero]

/-- A leap day every fourth year, none every hundredth, and one every four hundredth. -/
theorem daysInYear_eq (year : Nat) :
    daysInYear year + (if 100 ∣ year then 1 else 0) =
      365 + (if 4 ∣ year then 1 else 0) + (if 400 ∣ year then 1 else 0) := by
  have hhundred : 100 ∣ year → 4 ∣ year := Nat.dvd_trans (by decide)
  have hfour : 400 ∣ year → 100 ∣ year := Nat.dvd_trans (by decide)
  simp only [daysInYear, isLeap_iff]
  split_ifs <;> first | rfl | tauto

theorem daysBeforeYear_succ {year : Nat} (h : 1 ≤ year) :
    daysBeforeYear (year + 1) = daysBeforeYear year + daysInYear year := by
  obtain ⟨past, rfl⟩ := Nat.exists_eq_add_of_le' h
  have hyear := daysInYear_eq (past + 1)
  have hle : past / 100 ≤ past / 4 := by omega
  have hle' : (past + 1) / 100 ≤ (past + 1) / 4 := by omega
  simp only [Nat.succ_div] at hle'
  simp only [daysBeforeYear, Nat.add_sub_cancel, Nat.succ_div]
  omega

theorem daysBeforeMonth_succ (year : Nat) {month : Nat} (h : 1 ≤ month) :
    daysBeforeMonth year (month + 1) = daysBeforeMonth year month + daysInMonth year month := by
  obtain ⟨m, rfl⟩ := Nat.exists_eq_add_of_le' h
  simp only [daysBeforeMonth, Nat.add_sub_cancel, List.range_succ, List.foldl_append,
    List.foldl_cons, List.foldl_nil]

/-- The months of a year make up the year. -/
theorem daysBeforeMonth_thirteen (year : Nat) : daysBeforeMonth year 13 = daysInYear year := by
  unfold daysBeforeMonth daysInYear daysInMonth
  cases isLeap year <;> rfl

theorem daysInMonth_pos (year month : Nat) : 0 < daysInMonth year month := by
  unfold daysInMonth
  repeat' split
  all_goals decide

theorem daysBeforeYear_le {y z : Nat} (hy : 1 ≤ y) (h : y ≤ z) :
    daysBeforeYear y ≤ daysBeforeYear z := by
  induction z, h using Nat.le_induction with
  | base => exact Nat.le_refl _
  | succ z hz ih =>
      rw [daysBeforeYear_succ (hy.trans hz)]
      exact ih.trans (Nat.le_add_right _ _)

theorem daysBeforeMonth_le (year : Nat) {m n : Nat} (hm : 1 ≤ m) (h : m ≤ n) :
    daysBeforeMonth year m ≤ daysBeforeMonth year n := by
  induction n, h using Nat.le_induction with
  | base => exact Nat.le_refl _
  | succ n hn ih =>
      rw [daysBeforeMonth_succ year (hm.trans hn)]
      exact ih.trans (Nat.le_add_right _ _)

end Calendar

namespace Date

open Calendar

/-- The day of the year, counted from zero. -/
def dayOfYear (d : Date) : Nat := daysBeforeMonth d.year d.month + (d.day - 1)

theorem dayNumber_eq (d : Date) : d.dayNumber = daysBeforeYear d.year + d.dayOfYear :=
  Nat.add_assoc _ _ _

theorem dayOfYear_lt_of_month_lt {d : Date} {month : Nat} (h : d.month < month) :
    d.dayOfYear < daysBeforeMonth d.year month := by
  have hday := d.day_mem
  calc d.dayOfYear < daysBeforeMonth d.year d.month + daysInMonth d.year d.month := by
        unfold dayOfYear
        omega
    _ = daysBeforeMonth d.year (d.month + 1) := (daysBeforeMonth_succ _ d.month_mem.1).symm
    _ ≤ daysBeforeMonth d.year month := daysBeforeMonth_le _ (Nat.le_add_left 1 _) h

theorem dayNumber_lt_of_year_lt {d : Date} {year : Nat} (h : d.year < year) :
    d.dayNumber < daysBeforeYear year := by
  have hmonth : d.month < 13 := Nat.lt_succ_of_le d.month_mem.2
  calc d.dayNumber = daysBeforeYear d.year + d.dayOfYear := d.dayNumber_eq
    _ < daysBeforeYear d.year + daysBeforeMonth d.year 13 :=
        Nat.add_lt_add_left (dayOfYear_lt_of_month_lt hmonth) _
    _ = daysBeforeYear (d.year + 1) := by
        rw [daysBeforeMonth_thirteen, daysBeforeYear_succ d.year_mem.1]
    _ ≤ daysBeforeYear year := daysBeforeYear_le (Nat.le_add_left 1 _) h

theorem fields_injective : Function.Injective fields := by
  rintro ⟨year, month, day, _, _, _⟩ ⟨year', month', day', _, _, _⟩ h
  simp only [fields, List.cons.injEq, and_true] at h
  obtain ⟨rfl, rfl, rfl⟩ := h
  rfl

theorem dayNumber_lt {d e : Date} (h : List.Lex (· < ·) d.fields e.fields) :
    d.dayNumber < e.dayNumber := by
  simp only [fields, List.cons_lex_cons_iff] at h
  rw [e.dayNumber_eq]
  rcases h with hyear | ⟨hyear, hmonth | ⟨hmonth, hday | ⟨-, hnil⟩⟩⟩
  · exact (dayNumber_lt_of_year_lt hyear).trans_le (Nat.le_add_right _ _)
  · rw [d.dayNumber_eq, hyear]
    apply Nat.add_lt_add_left
    calc d.dayOfYear < daysBeforeMonth d.year e.month := dayOfYear_lt_of_month_lt hmonth
      _ = daysBeforeMonth e.year e.month := by rw [hyear]
      _ ≤ e.dayOfYear := Nat.le_add_right _ _
  · have hpositive := d.day_mem.1
    rw [d.dayNumber_eq, hyear]
    unfold dayOfYear
    rw [hyear, hmonth]
    omega
  · cases hnil

theorem Next.dayNumber {d e : Date} (h : d.Next e) : e.dayNumber = d.dayNumber + 1 := by
  rw [d.dayNumber_eq, e.dayNumber_eq]
  have hpositive := d.day_mem.1
  cases h with
  | day hyear hmonth hday =>
      unfold dayOfYear
      rw [hyear, hmonth, hday]
      omega
  | month hlast hyear hmonth hday =>
      unfold dayOfYear
      rw [hyear, hmonth, hday, daysBeforeMonth_succ _ d.month_mem.1, ← hlast]
      omega
  | year hlast hyear hmonth hday =>
      have hyears := daysBeforeYear_succ d.year_mem.1
      have hmonths := daysBeforeMonth_succ d.year (show 1 ≤ 12 by decide)
      have hdecember : daysInMonth d.year 12 = 31 := rfl
      have hjanuary : daysBeforeMonth e.year 1 = 0 := rfl
      rw [daysBeforeMonth_thirteen] at hmonths
      unfold dayOfYear
      rw [hyear] at hjanuary ⊢
      rw [hmonth, hday, hlast.1, hlast.2, hyears, hjanuary]
      omega

end Date

/-- Only the last date has none after it. -/
theorem Date.exists_next {d e : Date} (h : d.dayNumber < e.dayNumber) : ∃ f, d.Next f := by
  obtain ⟨hday, hlast⟩ := d.day_mem
  by_cases hmore : d.day < Calendar.daysInMonth d.year d.month
  · exact ⟨⟨d.year, d.month, d.day + 1, d.year_mem, d.month_mem, by omega, hmore⟩,
      .day rfl rfl rfl⟩
  have hend : d.day = Calendar.daysInMonth d.year d.month := by omega
  by_cases hmonth : d.month < 12
  · exact ⟨⟨d.year, d.month + 1, 1, d.year_mem, ⟨by omega, hmonth⟩, Nat.le_refl 1,
      Calendar.daysInMonth_pos _ _⟩, .month hend rfl rfl rfl⟩
  have hdecember : d.month = 12 := by
    have hle := d.month_mem.2
    omega
  rw [hdecember] at hend
  by_cases hyear : d.year < 9999
  · exact ⟨⟨d.year + 1, 1, 1, ⟨by omega, hyear⟩, by decide, Nat.le_refl 1,
      Calendar.daysInMonth_pos _ _⟩, .year ⟨hdecember, hend⟩ rfl rfl rfl⟩
  · -- no day lies behind the end of the last year
    have hlastYear : d.year = 9999 := by
      have hle := d.year_mem.2
      omega
    have hcount : d.dayNumber + 1 = Calendar.daysBeforeYear 10000 := by
      unfold dayNumber
      rw [hlastYear, hdecember, hend]
      rfl
    have hbefore : e.dayNumber < Calendar.daysBeforeYear 10000 :=
      e.dayNumber_lt_of_year_lt (Nat.lt_succ_of_le e.year_mem.2)
    omega

namespace TimeOfDay

theorem microseconds_lt (t : TimeOfDay) : t.microseconds < 86400000000 := by
  have hhour := t.hour_lt
  have hminute := t.minute_lt
  have hsecond := t.second_lt
  have hmicrosecond := t.microsecond_lt
  unfold microseconds
  omega

theorem fields_injective : Function.Injective fields := by
  rintro ⟨hour, minute, second, microsecond, _, _, _, _⟩ ⟨hour', minute', second', _, _, _, _, _⟩ h
  simp only [fields, List.cons.injEq, and_true] at h
  obtain ⟨rfl, rfl, rfl, rfl⟩ := h
  rfl

theorem microseconds_lt_of_lex {t u : TimeOfDay} (h : List.Lex (· < ·) t.fields u.fields) :
    t.microseconds < u.microseconds := by
  have hminute := t.minute_lt
  have hsecond := t.second_lt
  have hmicrosecond := t.microsecond_lt
  simp only [fields, List.cons_lex_cons_iff] at h
  unfold microseconds
  rcases h with hhour | ⟨hhour, hminute' | ⟨hminute', hsecond' | ⟨hsecond', hmicro | ⟨-, hnil⟩⟩⟩⟩
  · omega
  · omega
  · omega
  · omega
  · cases hnil

theorem Next.microseconds {t u : TimeOfDay} (h : t.Next u) :
    u.microseconds = t.microseconds + 1 := by
  unfold TimeOfDay.microseconds
  cases h <;> omega

theorem eq_last_or_exists_next (t : TimeOfDay) : t = .last ∨ ∃ u, t.Next u := by
  obtain ⟨hour, minute, second, microsecond, hhour, hminute, hsecond, hmicrosecond⟩ := t
  by_cases hmore : microsecond + 1 < 1000000
  · exact Or.inr ⟨⟨hour, minute, second, microsecond + 1, hhour, hminute, hsecond, hmore⟩,
      .microsecond rfl rfl rfl rfl⟩
  obtain rfl : microsecond = 999999 := by omega
  by_cases hmore : second + 1 < 60
  · exact Or.inr ⟨⟨hour, minute, second + 1, 0, hhour, hminute, hmore, by decide⟩,
      .second rfl rfl rfl rfl rfl⟩
  obtain rfl : second = 59 := by omega
  by_cases hmore : minute + 1 < 60
  · exact Or.inr ⟨⟨hour, minute + 1, 0, 0, hhour, hmore, by decide, by decide⟩,
      .minute ⟨rfl, rfl⟩ rfl rfl rfl rfl⟩
  obtain rfl : minute = 59 := by omega
  by_cases hmore : hour + 1 < 24
  · exact Or.inr ⟨⟨hour + 1, 0, 0, 0, hmore, by decide, by decide, by decide⟩,
      .hour ⟨rfl, rfl, rfl⟩ rfl rfl rfl rfl⟩
  obtain rfl : hour = 23 := by omega
  exact Or.inl rfl

end TimeOfDay

/-! ## Readings of a clock -/

namespace Reading

/-- The microseconds from the first reading of the calendar. -/
def position (r : Reading) : Nat := r.date.dayNumber * 86400000000 + r.time.microseconds

theorem Before.position_lt {r s : Reading} (h : r.Before s) : r.position < s.position := by
  have hr := r.time.microseconds_lt
  unfold position
  cases h with
  | date h =>
      have hdate := Date.dayNumber_lt h
      omega
  | time hdate h =>
      have htime := TimeOfDay.microseconds_lt_of_lex h
      rw [hdate]
      omega

theorem before_trichotomy (r s : Reading) : r.Before s ∨ r = s ∨ s.Before r := by
  obtain ⟨d, t⟩ := r
  obtain ⟨e, u⟩ := s
  rcases trichotomous_of (List.Lex (· < ·)) d.fields e.fields with hbefore | hdate | hafter
  · exact Or.inl (.date hbefore)
  · obtain rfl := Date.fields_injective hdate
    rcases trichotomous_of (List.Lex (· < ·)) t.fields u.fields with hbefore | htime | hafter
    · exact Or.inl (.time rfl hbefore)
    · obtain rfl := TimeOfDay.fields_injective htime
      exact Or.inr (Or.inl rfl)
    · exact Or.inr (Or.inr (.time rfl hafter))
  · exact Or.inr (Or.inr (.date hafter))

theorem before_iff {r s : Reading} : r.Before s ↔ r.position < s.position := by
  refine ⟨Before.position_lt, fun h => ?_⟩
  rcases before_trichotomy r s with hbefore | rfl | hafter
  · exact hbefore
  · exact absurd h (Nat.lt_irrefl _)
  · exact absurd (hafter.position_lt.trans h) (Nat.lt_irrefl _)

theorem position_injective {r s : Reading} (h : r.position = s.position) : r = s := by
  rcases before_trichotomy r s with hbefore | heq | hafter
  · exact absurd h hbefore.position_lt.ne
  · exact heq
  · exact absurd h hafter.position_lt.ne'

theorem Next.position {r s : Reading} (h : r.Next s) : s.position = r.position + 1 := by
  cases h with
  | sameDay date h =>
      simp only [Reading.position, h.microseconds]
      omega
  | midnight h =>
      have hlast : TimeOfDay.last.microseconds = 86399999999 := by decide
      have hfirst : TimeOfDay.first.microseconds = 0 := by decide
      simp only [Reading.position, h.dayNumber, hlast, hfirst]
      omega

theorem exists_next {r s : Reading} (h : r.position < s.position) : ∃ t, r.Next t := by
  obtain ⟨date, time⟩ := r
  rcases time.eq_last_or_exists_next with rfl | ⟨u, hu⟩
  · have hs := s.time.microseconds_lt
    have hlast : TimeOfDay.last.microseconds = 86399999999 := by decide
    have hday : date.dayNumber < s.date.dayNumber := by
      simp only [position, hlast] at h
      omega
    obtain ⟨e, he⟩ := Date.exists_next hday
    exact ⟨_, .midnight he⟩
  · exact ⟨_, .sameDay date hu⟩

/-- A clock runs from reading to reading as their positions say. -/
theorem elapses_iff {n : Nat} {r s : Reading} : Elapses n r s ↔ s.position = r.position + n := by
  constructor
  · intro h
    induction h with
    | zero => exact (Nat.add_zero _).symm
    | succ h _ ih =>
        rw [ih, h.position]
        omega
  · intro h
    induction n generalizing r with
    | zero =>
        rw [Nat.add_zero] at h
        rw [position_injective h]
        exact .zero r
    | succ n ih =>
        have hlt : r.position < s.position := by omega
        obtain ⟨t, ht⟩ := exists_next hlt
        refine .succ ht (ih ?_)
        rw [ht.position]
        omega

theorem lapse_iff {k : Int} {r s : Reading} :
    r.Lapse k s ↔ (s.position : Int) = r.position + k := by
  constructor
  · intro h
    cases h with
    | onward h =>
        have hposition := elapses_iff.1 h
        omega
    | back h =>
        have hposition := elapses_iff.1 h
        omega
  · intro h
    obtain ⟨n, rfl | rfl⟩ := k.eq_nat_or_neg
    · exact .onward (elapses_iff.2 (by omega))
    · exact .back (elapses_iff.2 (by omega))

end Reading

/-! ## Nanoseconds of moments -/

namespace Moment

theorem position_epoch :
    (Reading.position epoch.reading : Int) = Date.epoch.dayNumber * 86400000000 := by
  decide +kernel

theorem nanoseconds_eq (m : Moment) :
    m.nanoseconds =
      1000 * ((m.reading.position : Int) - epoch.reading.position - m.ahead) := by
  rw [position_epoch, nanoseconds, sinceEpoch, TimeSpan.nanoseconds_ofMicroseconds]
  simp only [reading, Reading.position, ahead]
  omega

theorem lapse_iff {k : Int} {m n : Moment} :
    m.Lapse k n ↔ n.nanoseconds = m.nanoseconds + 1000 * k := by
  rw [Lapse, Reading.lapse_iff, m.nanoseconds_eq, n.nanoseconds_eq]
  omega

theorem exists_lapse (m n : Moment) : ∃ k, m.Lapse k n := by
  refine ⟨(n.reading.position : Int) - n.ahead - (m.reading.position - m.ahead), ?_⟩
  rw [Lapse, Reading.lapse_iff]
  omega

/-- The nanoseconds of a moment are a thousand times the microseconds that have passed since the
epoch.  They are the same exactly for moments between which no time passes, and less for the earlier
one.  On clocks that show universal time they are ordered as the readings, and tell them. -/
theorem nanoseconds_faithful (m n : Moment) :
    (∃ k, m.nanoseconds = 1000 * k ∧ ∀ j, epoch.Lapse j m ↔ j = k) ∧
      (m.nanoseconds = n.nanoseconds ↔ m.Lapse 0 n) ∧
      (m.nanoseconds < n.nanoseconds ↔ ∃ k, 0 < k ∧ m.Lapse k n) ∧
      (m.ahead = 0 → n.ahead = 0 →
        (m.nanoseconds = n.nanoseconds ↔ m.reading = n.reading) ∧
          (m.nanoseconds < n.nanoseconds ↔ m.reading.Before n.reading)) := by
  have hepoch : epoch.nanoseconds = 0 := by decide +kernel
  refine ⟨?_, ?_, ?_, fun hm hn => ⟨?_, ?_⟩⟩
  · obtain ⟨k, hk⟩ := epoch.exists_lapse m
    have hnanoseconds := lapse_iff.1 hk
    refine ⟨k, by omega, fun j => ?_⟩
    rw [lapse_iff]
    omega
  · rw [lapse_iff]
    omega
  · constructor
    · intro hlt
      obtain ⟨k, hk⟩ := m.exists_lapse n
      have hnanoseconds := lapse_iff.1 hk
      exact ⟨k, by omega, hk⟩
    · rintro ⟨k, hpos, hk⟩
      have hnanoseconds := lapse_iff.1 hk
      omega
  · rw [m.nanoseconds_eq, n.nanoseconds_eq, hm, hn]
    constructor
    · intro h
      exact Reading.position_injective (by omega)
    · intro h
      rw [h]
  · rw [Reading.before_iff, m.nanoseconds_eq, n.nanoseconds_eq, hm, hn]
    omega

/-- Half an hour past midnight on a clock that is an hour ahead, and half an hour before midnight of
the year before in universal time, are one moment before the epoch. -/
theorem nanoseconds_faithful_ahead :
    let m : Moment := ⟨.epoch, ⟨0, 30, 0, 0, by decide, by decide, by decide, by decide⟩,
      some 3600000000⟩
    let n : Moment := ⟨⟨1969, 12, 31, by decide, by decide, by decide⟩,
      ⟨23, 30, 0, 0, by decide, by decide, by decide, by decide⟩, none⟩
    m.nanoseconds = -1800000000000 ∧ m.Lapse 0 n ∧ n.reading.Before epoch.reading := by
  intro m n
  have hm : m.nanoseconds = -1800000000000 := by decide +kernel
  have hn : n.nanoseconds = -1800000000000 := by decide +kernel
  obtain ⟨-, -, -, huniversal⟩ := nanoseconds_faithful n epoch
  obtain ⟨-, hbefore⟩ := huniversal rfl rfl
  refine ⟨hm, (nanoseconds_faithful m n).2.1.1 (hm.trans hn.symm), hbefore.1 ?_⟩
  rw [hn]
  decide +kernel

end Moment

end LineProtocol
