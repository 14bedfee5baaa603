/-!
# Moments of the calendar

Dates of the proleptic Gregorian calendar with a time of day and an offset from
universal time, and their distance from 1970-01-01 00:00 universal time.
-/

namespace LineProtocol

namespace Calendar

/-- Every fourth year is a leap year, except every hundredth, but not every four hundredth. -/
def isLeap (year : Nat) : Bool :=
  year % 4 = 0 && (year % 100 ≠ 0 || year % 400 = 0)

def daysInMonth (year month : Nat) : Nat :=
  match month with
  | 2 => if isLeap year then 29 else 28
  | 4 | 6 | 9 | 11 => 30
  | _ => 31

/-- The number of days from 0001-01-01 to the first day of a year. -/
def daysBeforeYear (year : Nat) : Nat :=
  let past := year - 1
  365 * past + past / 4 - past / 100 + past / 400

/-- The number of days of a year before the first of a month. -/
def daysBeforeMonth (year month : Nat) : Nat :=
  (List.range (month - 1)).foldl (fun days m => days + daysInMonth year (m + 1)) 0

end Calendar

open Calendar in
/-- A date of the years 1 to 9999. -/
structure Date where
  year : Nat
  month : Nat
  day : Nat
  year_mem : 1 ≤ year ∧ year ≤ 9999
  month_mem : 1 ≤ month ∧ month ≤ 12
  day_mem : 1 ≤ day ∧ day ≤ daysInMonth year month
deriving DecidableEq, Repr

def Date.dayNumber (d : Date) : Nat :=
  Calendar.daysBeforeYear d.year + Calendar.daysBeforeMonth d.year d.month + (d.day - 1)

def Date.epoch : Date := ⟨1970, 1, 1, by decide, by decide, by decide⟩

structure TimeOfDay where
  hour : Nat
  minute : Nat
  second : Nat
  microsecond : Nat
  hour_lt : hour < 24
  minute_lt : minute < 60
  second_lt : second < 60
  microsecond_lt : microsecond < 1000000
deriving DecidableEq, Repr

def TimeOfDay.microseconds (t : TimeOfDay) : Nat :=
  ((t.hour * 60 + t.minute) * 60 + t.second) * 1000000 + t.microsecond

/-- A date and time of day; `offset` is how far, in microseconds, the clock that shows it is ahead
of universal time.  Without an offset it is universal time itself. -/
structure Moment where
  date : Date
  time : TimeOfDay
  offset : Option Int
deriving DecidableEq, Repr

/-- A signed length of time in normal form: only the days may be negative. -/
structure TimeSpan where
  days : Int
  seconds : Nat
  microseconds : Nat
  seconds_lt : seconds < 86400
  microseconds_lt : microseconds < 1000000
deriving DecidableEq, Repr

namespace TimeSpan

def ofMicroseconds (n : Int) : TimeSpan where
  days := n / 86400000000
  seconds := (n % 86400000000).toNat / 1000000
  microseconds := (n % 86400000000).toNat % 1000000
  seconds_lt := by omega
  microseconds_lt := by omega

def nanoseconds (s : TimeSpan) : Int :=
  (s.days * 86400 + s.seconds) * 1000000000 + s.microseconds * 1000

theorem nanoseconds_ofMicroseconds (n : Int) :
    (ofMicroseconds n).nanoseconds = 1000 * n := by
  simp only [nanoseconds, ofMicroseconds]
  omega

end TimeSpan

namespace Moment

/-- The moment with the given fields, if they form a date and a time of day. -/
def ofFields? (year month day hour minute second microsecond : Nat) (offset : Option Int) :
    Option Moment :=
  if hd : (1 ≤ year ∧ year ≤ 9999) ∧ (1 ≤ month ∧ month ≤ 12) ∧
      (1 ≤ day ∧ day ≤ Calendar.daysInMonth year month) then
    if ht : hour < 24 ∧ minute < 60 ∧ second < 60 ∧ microsecond < 1000000 then
      some {
        date := ⟨year, month, day, hd.1, hd.2.1, hd.2.2⟩
        time := ⟨hour, minute, second, microsecond, ht.1, ht.2.1, ht.2.2.1, ht.2.2.2⟩
        offset := offset }
    else none
  else none

/-- How far the moment lies after the epoch, in universal time. -/
def sinceEpoch (m : Moment) : TimeSpan :=
  .ofMicroseconds
    (((m.date.dayNumber : Int) - Date.epoch.dayNumber) * 86400000000 + m.time.microseconds -
      m.offset.getD 0)

def nanoseconds (m : Moment) : Int := m.sinceEpoch.nanoseconds

end Moment

end LineProtocol
