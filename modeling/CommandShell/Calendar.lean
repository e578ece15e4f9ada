import CommandShell.Number

/-! # The calendar

Days since 1970-01-01 and dates of the Gregorian calendar. Years are counted from March, so that the
day which comes and goes is the last one of a year; 400 such years are an era, and every era has the
same number of days.
-/
namespace CommandShell

structure Date where
  year : Int
  month : Nat
  day : Nat
  deriving DecidableEq, Repr

namespace Date

def daysInEra : Nat := 146097

def daysBeforeEpoch : Nat := 719468

def yearOfEra (dayOfEra : Nat) : Nat :=
  (dayOfEra - dayOfEra / 1460 + dayOfEra / 36524 - dayOfEra / 146096) / 365

def daysBeforeYear (year : Nat) : Nat :=
  365 * year + year / 4 - year / 100

def daysBeforeMonth (month : Nat) : Nat :=
  (153 * month + 2) / 5

def monthOfDay (dayOfYear : Nat) : Nat :=
  (5 * dayOfYear + 2) / 153

def ofDays (days : Int) : Date :=
  let n := days + daysBeforeEpoch
  let era := n.fdiv daysInEra
  let dayOfEra := (n.fmod daysInEra).toNat
  let year := yearOfEra dayOfEra
  let dayOfYear := dayOfEra - daysBeforeYear year
  let month := monthOfDay dayOfYear
  { year := era * 400 + year + if month < 10 then 0 else 1
    month := if month < 10 then month + 3 else month - 9
    day := dayOfYear - daysBeforeMonth month + 1 }

end Date

abbrev Moment := Int

inductive Undated where
  | year (y : Int)
  | beyondRecord
  | beyondClock
  deriving DecidableEq, Repr

namespace Moment

def perSecond : Nat := 1000000
def perDay : Nat := 86400000000

/-- The moment that a clock shows, which counts seconds in binary: the nearest microsecond, at a tie
the even one. -/
def ofSeconds : Binary64 → Moment
  | .finite negative m e =>
    let (num, den) := Binary64.scaled 2 (m * perSecond) 1 (-e)
    let n : Int := Binary64.roundedQuotient num den
    if negative then -n else n
  | .infinite _ | .undefined => 0

/-- The nearest number of seconds at a moment, by way of the nearest number of microseconds. For
some centuries around 1970 this is exact to the microsecond. -/
def seconds (t : Moment) : Binary64 :=
  match Binary64.ofQuotient (t < 0) t.natAbs 1 with
  | .finite negative m e =>
    let (num, den) := Binary64.scaled 2 m 1 (-e)
    Binary64.ofQuotient negative num (den * perSecond)
  | x => x

def year (t : Moment) : Int :=
  (Date.ofDays (t.fdiv perDay)).year

/-- Why a moment has no date, if it has none. The day before it must have one as well, because the
clock is checked for being set back. A year outside the calendar is told as a number of 32 bits. The
first second after the range of the clock still counts as one of it, but has no date record
either. -/
def undated? (t : Moment) : Option Undated :=
  let s := t.fdiv perSecond
  let y := t.year
  if s < -9223372036854775808 ∨ 9223372036854775808 < s then some .beyondClock
  else if y - 1900 < -2147483648 ∨ 2147483648 ≤ y - 1900 then some .beyondRecord
  else if y < 1 ∨ 9999 < y then some (.year (y.bmod 4294967296))
  else if year (t - perDay) < 1 then some (.year 0)
  else none

def padded (width n : Nat) : String :=
  let digits := Nat.toDigits 10 n
  String.ofList (List.replicate (width - digits.length) '0' ++ digits)

/-- Date and time of day, cut off after the milliseconds. The year is written without zeros in
front. -/
def stamp (t : Moment) : String :=
  let d := Date.ofDays (t.fdiv perDay)
  let millis := (t.fmod perDay).toNat / 1000
  toString d.year ++ "-" ++ padded 2 d.month ++ "-" ++ padded 2 d.day ++ " " ++
    padded 2 (millis / 3600000) ++ ":" ++ padded 2 (millis / 60000 % 60) ++ ":" ++
    padded 2 (millis / 1000 % 60) ++ "." ++ padded 3 (millis % 1000)

end Moment

end CommandShell
