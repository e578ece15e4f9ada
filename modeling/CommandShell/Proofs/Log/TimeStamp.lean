import CommandShell.Log.Record
import CommandShell.Proofs.Calendar
import CommandShell.Proofs.Number.FixedWidth

/-! # Time stamps

A time stamp is a date and a time of day in fields of fixed width, the larger units first. For years
of four digits the text tells the moment to the millisecond, and texts are in the order of the
moments. -/
namespace CommandShell

namespace Moment

def startOfYear (y : Int) : Int :=
  Date.dayNumber ⟨y, 1, 1⟩ * perDay

/-- The moments in the years from 1000 to 9999, which are the years of four digits. -/
structure Wide (t : Moment) : Prop where
  low : startOfYear 1000 ≤ t
  high : t < startOfYear 10000

def date (t : Moment) : Date :=
  Date.ofDays (t.fdiv perDay)

def clock (t : Moment) : Nat :=
  (t.fmod perDay).toNat / 1000

def fields (date : Date) (clock : Nat) : List Char :=
  lastDigits 4 date.year.toNat ++ '-' :: (lastDigits 2 date.month ++ '-' ::
    (lastDigits 2 date.day ++ ' ' :: (lastDigits 2 (clock / 3600000) ++ ':' ::
      (lastDigits 2 (clock / 60000 % 60) ++ ':' :: (lastDigits 2 (clock / 1000 % 60) ++ '.' ::
        lastDigits 3 (clock % 1000))))))

def number? (cs : List Char) : Option Nat :=
  if cs.all Char.isDigit then some (Integer.ofDigits (cs.map fun c => c.toNat - 48)) else none

def field? (width : Nat) (sep : Char) (cs : List Char) : Option (Nat × List Char) :=
  match cs.drop width with
  | [] => none
  | c :: r => if c = sep then (number? (cs.take width)).map fun n => (n, r) else none

def millisOf? (s : String) : Option Int := do
  let (year, r) ← field? 4 '-' s.toList
  let (month, r) ← field? 2 '-' r
  let (day, r) ← field? 2 ' ' r
  let (hour, r) ← field? 2 ':' r
  let (minute, r) ← field? 2 ':' r
  let (second, r) ← field? 2 '.' r
  let milli ← if r.length = 3 then number? r else none
  let date : Date := ⟨year, month, day⟩
  if date.Valid ∧ hour < 24 ∧ minute < 60 ∧ second < 60 then
    some ((((date.dayNumber * 24 + hour) * 60 + minute) * 60 + second) * 1000 + milli)
  else none

variable {t t' : Moment} {d d' : Date}

theorem number?_lastDigits {width n : Nat} (h : n < 10 ^ width) :
    number? (lastDigits width n) = some n := by
  have hall : (lastDigits width n).all Char.isDigit = true :=
    List.all_eq_true.mpr fun _ hc => isDigit_of_mem_lastDigits hc
  rw [number?, if_pos hall, ofDigits_lastDigits h]

theorem field?_lastDigits {width n : Nat} (h : n < 10 ^ width) (sep : Char) (r : List Char) :
    field? width sep (lastDigits width n ++ sep :: r) = some (n, r) := by
  have hwidth := length_lastDigits width n
  rw [field?, List.drop_left' hwidth, List.take_left' hwidth, number?_lastDigits h]
  simp

theorem fdiv_perDay (t : Moment) : t.fdiv perDay = t / 86400000000 :=
  Int.fdiv_eq_ediv_of_nonneg t (by decide)

theorem fmod_perDay (t : Moment) : t.fmod perDay = t % 86400000000 :=
  Int.fmod_eq_emod_of_nonneg t (by decide)

theorem clock_lt (t : Moment) : t.clock < 86400000 := by
  rw [clock, fmod_perDay]
  omega

theorem valid_date (t : Moment) : t.date.Valid :=
  Date.valid_ofDays (t.fdiv perDay)

theorem millis_eq (t : Moment) : t.fdiv 1000 = t.date.dayNumber * 86400000 + t.clock := by
  rw [date, Date.dayNumber_ofDays, clock, fdiv_perDay, fmod_perDay,
    Int.fdiv_eq_ediv_of_nonneg t (by decide)]
  omega

theorem startOfYear_le_iff {y : Int} : startOfYear y ≤ t ↔ y ≤ t.date.year := by
  have hday : startOfYear y ≤ t ↔ ¬ t.fdiv perDay < Date.dayNumber ⟨y, 1, 1⟩ := by
    rw [startOfYear, fdiv_perDay, perDay]
    omega
  have hdate := valid_date t
  rw [hday, ← Date.before_iff, Date.ofDays_dayNumber (Date.valid_first y), ← date, Date.Before]
  have hmonth := hdate.month.1
  have hday := hdate.day.1
  dsimp only
  omega

theorem startOfYear_eq {y days : Int} (h : Date.ofDays days = ⟨y, 1, 1⟩) :
    startOfYear y = days * 86400000000 := by
  rw [startOfYear, ← h, Date.dayNumber_ofDays]
  rfl

theorem wide_iff {t : Int} : Wide t ↔ -30610224000000000 ≤ t ∧ t < 253402300800000000 := by
  have hlow : startOfYear 1000 = -354285 * 86400000000 := startOfYear_eq (by decide)
  have hhigh : startOfYear 10000 = 2932897 * 86400000000 := startOfYear_eq (by decide)
  constructor
  · intro h
    have hfirst : startOfYear 1000 ≤ t := h.low
    have hlast : t < startOfYear 10000 := h.high
    omega
  · intro h
    exact ⟨Int.le_trans (Int.le_of_eq hlow) h.1, lt_of_lt_of_eq h.2 hhigh.symm⟩

theorem Wide.year (h : t.Wide) : 1000 ≤ t.date.year ∧ t.date.year < 10000 := by
  refine ⟨startOfYear_le_iff.mp h.low, ?_⟩
  by_contra hlate
  have hnext : startOfYear 10000 ≤ t := startOfYear_le_iff.mpr (Int.not_lt.mp hlate)
  exact absurd h.high (Int.not_lt.mpr hnext)

structure Fits (d : Date) : Prop where
  year : 0 ≤ d.year ∧ d.year.toNat < 10 ^ 4
  month : d.month < 10 ^ 2
  day : d.day < 10 ^ 2

theorem Wide.fits (h : t.Wide) : Fits t.date := by
  obtain ⟨hlow, hhigh⟩ := h.year
  have hmonth := t.valid_date.month.2
  have hday := t.valid_date.day.2.trans (Date.monthLength_le _ _)
  exact ⟨by omega, by omega, by omega⟩

theorem toList_year {y : Int} (hlow : 1000 ≤ y) (hhigh : y < 10000) :
    (toString y).toList = lastDigits 4 y.toNat := by
  have habs : y.natAbs = y.toNat := by omega
  have hwidth : Nat.toDigits 10 y.toNat = lastDigits (3 + 1) y.toNat :=
    toDigits_of_width (by omega) (by omega)
  rw [Integer.toList_toString, Integer.signOf, if_neg (by omega), List.nil_append, habs, hwidth]

theorem toList_stamp (h : t.Wide) : t.stamp.toList = fields t.date t.clock := by
  obtain ⟨hlow, hhigh⟩ := h.year
  have hclock := t.clock_lt
  obtain ⟨-, hmonth, hday⟩ := h.fits
  have hstamp : t.stamp = toString t.date.year ++ "-" ++ padded 2 t.date.month ++ "-" ++
      padded 2 t.date.day ++ " " ++ padded 2 (t.clock / 3600000) ++ ":" ++
      padded 2 (t.clock / 60000 % 60) ++ ":" ++ padded 2 (t.clock / 1000 % 60) ++ "." ++
      padded 3 (t.clock % 1000) := rfl
  rw [hstamp, fields]
  simp only [String.toList_append, toList_year hlow hhigh, List.append_assoc]
  rw [toList_padded hmonth, toList_padded hday, toList_padded (by omega), toList_padded (by omega),
    toList_padded (by omega), toList_padded (by omega)]
  rfl

/-- Two clocks differ in the largest unit in which they differ at all. -/
theorem clock_lt_iff (a b : Nat) :
    (a / 3600000 < b / 3600000 ∨ a / 3600000 = b / 3600000 ∧
      (a / 60000 % 60 < b / 60000 % 60 ∨ a / 60000 % 60 = b / 60000 % 60 ∧
        (a / 1000 % 60 < b / 1000 % 60 ∨ a / 1000 % 60 = b / 1000 % 60 ∧ a % 1000 < b % 1000))) ↔
      a < b := by
  have ha : a / 60000 = a / 3600000 * 60 + a / 60000 % 60 := by omega
  have ha' : a / 1000 = a / 60000 * 60 + a / 1000 % 60 := by omega
  have hb : b / 60000 = b / 3600000 * 60 + b / 60000 % 60 := by omega
  have hb' : b / 1000 = b / 60000 * 60 + b / 1000 % 60 := by omega
  omega

theorem fields_lt_iff (h : Fits d) (h' : Fits d') {a b : Nat} (ha : a < 86400000)
    (hb : b < 86400000) :
    fields d a < fields d' b ↔ d.Before d' ∨ d = d' ∧ a < b := by
  obtain ⟨hyear, hmonth, hday⟩ := h
  obtain ⟨hyear', hmonth', hday'⟩ := h'
  rw [fields, fields, field_lt_iff (by omega) (by omega), field_lt_iff hmonth hmonth',
    field_lt_iff hday hday', field_lt_iff (by omega) (by omega), field_lt_iff (by omega) (by omega),
    field_lt_iff (by omega) (by omega), lastDigits_lt_iff (by omega) (by omega), clock_lt_iff]
  obtain ⟨y, m, k⟩ := d
  obtain ⟨y', m', k'⟩ := d'
  simp only [Date.Before, Date.mk.injEq] at *
  omega

theorem length_stamp (h : t.Wide) : t.stamp.length = 23 := by
  rw [← String.length_toList, toList_stamp h]
  simp [fields]

/-- Time stamps are in the order of the milliseconds of their moments. -/
theorem stamp_lt_iff (h : t.Wide) (h' : t'.Wide) :
    t.stamp < t'.stamp ↔ t.fdiv 1000 < t'.fdiv 1000 := by
  have hclock := t.clock_lt
  have hclock' := t'.clock_lt
  rw [String.lt_iff, toList_stamp h, toList_stamp h',
    fields_lt_iff h.fits h'.fits hclock hclock', millis_eq, millis_eq, date, date, Date.before_iff,
    Date.ofDays_inj, Date.dayNumber_ofDays, Date.dayNumber_ofDays]
  omega

theorem stamp_le_iff (h : t.Wide) (h' : t'.Wide) :
    t.stamp ≤ t'.stamp ↔ t.fdiv 1000 ≤ t'.fdiv 1000 := by
  rw [← String.not_lt, stamp_lt_iff h' h, Int.not_lt]

theorem stamp_eq_iff (h : t.Wide) (h' : t'.Wide) :
    t.stamp = t'.stamp ↔ t.fdiv 1000 = t'.fdiv 1000 := by
  constructor
  · intro hsame
    have hle := stamp_le_iff h h'
    have hge := stamp_le_iff h' h
    rw [hsame] at hle hge
    exact Int.le_antisymm (hle.mp (String.le_refl _)) (hge.mp (String.le_refl _))
  · intro hsame
    apply String.le_antisymm
    · exact (stamp_le_iff h h').mpr (Int.le_of_eq hsame)
    · exact (stamp_le_iff h' h).mpr (Int.le_of_eq hsame.symm)

/-- What a time stamp tells is its moment, cut off after the milliseconds. -/
theorem millisOf?_stamp (h : t.Wide) : millisOf? t.stamp = some (t.fdiv 1000) := by
  obtain ⟨⟨hlow, hyear⟩, hmonth, hday⟩ := h.fits
  have hclock := t.clock_lt
  have hhour : t.clock / 3600000 < 10 ^ 2 := by omega
  have hminute : t.clock / 60000 % 60 < 10 ^ 2 := by omega
  have hsecond : t.clock / 1000 % 60 < 10 ^ 2 := by omega
  have hmilli : t.clock % 1000 < 10 ^ 3 := by omega
  have hdate : (⟨t.date.year.toNat, t.date.month, t.date.day⟩ : Date) = t.date := by
    rw [Int.toNat_of_nonneg hlow]
  simp only [millisOf?, toList_stamp h, fields, field?_lastDigits hyear, field?_lastDigits hmonth,
    field?_lastDigits hday, field?_lastDigits hhour, field?_lastDigits hminute,
    field?_lastDigits hsecond, length_lastDigits, if_true, number?_lastDigits hmilli,
    Option.bind_eq_bind, Option.bind_some, hdate]
  rw [if_pos ⟨t.valid_date, by omega, by omega, by omega⟩, millis_eq]
  congr 1
  omega

example : stamp 951868799999999 = "2000-02-29 23:59:59.999" := by decide

theorem undated?_of_wide {t : Int} (h : Wide t) : undated? t = none := by
  obtain ⟨hlow, hhigh⟩ := wide_iff.mp h
  have hyear : 1000 ≤ year t ∧ year t < 10000 := h.year
  have hfirst : startOfYear 1 = -719162 * 86400000000 := startOfYear_eq (by decide)
  have hbefore : 1 ≤ year (t - perDay) := by
    apply startOfYear_le_iff.mp
    rw [hfirst, perDay]
    omega
  have hseconds : t.fdiv perSecond = t / 1000000 := Int.fdiv_eq_ediv_of_nonneg t (by decide)
  rw [undated?, hseconds]
  rw [if_neg (by omega), if_neg (by omega), if_neg (by omega), if_neg (by omega)]

end Moment

namespace Log

open Moment (startOfYear Wide millisOf?)

def Layout.Stamped (layout : Layout) (r : Record) (stamp : String) : Prop :=
  ∃ rest, layout.text? r = .ok ("[" ++ stamp ++ "]" ++ rest)

theorem Layout.exists_text (layout : Layout) (r : Record) :
    ∃ rest, layout.text r = "[" ++ r.time.stamp ++ "]" ++ rest := by
  rw [text]
  simp only [List.cons_append, List.nil_append, Text.joined, String.append_assoc]
  exact ⟨_, rfl⟩

theorem Layout.stamped_of_wide (layout : Layout) {r : Record} (h : Wide r.time) :
    layout.Stamped r r.time.stamp := by
  obtain ⟨rest, hrest⟩ := layout.exists_text r
  refine ⟨rest, ?_⟩
  rw [text?, Moment.undated?_of_wide h, hrest]

/-- For times from the year 1000 on, and so for all since 1970, up to the year 9999, the time stamps
of records have one length, are in the order of the times as texts, and tell them to the
millisecond. -/
theorem stamps_sort_as_text (layout layout' : Layout) {r r' : Record}
    (hfirst : startOfYear 1000 ≤ r.time) (hle : r.time ≤ r'.time)
    (hlast : r'.time < startOfYear 10000) :
    ∃ s s', layout.Stamped r s ∧ layout'.Stamped r' s' ∧ s.length = 23 ∧ s'.length = 23 ∧
      s ≤ s' ∧ (s = s' ↔ r.time.fdiv 1000 = r'.time.fdiv 1000) ∧
      millisOf? s = some (r.time.fdiv 1000) ∧ millisOf? s' = some (r'.time.fdiv 1000) := by
  have h : Wide r.time := ⟨hfirst, Int.lt_of_le_of_lt hle hlast⟩
  have h' : Wide r'.time := ⟨Int.le_trans hfirst hle, hlast⟩
  have hfloor : r.time.fdiv 1000 ≤ r'.time.fdiv 1000 := by
    rw [Int.fdiv_eq_ediv_of_nonneg _ (by decide), Int.fdiv_eq_ediv_of_nonneg _ (by decide)]
    exact Int.ediv_le_ediv (by decide) hle
  exact ⟨r.time.stamp, r'.time.stamp, layout.stamped_of_wide h, layout'.stamped_of_wide h',
    Moment.length_stamp h, Moment.length_stamp h', (Moment.stamp_le_iff h h').mpr hfloor,
    Moment.stamp_eq_iff h h', Moment.millisOf?_stamp h, Moment.millisOf?_stamp h'⟩

/-- Over the last microsecond of a leap day. -/
theorem stamps_around_leap_day :
    let r : Record := { level := .info, message := "a", time := 951868799999999 }
    let r' : Record := { r with time := 951868800000000 }
    startOfYear 1000 ≤ r.time ∧ r.time ≤ r'.time ∧ r'.time < startOfYear 10000 ∧
      ∃ s s', Layout.Stamped {} r s ∧ Layout.Stamped {} r' s' ∧ s.length = 23 ∧ s'.length = 23 ∧
        s ≤ s' ∧ (s = s' ↔ r.time.fdiv 1000 = r'.time.fdiv 1000) ∧
        millisOf? s = some (r.time.fdiv 1000) ∧ millisOf? s' = some (r'.time.fdiv 1000) := by
  intro r r'
  have h : Wide r.time := Moment.wide_iff.mpr (by decide)
  have h' : Wide r'.time := Moment.wide_iff.mpr (by decide)
  exact ⟨h.low, by decide, h'.high, stamps_sort_as_text {} {} h.low (by decide) h'.high⟩

end Log

end CommandShell
