import Mathlib.Algebra.BigOperators.Intervals
import Mathlib.Algebra.Order.BigOperators.Group.Finset
import Mathlib.Data.Int.SuccPred
import Mathlib.Tactic.IntervalCases
import CommandShell.Calendar

/-! # The Gregorian calendar

The calendar by its own rules: the lengths of years and months, the day after a day, and the number
of a day, which adds these lengths up. The dates that are computed from the days since 1970 follow
one another as the calendar has them, so that the number of a date leads back to the day. -/
namespace CommandShell.Date

def IsLeap (y : Int) : Prop :=
  4 ∣ y ∧ (100 ∣ y → 400 ∣ y)

instance (y : Int) : Decidable (IsLeap y) :=
  inferInstanceAs (Decidable (_ ∧ (_ → _)))

def yearLength (y : Int) : Nat :=
  if IsLeap y then 366 else 365

def monthLength (y : Int) : Nat → Nat
  | 2 => if IsLeap y then 29 else 28
  | 4 | 6 | 9 | 11 => 30
  | _ => 31

theorem monthLength_le (y : Int) (m : Nat) : monthLength y m ≤ 31 := by
  unfold monthLength
  split
  · split <;> decide
  · decide
  · decide
  · decide
  · decide
  · decide

structure Valid (d : Date) : Prop where
  month : 1 ≤ d.month ∧ d.month ≤ 12
  day : 1 ≤ d.day ∧ d.day ≤ monthLength d.year d.month

instance (d : Date) : Decidable d.Valid :=
  decidable_of_iff
    ((1 ≤ d.month ∧ d.month ≤ 12) ∧ 1 ≤ d.day ∧ d.day ≤ monthLength d.year d.month)
    ⟨fun h => ⟨h.1, h.2⟩, fun h => ⟨h.month, h.day⟩⟩

theorem valid_first (y : Int) : Valid ⟨y, 1, 1⟩ :=
  ⟨⟨Nat.le_refl 1, by simp⟩, Nat.le_refl 1, by simp [monthLength]⟩

def next (d : Date) : Date :=
  if d.day < monthLength d.year d.month then { d with day := d.day + 1 }
  else if d.month < 12 then { d with month := d.month + 1, day := 1 }
  else ⟨d.year + 1, 1, 1⟩

/-- The days from 1970 to the start of a year, which are counted back for the years before. -/
def daysToYear (y : Int) : Int :=
  ∑ k ∈ Finset.range (y - 1970).toNat, (yearLength (1970 + k) : Int) -
    ∑ k ∈ Finset.range (1970 - y).toNat, (yearLength (1969 - k) : Int)

def dayNumber (d : Date) : Int :=
  daysToYear d.year + ∑ m ∈ Finset.Ico 1 d.month, (monthLength d.year m : Int) + d.day - 1

def Before (d e : Date) : Prop :=
  d.year < e.year ∨ d.year = e.year ∧ (d.month < e.month ∨ d.month = e.month ∧ d.day < e.day)

variable {d e : Date}

theorem before_trichotomy (d e : Date) : d.Before e ∨ d = e ∨ e.Before d := by
  obtain ⟨y, m, k⟩ := d
  obtain ⟨y', m', k'⟩ := e
  rcases Int.lt_trichotomy y y' with hy | rfl | hy
  · exact .inl (.inl hy)
  · rcases Nat.lt_trichotomy m m' with hm | rfl | hm
    · exact .inl (.inr ⟨rfl, .inl hm⟩)
    · rcases Nat.lt_trichotomy k k' with hk | rfl | hk
      · exact .inl (.inr ⟨rfl, .inr ⟨rfl, hk⟩⟩)
      · exact .inr (.inl rfl)
      · exact .inr (.inr (.inr ⟨rfl, .inr ⟨rfl, hk⟩⟩))
    · exact .inr (.inr (.inr ⟨rfl, .inl hm⟩))
  · exact .inr (.inr (.inl hy))

theorem daysToYear_succ (y : Int) : daysToYear (y + 1) = daysToYear y + yearLength y := by
  unfold daysToYear
  by_cases hy : 1970 ≤ y
  · have hmore : (y + 1 - 1970).toNat = (y - 1970).toNat + 1 := by omega
    have hyear : (1970 : Int) + (y - 1970).toNat = y := by omega
    have hback : (1970 - (y + 1)).toNat = (1970 - y).toNat := by omega
    rw [hmore, hback, Finset.sum_range_succ, hyear]
    omega
  · have hfewer : (1970 - y).toNat = (1970 - (y + 1)).toNat + 1 := by omega
    have hyear : (1969 : Int) - (1970 - (y + 1)).toNat = y := by omega
    have hahead : (y + 1 - 1970).toNat = (y - 1970).toNat := by omega
    rw [hfewer, hahead, Finset.sum_range_succ, hyear]
    omega

theorem sum_monthLength (y : Int) :
    ∑ m ∈ Finset.Ico 1 13, (monthLength y m : Int) = yearLength y := by
  by_cases h : IsLeap y
  · simp [Finset.sum_Ico_succ_top, monthLength, yearLength, h]
  · simp [Finset.sum_Ico_succ_top, monthLength, yearLength, h]

theorem dayNumber_next (h : d.Valid) : d.next.dayNumber = d.dayNumber + 1 := by
  obtain ⟨⟨hmonth, hlast⟩, hday, hend⟩ := h
  unfold next
  split
  · simp only [dayNumber, Nat.cast_add, Nat.cast_one]
    omega
  split
  · next hd _ =>
    have hfull : d.day = monthLength d.year d.month := by omega
    simp only [dayNumber, Finset.sum_Ico_succ_top hmonth, hfull]
    omega
  · next hd hm =>
    have hfull : d.day = monthLength d.year d.month := by omega
    have htwelve : d.month = 12 := by omega
    have hyear := sum_monthLength d.year
    rw [Finset.sum_Ico_succ_top (by decide : 1 ≤ 12)] at hyear
    simp only [dayNumber, daysToYear_succ, hfull, htwelve, Finset.Ico_self, Finset.sum_empty]
    omega

theorem daysToYear_le {y z : Int} (h : y ≤ z) : daysToYear y ≤ daysToYear z := by
  induction z, h using Int.leInduction with
  | base => exact Int.le_refl _
  | succ z _ ih =>
    rw [daysToYear_succ]
    omega

theorem sum_months_le {y : Int} {m n : Nat} (h : m ≤ n) :
    ∑ k ∈ Finset.Ico 1 m, (monthLength y k : Int) ≤ ∑ k ∈ Finset.Ico 1 n, (monthLength y k : Int) :=
  Finset.sum_le_sum_of_subset_of_nonneg (Finset.Ico_subset_Ico_right h)
    fun k _ _ => Int.natCast_nonneg (monthLength y k)

theorem dayNumber_lt (hd : d.Valid) (he : e.Valid) (h : d.Before e) :
    d.dayNumber < e.dayNumber := by
  have hmonth : d.dayNumber <
      daysToYear d.year + ∑ m ∈ Finset.Ico 1 (d.month + 1), (monthLength d.year m : Int) := by
    have hlast := hd.day.2
    rw [Finset.sum_Ico_succ_top hd.month.1, dayNumber]
    omega
  have hstart : daysToYear e.year + ∑ m ∈ Finset.Ico 1 e.month, (monthLength e.year m : Int) ≤
      e.dayNumber := by
    have hfirst := he.day.1
    rw [dayNumber]
    omega
  rcases h with hyear | ⟨hyear, hmonth' | ⟨hmonth', hday⟩⟩
  · have hlast := hd.month.2
    have hfull := sum_months_le (y := d.year) (by omega : d.month + 1 ≤ 13)
    have hlater := daysToYear_le (Int.add_one_le_of_lt hyear)
    have hsum : 0 ≤ ∑ m ∈ Finset.Ico 1 e.month, (monthLength e.year m : Int) :=
      Finset.sum_nonneg fun m _ => Int.natCast_nonneg (monthLength e.year m)
    rw [sum_monthLength] at hfull
    rw [daysToYear_succ] at hlater
    omega
  · have hlater := sum_months_le (y := d.year) (by omega : d.month + 1 ≤ e.month)
    rw [← hyear] at hstart
    omega
  · rw [dayNumber, dayNumber, hyear, hmonth']
    omega

theorem dayNumber_injective (hd : d.Valid) (he : e.Valid) (h : d.dayNumber = e.dayNumber) :
    d = e := by
  rcases before_trichotomy d e with hlt | heq | hgt
  · have := dayNumber_lt hd he hlt
    omega
  · exact heq
  · have := dayNumber_lt he hd hgt
    omega

/-- The date of a day of the year that starts in March of a year. -/
def ofMarch (y : Int) (dayOfYear : Nat) : Date :=
  let month := monthOfDay dayOfYear
  { year := y + if month < 10 then 0 else 1
    month := if month < 10 then month + 3 else month - 9
    day := dayOfYear - daysBeforeMonth month + 1 }

def marchLength (y : Int) : Nat :=
  yearLength (y + 1)

theorem marchLength_cases (y : Int) :
    IsLeap (y + 1) ∧ marchLength y = 366 ∨ ¬ IsLeap (y + 1) ∧ marchLength y = 365 := by
  unfold marchLength yearLength
  split
  · next h => exact .inl ⟨h, rfl⟩
  · next h => exact .inr ⟨h, rfl⟩

theorem marchLength_pos (y : Int) : 0 < marchLength y := by
  rcases marchLength_cases y with ⟨-, hlength⟩ | ⟨-, hlength⟩ <;> omega

theorem marchLength_le (y : Int) : marchLength y ≤ 366 := by
  rcases marchLength_cases y with ⟨-, hlength⟩ | ⟨-, hlength⟩ <;> omega

/-- A year of an era by its century, its group of four years and its place among them. -/
theorem exists_yearParts {year : Nat} (h : year < 400) :
    ∃ c q r, year = 100 * c + 4 * q + r ∧ c < 4 ∧ q < 25 ∧ r < 4 :=
  ⟨year / 100, year % 100 / 4, year % 4, by omega, by omega, by omega, by omega⟩

theorem daysBeforeYear_parts {c q r : Nat} (hq : q < 25) (hr : r < 4) :
    daysBeforeYear (100 * c + 4 * q + r) = 36524 * c + 1461 * q + 365 * r := by
  rw [daysBeforeYear]
  omega

/-- The year that ends with a leap day is the last of a group of four, and if this is the last group
of a century, the last of the era. -/
theorem parts_of_leap {c q r : Nat} (hc : c < 4) (hq : q < 25) (hr : r < 4)
    (h : IsLeap ((100 * c + 4 * q + r : Nat) + 1)) : r = 3 ∧ (q < 24 ∨ q = 24 ∧ c = 3) := by
  obtain ⟨hfourth, hfull⟩ := h
  have hr : r = 3 := by omega
  subst hr
  refine ⟨rfl, ?_⟩
  by_cases hq' : q = 24
  · have := hfull (by omega)
    omega
  · omega

/-- The days of a group of four years contain one leap day, which the division takes away again;
full centuries and the era correct it. -/
theorem yearOfEra_eq {year k : Nat} (hyear : year < 400) (hk : k < marchLength year) :
    yearOfEra (daysBeforeYear year + k) = year := by
  obtain ⟨c, q, r, rfl, hc, hq, hr⟩ := exists_yearParts hyear
  rw [daysBeforeYear_parts hq hr, yearOfEra]
  generalize hn : 36524 * c + 1461 * q + 365 * r + k = n
  by_cases hlast : k < 365
  · have hera : n / 146096 = 0 := by omega
    have hcentury : n / 36524 = c := by omega
    have hfour : n / 1460 = 25 * c + q ∨ n / 1460 = 25 * c + q + 1 := by omega
    omega
  · obtain ⟨hleap, rfl⟩ : IsLeap ((100 * c + 4 * q + r : Nat) + 1) ∧ k = 365 := by
      rcases marchLength_cases (100 * c + 4 * q + r : Nat) with ⟨hleap, hlength⟩ | ⟨-, hlength⟩
      · exact ⟨hleap, by omega⟩
      · omega
    obtain ⟨rfl, hq' | ⟨rfl, rfl⟩⟩ := parts_of_leap hc hq hr hleap
    · have hera : n / 146096 = 0 := by omega
      have hcentury : n / 36524 = c := by omega
      have hfour : n / 1460 = 25 * c + q + 1 := by omega
      omega
    · obtain rfl : n = 146096 := by omega
      rfl

theorem isLeap_era {era y : Int} : IsLeap (era * 400 + y) ↔ IsLeap y := by
  unfold IsLeap
  omega

theorem marchLength_era (era y : Int) : marchLength (era * 400 + y) = marchLength y := by
  rw [marchLength, marchLength, yearLength, yearLength, Int.add_assoc]
  simp only [isLeap_era]

theorem daysBeforeYear_succ {year : Nat} (h : year < 399) :
    daysBeforeYear (year + 1) = daysBeforeYear year + marchLength year := by
  unfold daysBeforeYear
  rcases marchLength_cases year with ⟨hleap, hlength⟩ | ⟨hleap, hlength⟩
  · obtain ⟨hfourth, hfull⟩ := hleap
    omega
  · unfold IsLeap at hleap
    omega

theorem daysBeforeYear_lt {year k : Nat} (hyear : year < 400) (hk : k < marchLength year) :
    daysBeforeYear year + k < daysInEra := by
  unfold daysBeforeYear daysInEra
  rcases marchLength_cases year with ⟨-, hlength⟩ | ⟨hleap, hlength⟩
  · omega
  · have hlast : year ≠ 399 := by
      rintro rfl
      exact hleap (by decide)
    omega

theorem ofDays_eq {era : Int} {year k : Nat} (hyear : year < 400) (hk : k < marchLength year) :
    ofDays (era * daysInEra + (daysBeforeYear year + k : Nat) - daysBeforeEpoch) =
      ofMarch (era * 400 + year) k := by
  have hlt := daysBeforeYear_lt hyear hk
  have hday : era * daysInEra + (daysBeforeYear year + k : Nat) - daysBeforeEpoch +
      daysBeforeEpoch = ((daysBeforeYear year + k : Nat) : Int) + daysInEra * era := by
    rw [Int.sub_add_cancel, Int.mul_comm, Int.add_comm]
  have hera : (((daysBeforeYear year + k : Nat) : Int) + daysInEra * era).fdiv daysInEra = era := by
    rw [Int.fdiv_eq_ediv_of_nonneg _ (by decide), daysInEra] at *
    omega
  have hrest : (((daysBeforeYear year + k : Nat) : Int) + daysInEra * era).fmod daysInEra =
      (daysBeforeYear year + k : Nat) := by
    rw [Int.fmod_eq_emod_of_nonneg _ (by decide), daysInEra] at *
    omega
  rw [ofDays, hday, hera, hrest, Int.toNat_natCast, yearOfEra_eq hyear hk,
    Nat.add_sub_cancel_left]
  rfl

theorem monthOfDay_eq {month k : Nat} (hlow : daysBeforeMonth month ≤ k)
    (hhigh : k < daysBeforeMonth (month + 1)) : monthOfDay k = month := by
  unfold daysBeforeMonth at hlow hhigh
  unfold monthOfDay
  omega

theorem exists_month {k : Nat} (hk : k < 366) :
    ∃ month < 12, daysBeforeMonth month ≤ k ∧ k < daysBeforeMonth (month + 1) := by
  refine ⟨(5 * k + 2) / 153, by omega, ?_, ?_⟩
  · unfold daysBeforeMonth
    omega
  · unfold daysBeforeMonth
    omega

def firstOfMarch (y : Int) (month : Nat) : Date :=
  ⟨y + if month < 10 then 0 else 1, if month < 10 then month + 3 else month - 9, 1⟩

theorem ofMarch_eq {y : Int} {month k : Nat} (hlow : daysBeforeMonth month ≤ k)
    (hhigh : k < daysBeforeMonth (month + 1)) :
    ofMarch y k = { firstOfMarch y month with day := k - daysBeforeMonth month + 1 } := by
  rw [ofMarch, monthOfDay_eq hlow hhigh]
  rfl

/-- The months end where the next one starts, and the last one where the year ends. -/
theorem monthLength_march (y : Int) {month : Nat} (h : month < 12) :
    daysBeforeMonth month +
        monthLength (firstOfMarch y month).year (firstOfMarch y month).month =
      min (daysBeforeMonth (month + 1)) (marchLength y) := by
  rcases marchLength_cases y with ⟨hleap, hlength⟩ | ⟨hleap, hlength⟩
  · rw [hlength]
    interval_cases month <;> simp [firstOfMarch, daysBeforeMonth, monthLength, hleap]
  · rw [hlength]
    interval_cases month <;> simp [firstOfMarch, daysBeforeMonth, monthLength, hleap]

theorem next_monthEnd (y : Int) {month day : Nat} (h : month < 11)
    (hday : ¬ day < monthLength (firstOfMarch y month).year (firstOfMarch y month).month) :
    ({ firstOfMarch y month with day } : Date).next = firstOfMarch y (month + 1) := by
  rw [next, if_neg hday]
  interval_cases month <;> simp [firstOfMarch]

theorem valid_ofMarch {y : Int} {k : Nat} (hk : k < marchLength y) : (ofMarch y k).Valid := by
  have hyear : k < 366 := lt_of_lt_of_le hk (marchLength_le y)
  obtain ⟨month, hmonth, hlow, hhigh⟩ := exists_month hyear
  have hlength := monthLength_march y hmonth
  rw [ofMarch_eq hlow hhigh]
  refine ⟨?_, Nat.succ_pos _, ?_⟩
  · unfold firstOfMarch
    dsimp only
    split <;> omega
  · dsimp only
    omega

theorem exists_march (days : Int) : ∃ (era : Int) (year k : Nat), year < 400 ∧
    k < marchLength year ∧
      days = era * daysInEra + (daysBeforeYear year + k : Nat) - daysBeforeEpoch := by
  have hyear : ∀ n, n < daysInEra → ∃ year k : Nat, year < 400 ∧ k < marchLength year ∧
      n = daysBeforeYear year + k := by
    intro n hn
    induction n with
    | zero => exact ⟨0, 0, by decide, by decide, rfl⟩
    | succ n ih =>
      obtain ⟨year, k, hyear, hk, rfl⟩ := ih (by omega)
      by_cases hmore : k + 1 < marchLength year
      · exact ⟨year, k + 1, hyear, hmore, rfl⟩
      · have hnext : year < 399 := by
          by_contra hlast
          obtain rfl : year = 399 := by omega
          have hlength : marchLength (399 : Nat) = 366 := by decide
          have hbefore : daysBeforeYear 399 = 145731 := by decide
          rw [daysInEra] at hn
          omega
        refine ⟨year + 1, 0, by omega, marchLength_pos _, ?_⟩
        rw [daysBeforeYear_succ hnext]
        omega
  have hrest : ((days + daysBeforeEpoch) % daysInEra).toNat < daysInEra := by
    unfold daysInEra
    omega
  obtain ⟨year, k, hyear, hk, heq⟩ := hyear _ hrest
  refine ⟨(days + daysBeforeEpoch) / daysInEra, year, k, hyear, hk, ?_⟩
  rw [← heq]
  unfold daysInEra
  omega

theorem next_ofMarch {y : Int} {k : Nat} (hk : k + 1 < marchLength y) :
    (ofMarch y k).next = ofMarch y (k + 1) := by
  have hyear : k < 366 := lt_of_lt_of_le (Nat.lt_of_succ_lt hk) (marchLength_le y)
  obtain ⟨month, hmonth, hlow, hhigh⟩ := exists_month hyear
  have hlength := monthLength_march y hmonth
  rw [ofMarch_eq hlow hhigh]
  by_cases hsame : k + 1 < daysBeforeMonth (month + 1)
  · rw [ofMarch_eq (by omega) hsame, next, if_pos (by dsimp only; omega), Nat.sub_add_comm hlow]
  · have hmore : month < 11 := by
      by_contra hlast
      obtain rfl : month = 11 := by omega
      have hend : daysBeforeMonth (11 + 1) = 367 := by decide
      rcases marchLength_cases y with ⟨-, hlength⟩ | ⟨-, hlength⟩ <;> omega
    have hfirst : k + 1 = daysBeforeMonth (month + 1) := by omega
    have hnext : daysBeforeMonth (month + 1) < daysBeforeMonth (month + 1 + 1) := by
      unfold daysBeforeMonth
      omega
    rw [hfirst, ofMarch_eq (Nat.le_refl _) hnext, Nat.sub_self, next_monthEnd y hmore (by omega)]
    rfl

theorem next_ofMarch_last {y : Int} {k : Nat} (hk : k + 1 = marchLength y) :
    (ofMarch y k).next = ofMarch (y + 1) 0 := by
  have hlow : daysBeforeMonth 11 ≤ k ∧ k < daysBeforeMonth 12 := by
    have hbounds : daysBeforeMonth 11 = 337 ∧ daysBeforeMonth 12 = 367 := by decide
    rcases marchLength_cases y with ⟨-, hlength⟩ | ⟨-, hlength⟩ <;> omega
  have hlength := monthLength_march y (by decide : 11 < 12)
  rw [ofMarch_eq hlow.1 hlow.2, next, if_neg (by dsimp only; omega)]
  simp [firstOfMarch, ofMarch, monthOfDay, daysBeforeMonth]

theorem ofDays_succ (days : Int) : ofDays (days + 1) = (ofDays days).next := by
  obtain ⟨era, year, k, hyear, hk, rfl⟩ := exists_march days
  have hera : marchLength (era * 400 + year) = marchLength year := marchLength_era era year
  rw [ofDays_eq hyear hk]
  by_cases hmore : k + 1 < marchLength year
  · have hnext : era * daysInEra + (daysBeforeYear year + k : Nat) - daysBeforeEpoch + 1 =
        era * daysInEra + (daysBeforeYear year + (k + 1) : Nat) - daysBeforeEpoch := by
      omega
    rw [hnext, ofDays_eq hyear hmore, next_ofMarch (hera ▸ hmore)]
  · have hlast : k + 1 = marchLength year := by omega
    rw [next_ofMarch_last (hera ▸ hlast)]
    by_cases hsame : year < 399
    · have hnext : era * daysInEra + (daysBeforeYear year + k : Nat) - daysBeforeEpoch + 1 =
          era * daysInEra + (daysBeforeYear (year + 1) + 0 : Nat) - daysBeforeEpoch := by
        rw [daysBeforeYear_succ hsame]
        omega
      rw [hnext, ofDays_eq (by omega) (marchLength_pos _)]
      congr 1
      omega
    · obtain rfl : year = 399 := by omega
      have hlength : marchLength (399 : Nat) = 366 := by decide
      have hnext : era * daysInEra + (daysBeforeYear 399 + k : Nat) - daysBeforeEpoch + 1 =
          (era + 1) * daysInEra + (daysBeforeYear 0 + 0 : Nat) - daysBeforeEpoch := by
        have hbefore : daysBeforeYear 399 = 145731 ∧ daysBeforeYear 0 = 0 := by decide
        rw [hbefore.1, hbefore.2, daysInEra]
        omega
      rw [hnext, ofDays_eq (by decide) (marchLength_pos _)]
      congr 1
      omega

theorem valid_ofDays (days : Int) : (ofDays days).Valid := by
  obtain ⟨era, year, k, hyear, hk, rfl⟩ := exists_march days
  rw [ofDays_eq hyear hk]
  exact valid_ofMarch ((marchLength_era era year).symm ▸ hk)

/-- Counted from the rules of the calendar, the computed date is that of its day. -/
theorem dayNumber_ofDays (days : Int) : (ofDays days).dayNumber = days := by
  have hstep (n : Int) : (ofDays (n + 1)).dayNumber = (ofDays n).dayNumber + 1 := by
    rw [ofDays_succ, dayNumber_next (valid_ofDays n)]
  induction days using Int.induction_on with
  | zero => decide
  | succ n ih => rw [hstep, ih]
  | pred n ih =>
    have h := hstep (-n - 1)
    rw [Int.sub_add_cancel, ih] at h
    omega

theorem ofDays_dayNumber (h : d.Valid) : ofDays d.dayNumber = d :=
  dayNumber_injective (valid_ofDays d.dayNumber) h (dayNumber_ofDays d.dayNumber)

theorem ofDays_inj {m n : Int} : ofDays m = ofDays n ↔ m = n := by
  constructor
  · intro h
    rw [← dayNumber_ofDays m, h, dayNumber_ofDays]
  · rintro rfl
    rfl

theorem before_iff {m n : Int} : (ofDays m).Before (ofDays n) ↔ m < n := by
  constructor
  · intro h
    have hlt := dayNumber_lt (valid_ofDays m) (valid_ofDays n) h
    rwa [dayNumber_ofDays, dayNumber_ofDays] at hlt
  · intro h
    rcases before_trichotomy (ofDays m) (ofDays n) with hlt | heq | hgt
    · exact hlt
    · have := ofDays_inj.mp heq
      omega
    · have hgt' := dayNumber_lt (valid_ofDays n) (valid_ofDays m) hgt
      rw [dayNumber_ofDays, dayNumber_ofDays] at hgt'
      omega

end CommandShell.Date
