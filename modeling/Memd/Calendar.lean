/-
# The proleptic Gregorian calendar

Dates are counted from 1970-01-01 (`dayNumber`): a year has 366 days when it is a leap year and
365 days otherwise, in either direction.

* `dayNumber_next` — the next date has the next number;
* `dayNumber_injective` — a date is determined by its number;
* `dayNumber_eq_march` — the number by a formula, in years that start on March 1st;
* `dateOfDay`, `dateOfDay_spec` — the date of a number, through eras of 400 years;
* `CountsDays.eq_dateOfDay` — it is the one that going from day to day gives.
-/
import Mathlib.Data.Int.ConditionallyCompleteOrder
import Mathlib.Data.Int.Notation
import Mathlib.Tactic.IntervalCases

namespace Calendar

/-! ## Dates -/

/-- The leap-year rule. -/
def IsLeap (year : ℤ) : Prop :=
  year % 4 = 0 ∧ (year % 100 ≠ 0 ∨ year % 400 = 0)

instance (year : ℤ) : Decidable (IsLeap year) := by
  unfold IsLeap
  infer_instance

/-- The number of days of a month. -/
def monthLength (year month : ℤ) : ℤ :=
  if month = 2 then (if IsLeap year then 29 else 28)
  else if month = 4 ∨ month = 6 ∨ month = 9 ∨ month = 11 then 30
  else 31

/-- A year, a month and a day. -/
structure Date where
  year : ℤ
  month : ℤ
  day : ℤ
  deriving DecidableEq, Repr

/-- The date exists. -/
structure Date.Valid (d : Date) : Prop where
  month : 1 ≤ d.month ∧ d.month ≤ 12
  day : 1 ≤ d.day ∧ d.day ≤ monthLength d.year d.month

/-- The date after a date. -/
def Date.next (d : Date) : Date :=
  if d.day < monthLength d.year d.month then { d with day := d.day + 1 }
  else if d.month < 12 then ⟨d.year, d.month + 1, 1⟩
  else ⟨d.year + 1, 1, 1⟩

theorem monthLength_bounds (year month : ℤ) :
    28 ≤ monthLength year month ∧ monthLength year month ≤ 31 := by
  unfold monthLength
  split
  · split <;> omega
  · split <;> omega

theorem Date.Valid.next {d : Date} (h : d.Valid) : d.next.Valid := by
  obtain ⟨hm, hd⟩ := h
  unfold Date.next
  split
  · exact ⟨hm, by constructor <;> dsimp only <;> omega⟩
  split
  · have := (monthLength_bounds d.year (d.month + 1)).1
    exact ⟨by dsimp only; omega, by dsimp only; omega⟩
  · have := (monthLength_bounds (d.year + 1) 1).1
    exact ⟨by dsimp only; omega, by dsimp only; omega⟩

/-! ## Counting days -/

/-- The days before a year, from the year 1 on. -/
def daysBeforeYear (year : ℤ) : ℤ :=
  365 * (year - 1) + (year - 1) / 4 - (year - 1) / 100 + (year - 1) / 400

/-- The days of a year before a month. -/
def daysBeforeMonth (year : ℤ) (month : ℕ) : ℤ :=
  match month with
  | 0 => 0
  | 1 => 0
  | m + 2 => daysBeforeMonth year (m + 1) + monthLength year (m + 1)

/-- The number of a date; 1970-01-01 has number 0. -/
def dayNumber (d : Date) : ℤ :=
  daysBeforeYear d.year - daysBeforeYear 1970 + daysBeforeMonth d.year d.month.toNat + (d.day - 1)

theorem dayNumber_epoch : dayNumber ⟨1970, 1, 1⟩ = 0 := by
  decide

/-- A year has 366 days when it is a leap year, else 365. -/
theorem daysBeforeYear_succ (year : ℤ) :
    daysBeforeYear (year + 1) = daysBeforeYear year + if IsLeap year then 366 else 365 := by
  unfold daysBeforeYear
  split
  · rename_i hleap
    obtain ⟨h₄, h⟩ := hleap
    omega
  · rename_i hleap
    unfold IsLeap at hleap
    omega

/-- The months of a year have the days of the year. -/
theorem daysBeforeMonth_thirteen (year : ℤ) :
    daysBeforeMonth year 13 = if IsLeap year then 366 else 365 := by
  by_cases h : IsLeap year <;> simp [daysBeforeMonth, monthLength, h]

theorem daysBeforeMonth_succ (year : ℤ) {month : ℤ} (h : 1 ≤ month) :
    daysBeforeMonth year (month + 1).toNat =
      daysBeforeMonth year month.toNat + monthLength year month := by
  obtain ⟨m, rfl⟩ : ∃ m : ℕ, month = m + 1 := ⟨(month - 1).toNat, by omega⟩
  have h₁ : ((m : ℤ) + 1 + 1).toNat = m + 2 := by omega
  have h₂ : ((m : ℤ) + 1).toNat = m + 1 := by omega
  rw [h₁, h₂, daysBeforeMonth]

/-- **Days are counted one by one.** -/
theorem dayNumber_next {d : Date} (h : d.Valid) : dayNumber d.next = dayNumber d + 1 := by
  obtain ⟨hm, hd⟩ := h
  unfold Date.next
  split
  · simp only [dayNumber]
    omega
  have hlast : d.day = monthLength d.year d.month := by omega
  split
  · have hsucc := daysBeforeMonth_succ d.year hm.1
    simp only [dayNumber]
    omega
  · -- the last day of a year
    have hmonth : d.month = 12 := by omega
    have hsucc := daysBeforeMonth_succ d.year hm.1
    have hyear := daysBeforeYear_succ d.year
    rw [hmonth, show ((12 : ℤ) + 1).toNat = 13 from rfl, daysBeforeMonth_thirteen] at hsucc
    have hfirst : daysBeforeMonth (d.year + 1) (1 : ℤ).toNat = 0 := rfl
    rw [hmonth] at hlast
    simp only [dayNumber, hmonth, hfirst]
    omega

/-! ## Years from March on -/

/-- The year in which the last March 1st lies. -/
def marchYear (d : Date) : ℤ :=
  if d.month ≤ 2 then d.year - 1 else d.year

/-- The month counted from March. -/
def marchMonth (d : Date) : ℤ :=
  if d.month ≤ 2 then d.month + 9 else d.month - 3

/-- The days from 0000-03-01 to 1970-01-01. -/
def epochShift : ℤ := 719468

/-- **The number of a date**, in years that end with the leap day: the lengths of the months are
those of a line of slope 153 / 5. -/
theorem dayNumber_eq_march {d : Date} (h : d.Valid) :
    dayNumber d + epochShift = 365 * marchYear d + marchYear d / 4 - marchYear d / 100
      + marchYear d / 400 + (153 * marchMonth d + 2) / 5 + (d.day - 1) := by
  obtain ⟨year, month, day⟩ := d
  obtain ⟨⟨hm₁, hm₂⟩, -⟩ := h
  dsimp only at hm₁ hm₂
  interval_cases month <;>
    simp [dayNumber, marchYear, marchMonth, epochShift, daysBeforeYear, daysBeforeMonth,
      monthLength] at * <;>
    first
    | omega
    | (split <;> rename_i hleap <;> unfold IsLeap at hleap <;> omega)

/-! ## The date of a number -/

/-- The year of an era that a day of the era lies in. -/
def yearOfEra (doe : ℤ) : ℤ :=
  (doe - doe / 1460 + doe / 36524 - doe / 146096) / 365

/-- The day of the year, for a year of an era. -/
def dayOfYear (doe yoe : ℤ) : ℤ :=
  doe - (365 * yoe + yoe / 4 - yoe / 100)

/-- The date of a day of a year that starts in March. -/
def dateInYear (marchYear doy : ℤ) : Date :=
  let mp := (5 * doy + 2) / 153
  let month := if mp < 10 then mp + 3 else mp - 9
  ⟨if month ≤ 2 then marchYear + 1 else marchYear, month, doy - (153 * mp + 2) / 5 + 1⟩

/-- The date of a number. -/
def dateOfDay (n : ℤ) : Date :=
  let era := (n + epochShift) / 146097
  let doe := (n + epochShift) % 146097
  dateInYear (yearOfEra doe + era * 400) (dayOfYear doe (yearOfEra doe))

/-- The year by its century, its four-year cycle and its place there. -/
theorem yearOfEra_eq {c k j s doe : ℤ} (hc : 0 ≤ c ∧ c ≤ 3) (hk : 0 ≤ k ∧ k ≤ 24)
    (hj : 0 ≤ j ∧ j ≤ 3) (hs : 365 * j ≤ s) (hs' : s < 365 * (j + 1) ∨ j = 3 ∧ s ≤ 1460)
    (hr : 1461 * k + s < 36524) (hdoe : doe = 36524 * c + 1461 * k + s) :
    yearOfEra doe = 100 * c + 4 * k + j := by
  have hcentury : doe / 36524 = c := by omega
  have hera : doe / 146096 = 0 := by omega
  -- the leap days seen so far
  have hleaps : doe / 1460 = 25 * c + k ∨ doe / 1460 = 25 * c + k + 1 ∧ 1364 ≤ s := by omega
  unfold yearOfEra
  rw [hcentury, hera]
  rcases hleaps with hleaps | ⟨hleaps, hlate⟩
  · rw [hleaps]
    omega
  · rw [hleaps]
    omega

/-- **The year of a day of an era**: the day falls into it, and on its 366th day only when the
next calendar year is a leap year. -/
theorem yearOfEra_spec {doe : ℤ} (h : 0 ≤ doe ∧ doe < 146097) :
    0 ≤ yearOfEra doe ∧ yearOfEra doe ≤ 399 ∧ 0 ≤ dayOfYear doe (yearOfEra doe) ∧
      (dayOfYear doe (yearOfEra doe) ≤ 364 ∨
        dayOfYear doe (yearOfEra doe) = 365 ∧ IsLeap (yearOfEra doe + 1)) := by
  unfold dayOfYear
  by_cases hlast : doe = 146096
  · -- the leap day at the end of the era
    subst hlast
    decide
  obtain ⟨c, hc⟩ : ∃ c, c = doe / 36524 := ⟨_, rfl⟩
  obtain ⟨k, hk⟩ : ∃ k, k = doe % 36524 / 1461 := ⟨_, rfl⟩
  obtain ⟨s, hs⟩ : ∃ s, s = doe % 36524 % 1461 := ⟨_, rfl⟩
  obtain ⟨j, hj⟩ : ∃ j, j = min (s / 365) 3 := ⟨_, rfl⟩
  have hyear : yearOfEra doe = 100 * c + 4 * k + j := by
    apply yearOfEra_eq (s := s) <;> omega
  have hbounds : 0 ≤ c ∧ c ≤ 3 ∧ 0 ≤ k ∧ k ≤ 24 ∧ 0 ≤ s ∧ s ≤ 1460 ∧ 0 ≤ j ∧ j ≤ 3 := by omega
  have hfour : (100 * c + 4 * k + j) / 4 = 25 * c + k := by omega
  have hhundred : (100 * c + 4 * k + j) / 100 = c := by omega
  have hdoy : doe - (365 * (100 * c + 4 * k + j) + (100 * c + 4 * k + j) / 4
      - (100 * c + 4 * k + j) / 100) = s - 365 * j := by
    rw [hfour, hhundred]
    omega
  rw [hyear, hdoy]
  refine ⟨by omega, by omega, by omega, ?_⟩
  by_cases hday : s - 365 * j ≤ 364
  · exact .inl hday
  · have hleapDay : j = 3 ∧ s = 1460 := by omega
    obtain ⟨rfl, rfl⟩ := hleapDay
    refine .inr ⟨by omega, by omega, ?_⟩
    by_cases hcentury : k = 24
    · exact absurd hcentury (by omega)
    · exact .inl (by omega)

/-- The date of a day of a year exists, and is that day of the year. -/
theorem dateInYear_spec {year doy : ℤ} (h : 0 ≤ doy)
    (hlen : doy ≤ 364 ∨ doy = 365 ∧ IsLeap (year + 1)) :
    (dateInYear year doy).Valid ∧ marchYear (dateInYear year doy) = year ∧
      (153 * marchMonth (dateInYear year doy) + 2) / 5 + ((dateInYear year doy).day - 1) = doy := by
  obtain ⟨mp, hmp⟩ : ∃ mp, mp = (5 * doy + 2) / 153 := ⟨_, rfl⟩
  have hrange : 0 ≤ mp ∧ mp ≤ 11 := by omega
  obtain ⟨hlow, hhigh⟩ := hrange
  have hmax : doy ≤ if IsLeap (year + 1) then 365 else 364 := by
    rcases hlen with hlen | ⟨hlen, hleap⟩
    · split <;> omega
    · rw [if_pos hleap]
      omega
  unfold dateInYear
  rw [← hmp]
  refine ⟨⟨?_, ?_⟩, ?_, ?_⟩
  · dsimp only
    split <;> constructor <;> omega
  · by_cases hleap : IsLeap (year + 1) <;> simp only [hleap, if_true, if_false] at hmax <;>
      interval_cases mp <;> simp [monthLength, hleap] <;> omega
  · unfold marchYear
    dsimp only
    split <;> split <;> omega
  · unfold marchMonth
    dsimp only
    split <;> split <;> omega

/-- **The date of a number** exists and has that number. -/
theorem dateOfDay_spec (n : ℤ) : (dateOfDay n).Valid ∧ dayNumber (dateOfDay n) = n := by
  obtain ⟨era, hera⟩ : ∃ era, era = (n + epochShift) / 146097 := ⟨_, rfl⟩
  obtain ⟨doe, hdoe⟩ : ∃ doe, doe = (n + epochShift) % 146097 := ⟨_, rfl⟩
  have hdate : dateOfDay n =
      dateInYear (yearOfEra doe + era * 400) (dayOfYear doe (yearOfEra doe)) := by
    rw [dateOfDay, ← hera, ← hdoe]
  have hdoe : 0 ≤ doe ∧ doe < 146097 := by omega
  obtain ⟨hyear₀, hyear₁, hdoy, hlen⟩ := yearOfEra_spec hdoe
  have hlast : dayOfYear doe (yearOfEra doe) ≤ 364 ∨
      dayOfYear doe (yearOfEra doe) = 365 ∧ IsLeap (yearOfEra doe + era * 400 + 1) := by
    rcases hlen with hlen | ⟨hlen, hleap⟩
    · exact .inl hlen
    · refine .inr ⟨hlen, ?_⟩
      unfold IsLeap at hleap ⊢
      omega
  obtain ⟨hvalid, hmarch, hday⟩ := dateInYear_spec hdoy hlast
  rw [hdate]
  refine ⟨hvalid, ?_⟩
  have hnumber := dayNumber_eq_march hvalid
  rw [hmarch] at hnumber
  unfold dayOfYear at *
  omega

/-! ## One date for every number -/

/-- The day of the year of a date. -/
theorem daysBeforeMonth_lt {d : Date} (h : d.Valid) :
    0 ≤ daysBeforeMonth d.year d.month.toNat + (d.day - 1) ∧
      daysBeforeMonth d.year d.month.toNat + (d.day - 1) < if IsLeap d.year then 366 else 365 := by
  obtain ⟨year, month, day⟩ := d
  obtain ⟨⟨hm₁, hm₂⟩, hd₁, hd₂⟩ := h
  dsimp only at hm₁ hm₂ hd₁ hd₂ ⊢
  interval_cases month <;> by_cases hleap : IsLeap year <;>
    simp [daysBeforeMonth, monthLength, hleap] at hd₂ ⊢ <;> omega

theorem daysBeforeYear_mono {year year' : ℤ} (h : year ≤ year') :
    daysBeforeYear year ≤ daysBeforeYear year' := by
  unfold daysBeforeYear
  omega

theorem daysBeforeMonth_mono (year : ℤ) : Monotone (daysBeforeMonth year) := by
  apply monotone_nat_of_le_succ
  intro m
  cases m with
  | zero => exact le_rfl
  | succ m =>
    have := (monthLength_bounds year (m + 1)).1
    rw [daysBeforeMonth]
    omega

/-- An earlier year has the smaller numbers. -/
theorem dayNumber_lt_of_year {a b : Date} (ha : a.Valid) (hb : b.Valid) (h : a.year < b.year) :
    dayNumber a < dayNumber b := by
  have hnext := daysBeforeYear_mono (show a.year + 1 ≤ b.year by omega)
  rw [daysBeforeYear_succ] at hnext
  have hda := (daysBeforeMonth_lt ha).2
  have hdb := (daysBeforeMonth_lt hb).1
  unfold dayNumber
  omega

/-- In a year, an earlier month has the smaller numbers. -/
theorem dayNumber_lt_of_month {a b : Date} (ha : a.Valid) (hb : b.Valid) (hy : a.year = b.year)
    (h : a.month < b.month) : dayNumber a < dayNumber b := by
  have hnext := daysBeforeMonth_mono a.year (show (a.month + 1).toNat ≤ b.month.toNat by omega)
  rw [daysBeforeMonth_succ a.year ha.month.1] at hnext
  have hda := ha.day.2
  have hdb := hb.day.1
  rw [dayNumber, dayNumber, ← hy]
  omega

/-- **A date is determined by its number.** -/
theorem dayNumber_injective {a b : Date} (ha : a.Valid) (hb : b.Valid)
    (h : dayNumber a = dayNumber b) : a = b := by
  have hyear : a.year = b.year := by
    rcases lt_trichotomy a.year b.year with hlt | heq | hlt
    · exact absurd h (dayNumber_lt_of_year ha hb hlt).ne
    · exact heq
    · exact absurd h (dayNumber_lt_of_year hb ha hlt).ne'
  have hmonth : a.month = b.month := by
    rcases lt_trichotomy a.month b.month with hlt | heq | hlt
    · exact absurd h (dayNumber_lt_of_month ha hb hyear hlt).ne
    · exact heq
    · exact absurd h (dayNumber_lt_of_month hb ha hyear.symm hlt).ne'
  obtain ⟨year, month, day⟩ := a
  obtain ⟨year', month', day'⟩ := b
  obtain rfl : year = year' := hyear
  obtain rfl : month = month' := hmonth
  have hday : day = day' := by
    unfold dayNumber at h
    dsimp only at h
    omega
  rw [hday]

/-- The date of the next number is the next date. -/
theorem dateOfDay_succ (n : ℤ) : dateOfDay (n + 1) = (dateOfDay n).next := by
  obtain ⟨hvalid, hnumber⟩ := dateOfDay_spec n
  apply dayNumber_injective (dateOfDay_spec _).1 hvalid.next
  rw [(dateOfDay_spec _).2, dayNumber_next hvalid, hnumber]

/-- Dates of all numbers, counted from 1970-01-01 to the next and to the previous day. -/
structure CountsDays (date : ℤ → Date) : Prop where
  epoch : date 0 = ⟨1970, 1, 1⟩
  next : ∀ n, date (n + 1) = (date n).next
  valid : ∀ n, (date n).Valid

theorem countsDays_dateOfDay : CountsDays dateOfDay where
  epoch := by decide
  next := dateOfDay_succ
  valid n := (dateOfDay_spec n).1

/-- Going from one day to the next, starting from 1970-01-01, gives the date of every number. -/
theorem CountsDays.eq_dateOfDay {date : ℤ → Date} (h : CountsDays date) : date = dateOfDay := by
  funext n
  obtain ⟨hzero, hsucc, hvalid⟩ := h
  refine dayNumber_injective (hvalid n) (dateOfDay_spec n).1 ?_
  rw [(dateOfDay_spec n).2]
  induction n using Int.induction_on with
  | zero => rw [hzero, dayNumber_epoch]
  | succ n ih => rw [hsucc, dayNumber_next (hvalid _), ih]
  | pred n ih =>
    have hstep : date (-(n : ℤ)) = (date (-(n : ℤ) - 1)).next := by
      rw [← hsucc]
      congr 1
      omega
    rw [hstep, dayNumber_next (hvalid _)] at ih
    omega

/-- The years of a range are the numbers of a range. -/
theorem year_bounds {n a b : ℤ} (ha : a ≤ (dateOfDay n).year) (hb : (dateOfDay n).year < b) :
    daysBeforeYear a - daysBeforeYear 1970 ≤ n ∧ n < daysBeforeYear b - daysBeforeYear 1970 := by
  obtain ⟨hvalid, hnumber⟩ := dateOfDay_spec n
  have hlow := daysBeforeYear_mono ha
  have hhigh := daysBeforeYear_mono (show (dateOfDay n).year + 1 ≤ b by omega)
  rw [daysBeforeYear_succ] at hhigh
  have hday := daysBeforeMonth_lt hvalid
  unfold dayNumber at hnumber
  omega

end Calendar
