/-
# Dates and times as text

The three copies of the calendar arithmetic — `civil_from_days` of the export, the date a search
renders in front of a text, and `days_to_ymd` of the structural queries — and the texts built
from them.  Every operation on a machine integer is checked, and a computation that overflows
has no result.

* `eraDate_eq` — the arithmetic the copies share, in a type that holds a million;
* `civilFromDays_eq`, `epochMsDate_eq`, `daysToYmd_eq` — each copy computes the date of the
  calendar;
* `formatTimestamp_eq`, `formatRfc3339Ms_eq` — the texts.
-/
import Memd.Calendar
import Memd.MachineInt
import Memd.MemorySearch

open Calendar IntType

/-! ## The arithmetic -/

/-- What the copies share: the year of the era, the month and the day of a day of an era, with
operations of one type. -/
def eraDate (t : IntType) (doe : ℤ) : Option (ℤ × ℤ × ℤ) := do
  let x ← t.checked (doe - doe / 1460)
  let x ← t.checked (x + doe / 36524)
  let x ← t.checked (x - doe / 146096)
  let yoe := x / 365
  let x ← t.checked (365 * yoe)
  let x ← t.checked (x + yoe / 4)
  let x ← t.checked (x - yoe / 100)
  let doy ← t.checked (doe - x)
  let x ← t.checked (5 * doy)
  let x ← t.checked (x + 2)
  let mp := x / 153
  let x ← t.checked (153 * mp)
  let x ← t.checked (x + 2)
  let x ← t.checked (doy - x / 5)
  let day ← t.checked (x + 1)
  let month ← t.checked (if mp < 10 then mp + 3 else mp - 9)
  pure (yoe, month, day)

/-- `civil_from_days`; a year outside an `i32` is the inner `none`. -/
def civilFromDays (days : ℤ) : Option (Option Date) := do
  let z ← i64.checked (days + 719468)
  let era := z / 146097
  let (yoe, m, d) ← eraDate u64 (z % 146097)
  let y ← i64.checked (era * 400)
  let y ← i64.checked (yoe + y)
  let d := u32.cast d
  let m := u32.cast m
  let y ← i64.checked (y + if m ≤ 2 then 1 else 0)
  pure (if i32.Fits y then some ⟨y, m, d⟩ else none)

/-- The date of `format_epoch_ms_date`. -/
def epochMsDate (ms : ℤ) : Option Date := do
  let days := ms / 86400000
  let z ← i64.checked (days + 719468)
  let era := z / 146097
  let x ← i64.checked (era * 146097)
  let doe ← i64.checked (z - x)
  let (yoe, month, day) ← eraDate i64 doe
  let x ← i64.checked (era * 400)
  let year ← i64.checked (yoe + x)
  let year ← i64.checked (if month ≤ 2 then year + 1 else year)
  pure ⟨year, month, day⟩

/-- `days_to_ymd`. -/
def daysToYmd (days : ℤ) : Option Date := do
  let z ← i64.checked (days + 719468)
  let x ← if z ≥ 0 then some z else i64.checked (z - 146096)
  let era := x.tdiv 146097
  let x ← i64.checked (era * 146097)
  let doe ← i64.checked (z - x)
  let (yoe, m, d) ← eraDate u32 (u32.cast doe)
  let x ← i64.checked (era * 400)
  let y ← i64.checked (yoe + x)
  let year ← i64.checked (y + if m ≤ 2 then 1 else 0)
  pure ⟨i32.cast year, m, d⟩

/-! ## The dates -/

/-- A type that holds the intermediate results. -/
def HoldsCalendar (t : IntType) : Prop :=
  ∀ v, 0 ≤ v → v ≤ 1000000 → t.Fits v

theorem holds_u32 : HoldsCalendar u32 := fun v h h' => by
  rw [fits_u32]
  omega

theorem holds_u64 : HoldsCalendar u64 := fun v h h' => by
  rw [fits_u64]
  omega

theorem holds_i64 : HoldsCalendar i64 := fun v h h' => by
  rw [fits_i64]
  omega

/-- **The shared arithmetic** does not overflow on a day of an era. -/
theorem eraDate_eq {t : IntType} (ht : HoldsCalendar t) {doe : ℤ} (h : 0 ≤ doe ∧ doe < 146097) :
    eraDate t doe = some (yearOfEra doe,
      (dateInYear (yearOfEra doe) (dayOfYear doe (yearOfEra doe))).month,
      (dateInYear (yearOfEra doe) (dayOfYear doe (yearOfEra doe))).day) := by
  obtain ⟨hyear₀, hyear₁, hdoy, hlen⟩ := yearOfEra_spec h
  have hmax : dayOfYear doe (yearOfEra doe) ≤ 365 := by
    rcases hlen with hlen | ⟨hlen, -⟩ <;> omega
  unfold eraDate
  rw [checked_bind (ht _ (by omega) (by omega)), checked_bind (ht _ (by omega) (by omega)),
    checked_bind (ht _ (by omega) (by omega))]
  have hyoe : (doe - doe / 1460 + doe / 36524 - doe / 146096) / 365 = yearOfEra doe := rfl
  dsimp only
  rw [hyoe]
  generalize hy : yearOfEra doe = yoe at *
  rw [checked_bind (ht _ (by omega) (by omega)), checked_bind (ht _ (by omega) (by omega)),
    checked_bind (ht _ (by omega) (by omega))]
  have hday : doe - (365 * yoe + yoe / 4 - yoe / 100) = dayOfYear doe yoe := rfl
  rw [hday]
  generalize dayOfYear doe yoe = doy at *
  rw [checked_bind (ht _ (by omega) (by omega)), checked_bind (ht _ (by omega) (by omega)),
    checked_bind (ht _ (by omega) (by omega))]
  rw [checked_bind (ht _ (by omega) (by omega)), checked_bind (ht _ (by omega) (by omega)),
    checked_bind (ht _ (by omega) (by omega)), checked_bind (ht _ (by omega) (by omega)),
    checked_bind (ht _ (by split <;> omega) (by split <;> omega))]
  rfl

/-- The parts of the date of a number. -/
theorem eraDate_dateOfDay {t : IntType} (ht : HoldsCalendar t) (n : ℤ) : ∃ yoe, 0 ≤ yoe ∧ yoe ≤ 399 ∧
    eraDate t ((n + 719468) % 146097) = some (yoe, (dateOfDay n).month, (dateOfDay n).day) ∧
    (dateOfDay n).year =
      yoe + (n + 719468) / 146097 * 400 + if (dateOfDay n).month ≤ 2 then 1 else 0 := by
  have hdoe : 0 ≤ (n + 719468) % 146097 ∧ (n + 719468) % 146097 < 146097 := by omega
  obtain ⟨hyear₀, hyear₁, -, -⟩ := yearOfEra_spec hdoe
  refine ⟨_, hyear₀, hyear₁, eraDate_eq ht hdoe, ?_⟩
  unfold dateOfDay dateInYear epochShift
  dsimp only
  split <;> split <;> omega

theorem dateOfDay_bounds (n : ℤ) : 1 ≤ (dateOfDay n).month ∧ (dateOfDay n).month ≤ 12 ∧
    1 ≤ (dateOfDay n).day ∧ (dateOfDay n).day ≤ 31 := by
  obtain ⟨⟨hm₁, hm₂⟩, hd₁, hd₂⟩ := (dateOfDay_spec n).1
  have := (monthLength_bounds (dateOfDay n).year (dateOfDay n).month).2
  omega

/-- The numbers of the years 0001 to 9999. -/
theorem day_bounds {n : ℤ} (h : 1 ≤ (dateOfDay n).year ∧ (dateOfDay n).year ≤ 9999) :
    -719162 ≤ n ∧ n ≤ 2932896 := by
  have hbounds := year_bounds h.1 (show (dateOfDay n).year < 10000 by omega)
  have hone : daysBeforeYear 1 = 0 := by decide
  have hepoch : daysBeforeYear 1970 = 719162 := by decide
  have hlast : daysBeforeYear 10000 = 3652059 := by decide
  omega

/-- **The copy of the export** computes the date of the calendar. -/
theorem civilFromDays_eq {n : ℤ} (h : 1 ≤ (dateOfDay n).year ∧ (dateOfDay n).year ≤ 9999) :
    civilFromDays n = some (some (dateOfDay n)) := by
  obtain ⟨hlow, hhigh⟩ := day_bounds h
  obtain ⟨hm₁, hm₂, hd₁, hd₂⟩ := dateOfDay_bounds n
  obtain ⟨yoe, hy₀, hy₁, hera, hyear⟩ := eraDate_dateOfDay holds_u64 n
  unfold civilFromDays
  rw [checked_bind (by rw [fits_i64]; omega)]
  dsimp only
  rw [hera, some_bind]
  dsimp only
  rw [checked_bind (by rw [fits_i64]; omega), checked_bind (by rw [fits_i64]; omega),
    cast_of_fits (by rw [fits_u32]; omega), cast_of_fits (by rw [fits_u32]; omega), ← hyear,
    checked_bind (by rw [fits_i64]; omega), if_pos (by rw [fits_i32]; omega)]
  rfl

/-- **The copy of the search** does. -/
theorem epochMsDate_eq {ms : ℤ}
    (h : 1 ≤ (dateOfDay (ms / 86400000)).year ∧ (dateOfDay (ms / 86400000)).year ≤ 9999) :
    epochMsDate ms = some (dateOfDay (ms / 86400000)) := by
  obtain ⟨hlow, hhigh⟩ := day_bounds h
  obtain ⟨yoe, hy₀, hy₁, hera, hyear⟩ := eraDate_dateOfDay holds_i64 (ms / 86400000)
  have hdoe : ms / 86400000 + 719468 - (ms / 86400000 + 719468) / 146097 * 146097 =
      (ms / 86400000 + 719468) % 146097 := by omega
  unfold epochMsDate
  dsimp only
  rw [checked_bind (by rw [fits_i64]; omega)]
  rw [checked_bind (by rw [fits_i64]; omega), checked_bind (by rw [fits_i64]; omega), hdoe, hera,
    some_bind]
  dsimp only
  rw [checked_bind (by rw [fits_i64]; omega), checked_bind (by rw [fits_i64]; omega)]
  have hfinal : (if (dateOfDay (ms / 86400000)).month ≤ 2 then
      yoe + (ms / 86400000 + 719468) / 146097 * 400 + 1
      else yoe + (ms / 86400000 + 719468) / 146097 * 400) = (dateOfDay (ms / 86400000)).year := by
    rw [hyear]
    split <;> omega
  rw [hfinal, checked_bind (by rw [fits_i64]; omega)]
  rfl

/-- **The copy of the structural queries** does, on every day a millisecond of an `i64` can
lie in from the year 0001 on. -/
theorem daysToYmd_eq {n : ℤ} (hlow : -719162 ≤ n) (hhigh : n ≤ 106751991167) :
    daysToYmd n = some (dateOfDay n) := by
  obtain ⟨yoe, hy₀, hy₁, hera, hyear⟩ := eraDate_dateOfDay holds_u32 n
  have hpos : n + 719468 ≥ 0 := by omega
  have hdiv : (n + 719468).tdiv 146097 = (n + 719468) / 146097 := Int.tdiv_eq_ediv_of_nonneg hpos
  have hdoe : n + 719468 - (n + 719468) / 146097 * 146097 = (n + 719468) % 146097 := by omega
  unfold daysToYmd
  rw [checked_bind (by rw [fits_i64]; omega), if_pos hpos, some_bind]
  dsimp only
  rw [hdiv, checked_bind (by rw [fits_i64]; omega), checked_bind (by rw [fits_i64]; omega), hdoe,
    cast_of_fits (by rw [fits_u32]; omega), hera, some_bind]
  dsimp only
  rw [checked_bind (by rw [fits_i64]; omega), checked_bind (by rw [fits_i64]; omega), ← hyear,
    checked_bind (by rw [fits_i64]; omega), cast_of_fits (by rw [fits_i32]; omega)]
  rfl

/-! ## The texts -/

/-- A date as `{:04}-{:02}-{:02}` writes it. -/
def dateText (d : Date) : String :=
  s!"{paddedInt 4 d.year}-{paddedInt 2 d.month}-{paddedInt 2 d.day}"

/-- A date and the seconds of its day. -/
def dateTimeText (d : Date) (secs : ℤ) : String :=
  s!"{dateText d}T{paddedInt 2 (secs / 3600)}:{paddedInt 2 (secs % 3600 / 60)}:{paddedInt 2 (secs % 60)}"

/-- `format_timestamp`. -/
def formatTimestamp (ms : ℤ) : Option String :=
  if 0 ≤ ms ∧ ms ≤ i64.max / 2 then do
    let secs := ms / 1000
    let d ← daysToYmd (secs / 86400)
    pure s!"{dateTimeText d (secs % 86400)}.{paddedInt 3 (ms % 1000)}Z"
  else some s!"{ms}ms"

/-- `format_rfc3339_ms`; a year outside the range of the format is the inner `none`. -/
def formatRfc3339Ms (ms : ℤ) : Option (Option String) := do
  let seconds := ms / 1000
  let civil ← civilFromDays (seconds / 86400)
  pure (civil.bind fun d =>
    if 1 ≤ d.year ∧ d.year ≤ 9999 then some s!"{dateTimeText d (seconds % 86400)}Z" else none)

/-- The date in front of a text is the one of `epochMsDate`. -/
theorem formatEpochMsDate_eq (ms : ℤ) :
    formatEpochMsDate ms = dateText (dateOfDay (ms / 86400000)) := by
  have hdoe : ms / 86400000 + 719468 - (ms / 86400000 + 719468) / 146097 * 146097 =
      (ms / 86400000 + 719468) % 146097 := by omega
  unfold formatEpochMsDate
  dsimp only
  rw [hdoe]
  rfl

theorem formatTimestamp_eq {ms : ℤ} (hlow : 0 ≤ ms) (hhigh : ms ≤ i64.max / 2) :
    formatTimestamp ms = some (dateTimeText (dateOfDay (ms / 86400000)) (ms / 1000 % 86400) ++
      "." ++ paddedInt 3 (ms % 1000) ++ "Z") := by
  have hmax : i64.max / 2 = 4611686018427387903 := by decide
  have hdays : ms / 1000 / 86400 = ms / 86400000 := by omega
  unfold formatTimestamp
  rw [if_pos ⟨hlow, hhigh⟩]
  dsimp only
  rw [hdays, daysToYmd_eq (by omega) (by omega)]
  rfl

theorem formatRfc3339Ms_eq {ms : ℤ}
    (h : 1 ≤ (dateOfDay (ms / 86400000)).year ∧ (dateOfDay (ms / 86400000)).year ≤ 9999) :
    formatRfc3339Ms ms =
      some (some (dateTimeText (dateOfDay (ms / 86400000)) (ms / 1000 % 86400) ++ "Z")) := by
  have hdays : ms / 1000 / 86400 = ms / 86400000 := by omega
  unfold formatRfc3339Ms
  dsimp only
  rw [hdays, civilFromDays_eq h, some_bind, Option.bind_some, if_pos h]
  rfl
