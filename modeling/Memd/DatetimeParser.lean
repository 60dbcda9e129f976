/-
# Reading a datetime

`parse_iso_datetime` of the structural queries, on the characters of its text and the bytes they
are cut at.  `ParseStop.invalid` is the `None` of the source, `ParseStop.panic` a slice inside a
character or an operation that overflows.

* `Literal` — the datetimes of the format, with their text and their instant;
* `Literal.Valid.parse` — the text of a literal is read as its instant;
* `formatTimestamp_read`, `formatRfc3339Ms_read` — so are the texts that memd writes;
* `dates_agree` — the copies of the calendar arithmetic agree.
-/
import Memd.DateFormats
import Memd.Utf8Text

open Calendar IntType Utf8Text Text

/-! ## The parser -/

/-- How reading ends without a result. -/
inductive ParseStop
  | invalid
  | panic
  deriving DecidableEq, Repr

/-- A `None` that ends the reading. -/
def orInvalid {α : Type} (value : Option α) : Except ParseStop α :=
  match value with
  | some a => .ok a
  | none => .error .invalid

/-- An operation that must not overflow. -/
def orPanic {α : Type} (value : Option α) : Except ParseStop α :=
  match value with
  | some a => .ok a
  | none => .error .panic

/-- `s.get(m..n)?.parse().ok()?`. -/
def readField (t : IntType) (s : List Char) (m n : ℕ) : Except ParseStop ℤ :=
  orInvalid ((slice s m n).bind t.parseInt)

/-- `s.get(m..n)?` must be the given character. -/
def expectChar (s : List Char) (m n : ℕ) (c : Char) : Except ParseStop Unit :=
  if slice s m n = some [c] then .ok () else .error .invalid

/-- Hours and minutes of a zone, parsed one after the other. -/
def parsePair (hour minute : List Char) : Except ParseStop (ℤ × ℤ) := do
  let hours ← orInvalid (i32.parseInt hour)
  let minutes ← orInvalid (i32.parseInt minute)
  pure (hours, minutes)

/-- The hours and the minutes of a zone: around a colon, or in the halves of four bytes. -/
def readZoneParts (tz : List Char) : Except ParseStop (ℤ × ℤ) :=
  if ':' ∈ tz then
    if ':' ∈ (tz.dropWhile (· ≠ ':')).tail then .error .invalid
    else parsePair (tz.takeWhile (· ≠ ':')) (tz.dropWhile (· ≠ ':')).tail
  else if Utf8Text.byteLen tz = 4 then
    -- `tz[..2]` and `tz[2..]`
    match splitAtByte tz 2 with
    | some (hour, minute) => parsePair hour minute
    | none => .error .panic
  else .error .invalid

/-- `sign * (hours * 60 + minutes)`. -/
def zoneMinutes (sign hours minutes : ℤ) : Except ParseStop ℤ :=
  orPanic do
    let x ← i32.checked (hours * 60)
    let x ← i32.checked (x + minutes)
    i32.checked (sign * x)

/-- The zone after its sign. -/
def readZone (sign : ℤ) (tz : List Char) : Except ParseStop ℤ := do
  let (hours, minutes) ← readZoneParts tz
  zoneMinutes sign hours minutes

/-- The offset of a zone in minutes. -/
def readOffset : List Char → Except ParseStop ℤ
  | [] => .ok 0
  | ['Z'] => .ok 0
  | '+' :: tz => readZone 1 tz
  | '-' :: tz => readZone (-1) tz
  | _ => .error .invalid

/-- The milliseconds of the digits of a fraction. -/
def readMillis (frac : List Char) : Except ParseStop ℤ :=
  orInvalid (u32.parseInt (if 3 ≤ frac.length then frac.take 3
    else frac ++ List.replicate (3 - frac.length) '0'))

/-- `parse_millis_and_tz`. -/
def parseMillisAndTz (s : List Char) : Except ParseStop (ℤ × ℤ) :=
  match trim s with
  | [] => .ok (0, 0)
  | '.' :: fractional => do
    let millis ← readMillis (fractional.takeWhile Char.isDigit)
    let offset ← readOffset (fractional.dropWhile Char.isDigit)
    pure (millis, offset)
  | rest => do
    let offset ← readOffset rest
    pure (0, offset)

/-- The year and the month of `ymd_to_days`, which start in March. -/
def shiftedYear (year month : ℤ) : Option ℤ :=
  if month ≤ 2 then i32.checked (year - 1) else some year

/-- `month - 3` for the years that start in March; the subtraction may wrap. -/
def shiftedMonth (month : ℤ) : Option ℤ :=
  if month ≤ 2 then u32.checked (month + 12) else some month

/-- The dividend of the era, for a division that rounds towards zero. -/
def eraDividend (y : ℤ) : Option ℤ :=
  if y ≥ 0 then some y else i32.checked (y - 399)

/-- `ymd_to_days`: the days of a month are not looked up. -/
def ymdToDays (year month day : ℤ) : Except ParseStop ℤ :=
  if ¬ (1 ≤ month ∧ month ≤ 12) ∨ ¬ (1 ≤ day ∧ day ≤ 31) then .error .invalid
  else orPanic do
    -- the year starts in March, so that the leap day is its last day
    let y ← shiftedYear year month
    let m ← shiftedMonth month
    let x ← eraDividend y
    -- the era of 400 years, the year of the era, the day of the year and the day of the era
    let era := x.tdiv 400
    let x ← i32.checked (era * 400)
    let x ← i32.checked (y - x)
    let yoe := u32.cast x
    let x ← u32.checked (m - 3)
    let x ← u32.checked (153 * x)
    let x ← u32.checked (x + 2)
    let x ← u32.checked (x / 5 + day)
    let doy ← u32.checked (x - 1)
    let x ← u32.checked (yoe * 365)
    let x ← u32.checked (x + yoe / 4)
    let x ← u32.checked (x - yoe / 100)
    let doe ← u32.checked (x + doy)
    -- 1970-01-01 is day 719468 of the eras
    let x ← i64.checked (era * 146097)
    let x ← i64.checked (x + doe)
    i64.checked (x - 719468)

/-- The statements of `parse_rfc3339` behind the cuts. -/
def assemble (year month day hour minute second : ℤ) (rest : List Char) :
    Except ParseStop ℤ := do
  let (millis, tzOffsetMins) ← parseMillisAndTz rest
  let days ← ymdToDays year month day
  let x ← orPanic (i64.checked (days * 86400))
  let h ← orPanic (i64.checked (hour * 3600))
  let x ← orPanic (i64.checked (x + h))
  let m ← orPanic (i64.checked (minute * 60))
  let x ← orPanic (i64.checked (x + m))
  let x ← orPanic (i64.checked (x + second))
  let z ← orPanic (i64.checked (tzOffsetMins * 60))
  let secs ← orPanic (i64.checked (x - z))
  let x ← orPanic (i64.checked (secs * 1000))
  orPanic (i64.checked (x + millis))

/-- `parse_rfc3339`. -/
def parseRfc3339 (text : List Char) : Except ParseStop ℤ := do
  let s := trim text
  let _ ← if Utf8Text.byteLen s < 19 then .error .invalid else .ok ()
  let year ← readField i32 s 0 4
  expectChar s 4 5 '-'
  let month ← readField u32 s 5 7
  expectChar s 7 8 '-'
  let day ← readField u32 s 8 10
  expectChar s 10 11 'T'
  let hour ← readField u32 s 11 13
  expectChar s 13 14 ':'
  let minute ← readField u32 s 14 16
  expectChar s 16 17 ':'
  let second ← readField u32 s 17 19
  let rest ← orPanic (sliceFrom s 19)
  assemble year month day hour minute second rest

/-- `parse_iso_datetime`; `none` is a panic or an overflow. -/
def parseIsoDatetime (s : String) : Option (Except MemdError ℤ) :=
  match parseRfc3339 s.toList with
  | .ok ms => some (.ok ms)
  | .error .invalid => some (.error (.validationError s!"Invalid datetime: {s}"))
  | .error .panic => none

/-! ## The format -/

/-- The zone of a literal. -/
inductive Zone
  | absent
  | utc
  | offset (negative : Bool) (hour minute : ℕ) (colon : Bool)
  deriving DecidableEq, Repr

/-- A datetime of the format. -/
structure Literal where
  date : Date
  hour : ℕ
  minute : ℕ
  second : ℕ
  fraction : List Char := []
  zone : Zone := .absent
  deriving DecidableEq, Repr

/-- A number in a fixed number of digits. -/
def fixedDigits (width n : ℕ) : List Char :=
  (Nat.toDigits 10 n).leftpad width '0'

namespace Zone

/-- The zones of a literal: hours below 24, minutes below 60. -/
def Valid : Zone → Prop
  | absent | utc => True
  | offset _ hour minute _ => hour < 24 ∧ minute < 60

/-- How a zone is written. -/
def text : Zone → List Char
  | absent => []
  | utc => ['Z']
  | offset negative hour minute colon =>
    (if negative then '-' else '+') :: (fixedDigits 2 hour ++ (if colon then [':'] else [])
      ++ fixedDigits 2 minute)

/-- The minutes ahead of UTC. -/
def minutes : Zone → ℤ
  | absent | utc => 0
  | offset negative hour minute _ => (if negative then -1 else 1) * (hour * 60 + minute)

end Zone

namespace Literal

/-- An existing date of a year in four digits, a time of a day, a fraction of digits and a zone
less than a day off. -/
structure Valid (l : Literal) : Prop where
  date : l.date.Valid
  year : 0 ≤ l.date.year ∧ l.date.year ≤ 9999
  hour : l.hour < 24
  minute : l.minute < 60
  second : l.second < 60
  fraction : ∀ c ∈ l.fraction, c.isDigit = true
  zone : l.zone.Valid

/-- What stands behind the seconds. -/
def tail (l : Literal) : List Char :=
  (if l.fraction = [] then [] else '.' :: l.fraction) ++ l.zone.text

/-- How a literal is written. -/
def text (l : Literal) : List Char :=
  fixedDigits 4 l.date.year.toNat ++ '-' :: (fixedDigits 2 l.date.month.toNat ++
    '-' :: (fixedDigits 2 l.date.day.toNat ++ 'T' :: (fixedDigits 2 l.hour ++
      ':' :: (fixedDigits 2 l.minute ++ ':' :: (fixedDigits 2 l.second ++ l.tail)))))

/-- The milliseconds of the first three digits of the fraction. -/
def millis (l : Literal) : ℕ :=
  Nat.ofDigitChars 10 ((l.fraction ++ List.replicate 3 '0').take 3) 0

/-- The instant, truncated to milliseconds. -/
def instant (l : Literal) : ℤ :=
  (dayNumber l.date * 86400 + l.hour * 3600 + l.minute * 60 + l.second - l.zone.minutes * 60) * 1000
    + l.millis

end Literal


/-! ## Digits -/

/-- A digit is one byte. -/
theorem utf8Size_of_isDigit {c : Char} (h : c.isDigit = true) : c.utf8Size = 1 := by
  have hle := (Char.isDigit_iff_toNat.mp h).2
  rw [Char.utf8Size_eq_one_iff, UInt32.le_iff_toNat_le]
  exact hle.trans (by decide)

/-- So digits are as many bytes as characters. -/
theorem byteLen_digits {cs : List Char} (h : ∀ c ∈ cs, c.isDigit = true) :
    Utf8Text.byteLen cs = cs.length :=
  Utf8Text.byteLen_eq_length fun c hc => utf8Size_of_isDigit (h c hc)

/-- Fixed digits are digits. -/
theorem isDigit_of_mem_fixedDigits {w n : ℕ} {c : Char} (h : c ∈ fixedDigits w n) :
    c.isDigit = true := by
  rw [fixedDigits, List.leftpad, List.mem_append] at h
  rcases h with h | h
  · rw [List.eq_of_mem_replicate h]
    rfl
  · exact Nat.isDigit_of_mem_toDigits (by decide) (by decide) h

/-- A number that fits has the given width. -/
theorem length_fixedDigits {w n : ℕ} (hw : 0 < w) (h : n < 10 ^ w) :
    (fixedDigits w n).length = w := by
  rw [fixedDigits, List.length_leftpad]
  exact Nat.max_eq_left ((Nat.length_toDigits_le_iff (by decide) hw).mpr h)

/-- Fixed digits are read back. -/
theorem ofDigitChars_fixedDigits (w n : ℕ) : Nat.ofDigitChars 10 (fixedDigits w n) 0 = n := by
  rw [fixedDigits, List.leftpad, Nat.ofDigitChars_append, Nat.ofDigitChars_replicate_zero,
    Nat.mul_zero, Nat.ofDigitChars_ten_toDigits]

/-- They are as many bytes as the width. -/
theorem byteLen_fixedDigits {w n : ℕ} (hw : 0 < w) (h : n < 10 ^ w) :
    Utf8Text.byteLen (fixedDigits w n) = w := by
  rw [byteLen_digits fun c => isDigit_of_mem_fixedDigits, length_fixedDigits hw h]

/-- They are never empty. -/
theorem fixedDigits_ne_nil {w n : ℕ} : fixedDigits w n ≠ [] := by
  intro h
  have hpad : (fixedDigits w n).length = 0 := by rw [h, List.length_nil]
  have hpos : 0 < (Nat.toDigits 10 n).length := Nat.length_toDigits_pos
  rw [fixedDigits, List.length_leftpad] at hpad
  omega

/-- A number in digits is parsed as that number. -/
theorem parseInt_fixedDigits {t : IntType} {w n : ℕ} (h : t.Fits n) :
    t.parseInt (fixedDigits w n) = some (n : ℤ) := by
  have hvalue := ofDigitChars_fixedDigits w n
  rw [parseInt_digits fixedDigits_ne_nil fun c => isDigit_of_mem_fixedDigits, hvalue]
  rwa [hvalue]

/-- What memd writes for a number that is not negative. -/
theorem toList_paddedInt {w : ℕ} {n : ℤ} (h : 0 ≤ n) :
    (paddedInt w n).toList = fixedDigits w n.toNat := by
  have hnat : n.natAbs = n.toNat := by omega
  rw [paddedInt, if_neg (by omega), String.toList_ofList, hnat, fixedDigits]
  exact congrArg _ Nat.toList_repr

/-! ## White space around a text -/

/-- A digit is no whitespace. -/
theorem not_isWhitespace_of_isDigit {c : Char} (h : c.isDigit = true) :
    isWhitespace c = false := by
  have hbounds := Char.isDigit_iff_toNat.mp h
  have hlow : 48 ≤ c.toNat := hbounds.1
  have hhigh : c.toNat ≤ 57 := hbounds.2
  simp only [isWhitespace, Bool.or_eq_false_iff, Bool.and_eq_false_iff, decide_eq_false_iff_not,
    beq_eq_false_iff_ne]
  omega

/-! ## The places of a text -/

/-- A text cut at the places of the format. -/
structure Places where
  year : List Char
  month : List Char
  day : List Char
  hour : List Char
  minute : List Char
  second : List Char
  rest : List Char

namespace Places

/-- The fields at their places, with the separators between them. -/
def text (p : Places) : List Char :=
  p.year ++ '-' :: (p.month ++ '-' :: (p.day ++ 'T' :: (p.hour ++ ':' :: (p.minute ++
    ':' :: (p.second ++ p.rest)))))

/-- The places and the characters between them. -/
def segments (p : Places) : List (List Char) :=
  [p.year, ['-'], p.month, ['-'], p.day, ['T'], p.hour, [':'], p.minute, [':'], p.second, p.rest]

/-- The text is its segments one behind the other. -/
theorem text_eq_flatten (p : Places) : p.text = p.segments.flatten := by
  simp [text, segments]

/-- The places have the bytes of the format. -/
structure Cut (p : Places) : Prop where
  year : Utf8Text.byteLen p.year = 4
  month : Utf8Text.byteLen p.month = 2
  day : Utf8Text.byteLen p.day = 2
  hour : Utf8Text.byteLen p.hour = 2
  minute : Utf8Text.byteLen p.minute = 2
  second : Utf8Text.byteLen p.second = 2

/-- What is read from the places. -/
def read (p : Places) : Except ParseStop ℤ := do
  let year ← orInvalid (i32.parseInt p.year)
  let month ← orInvalid (u32.parseInt p.month)
  let day ← orInvalid (u32.parseInt p.day)
  let hour ← orInvalid (u32.parseInt p.hour)
  let minute ← orInvalid (u32.parseInt p.minute)
  let second ← orInvalid (u32.parseInt p.second)
  assemble year month day hour minute second p.rest

end Places

/-- A slice that is one of the segments of a text. -/
theorem textSlice_flatten {segs : List (List Char)} {i m n : ℕ} {inner : List Char}
    (hi : segs[i]? = some inner) (hm : Utf8Text.byteLen (segs.take i).flatten = m)
    (hn : m + Utf8Text.byteLen inner = n) : slice segs.flatten m n = some inner := by
  obtain ⟨hlt, hinner⟩ := List.getElem?_eq_some_iff.mp hi
  have hsplit : segs.flatten = (segs.take i).flatten ++ (inner ++ (segs.drop (i + 1)).flatten) := by
    conv_lhs => rw [← List.take_append_drop i segs, List.drop_eq_getElem_cons hlt, hinner]
    rw [List.flatten_append, List.flatten_cons]
  rw [hsplit]
  subst hm hn
  exact slice_append _ _ _

/-- A slice that begins where a prefix ends goes on behind it. -/
theorem eq_of_slice {s a b inner : List Char} {m n : ℕ} (hs : s = a ++ b)
    (hm : Utf8Text.byteLen a = m) (h : slice s m n = some inner) :
    ∃ c, s = (a ++ inner) ++ c ∧ Utf8Text.byteLen (a ++ inner) = n := by
  subst hs hm
  unfold slice at h
  by_cases hle : Utf8Text.byteLen a ≤ n
  · rw [sliceFrom_append] at h
    cases hsplit : splitAtByte b (n - Utf8Text.byteLen a) with
    | none => simp [guard, hle, hsplit] at h
    | some p =>
      obtain ⟨inner', c⟩ := p
      obtain ⟨rfl, hlen⟩ := splitAtByte_eq_some hsplit
      simp [guard, hle, hsplit] at h
      subst h
      refine ⟨c, by simp, ?_⟩
      rw [byteLen_append, hlen]
      omega
  · simp [guard, hle] at h

section Cut

variable {text : List Char} {p : Places}

/-- The separators are one byte each. -/
theorem utf8Size_sep : '-'.utf8Size = 1 ∧ 'T'.utf8Size = 1 ∧ ':'.utf8Size = 1 := by
  decide

/-- **A text with the places of the format** is read from its places. -/
theorem parseRfc3339_places (hp : p.Cut) (h : trim text = p.text) :
    parseRfc3339 text = p.read := by
  obtain ⟨h₁, h₂, h₃, h₄, h₅, h₆⟩ := hp
  obtain ⟨hdash, ht, hcolon⟩ := utf8Size_sep
  have hlen : ¬ Utf8Text.byteLen p.text < 19 := by
    simp only [Places.text, byteLen_append, byteLen_cons]
    omega
  have cut : ∀ {i m n : ℕ} {inner : List Char}, p.segments[i]? = some inner →
      Utf8Text.byteLen (p.segments.take i).flatten = m → m + Utf8Text.byteLen inner = n →
      slice p.text m n = some inner := by
    intro i m n inner hi hm hn
    rw [p.text_eq_flatten]
    exact textSlice_flatten hi hm hn
  have hyear := cut (i := 0) (m := 0) (n := 4) rfl (by simp) (by omega)
  have hsep₁ := cut (i := 1) (m := 4) (n := 5) rfl (by simp [Places.segments, *]) (by simp [*])
  have hmonth := cut (i := 2) (m := 5) (n := 7) rfl (by simp [Places.segments, *]) (by omega)
  have hsep₂ := cut (i := 3) (m := 7) (n := 8) rfl (by simp [Places.segments, *]) (by simp [*])
  have hday := cut (i := 4) (m := 8) (n := 10) rfl (by simp [Places.segments, *]) (by omega)
  have hsep₃ := cut (i := 5) (m := 10) (n := 11) rfl (by simp [Places.segments, *]) (by simp [*])
  have hhour := cut (i := 6) (m := 11) (n := 13) rfl (by simp [Places.segments, *]) (by omega)
  have hsep₄ := cut (i := 7) (m := 13) (n := 14) rfl (by simp [Places.segments, *]) (by simp [*])
  have hminute := cut (i := 8) (m := 14) (n := 16) rfl (by simp [Places.segments, *]) (by omega)
  have hsep₅ := cut (i := 9) (m := 16) (n := 17) rfl (by simp [Places.segments, *]) (by simp [*])
  have hsecond := cut (i := 10) (m := 17) (n := 19) rfl (by simp [Places.segments, *]) (by omega)
  have hrest : sliceFrom p.text 19 = some p.rest := by
    have hsplit : p.text = (p.segments.take 11).flatten ++ p.rest := by
      simp [Places.text, Places.segments]
    have hbytes : Utf8Text.byteLen (p.segments.take 11).flatten = 19 := by
      simp [Places.segments, *]
    rw [hsplit, ← hbytes]
    exact sliceFrom_append _ _
  unfold parseRfc3339 Places.read
  simp only [h, hlen, if_false, readField, expectChar, hyear, hsep₁, hmonth, hsep₂, hday, hsep₃,
    hhour, hsep₄, hminute, hsep₅, hsecond, hrest, if_true, Option.bind_some]
  rfl

end Cut

/-! ## From a date to its day -/

/-- Rounding towards zero after a shift is rounding down. -/
theorem tdiv_shift (y : ℤ) : (if y ≥ 0 then y else y - 399).tdiv 400 = y / 400 := by
  split
  · rename_i hpos
    exact Int.tdiv_eq_ediv_of_nonneg hpos
  · rename_i hneg
    have hflip : y - 399 = -(399 - y) := by omega
    rw [hflip, Int.neg_tdiv, Int.tdiv_eq_ediv_of_nonneg (by omega)]
    omega

/-- **`ymd_to_days`** counts the days to the first of the month, and then on. -/
theorem ymdToDays_eq {year month day : ℤ} (hyear : -9999 ≤ year ∧ year ≤ 9999)
    (hmonth : 1 ≤ month ∧ month ≤ 12) (hday : 1 ≤ day ∧ day ≤ 31) :
    ymdToDays year month day = .ok (dayNumber ⟨year, month, 1⟩ + (day - 1)) := by
  have hfirst : (⟨year, month, 1⟩ : Date).Valid :=
    ⟨hmonth, by simp, by
      have := (monthLength_bounds year month).1
      dsimp only
      omega⟩
  have hnumber := dayNumber_eq_march hfirst
  obtain ⟨y, hy⟩ : ∃ y, y = marchYear ⟨year, month, 1⟩ := ⟨_, rfl⟩
  obtain ⟨mp, hmp⟩ : ∃ mp, mp = marchMonth ⟨year, month, 1⟩ := ⟨_, rfl⟩
  rw [← hy, ← hmp] at hnumber
  have hyear' : shiftedYear year month = some y := by
    rw [hy, shiftedYear, marchYear]
    split
    · rw [checked_of_fits (by rw [fits_i32]; omega)]
    · rfl
  have hmonth' : shiftedMonth month = some (mp + 3) := by
    rw [hmp, shiftedMonth, marchMonth]
    dsimp only
    split
    · rw [checked_of_fits (by rw [fits_u32]; omega)]
      congr 1
      omega
    · congr 1
      omega
  have hy₀ : -10000 ≤ y ∧ y ≤ 9999 := by
    rw [hy, marchYear]
    dsimp only
    split <;> omega
  have hmp₀ : 0 ≤ mp ∧ mp ≤ 11 := by
    rw [hmp, marchMonth]
    dsimp only
    split <;> omega
  have hshift : eraDividend y = some (if y ≥ 0 then y else y - 399) := by
    unfold eraDividend
    split
    · rfl
    · rw [checked_of_fits (by rw [fits_i32]; omega)]
  have hyoe : y - y / 400 * 400 = y % 400 := by omega
  unfold ymdToDays
  rw [if_neg (by omega), hyear', some_bind, hmonth', some_bind, hshift, some_bind]
  dsimp only
  rw [tdiv_shift, checked_bind (by rw [fits_i32]; omega), checked_bind (by rw [fits_i32]; omega),
    hyoe, cast_of_fits (by rw [fits_u32]; omega)]
  have hm : mp + 3 - 3 = mp := by omega
  rw [hm, checked_bind (by rw [fits_u32]; omega), checked_bind (by rw [fits_u32]; omega),
    checked_bind (by rw [fits_u32]; omega), checked_bind (by rw [fits_u32]; omega),
    checked_bind (by rw [fits_u32]; omega), checked_bind (by rw [fits_u32]; omega),
    checked_bind (by rw [fits_u32]; omega), checked_bind (by rw [fits_u32]; omega),
    checked_bind (by rw [fits_u32]; omega), checked_bind (by rw [fits_i64]; omega),
    checked_bind (by rw [fits_i64]; omega), checked_of_fits (by rw [fits_i64]; omega)]
  refine congrArg Except.ok ?_
  unfold epochShift at hnumber
  dsimp only at hnumber
  omega

/-- The day of an existing date. -/
theorem ymdToDays_date {d : Date} (h : d.Valid) (hyear : 0 ≤ d.year ∧ d.year ≤ 9999) :
    ymdToDays d.year d.month d.day = .ok (dayNumber d) := by
  have hlen := (monthLength_bounds d.year d.month).2
  rw [ymdToDays_eq (by omega) h.month ⟨h.day.1, h.day.2.trans hlen⟩]
  refine congrArg Except.ok ?_
  unfold dayNumber
  dsimp only
  omega

/-! ## The tail of a literal -/

/-- The value of a run of digits. -/
theorem ofDigitChars_lt {cs : List Char} (h : ∀ c ∈ cs, c.isDigit = true) (init : ℕ) :
    Nat.ofDigitChars 10 cs init < 10 ^ cs.length * (init + 1) := by
  induction cs generalizing init with
  | nil => simp
  | cons c cs ih =>
    have hc : c.toNat - '0'.toNat ≤ 9 := by
      have hhigh : c.toNat ≤ 57 := (Char.isDigit_iff_toNat.mp (h c List.mem_cons_self)).2
      have hzero : '0'.toNat = 48 := rfl
      omega
    have hrest := ih (fun c' h' => h c' (List.mem_cons_of_mem c h')) (10 * init + (c.toNat - '0'.toNat))
    rw [Nat.ofDigitChars_cons, List.length_cons, Nat.pow_succ]
    refine hrest.trans_le ?_
    rw [Nat.mul_assoc]
    exact Nat.mul_le_mul_left _ (by omega)

/-- The digits of the milliseconds. -/
theorem millisDigits_eq (frac : List Char) :
    (if 3 ≤ frac.length then frac.take 3 else frac ++ List.replicate (3 - frac.length) '0') =
      (frac ++ List.replicate 3 '0').take 3 := by
  split
  · rename_i hlong
    rw [List.take_append_of_le_length hlong]
  · rename_i hshort
    rw [List.take_append, List.take_of_length_le (by omega), List.take_replicate,
      Nat.min_eq_left (by omega)]

/-- The padded fraction consists of digits. -/
theorem isDigit_millisDigits {frac : List Char} (h : ∀ c ∈ frac, c.isDigit = true) :
    ∀ c ∈ (frac ++ List.replicate 3 '0').take 3, c.isDigit = true := by
  intro c hc
  rcases List.mem_append.mp (List.mem_of_mem_take hc) with hc | hc
  · exact h c hc
  · rw [List.eq_of_mem_replicate hc]
    rfl

/-- It has three of them. -/
theorem length_millisDigits (frac : List Char) :
    ((frac ++ List.replicate 3 '0').take 3).length = 3 := by
  rw [List.length_take, List.length_append, List.length_replicate]
  omega

/-- It is below a second. -/
theorem millisDigits_lt {frac : List Char} (h : ∀ c ∈ frac, c.isDigit = true) :
    Nat.ofDigitChars 10 ((frac ++ List.replicate 3 '0').take 3) 0 < 1000 := by
  have hbound := ofDigitChars_lt (isDigit_millisDigits h) 0
  rwa [length_millisDigits] at hbound

/-- The first three digits of the fraction are the milliseconds. -/
theorem readMillis_eq {frac : List Char} (h : ∀ c ∈ frac, c.isDigit = true) :
    readMillis frac = .ok (Nat.ofDigitChars 10 ((frac ++ List.replicate 3 '0').take 3) 0 : ℕ) := by
  have hbound := millisDigits_lt h
  have hne : (frac ++ List.replicate 3 '0').take 3 ≠ [] := by
    apply List.ne_nil_of_length_pos
    rw [length_millisDigits]
    omega
  unfold readMillis
  rw [millisDigits_eq, parseInt_digits hne (isDigit_millisDigits h) (by rw [fits_u32]; omega)]
  rfl

/-- Digits are no colon. -/
theorem colon_not_mem_fixedDigits {w n : ℕ} : ':' ∉ fixedDigits w n :=
  fun h => absurd (isDigit_of_mem_fixedDigits h) (by decide)

/-- Cutting at the first colon. -/
theorem cut_colon {a b : List Char} (ha : ':' ∉ a) :
    (a ++ ':' :: b).takeWhile (· ≠ ':') = a ∧ ((a ++ ':' :: b).dropWhile (· ≠ ':')).tail = b := by
  have hall : ∀ c ∈ a, decide (c ≠ ':') = true := by
    intro c hc
    simp only [ne_eq, decide_eq_true_eq]
    rintro rfl
    exact ha hc
  constructor
  · rw [List.takeWhile_append_of_pos hall]
    simp
  · rw [List.dropWhile_append_of_pos hall]
    simp

/-- The offset of a zone in minutes. -/
theorem zoneMinutes_eq {sign hours minutes : ℤ} (hs : sign = 1 ∨ sign = -1)
    (hh : 0 ≤ hours ∧ hours < 24) (hm : 0 ≤ minutes ∧ minutes < 60) :
    zoneMinutes sign hours minutes = .ok (sign * (hours * 60 + minutes)) := by
  unfold zoneMinutes
  rw [checked_bind (by rw [fits_i32]; omega), checked_bind (by rw [fits_i32]; omega),
    checked_of_fits (by rw [fits_i32]; rcases hs with rfl | rfl <;> omega)]
  rfl

/-- Hours and minutes of a zone are read back. -/
theorem parsePair_fixedDigits {hour minute : ℕ} (hh : hour < 24) (hm : minute < 60) :
    parsePair (fixedDigits 2 hour) (fixedDigits 2 minute) = .ok ((hour : ℤ), (minute : ℤ)) := by
  unfold parsePair
  rw [parseInt_fixedDigits (by rw [fits_i32]; omega),
    parseInt_fixedDigits (by rw [fits_i32]; omega)]
  rfl

/-- Two digits each for hours and minutes. -/
theorem readZoneParts_eq {hour minute : ℕ} (hh : hour < 24) (hm : minute < 60) (colon : Bool) :
    readZoneParts (fixedDigits 2 hour ++ (if colon then [':'] else []) ++ fixedDigits 2 minute) =
      .ok ((hour : ℤ), (minute : ℤ)) := by
  cases colon with
  | true =>
    obtain ⟨htake, hdrop⟩ := cut_colon (b := fixedDigits 2 minute)
      (colon_not_mem_fixedDigits (w := 2) (n := hour))
    simp only [if_true, List.append_assoc, List.singleton_append]
    unfold readZoneParts
    rw [if_pos (by simp), htake, hdrop, if_neg colon_not_mem_fixedDigits,
      parsePair_fixedDigits hh hm]
  | false =>
    have hbytes := byteLen_fixedDigits (w := 2) (n := hour) (by decide) (by omega)
    have hbytes' := byteLen_fixedDigits (w := 2) (n := minute) (by decide) (by omega)
    have hnone : ':' ∉ fixedDigits 2 hour ++ fixedDigits 2 minute := by
      rw [List.mem_append]
      exact fun h => h.elim colon_not_mem_fixedDigits colon_not_mem_fixedDigits
    have hsplit : splitAtByte (fixedDigits 2 hour ++ fixedDigits 2 minute) 2 =
        some (fixedDigits 2 hour, fixedDigits 2 minute) :=
      splitAtByte_eq_some_iff.mpr ⟨rfl, hbytes⟩
    simp only [Bool.false_eq_true, if_false, List.append_nil]
    unfold readZoneParts
    rw [if_neg hnone, if_pos (by rw [byteLen_append, hbytes, hbytes'])]
    simp only [hsplit]
    exact parsePair_fixedDigits hh hm

/-- The offset of a zone of the format. -/
theorem readOffset_zone {z : Zone} (h : z.Valid) : readOffset z.text = .ok z.minutes := by
  cases z with
  | absent => rfl
  | utc => rfl
  | offset negative hour minute colon =>
    obtain ⟨hh, hm⟩ := h
    have hparts := readZoneParts_eq hh hm colon
    cases negative with
    | true =>
      show readZone (-1) _ = _
      unfold readZone
      rw [hparts]
      exact zoneMinutes_eq (.inr rfl) (by omega) (by omega)
    | false =>
      show readZone 1 _ = _
      unfold readZone
      rw [hparts]
      exact zoneMinutes_eq (.inl rfl) (by omega) (by omega)

/-- The characters of a zone. -/
theorem digit_or_sign_of_mem_zone {z : Zone} {c : Char} (h : c ∈ z.text) :
    c.isDigit = true ∨ c ∈ ['Z', '+', '-', ':'] := by
  cases z with
  | absent => exact absurd h List.not_mem_nil
  | utc =>
    rw [List.mem_singleton.mp h]
    exact .inr (by decide)
  | offset negative hour minute colon =>
    simp only [Zone.text, List.mem_cons, List.mem_append] at h
    rcases h with h | (h | h) | h
    · cases negative <;> simp_all
    · exact .inl (isDigit_of_mem_fixedDigits h)
    · cases colon <;> simp_all
    · exact .inl (isDigit_of_mem_fixedDigits h)

/-- A zone does not start with a digit. -/
theorem dropWhile_digits_zone (z : Zone) : z.text.dropWhile Char.isDigit = z.text := by
  cases z with
  | absent => rfl
  | utc => rfl
  | offset negative hour minute colon => cases negative <;> rfl

/-- A zone does not start with a digit. -/
theorem takeWhile_digits_zone (z : Zone) : z.text.takeWhile Char.isDigit = [] := by
  cases z with
  | absent => rfl
  | utc => rfl
  | offset negative hour minute colon => cases negative <;> rfl

/-- The characters a literal is made of. -/
def literalChars : List Char := ['Z', '+', '-', ':', '.', 'T']

/-- No character of a literal is whitespace. -/
theorem not_isWhitespace_of_literal {c : Char} (h : c.isDigit = true ∨ c ∈ literalChars) :
    isWhitespace c = false := by
  rcases h with h | h
  · exact not_isWhitespace_of_isDigit h
  · have hall : literalChars.all (fun d => !isWhitespace d) = true := by decide
    simpa using List.all_eq_true.mp hall c h

/-- The characters behind the seconds. -/
theorem mem_tail {l : Literal} (hl : l.Valid) {c : Char} (h : c ∈ l.tail) :
    c.isDigit = true ∨ c ∈ literalChars := by
  rcases List.mem_append.mp h with h | h
  · split at h
    · exact absurd h List.not_mem_nil
    · rcases List.mem_cons.mp h with rfl | h
      · exact .inr (by decide)
      · exact .inl (hl.fraction c h)
  · rcases digit_or_sign_of_mem_zone h with h | h
    · exact .inl h
    · exact .inr (List.mem_of_mem_take (i := 4) h)

/-- A tail without a fraction. -/
theorem parseMillisAndTz_zone {s : List Char} (h : ∀ fractional, trim s ≠ '.' :: fractional) :
    parseMillisAndTz s = (readOffset (trim s)).map fun offset => (0, offset) := by
  unfold parseMillisAndTz
  split
  · rename_i hnil
    rw [hnil]
    rfl
  · rename_i fractional hdot
    exact absurd hdot (h fractional)
  · cases readOffset (trim s) <;> rfl

/-- A tail with a fraction. -/
theorem parseMillisAndTz_fraction {s fractional : List Char} (h : trim s = '.' :: fractional) :
    parseMillisAndTz s = (do
      let millis ← readMillis (fractional.takeWhile Char.isDigit)
      let offset ← readOffset (fractional.dropWhile Char.isDigit)
      pure (millis, offset)) := by
  unfold parseMillisAndTz
  rw [h]
  rfl

/-- A zone does not start with a dot. -/
theorem zone_ne_dot (z : Zone) (fractional : List Char) : z.text ≠ '.' :: fractional := by
  intro h
  have hmem : '.' ∈ z.text := by
    rw [h]
    exact List.mem_cons_self
  rcases digit_or_sign_of_mem_zone hmem with h | h
  · exact absurd h (by decide)
  · exact absurd h (by decide)

/-- Fraction and zone are read back. -/
theorem parseMillisAndTz_tail {l : Literal} (hl : l.Valid) :
    parseMillisAndTz l.tail = .ok ((l.millis : ℤ), l.zone.minutes) := by
  have htrim : trim l.tail = l.tail :=
    trim_of_all fun c hc => not_isWhitespace_of_literal (mem_tail hl hc)
  have hzone := readOffset_zone hl.zone
  by_cases hfrac : l.fraction = []
  · have hmillis : l.millis = 0 := by
      rw [Literal.millis, hfrac]
      decide
    have htail : l.tail = l.zone.text := by rw [Literal.tail, if_pos hfrac, List.nil_append]
    rw [htail] at htrim ⊢
    rw [parseMillisAndTz_zone (by rw [htrim]; exact zone_ne_dot l.zone), htrim, hzone, hmillis]
    rfl
  · have htake : (l.fraction ++ l.zone.text).takeWhile Char.isDigit = l.fraction := by
      rw [List.takeWhile_append_of_pos hl.fraction, takeWhile_digits_zone, List.append_nil]
    have hdrop : (l.fraction ++ l.zone.text).dropWhile Char.isDigit = l.zone.text := by
      rw [List.dropWhile_append_of_pos hl.fraction, dropWhile_digits_zone]
    have htail : l.tail = '.' :: (l.fraction ++ l.zone.text) := by
      rw [Literal.tail, if_neg hfrac, List.cons_append]
    rw [htail] at htrim ⊢
    rw [parseMillisAndTz_fraction htrim, htake, hdrop, readMillis_eq hl.fraction, hzone]
    rfl

/-! ## Literals are read as their instants -/

/-- The parser's sum of date, time and offset. -/
theorem assemble_eq {year month day hour minute second days millis offset : ℤ} {rest : List Char}
    (hrest : parseMillisAndTz rest = .ok (millis, offset))
    (hdays : ymdToDays year month day = .ok days)
    (hd : -10000000 ≤ days ∧ days ≤ 10000000) (hh : 0 ≤ hour ∧ hour ≤ 10000)
    (hm : 0 ≤ minute ∧ minute ≤ 10000) (hs : 0 ≤ second ∧ second ≤ 10000)
    (ho : i32.Fits offset) (hms : 0 ≤ millis ∧ millis ≤ 1000) :
    assemble year month day hour minute second rest = .ok
      ((days * 86400 + hour * 3600 + minute * 60 + second - offset * 60) * 1000 + millis) := by
  rw [fits_i32] at ho
  have step : ∀ {v : ℤ} {f : ℤ → Except ParseStop ℤ}, i64.Fits v →
      (orPanic (i64.checked v) >>= f) = f v := by
    intro v f hv
    rw [checked_of_fits hv]
    rfl
  unfold assemble
  rw [hrest, hdays]
  show (orPanic _ >>= _) = _
  rw [step (by rw [fits_i64]; omega), step (by rw [fits_i64]; omega),
    step (by rw [fits_i64]; omega), step (by rw [fits_i64]; omega),
    step (by rw [fits_i64]; omega), step (by rw [fits_i64]; omega),
    step (by rw [fits_i64]; omega), step (by rw [fits_i64]; omega),
    step (by rw [fits_i64]; omega), checked_of_fits (by rw [fits_i64]; omega)]
  rfl

/-- The days of the years that four characters can write. -/
theorem dayNumber_bounds {d : Date} (h : d.Valid) (hyear : -9999 ≤ d.year ∧ d.year ≤ 9999) :
    -9000000 ≤ dayNumber d ∧ dayNumber d ≤ 9000000 := by
  have hday := daysBeforeMonth_lt h
  have hlow := daysBeforeYear_mono hyear.1
  have hhigh := daysBeforeYear_mono hyear.2
  have hfirst : daysBeforeYear (-9999) = -3652425 := by decide
  have hlast : daysBeforeYear 9999 = 3651694 := by decide
  have hepoch : daysBeforeYear 1970 = 719162 := by decide
  unfold dayNumber
  omega

namespace Literal

/-- The places of a literal. -/
def places (l : Literal) : Places where
  year := fixedDigits 4 l.date.year.toNat
  month := fixedDigits 2 l.date.month.toNat
  day := fixedDigits 2 l.date.day.toNat
  hour := fixedDigits 2 l.hour
  minute := fixedDigits 2 l.minute
  second := fixedDigits 2 l.second
  rest := l.tail

variable {l : Literal}

/-- The fields of a literal fit their widths. -/
theorem Valid.bounds (hl : l.Valid) : l.date.month.toNat < 100 ∧ l.date.day.toNat < 100 ∧
    l.date.year.toNat < 10000 ∧ l.hour < 100 ∧ l.minute < 100 ∧ l.second < 100 := by
  obtain ⟨⟨⟨hm₁, hm₂⟩, hd₁, hd₂⟩, ⟨hy₁, hy₂⟩, hh, hmi, hs, -, -⟩ := hl
  have := (monthLength_bounds l.date.year l.date.month).2
  omega

/-- The fields stand where the parser cuts. -/
theorem Valid.cut (hl : l.Valid) : l.places.Cut := by
  obtain ⟨hm, hd, hy, hh, hmi, hs⟩ := hl.bounds
  exact ⟨byteLen_fixedDigits (by decide) hy, byteLen_fixedDigits (by decide) hm,
    byteLen_fixedDigits (by decide) hd, byteLen_fixedDigits (by decide) hh,
    byteLen_fixedDigits (by decide) hmi, byteLen_fixedDigits (by decide) hs⟩

/-- Trimming a literal changes nothing. -/
theorem Valid.trim_text (hl : l.Valid) : trim l.text = l.text := by
  refine trim_of_all fun c hc => not_isWhitespace_of_literal ?_
  simp only [text, List.mem_append, List.mem_cons] at hc
  rcases hc with hc | rfl | hc | rfl | hc | rfl | hc | rfl | hc | rfl | hc | hc
  all_goals first
    | exact .inl (isDigit_of_mem_fixedDigits hc)
    | exact .inr (by decide)
    | exact mem_tail hl hc

/-- The fraction is at most a second. -/
theorem Valid.millis_le (hl : l.Valid) : l.millis ≤ 1000 :=
  Nat.le_of_lt (millisDigits_lt hl.fraction)

/-- The offset fits its type. -/
theorem Valid.fits_zone (hl : l.Valid) : i32.Fits l.zone.minutes := by
  have hzone := hl.zone
  rw [fits_i32]
  cases hz : l.zone with
  | absent => decide
  | utc => decide
  | offset negative hour minute colon =>
    rw [hz] at hzone
    obtain ⟨hh, hm⟩ := hzone
    cases negative <;> simp only [Zone.minutes, Bool.false_eq_true, if_true, if_false] <;> omega

/-- **The text of a literal** is read as its instant. -/
theorem Valid.parse (hl : l.Valid) {s : List Char} (h : trim s = l.text) :
    parseRfc3339 s = .ok l.instant := by
  obtain ⟨hm, hd, hy, hh, hmi, hs⟩ := hl.bounds
  have hdate := hl.date
  have hyear := hl.year
  have hday := hdate.day.1
  have hmonth := hdate.month.1
  rw [parseRfc3339_places hl.cut h, Places.read]
  simp only [places]
  rw [parseInt_fixedDigits (by rw [fits_i32]; omega), parseInt_fixedDigits (by rw [fits_u32]; omega),
    parseInt_fixedDigits (by rw [fits_u32]; omega), parseInt_fixedDigits (by rw [fits_u32]; omega),
    parseInt_fixedDigits (by rw [fits_u32]; omega), parseInt_fixedDigits (by rw [fits_u32]; omega)]
  have hcast : (l.date.year.toNat : ℤ) = l.date.year ∧ (l.date.month.toNat : ℤ) = l.date.month ∧
      (l.date.day.toNat : ℤ) = l.date.day := by omega
  obtain ⟨hy', hm', hd'⟩ := hcast
  show assemble _ _ _ _ _ _ _ = _
  rw [hy', hm', hd', assemble_eq (parseMillisAndTz_tail hl) (ymdToDays_date hdate hyear)
    (by have := dayNumber_bounds hdate ⟨by omega, hyear.2⟩; omega) (by omega) (by omega)
    (by omega) hl.fits_zone
    ⟨by omega, by exact_mod_cast hl.millis_le⟩]
  rfl

end Literal

/-- The error of a text that is not read. -/
theorem parseIsoDatetime_ok {s : String} {ms : ℤ} :
    parseIsoDatetime s = some (.ok ms) ↔ parseRfc3339 s.toList = .ok ms := by
  unfold parseIsoDatetime
  split <;> simp_all

/-- A result that is not an error is a result. -/
theorem parseIsoDatetime_of_toOption {s : String} {ms : ℤ}
    (h : (parseIsoDatetime s).bind (·.toOption) = some ms) : parseIsoDatetime s = some (.ok ms) := by
  obtain ⟨r, hr, hok⟩ := Option.bind_eq_some_iff.mp h
  cases r with
  | error e => cases hok
  | ok n => rw [hr, Option.some.inj hok]

/-- The literal of a date and the seconds of its day. -/
def literalOf (d : Date) (secs : ℤ) (fraction : List Char) : Literal where
  date := d
  hour := (secs / 3600).toNat
  minute := (secs % 3600 / 60).toNat
  second := (secs % 60).toNat
  fraction := fraction
  zone := .utc

/-- A date and the seconds of a day make a literal. -/
theorem literalOf_valid {d : Date} (hd : d.Valid) (hyear : 0 ≤ d.year ∧ d.year ≤ 9999) {secs : ℤ}
    (hsecs : 0 ≤ secs ∧ secs < 86400) {fraction : List Char}
    (hfrac : ∀ c ∈ fraction, c.isDigit = true) : (literalOf d secs fraction).Valid where
  date := hd
  year := hyear
  hour := by simp only [literalOf]; omega
  minute := by simp only [literalOf]; omega
  second := by simp only [literalOf]; omega
  fraction := hfrac
  zone := trivial

/-- The text of a date and a time is the one memd writes. -/
theorem text_literalOf {d : Date} (hd : d.Valid) (hyear : 0 ≤ d.year) {secs : ℤ}
    (hsecs : 0 ≤ secs) (fraction : List Char) :
    (literalOf d secs fraction).text =
      (dateTimeText d secs).toList ++ (literalOf d secs fraction).tail := by
  have hm := hd.month.1
  have hday := hd.day.1
  have hdate : dateText d =
      paddedInt 4 d.year ++ "-" ++ paddedInt 2 d.month ++ "-" ++ paddedInt 2 d.day := rfl
  have htime : dateTimeText d secs = dateText d ++ "T" ++ paddedInt 2 (secs / 3600) ++ ":" ++
      paddedInt 2 (secs % 3600 / 60) ++ ":" ++ paddedInt 2 (secs % 60) := rfl
  rw [htime, hdate]
  simp only [String.toList_append, Literal.text, literalOf, toList_paddedInt (w := 4) hyear,
    toList_paddedInt (w := 2) (show 0 ≤ d.month by omega),
    toList_paddedInt (w := 2) (show 0 ≤ d.day by omega),
    toList_paddedInt (w := 2) (show 0 ≤ secs / 3600 by omega),
    toList_paddedInt (w := 2) (show 0 ≤ secs % 3600 / 60 by omega),
    toList_paddedInt (w := 2) (show 0 ≤ secs % 60 by omega)]
  simp

/-- The first day. -/
theorem valid_epoch : Date.Valid ⟨1970, 1, 1⟩ :=
  ⟨by decide, by decide⟩

/-- A millisecond from 1970 to the end of the year 9999. -/
theorem nonneg_bounds {ms : ℤ} (hlow : 0 ≤ ms) (hyear : (dateOfDay (ms / 86400000)).year ≤ 9999) :
    1970 ≤ (dateOfDay (ms / 86400000)).year ∧ ms / 86400000 ≤ 2932896 := by
  obtain ⟨hvalid, hnumber⟩ := dateOfDay_spec (ms / 86400000)
  have hfirst : 1970 ≤ (dateOfDay (ms / 86400000)).year := by
    by_contra hlt
    have hbefore := dayNumber_lt_of_year hvalid valid_epoch (not_le.mp hlt)
    rw [hnumber, dayNumber_epoch] at hbefore
    omega
  exact ⟨hfirst, (day_bounds ⟨by omega, hyear⟩).2⟩

/-- A text memd writes of a date, a time and a fraction is read as the instant. -/
theorem parseIsoDatetime_dateTimeText {days secs : ℤ}
    (hyear : 0 ≤ (dateOfDay days).year ∧ (dateOfDay days).year ≤ 9999)
    (hsecs : 0 ≤ secs ∧ secs < 86400) {fraction : List Char}
    (hfrac : ∀ c ∈ fraction, c.isDigit = true) {s : String}
    (hs : s.toList = (dateTimeText (dateOfDay days) secs).toList ++
      (literalOf (dateOfDay days) secs fraction).tail) :
    parseIsoDatetime s =
      some (.ok ((days * 86400 + secs) * 1000 + (literalOf (dateOfDay days) secs fraction).millis)) := by
  obtain ⟨hvalid, hnumber⟩ := dateOfDay_spec days
  have hl := literalOf_valid hvalid hyear hsecs hfrac
  have htext : s.toList = (literalOf (dateOfDay days) secs fraction).text := by
    rw [hs, text_literalOf hvalid hyear.1 hsecs.1]
  have hinstant : (literalOf (dateOfDay days) secs fraction).instant =
      (days * 86400 + secs) * 1000 + (literalOf (dateOfDay days) secs fraction).millis := by
    have hh : ((secs / 3600).toNat : ℤ) = secs / 3600 := by omega
    have hm : ((secs % 3600 / 60).toNat : ℤ) = secs % 3600 / 60 := by omega
    have hsec : ((secs % 60).toNat : ℤ) = secs % 60 := by omega
    simp only [Literal.instant, literalOf, hnumber, Zone.minutes, hh, hm, hsec]
    omega
  rw [parseIsoDatetime_ok, ← hinstant]
  exact hl.parse (by rw [htext, hl.trim_text])

/-- Three digits are their milliseconds. -/
theorem millis_fixedDigits {d : Date} {secs : ℤ} {n : ℕ} (h : n < 1000) :
    (literalOf d secs (fixedDigits 3 n)).millis = n := by
  have hlen : (fixedDigits 3 n).length = 3 := length_fixedDigits (by decide) (by omega)
  simp only [Literal.millis, literalOf]
  rw [List.take_append_of_le_length (by omega), List.take_of_length_le (by omega),
    ofDigitChars_fixedDigits]

/-- What stands behind the seconds of a written time. -/
theorem tail_literalOf {d : Date} {secs : ℤ} {fraction : List Char} (h : fraction ≠ []) :
    (literalOf d secs fraction).tail = '.' :: fraction ++ ['Z'] :=
  congrArg (· ++ ['Z']) (if_neg h)

/-- **The timestamp of the structural queries** is read as its millisecond. -/
theorem formatTimestamp_read {ms : ℤ} (hlow : 0 ≤ ms)
    (hyear : (dateOfDay (ms / 86400000)).year ≤ 9999) :
    ∃ s, formatTimestamp ms = some s ∧ parseIsoDatetime s = some (.ok ms) := by
  obtain ⟨hfirst, hlast⟩ := nonneg_bounds hlow hyear
  have hmax : i64.max / 2 = 4611686018427387903 := by decide
  have hsecs : 0 ≤ ms / 1000 % 86400 ∧ ms / 1000 % 86400 < 86400 := by omega
  have hms : 0 ≤ ms % 1000 ∧ ms % 1000 < 1000 := by omega
  have hs : (dateTimeText (dateOfDay (ms / 86400000)) (ms / 1000 % 86400) ++ "." ++
      paddedInt 3 (ms % 1000) ++ "Z").toList =
      (dateTimeText (dateOfDay (ms / 86400000)) (ms / 1000 % 86400)).toList ++
        (literalOf (dateOfDay (ms / 86400000)) (ms / 1000 % 86400)
          (fixedDigits 3 (ms % 1000).toNat)).tail := by
    rw [tail_literalOf fixedDigits_ne_nil]
    simp only [String.toList_append, toList_paddedInt (w := 3) hms.1]
    simp
  have hread := parseIsoDatetime_dateTimeText ⟨by omega, hyear⟩ hsecs
    (fun c => isDigit_of_mem_fixedDigits) hs
  rw [millis_fixedDigits (by omega)] at hread
  have hvalue : (ms / 86400000 * 86400 + ms / 1000 % 86400) * 1000 + ((ms % 1000).toNat : ℤ) = ms := by
    omega
  rw [hvalue] at hread
  exact ⟨_, formatTimestamp_eq hlow (by omega), hread⟩

/-- **The timestamp of the export** is read as its second. -/
theorem formatRfc3339Ms_read {ms : ℤ} (hlow : 0 ≤ ms)
    (hyear : (dateOfDay (ms / 86400000)).year ≤ 9999) :
    ∃ s, formatRfc3339Ms ms = some (some s) ∧
      parseIsoDatetime s = some (.ok (ms / 1000 * 1000)) := by
  obtain ⟨hfirst, hlast⟩ := nonneg_bounds hlow hyear
  have hsecs : 0 ≤ ms / 1000 % 86400 ∧ ms / 1000 % 86400 < 86400 := by omega
  have hs : (dateTimeText (dateOfDay (ms / 86400000)) (ms / 1000 % 86400) ++ "Z").toList =
      (dateTimeText (dateOfDay (ms / 86400000)) (ms / 1000 % 86400)).toList ++
        (literalOf (dateOfDay (ms / 86400000)) (ms / 1000 % 86400) []).tail := by
    exact String.toList_append
  have hmillis : (literalOf (dateOfDay (ms / 86400000)) (ms / 1000 % 86400) []).millis = 0 := by
    simp only [Literal.millis, literalOf]
    decide
  have hread := parseIsoDatetime_dateTimeText ⟨by omega, hyear⟩ hsecs (by simp) hs
  rw [hmillis] at hread
  have hvalue : (ms / 86400000 * 86400 + ms / 1000 % 86400) * 1000 + ((0 : ℕ) : ℤ) =
      ms / 1000 * 1000 := by
    omega
  rw [hvalue] at hread
  exact ⟨_, formatRfc3339Ms_eq ⟨by omega, hyear⟩, hread⟩

/-! ## The copies agree -/

/-- **Date arithmetic.**  On every millisecond of the years 0001 to 9999 the three copies compute,
without overflow, the date that counting days gives; the copy of the structural queries does so
on every millisecond from 1970 on; and the texts memd writes of a millisecond from 1970 to the
end of the year 9999 are read back, to the millisecond and to the second. -/
theorem dates_agree {date : ℤ → Date} (hdate : CountsDays date) :
    (∀ ms, i64.Fits ms → 1 ≤ (date (ms / 86400000)).year → (date (ms / 86400000)).year ≤ 9999 →
      civilFromDays (ms / 1000 / 86400) = some (some (date (ms / 86400000))) ∧
      epochMsDate ms = some (date (ms / 86400000)) ∧
      formatEpochMsDate ms = dateText (date (ms / 86400000)) ∧
      daysToYmd (ms / 86400000) = some (date (ms / 86400000))) ∧
    (∀ ms, 0 ≤ ms → i64.Fits ms → daysToYmd (ms / 86400000) = some (date (ms / 86400000))) ∧
    (∀ ms, 0 ≤ ms → (date (ms / 86400000)).year ≤ 9999 →
      (∃ s, formatTimestamp ms = some s ∧ parseIsoDatetime s = some (.ok ms)) ∧
      ∃ s, formatRfc3339Ms ms = some (some s) ∧
        parseIsoDatetime s = some (.ok (ms / 1000 * 1000))) := by
  rw [hdate.eq_dateOfDay]
  refine ⟨fun ms _ hlow hhigh => ?_, fun ms hlow hfits => ?_, fun ms hlow hyear =>
    ⟨formatTimestamp_read hlow hyear, formatRfc3339Ms_read hlow hyear⟩⟩
  · have hdays : ms / 1000 / 86400 = ms / 86400000 := by omega
    obtain ⟨hfirst, hlast⟩ := day_bounds ⟨hlow, hhigh⟩
    rw [hdays]
    exact ⟨civilFromDays_eq ⟨hlow, hhigh⟩, epochMsDate_eq ⟨hlow, hhigh⟩, formatEpochMsDate_eq ms,
      daysToYmd_eq hfirst (by omega)⟩
  · rw [fits_i64] at hfits
    exact daysToYmd_eq (by omega) (by omega)

/-- A leap day. -/
theorem dates_agree_leapDay :
    civilFromDays 11016 = some (some ⟨2000, 2, 29⟩) ∧ daysToYmd 11016 = some ⟨2000, 2, 29⟩ := by
  have h := (dates_agree countsDays_dateOfDay).1 951825600000 (by rw [fits_i64]; omega) (by decide)
    (by decide)
  exact ⟨h.1, h.2.2.2⟩
