/-
# What the datetime parser accepts beside its format

The parser cuts a text at fixed bytes and hands the pieces to the general integer parser.  The
texts on which it does not do what the format says are those it can cut and read although they
are no literal (`Irregular`).

* `exists_places` — a text that is not refused has the places of the format;
* `ZoneStops`, `ZoneReads`, `ZoneLoose` — how the zone of a text is read;
* `Irregular.not_exact`, `exists_literal` — an irregular text is read or panics, and every
  other text that is read is a literal;
* `parseIsoDatetime_exact_iff` — the parser does what the format says exactly on the texts that
  are not irregular.
-/
import Mathlib.Data.List.TakeWhile
import Memd.DatetimeParser

open Calendar IntType Utf8Text Text

/-! ## Numbers of a few characters -/

/-- Digits are determined by their number and their value. -/
theorem ofDigitChars_injective {a b : List Char} (ha : ∀ c ∈ a, c.isDigit = true)
    (hb : ∀ c ∈ b, c.isDigit = true) (hlen : a.length = b.length) {m n : ℕ}
    (h : Nat.ofDigitChars 10 a m = Nat.ofDigitChars 10 b n) : a = b ∧ m = n := by
  induction a generalizing b m n with
  | nil =>
    obtain rfl := List.length_eq_zero_iff.mp hlen.symm
    exact ⟨rfl, h⟩
  | cons c a ih =>
    cases b with
    | nil => exact absurd hlen (by simp)
    | cons d b =>
      rw [Nat.ofDigitChars_cons, Nat.ofDigitChars_cons] at h
      obtain ⟨rfl, hvalue⟩ := ih (fun c' h' => ha c' (List.mem_cons_of_mem c h'))
        (fun c' h' => hb c' (List.mem_cons_of_mem d h')) (by simpa using hlen) h
      have hc := Char.isDigit_iff_toNat.mp (ha c List.mem_cons_self)
      have hd := Char.isDigit_iff_toNat.mp (hb d List.mem_cons_self)
      have hlow : '0'.toNat = 48 := rfl
      have hhigh : '9'.toNat = 57 := rfl
      have hcd : c = d := by
        apply Char.toNat_inj.mp
        omega
      exact ⟨by rw [hcd], by rw [hcd] at hvalue; omega⟩

/-- A run of digits is its value in as many digits. -/
theorem eq_fixedDigits {w n : ℕ} {cs : List Char} (hw : 0 < w) (hlen : cs.length = w)
    (h : ∀ c ∈ cs, c.isDigit = true) (hn : Nat.ofDigitChars 10 cs 0 = n) :
    cs = fixedDigits w n := by
  have hbound := ofDigitChars_lt h 0
  rw [hlen, hn] at hbound
  refine (ofDigitChars_injective h (fun c => isDigit_of_mem_fixedDigits) ?_ (m := 0) (n := 0) ?_).1
  · rw [hlen, length_fixedDigits hw (by omega)]
  · rw [hn, ofDigitChars_fixedDigits]

/-- A text has no more characters than bytes. -/
theorem length_le_byteLen (cs : List Char) : cs.length ≤ Utf8Text.byteLen cs := by
  induction cs with
  | nil => exact Nat.le_refl _
  | cons c cs ih =>
    have hpos := c.utf8Size_pos
    rw [List.length_cons, byteLen_cons]
    omega

/-- The value of some digits is less than the power of ten they are written under. -/
theorem digitsValue_lt {cs : List Char} {n : ℕ} (h : digitsValue cs = some n) :
    n < 10 ^ cs.length := by
  unfold digitsValue at h
  split at h
  · rename_i hdigits
    have hbound := ofDigitChars_lt (List.all_eq_true.mp hdigits.2) 0
    cases h
    omega
  · exact absurd h (by simp)

/-- A number has no more digits than its text has characters. -/
theorem parseInt_lt {t : IntType} {cs : List Char} {v : ℤ} (h : t.parseInt cs = some v) :
    t.Fits v ∧ v.natAbs < 10 ^ cs.length := by
  unfold parseInt at h
  obtain ⟨hvalue, hfits⟩ := Option.filter_eq_some_iff.mp h
  refine ⟨of_decide_eq_true hfits, ?_⟩
  have hgrow : ∀ (c : Char) (ds : List Char), 10 ^ ds.length ≤ 10 ^ (c :: ds).length := fun c ds =>
    Nat.pow_le_pow_right (by decide) (by simp)
  split at hvalue
  · rename_i ds
    obtain ⟨n, hn, rfl⟩ := Option.map_eq_some_iff.mp hvalue
    have hlt := digitsValue_lt hn
    have hle := hgrow '+' ds
    exact hlt.trans_le hle
  · rename_i ds
    split at hvalue
    · obtain ⟨n, hn, rfl⟩ := Option.map_eq_some_iff.mp hvalue
      have hlt := digitsValue_lt hn
      have hle := hgrow '-' ds
      rw [Int.natAbs_neg]
      exact hlt.trans_le hle
    · exact absurd hvalue (by simp)
  · obtain ⟨n, hn, rfl⟩ := Option.map_eq_some_iff.mp hvalue
    exact digitsValue_lt hn


/-! ## A text that is not refused has places -/

section Places

variable {α : Type} {s : List Char} {m n : ℕ}

/-- A field that lets the parse go on was read. -/
theorem of_readField {t : IntType} {f : ℤ → Except ParseStop α}
    (h : (readField t s m n >>= f) ≠ .error .invalid) :
    ∃ inner v, slice s m n = some inner ∧ f v ≠ .error .invalid := by
  unfold readField at h
  cases hslice : slice s m n with
  | none => exact absurd (by rw [hslice]; rfl) h
  | some inner =>
    cases hvalue : t.parseInt inner with
    | none => exact absurd (by rw [hslice, Option.bind_some, hvalue]; rfl) h
    | some v =>
      refine ⟨inner, v, rfl, ?_⟩
      rw [hslice, Option.bind_some, hvalue] at h
      exact h

/-- A separator that lets the parse go on was there. -/
theorem of_expectChar {c : Char} {f : Unit → Except ParseStop α}
    (h : (expectChar s m n c >>= f) ≠ .error .invalid) :
    slice s m n = some [c] ∧ f () ≠ .error .invalid := by
  unfold expectChar at h
  split at h
  · rename_i hslice
    exact ⟨hslice, h⟩
  · exact absurd rfl h

/-- **A text that is not refused** has the places of the format. -/
theorem exists_places {text : List Char} (h : parseRfc3339 text ≠ .error .invalid) :
    ∃ p : Places, p.Cut ∧ trim text = p.text := by
  unfold parseRfc3339 at h
  dsimp only at h
  split at h
  · exact absurd rfl h
  · obtain ⟨year, y, hyear, h⟩ := of_readField h
    obtain ⟨hsep₁, h⟩ := of_expectChar h
    obtain ⟨month, mo, hmonth, h⟩ := of_readField h
    obtain ⟨hsep₂, h⟩ := of_expectChar h
    obtain ⟨day, d, hday, h⟩ := of_readField h
    obtain ⟨hsep₃, h⟩ := of_expectChar h
    obtain ⟨hour, hh, hhour, h⟩ := of_readField h
    obtain ⟨hsep₄, h⟩ := of_expectChar h
    obtain ⟨minute, mi, hminute, h⟩ := of_readField h
    obtain ⟨hsep₅, h⟩ := of_expectChar h
    obtain ⟨second, se, hsecond, h⟩ := of_readField h
    -- each slice goes on where the one before it ended
    obtain ⟨_, e, b₁⟩ := eq_of_slice (List.nil_append _).symm byteLen_nil hyear
    obtain ⟨_, e, b₂⟩ := eq_of_slice e b₁ hsep₁
    obtain ⟨_, e, b₃⟩ := eq_of_slice e b₂ hmonth
    obtain ⟨_, e, b₄⟩ := eq_of_slice e b₃ hsep₂
    obtain ⟨_, e, b₅⟩ := eq_of_slice e b₄ hday
    obtain ⟨_, e, b₆⟩ := eq_of_slice e b₅ hsep₃
    obtain ⟨_, e, b₇⟩ := eq_of_slice e b₆ hhour
    obtain ⟨_, e, b₈⟩ := eq_of_slice e b₇ hsep₄
    obtain ⟨_, e, b₉⟩ := eq_of_slice e b₈ hminute
    obtain ⟨_, e, b₁₀⟩ := eq_of_slice e b₉ hsep₅
    obtain ⟨rest, e, b₁₁⟩ := eq_of_slice e b₁₀ hsecond
    simp only [byteLen_append, byteLen_nil] at b₁ b₂ b₃ b₄ b₅ b₆ b₇ b₈ b₉ b₁₀ b₁₁
    refine ⟨⟨year, month, day, hour, minute, second, rest⟩, ?_, ?_⟩
    · constructor <;> dsimp only <;> omega
    · rw [e]
      simp [Places.text]

end Places

/-- The places of a text are determined. -/
theorem Places.Cut.unique {p q : Places} (hp : p.Cut) (hq : q.Cut) (h : p.text = q.text) :
    p = q := by
  have split : ∀ {a b : List Char} {c : Char} {x y : List Char},
      Utf8Text.byteLen a = Utf8Text.byteLen b → a ++ c :: x = b ++ c :: y → a = b ∧ x = y := by
    intro a b c x y hlen heq
    have hcut := splitAtByte_append a (c :: x)
    rw [heq, hlen, splitAtByte_append] at hcut
    cases hcut
    exact ⟨rfl, rfl⟩
  obtain ⟨hy, h⟩ := split (hp.year.trans hq.year.symm) h
  obtain ⟨hmo, h⟩ := split (hp.month.trans hq.month.symm) h
  obtain ⟨hd, h⟩ := split (hp.day.trans hq.day.symm) h
  obtain ⟨hh, h⟩ := split (hp.hour.trans hq.hour.symm) h
  obtain ⟨hmi, h⟩ := split (hp.minute.trans hq.minute.symm) h
  have hcut := splitAtByte_append p.second p.rest
  rw [h, hp.second, ← hq.second, splitAtByte_append] at hcut
  obtain ⟨hs, hr⟩ := Prod.mk.inj (Option.some.inj hcut)
  cases p
  cases q
  simp_all

/-! ## Zones -/

/-- The two texts that hours and minutes of a zone are parsed from. -/
def ZoneHalves (tz hour minute : List Char) : Prop :=
  (':' ∉ hour ∧ ':' ∉ minute ∧ tz = hour ++ ':' :: minute) ∨
    (':' ∉ tz ∧ Utf8Text.byteLen hour = 2 ∧ Utf8Text.byteLen minute = 2 ∧ tz = hour ++ minute)

/-- Four bytes without a colon whose middle is inside a character. -/
def ZoneSplitsChar (tz : List Char) : Prop :=
  ':' ∉ tz ∧ Utf8Text.byteLen tz = 4 ∧ isCharBoundary tz 2 = false

/-- The sign of a zone. -/
def signOf (c : Char) : ℤ :=
  if c = '-' then -1 else 1

/-- A sign and two numbers. -/
structure ZoneNumbers (zone : List Char) (c : Char) (hour minute : List Char)
    (hours minutes : ℤ) : Prop where
  sign : c = '+' ∨ c = '-'
  halves : ∃ tz, zone = c :: tz ∧ ZoneHalves tz hour minute
  hours : i32.parseInt hour = some hours
  minutes : i32.parseInt minute = some minutes

/-- The minutes of a zone are computed without overflow. -/
def ZoneFits (c : Char) (hours minutes : ℤ) : Prop :=
  i32.Fits (hours * 60) ∧ i32.Fits (hours * 60 + minutes) ∧
    i32.Fits (signOf c * (hours * 60 + minutes))

/-- Two decimal digits. -/
def TwoDigits (cs : List Char) : Prop :=
  cs.length = 2 ∧ ∀ c ∈ cs, c.isDigit = true

/-- A zone on which the parser panics. -/
def ZoneStops (zone : List Char) : Prop :=
  (∃ c tz, (c = '+' ∨ c = '-') ∧ zone = c :: tz ∧ ZoneSplitsChar tz) ∨
    ∃ c hour minute hours minutes, ZoneNumbers zone c hour minute hours minutes ∧
      ¬ ZoneFits c hours minutes

/-- A zone with an offset. -/
def ZoneReads (zone : List Char) : Prop :=
  zone = [] ∨ zone = ['Z'] ∨ ∃ c hour minute hours minutes,
    ZoneNumbers zone c hour minute hours minutes ∧ ZoneFits c hours minutes

/-- Hours and minutes that are not two digits each, or not of a day and of an hour. -/
def ZoneLoose (zone : List Char) : Prop :=
  ∃ c hour minute hours minutes, ZoneNumbers zone c hour minute hours minutes ∧
    ¬ (TwoDigits hour ∧ TwoDigits minute ∧ hours < 24 ∧ minutes < 60)

/-- A zone with a sign is read from its hours and minutes. -/
theorem readOffset_sign {c : Char} (h : c = '+' ∨ c = '-') (tz : List Char) :
    readOffset (c :: tz) = readZone (signOf c) tz := by
  rcases h with rfl | rfl
  · rfl
  · rfl

/-- The halves are what is parsed. -/
theorem ZoneHalves.read {tz hour minute : List Char} (h : ZoneHalves tz hour minute) :
    readZoneParts tz = parsePair hour minute := by
  unfold readZoneParts
  rcases h with ⟨hh, hm, rfl⟩ | ⟨hnone, hh, hm, rfl⟩
  · obtain ⟨htake, hdrop⟩ := cut_colon (b := minute) hh
    rw [if_pos (by simp), htake, hdrop, if_neg hm]
  · have hsplit : splitAtByte (hour ++ minute) 2 = some (hour, minute) :=
      splitAtByte_eq_some_iff.mpr ⟨rfl, hh⟩
    rw [if_neg hnone, if_pos (by rw [byteLen_append, hh, hm])]
    simp only [hsplit]

/-- The halves of a zone are determined. -/
theorem ZoneHalves.unique {tz hour minute hour' minute' : List Char}
    (h : ZoneHalves tz hour minute) (h' : ZoneHalves tz hour' minute') :
    hour = hour' ∧ minute = minute' := by
  rcases h with ⟨hh, -, rfl⟩ | ⟨hnone, hh, -, rfl⟩
  · rcases h' with ⟨hh', -, heq⟩ | ⟨hnone', -, -, -⟩
    · obtain ⟨htake, hdrop⟩ := cut_colon (b := minute) hh
      obtain ⟨htake', hdrop'⟩ := cut_colon (b := minute') hh'
      rw [heq, htake'] at htake
      rw [heq, hdrop'] at hdrop
      exact ⟨htake.symm, hdrop.symm⟩
    · exact absurd (by simp) hnone'
  · rcases h' with ⟨-, -, heq⟩ | ⟨-, hh', -, heq⟩
    · exact absurd (by simp [heq]) hnone
    · have hcut := splitAtByte_append hour minute
      rw [hh, ← hh', heq, splitAtByte_append] at hcut
      exact ⟨(Prod.mk.inj (Option.some.inj hcut)).1.symm,
        (Prod.mk.inj (Option.some.inj hcut)).2.symm⟩

/-- A zone that is cut within a character panics. -/
theorem readZoneParts_splitsChar {tz : List Char} (h : ZoneSplitsChar tz) :
    readZoneParts tz = .error .panic := by
  obtain ⟨hnone, hlen, hboundary⟩ := h
  have hsplit : splitAtByte tz 2 = none := by
    rw [isCharBoundary, Option.isSome_eq_false_iff, Option.isNone_iff_eq_none] at hboundary
    exact hboundary
  unfold readZoneParts
  rw [if_neg hnone, if_pos hlen]
  simp only [hsplit]

/-- A zone has halves, or is cut inside a character, or is refused. -/
theorem readZoneParts_cases (tz : List Char) : (∃ hour minute, ZoneHalves tz hour minute) ∨
    ZoneSplitsChar tz ∨ readZoneParts tz = .error .invalid := by
  by_cases hcolon : ':' ∈ tz
  · by_cases hagain : ':' ∈ (tz.dropWhile (· ≠ ':')).tail
    · right
      right
      unfold readZoneParts
      rw [if_pos hcolon, if_pos hagain]
    · left
      refine ⟨tz.takeWhile (· ≠ ':'), (tz.dropWhile (· ≠ ':')).tail, .inl ⟨?_, hagain, ?_⟩⟩
      · intro hmem
        have := List.mem_takeWhile_imp hmem
        simp at this
      · have hne : tz.dropWhile (· ≠ ':') ≠ [] := by
          intro hnil
          have := List.dropWhile_eq_nil_iff.mp hnil _ hcolon
          simp at this
        have hhead : (tz.dropWhile (· ≠ ':')).head hne = ':' := by
          have := List.head_dropWhile_not (· ≠ ':') hne
          simpa using this
        conv_lhs => rw [← List.takeWhile_append_dropWhile (p := (· ≠ ':')) (l := tz)]
        congr 1
        conv_lhs => rw [← List.cons_head_tail hne, hhead]
  · by_cases hlen : Utf8Text.byteLen tz = 4
    · cases hboundary : isCharBoundary tz 2 with
      | false => exact .inr (.inl ⟨hcolon, hlen, hboundary⟩)
      | true =>
        obtain ⟨a, b, rfl, ha⟩ := isCharBoundary_iff.mp hboundary
        rw [byteLen_append] at hlen
        exact .inl ⟨a, b, .inr ⟨hcolon, ha, by omega, rfl⟩⟩
    · right
      right
      unfold readZoneParts
      rw [if_neg hcolon, if_neg hlen]

/-- A zone within the machine's range has its value in minutes. -/
theorem zoneMinutes_of_fits {c : Char} {hours minutes : ℤ} (h : ZoneFits c hours minutes) :
    zoneMinutes (signOf c) hours minutes = .ok (signOf c * (hours * 60 + minutes)) := by
  obtain ⟨h₁, h₂, h₃⟩ := h
  unfold zoneMinutes
  rw [checked_bind h₁, checked_bind h₂, checked_of_fits h₃]
  rfl

/-- A zone beyond the machine's range panics. -/
theorem zoneMinutes_of_not_fits {c : Char} {hours minutes : ℤ} (h : ¬ ZoneFits c hours minutes) :
    zoneMinutes (signOf c) hours minutes = .error .panic := by
  unfold zoneMinutes
  by_cases h₁ : i32.Fits (hours * 60)
  · rw [checked_bind h₁]
    by_cases h₂ : i32.Fits (hours * 60 + minutes)
    · have h₃ : ¬ i32.Fits (signOf c * (hours * 60 + minutes)) := fun h₃ => h ⟨h₁, h₂, h₃⟩
      rw [checked_bind h₂, checked_eq_none.mpr h₃]
      rfl
    · rw [checked_eq_none.mpr h₂]
      rfl
  · rw [checked_eq_none.mpr h₁]
    rfl

namespace ZoneNumbers

variable {zone hour minute : List Char} {c : Char} {hours minutes : ℤ}

/-- What a zone of two numbers is read as. -/
theorem readOffset (h : ZoneNumbers zone c hour minute hours minutes) :
    readOffset zone = zoneMinutes (signOf c) hours minutes := by
  obtain ⟨tz, rfl, hhalves⟩ := h.halves
  rw [readOffset_sign h.sign, readZone, hhalves.read, parsePair, h.hours, h.minutes]
  rfl

/-- The numbers of a zone are determined. -/
theorem unique {hour' minute' : List Char} {c' : Char} {hours' minutes' : ℤ}
    (h : ZoneNumbers zone c hour minute hours minutes)
    (h' : ZoneNumbers zone c' hour' minute' hours' minutes') :
    hour = hour' ∧ minute = minute' ∧ hours = hours' ∧ minutes = minutes' := by
  obtain ⟨tz, htz, hhalves⟩ := h.halves
  obtain ⟨tz', htz', hhalves'⟩ := h'.halves
  rw [htz] at htz'
  obtain ⟨rfl, rfl⟩ := List.cons.inj htz'
  obtain ⟨rfl, rfl⟩ := hhalves.unique hhalves'
  have hh := h.hours
  have hm := h.minutes
  rw [h'.hours] at hh
  rw [h'.minutes] at hm
  exact ⟨rfl, rfl, (Option.some.inj hh).symm, (Option.some.inj hm).symm⟩

end ZoneNumbers

/-- A zone that stops the parse panics. -/
theorem ZoneStops.readOffset {zone : List Char} (h : ZoneStops zone) :
    readOffset zone = .error .panic := by
  rcases h with ⟨c, tz, hc, rfl, hsplits⟩ | ⟨c, hour, minute, hours, minutes, h, hfits⟩
  · rw [readOffset_sign hc, readZone, readZoneParts_splitsChar hsplits]
    rfl
  · rw [h.readOffset, zoneMinutes_of_not_fits hfits]

/-- A zone that is read has an offset that fits the machine. -/
theorem ZoneReads.readOffset {zone : List Char} (h : ZoneReads zone) :
    ∃ offset, readOffset zone = .ok offset ∧ i32.Fits offset := by
  rcases h with rfl | rfl | ⟨c, hour, minute, hours, minutes, h, hfits⟩
  · exact ⟨0, rfl, by decide⟩
  · exact ⟨0, rfl, by decide⟩
  · exact ⟨_, by rw [h.readOffset, zoneMinutes_of_fits hfits], hfits.2.2⟩

/-- **A zone** is read, or the parser panics on it, or it is refused. -/
theorem zone_cases (zone : List Char) :
    ZoneReads zone ∨ ZoneStops zone ∨ readOffset zone = .error .invalid := by
  have signed : ∀ c tz, (c = '+' ∨ c = '-') → zone = c :: tz →
      ZoneReads zone ∨ ZoneStops zone ∨ readOffset zone = .error .invalid := by
    rintro c tz hc rfl
    rcases readZoneParts_cases tz with ⟨hour, minute, hhalves⟩ | hsplits | hinvalid
    · cases hhours : i32.parseInt hour with
      | none =>
        right
        right
        rw [readOffset_sign hc, readZone, hhalves.read, parsePair, hhours]
        rfl
      | some hours =>
        cases hminutes : i32.parseInt minute with
        | none =>
          right
          right
          rw [readOffset_sign hc, readZone, hhalves.read, parsePair, hhours, hminutes]
          rfl
        | some minutes =>
          have hnumbers : ZoneNumbers (c :: tz) c hour minute hours minutes :=
            ⟨hc, ⟨tz, rfl, hhalves⟩, hhours, hminutes⟩
          by_cases hfits : ZoneFits c hours minutes
          · exact .inl (.inr (.inr ⟨c, hour, minute, hours, minutes, hnumbers, hfits⟩))
          · exact .inr (.inl (.inr ⟨c, hour, minute, hours, minutes, hnumbers, hfits⟩))
    · exact .inr (.inl (.inl ⟨c, tz, hc, rfl, hsplits⟩))
    · right
      right
      rw [readOffset_sign hc, readZone, hinvalid]
      rfl
  cases zone with
  | nil => exact .inl (.inl rfl)
  | cons c tz =>
    by_cases hplus : c = '+'
    · exact signed c tz (.inl hplus) rfl
    by_cases hminus : c = '-'
    · exact signed c tz (.inr hminus) rfl
    by_cases hutc : c :: tz = ['Z']
    · exact .inl (.inr (.inl hutc))
    · right
      right
      unfold readOffset
      split <;> simp_all

/-- A zone that is read and not loose is one of the format. -/
theorem exists_zone {zone : List Char} (h : ZoneReads zone) (hloose : ¬ ZoneLoose zone) :
    ∃ z : Zone, z.Valid ∧ zone = z.text := by
  rcases h with rfl | rfl | ⟨c, hour, minute, hours, minutes, h, -⟩
  · exact ⟨.absent, trivial, rfl⟩
  · exact ⟨.utc, trivial, rfl⟩
  · obtain ⟨hh, hm, hhour, hminute⟩ : TwoDigits hour ∧ TwoDigits minute ∧ hours < 24 ∧
        minutes < 60 := by
      by_contra hnot
      exact hloose ⟨c, hour, minute, hours, minutes, h, hnot⟩
    obtain ⟨n, hn⟩ : ∃ n, Nat.ofDigitChars 10 hour 0 = n := ⟨_, rfl⟩
    obtain ⟨n', hn'⟩ : ∃ n, Nat.ofDigitChars 10 minute 0 = n := ⟨_, rfl⟩
    have hhours := eq_of_parseInt h.hours hh.2
    have hminutes := eq_of_parseInt h.minutes hm.2
    have htext := eq_fixedDigits (by decide) hh.1 hh.2 hn
    have htext' := eq_fixedDigits (by decide) hm.1 hm.2 hn'
    obtain ⟨tz, rfl, hhalves⟩ := h.halves
    have hneg : (if c = '-' then '-' else '+') = c := by
      rcases h.sign with rfl | rfl <;> rfl
    rcases hhalves with ⟨-, -, rfl⟩ | ⟨-, -, -, rfl⟩
    · refine ⟨.offset (c = '-') n n' true, ⟨by omega, by omega⟩, ?_⟩
      simp only [Zone.text, decide_eq_true_eq, hneg, ← htext, ← htext', if_true,
        List.append_assoc, List.singleton_append]
    · refine ⟨.offset (c = '-') n n' false, ⟨by omega, by omega⟩, ?_⟩
      simp only [Zone.text, decide_eq_true_eq, hneg, ← htext, ← htext', Bool.false_eq_true,
        if_false, List.append_nil]

/-- A number below one hundred is written with two digits. -/
theorem twoDigits_fixedDigits {n : ℕ} (h : n < 100) : TwoDigits (fixedDigits 2 n) :=
  ⟨length_fixedDigits (by decide) h, fun c => isDigit_of_mem_fixedDigits⟩

/-- A zone of the format is not loose. -/
theorem not_zoneLoose {z : Zone} (h : z.Valid) : ¬ ZoneLoose z.text := by
  rintro ⟨c, hour, minute, hours, minutes, hnumbers, hnot⟩
  cases z with
  | absent =>
    obtain ⟨tz, htz, -⟩ := hnumbers.halves
    exact absurd htz (by simp [Zone.text])
  | utc =>
    obtain ⟨tz, htz, -⟩ := hnumbers.halves
    have hc := (List.cons.inj htz).1
    rcases hnumbers.sign with rfl | rfl <;> exact absurd hc (by decide)
  | offset negative h' m' colon =>
    obtain ⟨hh, hm⟩ := h
    have hformat : ZoneNumbers (Zone.offset negative h' m' colon).text
        (if negative then '-' else '+') (fixedDigits 2 h') (fixedDigits 2 m') h' m' := by
      refine ⟨by cases negative <;> simp, ⟨_, rfl, ?_⟩,
        parseInt_fixedDigits (by rw [fits_i32]; omega),
        parseInt_fixedDigits (by rw [fits_i32]; omega)⟩
      cases colon with
      | true =>
        exact .inl ⟨colon_not_mem_fixedDigits, colon_not_mem_fixedDigits, by simp⟩
      | false =>
        refine .inr ⟨?_, byteLen_fixedDigits (by decide) (by omega),
          byteLen_fixedDigits (by decide) (by omega), by simp⟩
        simp [colon_not_mem_fixedDigits]
    obtain ⟨rfl, rfl, rfl, rfl⟩ := hnumbers.unique hformat
    exact hnot ⟨twoDigits_fixedDigits (by omega), twoDigits_fixedDigits (by omega), by omega,
      by omega⟩

/-! ## Tails -/

/-- What stands behind the fraction of a tail. -/
def tailZone : List Char → List Char
  | '.' :: fractional => fractional.dropWhile Char.isDigit
  | zone => zone

/-- A dot that no digit follows. -/
def DotWithoutDigits (tail : List Char) : Prop :=
  ∃ fractional, tail = '.' :: fractional ∧ fractional.takeWhile Char.isDigit = []

/-- Without a fraction the zone is all that follows the seconds. -/
theorem tailZone_of_ne_dot {tail : List Char} (h : ∀ fractional, tail ≠ '.' :: fractional) :
    tailZone tail = tail := by
  unfold tailZone
  split
  · exact absurd rfl (h _)
  · rfl

/-- The tail is read as the zone in it is. -/
theorem parseMillisAndTz_eq (rest : List Char) : ∃ millis : ℤ, 0 ≤ millis ∧ millis ≤ 1000 ∧
    parseMillisAndTz rest = (readOffset (tailZone (trim rest))).map fun offset => (millis, offset) := by
  by_cases hdot : ∃ fractional, trim rest = '.' :: fractional
  · obtain ⟨fractional, hdot⟩ := hdot
    have hdigits : ∀ c ∈ fractional.takeWhile Char.isDigit, c.isDigit = true :=
      fun c => List.mem_takeWhile_imp
    have hbound := millisDigits_lt hdigits
    refine ⟨(Nat.ofDigitChars 10 ((fractional.takeWhile Char.isDigit ++
      List.replicate 3 '0').take 3) 0 : ℕ), by omega, by omega, ?_⟩
    rw [parseMillisAndTz_fraction hdot, readMillis_eq hdigits, hdot, tailZone]
    cases readOffset (fractional.dropWhile Char.isDigit) <;> rfl
  · have hnone : ∀ fractional, trim rest ≠ '.' :: fractional := fun f h => hdot ⟨f, h⟩
    exact ⟨0, by omega, by omega, by rw [parseMillisAndTz_zone hnone, tailZone_of_ne_dot hnone]⟩

/-- A tail with the zone of the format and digits behind its dot is one of the format. -/
theorem exists_tail {tail : List Char} {z : Zone} (hz : tailZone tail = z.text)
    (hdot : ¬ DotWithoutDigits tail) : ∃ fraction : List Char,
    (∀ c ∈ fraction, c.isDigit = true) ∧
      tail = (if fraction = [] then [] else '.' :: fraction) ++ z.text := by
  by_cases h : ∃ fractional, tail = '.' :: fractional
  · obtain ⟨fractional, rfl⟩ := h
    have hne : fractional.takeWhile Char.isDigit ≠ [] := fun hnil => hdot ⟨fractional, rfl, hnil⟩
    refine ⟨fractional.takeWhile Char.isDigit, fun c => List.mem_takeWhile_imp, ?_⟩
    rw [if_neg hne, ← hz, tailZone, List.cons_append, List.takeWhile_append_dropWhile]
  · refine ⟨[], by simp, ?_⟩
    rw [if_pos rfl, List.nil_append, ← hz, tailZone_of_ne_dot fun f hf => h ⟨f, hf⟩]

/-- The tail of a literal. -/
theorem Literal.Valid.tailZone {l : Literal} (hl : l.Valid) :
    tailZone l.tail = l.zone.text ∧ ¬ DotWithoutDigits l.tail := by
  unfold Literal.tail
  split
  · rw [List.nil_append]
    refine ⟨tailZone_of_ne_dot (zone_ne_dot l.zone), ?_⟩
    rintro ⟨fractional, hdot, -⟩
    exact zone_ne_dot _ _ hdot
  · rename_i hne
    rw [List.cons_append, tailZone.eq_1, List.dropWhile_append_of_pos hl.fraction,
      dropWhile_digits_zone]
    refine ⟨rfl, ?_⟩
    rintro ⟨fractional, hdot, hnil⟩
    obtain ⟨-, rfl⟩ := List.cons.inj hdot
    rw [List.takeWhile_append_of_pos hl.fraction] at hnil
    exact hne (List.append_eq_nil_iff.mp hnil).1

/-! ## Irregular texts -/

/-- The zone of a text. -/
def Places.zone (p : Places) : List Char :=
  tailZone (trim p.rest)

/-- The numbers of the places. -/
structure Fields where
  year : ℤ
  month : ℤ
  day : ℤ
  hour : ℤ
  minute : ℤ
  second : ℤ

/-- The integer parser reads the places. -/
structure Places.Reads (p : Places) (v : Fields) : Prop where
  year : i32.parseInt p.year = some v.year
  month : u32.parseInt p.month = some v.month
  day : u32.parseInt p.day = some v.day
  hour : u32.parseInt p.hour = some v.hour
  minute : u32.parseInt p.minute = some v.minute
  second : u32.parseInt p.second = some v.second

/-- No sign stands in the places. -/
def Places.DigitsOnly (p : Places) : Prop :=
  ∀ c ∈ p.year ++ p.month ++ p.day ++ p.hour ++ p.minute ++ p.second, c.isDigit = true

/-- A sign in a number, a day that the month does not have, a time that the day does not have,
white space in front of the tail, a dot without digits, or a loose zone. -/
def Places.Departs (p : Places) (v : Fields) : Prop :=
  ¬ p.DigitsOnly ∨ monthLength v.year v.month < v.day ∨ 24 ≤ v.hour ∨ 60 ≤ v.minute ∨
    60 ≤ v.second ∨ trim p.rest ≠ p.rest ∨ DotWithoutDigits (trim p.rest) ∨ ZoneLoose p.zone

/-- A text whose places the parser reads, with a zone on which it panics, or with a month and a
day that it takes and a departure from the format. -/
def Irregular (s : List Char) : Prop :=
  ∃ (p : Places) (v : Fields), p.Cut ∧ trim s = p.text ∧ p.Reads v ∧
    (ZoneStops p.zone ∨
      (1 ≤ v.month ∧ v.month ≤ 12) ∧ (1 ≤ v.day ∧ v.day ≤ 31) ∧ ZoneReads p.zone ∧ p.Departs v)

namespace Places

variable {p : Places} {v : Fields}

/-- What the fields of a text are assembled to. -/
theorem Reads.read (h : p.Reads v) :
    p.read = assemble v.year v.month v.day v.hour v.minute v.second p.rest := by
  unfold Places.read
  rw [h.year, h.month, h.day, h.hour, h.minute, h.second]
  rfl

/-- The numbers that fit in the places. -/
theorem Reads.bounds (h : p.Reads v) (hp : p.Cut) : (-9999 ≤ v.year ∧ v.year ≤ 9999) ∧
    (0 ≤ v.hour ∧ v.hour < 100) ∧ (0 ≤ v.minute ∧ v.minute < 100) ∧
    (0 ≤ v.second ∧ v.second < 100) := by
  have bound : ∀ {t : IntType} {cs : List Char} {n : ℤ} {w : ℕ}, t.parseInt cs = some n →
      Utf8Text.byteLen cs = w → n.natAbs < 10 ^ w := by
    intro t cs n w hn hw
    have hle := length_le_byteLen cs
    exact (parseInt_lt hn).2.trans_le (Nat.pow_le_pow_right (by decide) (by omega))
  have hy := bound h.year hp.year
  have hh := bound h.hour hp.hour
  have hm := bound h.minute hp.minute
  have hs := bound h.second hp.second
  have hh₀ := (parseInt_lt h.hour).1
  have hm₀ := (parseInt_lt h.minute).1
  have hs₀ := (parseInt_lt h.second).1
  rw [fits_u32] at hh₀ hm₀ hs₀
  omega

/-- A text is read in one way. -/
theorem Reads.unique {v' : Fields} (h : p.Reads v) (h' : p.Reads v') : v = v' := by
  obtain ⟨hy, hmo, hd, hh, hmi, hs⟩ := h
  obtain ⟨hy', hmo', hd', hh', hmi', hs'⟩ := h'
  cases v
  cases v'
  simp_all

end Places

/-- A month and a day that the parser takes, with a zone that it reads. -/
theorem Places.Reads.ok {p : Places} {v : Fields} (h : p.Reads v) (hp : p.Cut)
    (hmonth : 1 ≤ v.month ∧ v.month ≤ 12) (hday : 1 ≤ v.day ∧ v.day ≤ 31)
    (hzone : ZoneReads p.zone) : ∃ ms, p.read = .ok ms := by
  obtain ⟨hyear, hh, hm, hs⟩ := h.bounds hp
  obtain ⟨offset, hoffset, hfits⟩ := hzone.readOffset
  obtain ⟨millis, hlow, hhigh, htail⟩ := parseMillisAndTz_eq p.rest
  have hfirst : (⟨v.year, v.month, 1⟩ : Date).Valid :=
    ⟨hmonth, by dsimp only; omega, by
      have := (monthLength_bounds v.year v.month).1
      dsimp only
      omega⟩
  have hdays := dayNumber_bounds hfirst hyear
  rw [Places.zone] at hoffset
  rw [hoffset] at htail
  exact ⟨_, by rw [h.read, assemble_eq htail (ymdToDays_eq hyear hmonth hday) (by omega)
    (by omega) (by omega) (by omega) hfits ⟨hlow, hhigh⟩]⟩

/-- The fields of a literal. -/
def Literal.fields (l : Literal) : Fields :=
  ⟨l.date.year, l.date.month, l.date.day, l.hour, l.minute, l.second⟩

/-- A literal of the grammar is read as its fields. -/
theorem Literal.Valid.reads {l : Literal} (hl : l.Valid) : l.places.Reads l.fields := by
  obtain ⟨hm, hd, hy, hh, hmi, hs⟩ := hl.bounds
  have hyear := hl.year
  have hday := hl.date.day.1
  have hmonth := hl.date.month.1
  have number : ∀ {t : IntType} {w : ℕ} {n : ℤ}, 0 ≤ n → n < 10000 → t.Fits n →
      t.parseInt (fixedDigits w n.toNat) = some n := by
    intro t w n hlow hhigh hfits
    have hn : ((n.toNat : ℕ) : ℤ) = n := by omega
    rw [parseInt_fixedDigits (by rwa [hn]), hn]
  constructor
  · exact number hyear.1 (by omega) (by rw [fits_i32]; omega)
  · exact number (by omega) (by omega) (by rw [fits_u32]; omega)
  · exact number (by omega) (by omega) (by rw [fits_u32]; omega)
  · exact parseInt_fixedDigits (by rw [fits_u32]; omega)
  · exact parseInt_fixedDigits (by rw [fits_u32]; omega)
  · exact parseInt_fixedDigits (by rw [fits_u32]; omega)

/-- A literal does not depart from its format. -/
theorem Literal.Valid.not_departs {l : Literal} (hl : l.Valid) : ¬ l.places.Departs l.fields := by
  have htrim : trim l.tail = l.tail :=
    trim_of_all fun c hc => not_isWhitespace_of_literal (mem_tail hl hc)
  have hzone : l.places.zone = l.zone.text := by
    rw [Places.zone]
    exact htrim ▸ hl.tailZone.1
  have hh := hl.hour
  have hm := hl.minute
  have hs := hl.second
  rintro (hsign | hday | hhour | hminute | hsecond | hspace | hdot | hloose)
  · apply hsign
    intro c hc
    simp only [Literal.places, List.mem_append] at hc
    rcases hc with ((((hc | hc) | hc) | hc) | hc) | hc <;> exact isDigit_of_mem_fixedDigits hc
  · exact absurd hl.date.day.2 (not_le.mpr hday)
  · simp only [Literal.fields] at hhour
    omega
  · simp only [Literal.fields] at hminute
    omega
  · simp only [Literal.fields] at hsecond
    omega
  · exact hspace htrim
  · exact hl.tailZone.2 (htrim ▸ hdot)
  · exact not_zoneLoose hl.zone (hzone ▸ hloose)

/-- **An irregular text** is read although it is no literal, or the parser panics on it. -/
theorem Irregular.not_exact {s : List Char} (h : Irregular s) :
    parseRfc3339 s = .error .panic ∨
      (∃ ms, parseRfc3339 s = .ok ms) ∧ ∀ l : Literal, l.Valid → trim s ≠ l.text := by
  obtain ⟨p, v, hp, htext, hreads, hstops | ⟨hmonth, hday, hzone, hdeparts⟩⟩ := h
  · left
    obtain ⟨millis, -, -, htail⟩ := parseMillisAndTz_eq p.rest
    have hoffset := hstops.readOffset
    rw [Places.zone] at hoffset
    rw [hoffset] at htail
    rw [parseRfc3339_places hp htext, hreads.read, assemble, htail]
    rfl
  · right
    refine ⟨?_, ?_⟩
    · rw [parseRfc3339_places hp htext]
      exact hreads.ok hp hmonth hday hzone
    · intro l hl hliteral
      obtain rfl := hp.unique hl.cut (htext.symm.trans hliteral)
      rw [hreads.unique hl.reads] at hdeparts
      exact hl.not_departs hdeparts

/-- Places that are read have numbers. -/
theorem exists_fields {p : Places} (h : p.read ≠ .error .invalid) : ∃ v, p.Reads v := by
  have field : ∀ {t : IntType} {cs : List Char} {α : Type} {f : ℤ → Except ParseStop α},
      (orInvalid (t.parseInt cs) >>= f) ≠ .error .invalid →
      ∃ n, t.parseInt cs = some n ∧ f n ≠ .error .invalid := by
    intro t cs α f hf
    cases hn : t.parseInt cs with
    | none => exact absurd (by rw [hn]; rfl) hf
    | some n =>
      rw [hn] at hf
      exact ⟨n, rfl, hf⟩
  unfold Places.read at h
  obtain ⟨y, hy, h⟩ := field h
  obtain ⟨mo, hmo, h⟩ := field h
  obtain ⟨d, hd, h⟩ := field h
  obtain ⟨hh, hhh, h⟩ := field h
  obtain ⟨mi, hmi, h⟩ := field h
  obtain ⟨se, hse, h⟩ := field h
  exact ⟨⟨y, mo, d, hh, mi, se⟩, hy, hmo, hd, hhh, hmi, hse⟩

/-- Numbers in digits that do not depart from the format, with its tail, are a literal. -/
theorem Places.Reads.exists_literal {p : Places} {v : Fields} (h : p.Reads v) (hp : p.Cut)
    (hmonth : 1 ≤ v.month ∧ v.month ≤ 12) (hday : 1 ≤ v.day) (hzone : ZoneReads p.zone)
    (hnot : ¬ p.Departs v) : ∃ l : Literal, l.Valid ∧ p.text = l.text := by
  simp only [Places.Departs, not_or, not_not, not_le, not_lt] at hnot
  obtain ⟨hdigits, hlength, hhour, hminute, hsecond, hspace, hdot, hloose⟩ := hnot
  obtain ⟨z, hz, hztext⟩ := exists_zone hzone hloose
  rw [Places.zone, hspace] at hztext
  rw [hspace] at hdot
  obtain ⟨fraction, hfraction, htail⟩ := exists_tail hztext hdot
  obtain ⟨hyear, hh, hm, hs⟩ := h.bounds hp
  -- a place of digits is its number in as many digits
  have place : ∀ {t : IntType} {cs : List Char} {n : ℤ} {w : ℕ}, 0 < w →
      Utf8Text.byteLen cs = w → (∀ c ∈ cs, c.isDigit = true) → t.parseInt cs = some n →
      0 ≤ n ∧ cs = fixedDigits w n.toNat := by
    intro t cs n w hw hlen hcs hn
    have hvalue := eq_of_parseInt hn hcs
    rw [byteLen_digits hcs] at hlen
    exact ⟨by omega, eq_fixedDigits hw hlen hcs (by omega)⟩
  simp only [Places.DigitsOnly, List.mem_append] at hdigits
  obtain ⟨hy₀, hy⟩ := place (by decide) hp.year (fun c hc => hdigits c (by tauto)) h.year
  obtain ⟨-, hmo⟩ := place (by decide) hp.month (fun c hc => hdigits c (by tauto)) h.month
  obtain ⟨-, hd⟩ := place (by decide) hp.day (fun c hc => hdigits c (by tauto)) h.day
  obtain ⟨-, hho⟩ := place (by decide) hp.hour (fun c hc => hdigits c (by tauto)) h.hour
  obtain ⟨-, hmi⟩ := place (by decide) hp.minute (fun c hc => hdigits c (by tauto)) h.minute
  obtain ⟨-, hse⟩ := place (by decide) hp.second (fun c hc => hdigits c (by tauto)) h.second
  refine ⟨⟨⟨v.year, v.month, v.day⟩, v.hour.toNat, v.minute.toNat, v.second.toNat, fraction, z⟩,
    ⟨⟨hmonth, hday, hlength⟩, ⟨hy₀, hyear.2⟩, by dsimp only; omega, by dsimp only; omega,
      by dsimp only; omega, hfraction, hz⟩, ?_⟩
  rw [Places.text, hy, hmo, hd, hho, hmi, hse, htail]
  rfl

/-- **A text that is not irregular** and not refused is a literal. -/
theorem exists_literal {s : List Char} (h : ¬ Irregular s)
    (hread : parseRfc3339 s ≠ .error .invalid) : ∃ l : Literal, l.Valid ∧ trim s = l.text := by
  obtain ⟨p, hp, htext⟩ := exists_places hread
  rw [parseRfc3339_places hp htext] at hread
  obtain ⟨v, hreads⟩ := exists_fields hread
  rw [hreads.read] at hread
  obtain ⟨millis, -, -, htail⟩ := parseMillisAndTz_eq p.rest
  rcases zone_cases p.zone with hzone | hstops | hinvalid
  · obtain ⟨offset, hoffset, -⟩ := hzone.readOffset
    rw [Places.zone] at hoffset
    rw [hoffset] at htail
    by_cases hrange : (1 ≤ v.month ∧ v.month ≤ 12) ∧ (1 ≤ v.day ∧ v.day ≤ 31)
    · obtain ⟨hmonth, hday⟩ := hrange
      rw [htext]
      refine hreads.exists_literal hp hmonth hday.1 hzone fun hdeparts => h ?_
      exact ⟨p, v, hp, htext, hreads, .inr ⟨hmonth, hday, hzone, hdeparts⟩⟩
    · have hdays : ymdToDays v.year v.month v.day = .error .invalid := by
        unfold ymdToDays
        rw [if_pos (by tauto)]
      refine absurd ?_ hread
      rw [assemble, htail, hdays]
      rfl
  · exact absurd ⟨p, v, hp, htext, hreads, .inl hstops⟩ h
  · refine absurd ?_ hread
    rw [Places.zone] at hinvalid
    rw [hinvalid] at htail
    rw [assemble, htail]
    rfl

/-! ## The grammar of the parser -/

/-- The parser neither panics nor overflows on a text, and takes it exactly when it is a literal
in white space, as the instant of the literal. -/
def ParsesExactly (s : String) : Prop :=
  parseIsoDatetime s ≠ none ∧ ∀ ms, parseIsoDatetime s = some (.ok ms) ↔
    ∃ l : Literal, l.Valid ∧ trim s.toList = l.text ∧ ms = l.instant

/-- The parser has no result exactly where it panics. -/
theorem parseIsoDatetime_eq_none {s : String} :
    parseIsoDatetime s = none ↔ parseRfc3339 s.toList = .error .panic := by
  unfold parseIsoDatetime
  split <;> simp_all

/-- An irregular text is not read exactly. -/
theorem Irregular.not_parsesExactly {s : String} (h : Irregular s.toList) : ¬ ParsesExactly s := by
  rintro ⟨hstop, hexact⟩
  rcases h.not_exact with hpanic | ⟨⟨ms, hms⟩, hno⟩
  · exact hstop (parseIsoDatetime_eq_none.mpr hpanic)
  · obtain ⟨l, hl, htext, -⟩ := (hexact ms).mp (parseIsoDatetime_ok.mpr hms)
    exact hno l hl htext

/-- **The parser accepts its format** on exactly the texts that are not irregular. -/
theorem parseIsoDatetime_exact_iff (s : String) :
    ParsesExactly s ↔ ¬ Irregular s.toList := by
  constructor
  · intro hexact hirregular
    exact hirregular.not_parsesExactly hexact
  · intro hregular
    refine ⟨fun hnone => ?_, fun ms => ?_⟩
    · have hpanic := parseIsoDatetime_eq_none.mp hnone
      obtain ⟨l, hl, htext⟩ := exists_literal hregular (by rw [hpanic]; simp)
      rw [hl.parse htext] at hpanic
      exact absurd hpanic (by simp)
    · rw [parseIsoDatetime_ok]
      constructor
      · intro hms
        obtain ⟨l, hl, htext⟩ := exists_literal hregular (by rw [hms]; simp)
        rw [hl.parse htext] at hms
        exact ⟨l, hl, htext, (Except.ok.inj hms).symm⟩
      · rintro ⟨l, hl, htext, rfl⟩
        exact hl.parse htext

/-- February 31st is read, as March 2nd, and a zone is cut inside a character. -/
theorem february31_read :
    parseIsoDatetime "2024-02-31T10:30:45" = some (.ok 1709375445000) ∧
      ¬ ParsesExactly "2024-02-31T10:30:45" ∧
      parseIsoDatetime "2024-01-15T10:30:45+1é2" = none := by
  refine ⟨parseIsoDatetime_of_toOption (by decide), Irregular.not_parsesExactly ?_,
    Option.isNone_iff_eq_none.mp (by decide)⟩
  refine ⟨⟨"2024".toList, "02".toList, "31".toList, "10".toList, "30".toList, "45".toList, []⟩,
    ⟨2024, 2, 31, 10, 30, 45⟩, ⟨rfl, rfl, rfl, rfl, rfl, rfl⟩, by decide,
    ⟨rfl, rfl, rfl, rfl, rfl, rfl⟩, .inr ⟨by decide, by decide, .inl rfl, .inr (.inl ?_)⟩⟩
  decide
