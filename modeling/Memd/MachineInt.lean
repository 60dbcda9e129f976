/-
# Fixed-width integers

An operation on a fixed-width integer type is the operation on the integers with a check that
its result is in the range of the type; a computation that overflows has no result.

* `checked_bind` — an operation that fits goes on with its result;
* `parseInt` — `str::parse` of an integer type;
* `parseInt_digits` — a run of digits is parsed as the number it writes.
-/
import Mathlib.Data.Int.Notation
import Mathlib.Data.Nat.Notation

/-- A fixed-width integer type. -/
structure IntType where
  min : ℤ
  max : ℤ

namespace IntType

/-- `i32`. -/
def i32 : IntType := ⟨-2147483648, 2147483647⟩

/-- `u32`. -/
def u32 : IntType := ⟨0, 4294967295⟩

/-- `i64`. -/
def i64 : IntType := ⟨-9223372036854775808, 9223372036854775807⟩

/-- `u64`. -/
def u64 : IntType := ⟨0, 18446744073709551615⟩

/-- The value is one of the type. -/
def Fits (t : IntType) (v : ℤ) : Prop :=
  t.min ≤ v ∧ v ≤ t.max

instance (t : IntType) (v : ℤ) : Decidable (t.Fits v) :=
  inferInstanceAs (Decidable (_ ∧ _))

/-- The result of an operation, none on overflow. -/
def checked (t : IntType) (v : ℤ) : Option ℤ :=
  if t.Fits v then some v else none

/-- `as`. -/
def cast (t : IntType) (v : ℤ) : ℤ :=
  t.min + (v - t.min) % (t.max - t.min + 1)

theorem checked_eq_some {t : IntType} {v w : ℤ} : t.checked v = some w ↔ t.Fits v ∧ v = w := by
  unfold checked
  split
  · rename_i h
    simp [h]
  · rename_i h
    simp [h]

theorem checked_eq_none {t : IntType} {v : ℤ} : t.checked v = none ↔ ¬ t.Fits v := by
  unfold checked
  split
  · rename_i h
    simp [h]
  · rename_i h
    simp [h]

theorem checked_of_fits {t : IntType} {v : ℤ} (h : t.Fits v) : t.checked v = some v :=
  checked_eq_some.mpr ⟨h, rfl⟩

/-- An operation that does not overflow. -/
theorem checked_bind {t : IntType} {v : ℤ} {α : Type} {f : ℤ → Option α} (h : t.Fits v) :
    (t.checked v >>= f) = f v := by
  rw [checked_of_fits h]
  rfl

/-- A computation that has a result goes on with it. -/
theorem some_bind {α β : Type} (a : α) (f : α → Option β) : (some a >>= f) = f a :=
  rfl

theorem cast_of_fits {t : IntType} {v : ℤ} (h : t.Fits v) : t.cast v = v := by
  obtain ⟨hmin, hmax⟩ := h
  unfold cast
  rw [Int.emod_eq_of_lt (by omega) (by omega)]
  omega

@[simp] theorem fits_i32 {v : ℤ} : i32.Fits v ↔ -2147483648 ≤ v ∧ v ≤ 2147483647 := Iff.rfl

@[simp] theorem fits_u32 {v : ℤ} : u32.Fits v ↔ 0 ≤ v ∧ v ≤ 4294967295 := Iff.rfl

@[simp] theorem fits_i64 {v : ℤ} :
    i64.Fits v ↔ -9223372036854775808 ≤ v ∧ v ≤ 9223372036854775807 := Iff.rfl

@[simp] theorem fits_u64 {v : ℤ} : u64.Fits v ↔ 0 ≤ v ∧ v ≤ 18446744073709551615 := Iff.rfl

/-! ## Reading -/

/-- The number a run of ASCII digits writes. -/
def digitsValue (cs : List Char) : Option ℕ :=
  if cs ≠ [] ∧ cs.all Char.isDigit then some (Nat.ofDigitChars 10 cs 0) else none

/-- `str::parse`: a sign that the type allows and a run of digits, in range. -/
def parseInt (t : IntType) (cs : List Char) : Option ℤ :=
  let value := match cs with
    | '+' :: ds => (digitsValue ds).map Int.ofNat
    | '-' :: ds => if t.min < 0 then (digitsValue ds).map fun n : ℕ => -(n : ℤ) else none
    | ds => (digitsValue ds).map Int.ofNat
  value.filter fun v => decide (t.Fits v)

theorem digitsValue_eq_some {cs : List Char} (hne : cs ≠ []) (h : ∀ c ∈ cs, c.isDigit = true) :
    digitsValue cs = some (Nat.ofDigitChars 10 cs 0) :=
  if_pos ⟨hne, List.all_eq_true.mpr h⟩

/-- A run of digits has no sign. -/
theorem parseInt_eq {t : IntType} {cs : List Char} (hne : cs ≠ [])
    (h : ∀ c ∈ cs, c.isDigit = true) :
    t.parseInt cs = (some ((Nat.ofDigitChars 10 cs 0 : ℕ) : ℤ)).filter fun v => decide (t.Fits v) := by
  have hvalue := digitsValue_eq_some hne h
  cases cs with
  | nil => exact absurd rfl hne
  | cons c cs =>
    have hplus : c ≠ '+' := by
      rintro rfl
      exact absurd (h _ List.mem_cons_self) (by decide)
    have hminus : c ≠ '-' := by
      rintro rfl
      exact absurd (h _ List.mem_cons_self) (by decide)
    unfold parseInt
    split
    · rename_i heq
      exact absurd (List.cons.inj heq).1 hplus
    · rename_i heq
      exact absurd (List.cons.inj heq).1 hminus
    · rw [hvalue]
      rfl

/-- A run of digits is parsed as the number it writes. -/
theorem parseInt_digits {t : IntType} {cs : List Char} (hne : cs ≠ [])
    (h : ∀ c ∈ cs, c.isDigit = true) (hfits : t.Fits (Nat.ofDigitChars 10 cs 0 : ℕ)) :
    t.parseInt cs = some ((Nat.ofDigitChars 10 cs 0 : ℕ) : ℤ) := by
  rw [parseInt_eq hne h]
  simp [Option.filter, hfits]

/-- The number of a run of digits is its value. -/
theorem eq_of_parseInt {t : IntType} {cs : List Char} {v : ℤ} (h : t.parseInt cs = some v)
    (hdigits : ∀ c ∈ cs, c.isDigit = true) : v = (Nat.ofDigitChars 10 cs 0 : ℕ) := by
  have hne : cs ≠ [] := by
    rintro rfl
    exact absurd h (by simp [parseInt, digitsValue])
  rw [parseInt_eq hne hdigits] at h
  exact (Option.some.inj (Option.filter_eq_some_iff.mp h).1).symm

end IntType
