/-
# The part of a log behind its last marker

A log with markers (checkpoints) is replayed from behind the last one.  `afterLast`
is that suffix, computed by position as a reader would, with the equations that
describe it under appends.
-/
import Mathlib.Data.List.Basic
import Mathlib.Tactic.Common

namespace LogSuffix

variable {α : Type}

/-- The position of the last element satisfying `p`. -/
def rposition (p : α → Bool) : List α → Option ℕ
  | [] => none
  | a :: l =>
    match rposition p l with
    | some i => some (i + 1)
    | none => if p a then some 0 else none

/-- The elements behind the last one satisfying `p`; all of them if there is none. -/
def afterLast (p : α → Bool) (l : List α) : List α :=
  l.drop (((rposition p l).map (· + 1)).getD 0)

variable (p : α → Bool)

@[simp] theorem afterLast_nil : afterLast p [] = [] := rfl

theorem rposition_eq_none_iff {l : List α} : rposition p l = none ↔ ∀ a ∈ l, p a = false := by
  induction l with
  | nil => simp [rposition]
  | cons a l ih =>
    rw [rposition]
    cases h : rposition p l with
    | none =>
      have := ih.mp h
      cases ha : p a <;> simp [ha]
      exact this
    | some i =>
      have hne : ¬ ∀ a ∈ l, p a = false := fun hl => by simp [ih.mpr hl] at h
      constructor
      · intro hc
        cases hc
      · intro hall
        exact absurd (fun b hb => hall b (List.mem_cons_of_mem _ hb)) hne

/-- Appending unmarked elements extends the suffix. -/
theorem afterLast_append {l m : List α} (hm : ∀ a ∈ m, p a = false) :
    afterLast p (l ++ m) = afterLast p l ++ m := by
  have hpos : ∀ l : List α, rposition p (l ++ m) = rposition p l := by
    intro l
    induction l with
    | nil => simpa [rposition] using (rposition_eq_none_iff p).mpr hm
    | cons a l ih => rw [List.cons_append, rposition, rposition, ih]
  have hlt : ∀ (l : List α) (i : ℕ), rposition p l = some i → i < l.length := by
    intro l
    induction l with
    | nil => simp [rposition]
    | cons a l ih =>
      intro i hi
      rw [rposition] at hi
      cases h : rposition p l with
      | none =>
        simp only [h] at hi
        split_ifs at hi
        cases hi
        simp
      | some j =>
        simp only [h, Option.some.injEq] at hi
        have := ih j h
        simp only [List.length_cons]
        omega
  rw [afterLast, afterLast, hpos]
  cases h : rposition p l with
  | none => simp
  | some i =>
    have := hlt l i h
    exact List.drop_append_of_le_length this

/-- A marker at the end leaves nothing behind it. -/
theorem afterLast_append_marker {l : List α} {a : α} (ha : p a = true) :
    afterLast p (l ++ [a]) = [] := by
  have hpos : rposition p (l ++ [a]) = some l.length := by
    induction l with
    | nil => simp [rposition, ha]
    | cons b l ih => rw [List.cons_append, rposition, ih, List.length_cons]
  rw [afterLast, hpos]
  simp

/-- The suffix is a suffix. -/
theorem afterLast_suffix (l : List α) : afterLast p l <:+ l := List.drop_suffix _ _

theorem mem_of_mem_afterLast {l : List α} {a : α} (ha : a ∈ afterLast p l) : a ∈ l :=
  (afterLast_suffix p l).subset ha

end LogSuffix
