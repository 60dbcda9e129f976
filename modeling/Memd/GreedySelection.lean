/-
# Selecting entries one after the other

A greedy selection takes the entry at a chosen place out of the remaining ones and appends it to
the selected ones, until nothing remains (`select`).  The choice may look at both lists and adds
to a counter.  Whatever it chooses, nothing is lost and nothing is repeated.  A budget then cuts
the result where the next entry does not fit (`takeWithin`).

* `select_perm` — the selected entries are the given ones in another order;
* `select_map` — a choice that does not look at what a map changes commutes with the map;
* `takeWithin_isPrefix`, `sum_takeWithin_le`, `takeWithin_eq_self` — the budget cut.
-/
import Mathlib.Algebra.GroupWithZero.Nat
import Mathlib.Data.List.InsertIdx
import Mathlib.Data.List.Perm.Basic

namespace Greedy

variable {α β : Type}

/-! ## Removing the chosen entry -/

/-- At most `n` rounds: `choose` gives a place among the remaining entries and what the round
adds to the counter. -/
def select (choose : List α → List α → ℕ × ℕ) : ℕ → List α → ℕ → List α → List α × ℕ
  | 0, selected, count, _ => (selected, count)
  | n + 1, selected, count, remaining =>
    let pick := choose selected remaining
    match remaining[pick.1]? with
    | none => (selected, count)
    | some a => select choose n (selected ++ [a]) (count + pick.2) (remaining.eraseIdx pick.1)

theorem select_perm {choose : List α → List α → ℕ × ℕ}
    (h : ∀ selected remaining, remaining ≠ [] → (choose selected remaining).1 < remaining.length) :
    ∀ (n : ℕ) (selected : List α) (count : ℕ) (remaining : List α), remaining.length = n →
      (select choose n selected count remaining).1.Perm (selected ++ remaining)
  | 0, selected, count, remaining, hn => by
    obtain rfl : remaining = [] := List.length_eq_zero_iff.mp hn
    rw [List.append_nil]
    exact List.Perm.refl _
  | n + 1, selected, count, remaining, hn => by
    have hne : remaining ≠ [] := by
      intro hnil
      rw [hnil] at hn
      exact absurd hn (by simp)
    have hlt := h selected remaining hne
    obtain ⟨i, hi⟩ : ∃ i, i = (choose selected remaining).1 := ⟨_, rfl⟩
    rw [← hi] at hlt
    have hrest : (remaining.eraseIdx i).length = n := by
      rw [List.length_eraseIdx_of_lt hlt]
      omega
    rw [select]
    rw [← hi, List.getElem?_eq_getElem hlt]
    refine (select_perm h n _ _ _ hrest).trans ?_
    rw [List.append_assoc]
    exact (List.getElem_cons_eraseIdx_perm hlt).append_left selected

theorem select_map (f : α → β) {choose : List α → List α → ℕ × ℕ}
    {choose' : List β → List β → ℕ × ℕ}
    (h : ∀ selected remaining, choose' (selected.map f) (remaining.map f)
      = choose selected remaining) :
    ∀ (n : ℕ) (selected : List α) (count : ℕ) (remaining : List α),
      select choose' n (selected.map f) count (remaining.map f) =
        ((select choose n selected count remaining).1.map f,
          (select choose n selected count remaining).2)
  | 0, _, _, _ => rfl
  | n + 1, selected, count, remaining => by
    rw [select, select]
    rw [h, List.getElem?_map]
    cases remaining[(choose selected remaining).1]? with
    | none => rfl
    | some a =>
      have hmap : selected.map f ++ [f a] = (selected ++ [a]).map f := by
        rw [List.map_append, List.map_singleton]
      show select choose' n (selected.map f ++ [f a]) _ ((remaining.map f).eraseIdx _) = _
      rw [hmap, List.eraseIdx_map]
      exact select_map f h n _ _ _

/-! ## A budget -/

/-- The entries up to the first one that does not fit into what is left of the budget. -/
def takeWithin (weight : α → ℕ) : ℕ → List α → List α
  | _, [] => []
  | budget, a :: l =>
    if weight a ≤ budget then a :: takeWithin weight (budget - weight a) l else []

variable {weight : α → ℕ}

theorem takeWithin_isPrefix (l : List α) : ∀ budget, takeWithin weight budget l <+: l := by
  induction l with
  | nil => intro budget; exact List.prefix_rfl
  | cons a l ih =>
    intro budget
    rw [takeWithin]
    split
    · exact (List.prefix_cons_inj a).mpr (ih _)
    · exact List.nil_prefix

theorem sum_takeWithin_le (l : List α) :
    ∀ budget, ((takeWithin weight budget l).map weight).sum ≤ budget := by
  induction l with
  | nil => intro budget; exact Nat.zero_le _
  | cons a l ih =>
    intro budget
    rw [takeWithin]
    split
    · rw [List.map_cons, List.sum_cons]
      have := ih (budget - weight a)
      omega
    · exact Nat.zero_le _

theorem takeWithin_eq_self (l : List α) :
    ∀ budget, (l.map weight).sum ≤ budget → takeWithin weight budget l = l := by
  induction l with
  | nil => intro budget _; rfl
  | cons a l ih =>
    intro budget h
    rw [List.map_cons, List.sum_cons] at h
    rw [takeWithin, if_pos (by omega), ih _ (by omega)]

end Greedy
