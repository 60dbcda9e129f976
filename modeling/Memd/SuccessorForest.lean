/-
# Walks along successors

Elements with keys, and for each key the elements that succeed it.  When the keys have ranks that
grow along the successors and stay below a bound, a walk from an element to the elements without
successors comes to an end.

* `mem_leaves` — the walk finds exactly the elements without successors that descend from where
  it starts;
* `leaves_eq_singleton` — where nothing has two successors it finds one.
-/
import Mathlib.Data.List.Basic
import Mathlib.Logic.Relation

namespace Forest

variable {α κ : Type} (key : α → κ) (next : κ → List α)

/-- The elements without successors that are reached from an element. -/
def leaves : ℕ → α → List α
  | 0, a => [a]
  | fuel + 1, a =>
    if (next (key a)).isEmpty then [a] else (next (key a)).flatMap (leaves fuel)

/-- Reached along successors. -/
abbrev Descends : α → α → Prop :=
  Relation.ReflTransGen fun a b => b ∈ next (key a)

/-- Ranks that grow along the successors and stay below a bound. -/
structure Ranked (rank : κ → ℕ) (bound : ℕ) : Prop where
  lt : ∀ a b, b ∈ next (key a) → rank (key a) < rank (key b)
  bounded : ∀ a b, b ∈ next (key a) → rank (key b) < bound

variable {key next} {rank : κ → ℕ} {bound : ℕ} {a b : α}

/-- At the bound there are no successors. -/
theorem Ranked.next_eq_nil (h : Ranked key next rank bound) (ha : bound ≤ rank (key a) + 1) :
    next (key a) = [] := by
  cases hnext : next (key a) with
  | nil => rfl
  | cons b rest =>
    have hb : b ∈ next (key a) := by
      rw [hnext]
      exact List.mem_cons_self
    have hlt := h.lt a b hb
    have hbound := h.bounded a b hb
    omega

/-- **The walk** finds what descends from the start and has no successor. -/
theorem mem_leaves (h : Ranked key next rank bound) {n : ℕ} (hn : bound ≤ rank (key a) + n + 1) :
    b ∈ leaves key next n a ↔ Descends key next a b ∧ next (key b) = [] := by
  induction n generalizing a with
  | zero =>
    have hnil := h.next_eq_nil hn
    rw [leaves, List.mem_singleton]
    constructor
    · rintro rfl
      exact ⟨.refl, hnil⟩
    · rintro ⟨hdescends, -⟩
      rcases hdescends.cases_head with rfl | ⟨c, hc, -⟩
      · rfl
      · rw [hnil] at hc
        exact absurd hc List.not_mem_nil
  | succ n ih =>
    rw [leaves]
    by_cases hnil : next (key a) = []
    · rw [if_pos (List.isEmpty_iff.mpr hnil), List.mem_singleton]
      constructor
      · rintro rfl
        exact ⟨.refl, hnil⟩
      · rintro ⟨hdescends, -⟩
        rcases hdescends.cases_head with rfl | ⟨c, hc, -⟩
        · rfl
        · rw [hnil] at hc
          exact absurd hc List.not_mem_nil
    · rw [if_neg (fun hempty => hnil (List.isEmpty_iff.mp hempty)), List.mem_flatMap]
      have hchild : ∀ c ∈ next (key a), bound ≤ rank (key c) + n + 1 := by
        intro c hc
        have hlt := h.lt a c hc
        omega
      constructor
      · rintro ⟨c, hc, hb⟩
        obtain ⟨hdescends, hleaf⟩ := (ih (hchild c hc)).mp hb
        exact ⟨.head hc hdescends, hleaf⟩
      · rintro ⟨hdescends, hleaf⟩
        rcases hdescends.cases_head with rfl | ⟨c, hc, hrest⟩
        · exact absurd hleaf hnil
        · exact ⟨c, hc, (ih (hchild c hc)).mpr ⟨hrest, hleaf⟩⟩

theorem leaves_ne_nil (h : Ranked key next rank bound) {n : ℕ}
    (hn : bound ≤ rank (key a) + n + 1) : leaves key next n a ≠ [] := by
  induction n generalizing a with
  | zero => exact List.cons_ne_nil _ _
  | succ n ih =>
    rw [leaves]
    by_cases hnil : next (key a) = []
    · rw [if_pos (List.isEmpty_iff.mpr hnil)]
      exact List.cons_ne_nil _ _
    · rw [if_neg (fun hempty => hnil (List.isEmpty_iff.mp hempty))]
      obtain ⟨c, hc⟩ := List.exists_mem_of_ne_nil _ hnil
      have hlt := h.lt a c hc
      obtain ⟨d, hd⟩ := List.exists_mem_of_ne_nil _ (ih (a := c) (by omega))
      exact List.ne_nil_of_mem (List.mem_flatMap.mpr ⟨c, hc, hd⟩)

/-- Where nothing has two successors, the walk finds one element. -/
theorem leaves_eq_singleton (hone : ∀ k, (next k).length ≤ 1) (n : ℕ) (a : α) :
    ∃ b, leaves key next n a = [b] := by
  induction n generalizing a with
  | zero => exact ⟨a, rfl⟩
  | succ n ih =>
    rw [leaves]
    have hlen := hone (key a)
    cases hnext : next (key a) with
    | nil => exact ⟨a, rfl⟩
    | cons c rest =>
      rw [hnext, List.length_cons] at hlen
      obtain rfl := List.length_eq_zero_iff.mp (by omega : rest.length = 0)
      obtain ⟨b, hb⟩ := ih c
      refine ⟨b, ?_⟩
      show [c].flatMap (leaves key next n) = [b]
      rw [List.flatMap_singleton, hb]

end Forest
