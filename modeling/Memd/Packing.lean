/-
# Packing with carry-over

Items of a list are packed in order into groups of a bounded weight.  A group is closed when the
next item does not fit, and the next group starts with what it carries over: the last items of
the closed group, up to a second bound.  An item over the bound is divided into pieces, each a
group of its own, with nothing carried over.

* `Packs` — what the closed groups and the open one are of the units packed so far;
* `Packs.add`, `Packs.close` — the two moves every step is made of;
* `packs_run` — all of it, for the groups of a list;
* `shared_le` — how much two groups share.
-/
import Mathlib.Data.List.Basic
import Mathlib.Data.List.Induction
import Mathlib.Data.List.Nodup
import Mathlib.Data.Nat.Notation
import Memd.GreedySelection

/-- What is packed: the weights, the size of a group and how heavy items are divided. -/
structure Packing (α : Type) where
  weight : α → ℕ
  capacity : ℕ
  /-- The most a group carries over. -/
  overlap : ℕ
  pieces : α → List α

/-- The closed groups and the open one. -/
structure Packed (α : Type) where
  closed : List (List α) := []
  current : List α := []

namespace Packing

variable {α : Type} (p : Packing α)

/-- The weight of a group. -/
def total (l : List α) : ℕ :=
  (l.map p.weight).sum

/-- What a group carries over: its last items, up to the overlap. -/
def carry (l : List α) : List α :=
  (Greedy.takeWithin p.weight p.overlap l.reverse).reverse

/-- The items, the heavy ones divided. -/
def units (l : List α) : List α :=
  l.flatMap fun x => if p.capacity < p.weight x then p.pieces x else [x]

/-- The open group is closed, and the next one starts with what is carried over. -/
def close (s : Packed α) (carried : List α) : Packed α :=
  { closed := s.closed ++ [s.current], current := carried }

/-- An item joins the open group. -/
def add (s : Packed α) (x : α) : Packed α :=
  { s with current := s.current ++ [x] }

/-- The pieces of a heavy item. -/
def addPieces (s : Packed α) (l : List α) : Packed α :=
  l.foldl (fun s y => close (add s y) []) s

/-- The next item: divided, put into a new group, or added to the open one. -/
def step [DecidableEq α] (s : Packed α) (x : α) : Packed α :=
  if p.capacity < p.weight x then
    addPieces (if s.current = [] then s else close s []) (p.pieces x)
  else if s.current ≠ [] ∧ p.capacity < p.total s.current + p.weight x then
    add (close s (p.carry s.current)) x
  else add s x

/-- All items, one after another. -/
def run [DecidableEq α] (l : List α) : Packed α :=
  l.foldl p.step {}

/-! ## Carrying over -/

@[simp] theorem total_nil : p.total [] = 0 := rfl

@[simp] theorem total_cons (x : α) (l : List α) : p.total (x :: l) = p.weight x + p.total l := rfl

@[simp] theorem total_append (l l' : List α) : p.total (l ++ l') = p.total l + p.total l' := by
  rw [total, List.map_append, List.sum_append, total, total]

/-- The weight of a group does not depend on the direction. -/
theorem total_reverse (l : List α) : p.total l.reverse = p.total l := by
  induction l with
  | nil => rfl
  | cons x l ih =>
    rw [List.reverse_cons, total_append, ih, total_cons, total_cons, total_nil]
    omega

/-- A part of a group weighs no more. -/
theorem total_sublist {l l' : List α} (h : l.Sublist l') : p.total l ≤ p.total l' := by
  induction h with
  | slnil => exact Nat.le_refl _
  | cons x _ ih =>
    rw [total_cons]
    omega
  | cons_cons x _ ih =>
    rw [total_cons, total_cons]
    omega

/-- What is carried over is the end of the group. -/
theorem carry_suffix (l : List α) : p.carry l <:+ l := by
  have hpre : Greedy.takeWithin p.weight p.overlap l.reverse <+: l.reverse :=
    Greedy.takeWithin_isPrefix l.reverse p.overlap
  have h := List.reverse_suffix.mpr hpre
  rw [List.reverse_reverse] at h
  exact h

/-- A group carries over no more than the overlap. -/
theorem total_carry_le (l : List α) : p.total (p.carry l) ≤ p.overlap := by
  rw [carry, total_reverse]
  exact Greedy.sum_takeWithin_le _ _

/-! ## Groups of the units packed so far -/

/-- The closed groups and the open one, against the units `u` packed so far. -/
structure Packs (u : List α) (s : Packed α) : Prop where
  covered : ∀ x ∈ u, x ∈ s.current ∨ ∃ g ∈ s.closed, x ∈ g
  current : s.current <:+ u
  closed : ∀ g ∈ s.closed, g ≠ [] ∧ g <:+: u
  bound : ∀ g ∈ s.closed, p.total g ≤ p.capacity + p.overlap ∨
    ∃ x, p.capacity < p.weight x ∧ ∃ y ∈ p.pieces x, g = [y]
  shared : s.closed.Pairwise fun g h => ∀ x ∈ g, x ∈ h → x ∈ p.carry g
  sharedCurrent : ∀ g ∈ s.closed, ∀ x ∈ g, x ∈ s.current → x ∈ p.carry g
  persists : ∀ a g b, s.closed = a ++ g :: b → ∀ x ∈ g, a.Pairwise fun h k => x ∈ h → x ∈ k
  persistsCurrent : ∀ x ∈ s.current, s.closed.Pairwise fun h k => x ∈ h → x ∈ k
  last : ∀ a g, s.closed = a ++ [g] → ∃ carried new, s.current = carried ++ new ∧
    carried <:+ g ∧ g ++ new <:+ u
  first : s.closed = [] → s.current = u

/-- Nothing has been packed. -/
theorem packs_empty : p.Packs [] {} where
  covered := fun _ hx => absurd hx List.not_mem_nil
  current := List.suffix_refl _
  closed := fun _ hg => absurd hg List.not_mem_nil
  bound := fun _ hg => absurd hg List.not_mem_nil
  shared := List.Pairwise.nil
  sharedCurrent := fun _ hg => absurd hg List.not_mem_nil
  persists := fun a g b h => by simp at h
  persistsCurrent := fun _ hx => absurd hx List.not_mem_nil
  last := fun a g h => by simp at h
  first := fun _ => rfl

variable {p} {u : List α} {s : Packed α}

/-- The members of a closed group are units. -/
theorem Packs.closed_subset (h : p.Packs u s) {g : List α} (hg : g ∈ s.closed) {x : α}
    (hx : x ∈ g) : x ∈ u :=
  (h.closed g hg).2.subset hx

/-- A new unit goes into the open group. -/
theorem Packs.add (h : p.Packs u s) {x : α} (hx : x ∉ u) : p.Packs (u ++ [x]) (add s x) where
  covered := by
    intro y hy
    rcases List.mem_append.mp hy with hy | hy
    · exact (h.covered y hy).imp_left (List.mem_append_left _)
    · exact Or.inl (List.mem_append_right _ hy)
  current := by
    obtain ⟨a, ha⟩ := h.current
    exact ⟨a, by rw [← ha]; exact (List.append_assoc _ _ _).symm⟩
  closed := fun g hg => ⟨(h.closed g hg).1, (h.closed g hg).2.trans (List.prefix_append u [x]).isInfix⟩
  bound := h.bound
  shared := h.shared
  sharedCurrent := by
    intro g hg y hy hcur
    rcases List.mem_append.mp hcur with hcur | hcur
    · exact h.sharedCurrent g hg y hy hcur
    · rw [List.mem_singleton] at hcur
      subst hcur
      exact absurd (h.closed_subset hg hy) hx
  persists := h.persists
  persistsCurrent := by
    intro y hy
    rcases List.mem_append.mp hy with hy | hy
    · exact h.persistsCurrent y hy
    · rw [List.mem_singleton] at hy
      subst hy
      refine List.Pairwise.imp_of_mem (R := fun _ _ => True) ?_ (List.pairwise_of_forall fun _ _ => trivial)
      exact fun hg _ _ hy => absurd (h.closed_subset hg hy) hx
  last := by
    intro a g hg
    obtain ⟨carried, new, hcur, hcarried, b, hb⟩ := h.last a g hg
    refine ⟨carried, new ++ [x], ?_, hcarried, b, ?_⟩
    · show s.current ++ [x] = _
      rw [hcur, List.append_assoc]
    · rw [← hb]
      simp only [List.append_assoc]
  first := fun hnil => congrArg (· ++ [x]) (h.first hnil)

/-- The open group is closed. -/
theorem Packs.close (h : p.Packs u s) (hne : s.current ≠ [])
    (hbound : p.total s.current ≤ p.capacity + p.overlap ∨
      ∃ x, p.capacity < p.weight x ∧ ∃ y ∈ p.pieces x, s.current = [y])
    {carried : List α} (hcarried : carried <:+ s.current) (hcarry : ∀ x ∈ carried, x ∈ p.carry s.current) :
    p.Packs u (close s carried) where
  covered := by
    intro x hx
    refine Or.inr ?_
    rcases h.covered x hx with hcur | ⟨g, hg, hxg⟩
    · exact ⟨s.current, List.mem_append_right _ (List.mem_singleton.mpr rfl), hcur⟩
    · exact ⟨g, List.mem_append_left _ hg, hxg⟩
  current := hcarried.trans h.current
  closed := by
    intro g hg
    rcases List.mem_append.mp hg with hg | hg
    · exact h.closed g hg
    · rw [List.mem_singleton.mp hg]
      exact ⟨hne, h.current.isInfix⟩
  bound := by
    intro g hg
    rcases List.mem_append.mp hg with hg | hg
    · exact h.bound g hg
    · rw [List.mem_singleton.mp hg]
      exact hbound
  shared := by
    refine List.pairwise_append.mpr ⟨h.shared, List.pairwise_singleton _ _, ?_⟩
    intro g hg k hk x hxg hxk
    rw [List.mem_singleton.mp hk] at hxk
    exact h.sharedCurrent g hg x hxg hxk
  sharedCurrent := by
    intro g hg x hxg hx
    rcases List.mem_append.mp hg with hg | hg
    · exact h.sharedCurrent g hg x hxg (hcarried.subset hx)
    · rw [List.mem_singleton.mp hg]
      exact hcarry x hx
  persists := by
    intro a g b heq x hx
    rcases List.eq_nil_or_concat b with rfl | ⟨b, k, rfl⟩
    · obtain ⟨rfl, hlast⟩ := List.append_inj' heq rfl
      obtain ⟨rfl, _⟩ := List.cons.inj hlast
      exact h.persistsCurrent x hx
    · rw [List.concat_eq_append, ← List.cons_append, ← List.append_assoc] at heq
      exact h.persists a g b (List.append_inj' heq rfl).1 x hx
  persistsCurrent := by
    intro x hx
    have hcur := hcarried.subset hx
    refine List.pairwise_append.mpr ⟨h.persistsCurrent x hcur, List.pairwise_singleton _ _, ?_⟩
    intro g _ k hk _
    rw [List.mem_singleton.mp hk]
    exact hcur
  last := by
    intro a g heq
    obtain ⟨_, hlast⟩ := List.append_inj' heq rfl
    obtain ⟨rfl, _⟩ := List.cons.inj hlast
    exact ⟨carried, [], (List.append_nil _).symm, hcarried, by rw [List.append_nil]; exact h.current⟩
  first := fun hnil => absurd hnil (by simp [Packing.close])

/-! ## The groups of a list -/

/-- The pieces of a heavy item are packed one by one. -/
theorem Packs.addPieces {ys : List α} :
    ∀ {u : List α} {s : Packed α}, p.Packs u s → s.current = [] → (u ++ ys).Nodup →
      (∀ y ∈ ys, ∃ x, p.capacity < p.weight x ∧ y ∈ p.pieces x) →
      p.Packs (u ++ ys) (addPieces s ys) ∧ (addPieces s ys).current = [] := by
  induction ys with
  | nil =>
    intro u s h hcur _ _
    rw [List.append_nil]
    exact ⟨h, hcur⟩
  | cons y ys ih =>
    intro u s h hcur hnodup hpiece
    rw [← List.singleton_append, ← List.append_assoc] at hnodup
    have hnew : y ∉ u := fun hy =>
      (List.nodup_append.mp (List.nodup_append.mp hnodup).1).2.2 y hy y (List.mem_singleton.mpr rfl) rfl
    have hone : (Packing.add s y).current = [y] := by
      show s.current ++ [y] = [y]
      rw [hcur, List.nil_append]
    obtain ⟨x, hheavy, hy⟩ := hpiece y List.mem_cons_self
    have hclosed : p.Packs (u ++ [y]) (Packing.close (Packing.add s y) []) :=
      (h.add hnew).close (by rw [hone]; exact List.cons_ne_nil _ _) (Or.inr ⟨x, hheavy, y, hy, hone⟩)
        List.nil_suffix fun _ hx => absurd hx List.not_mem_nil
    rw [← List.singleton_append, ← List.append_assoc]
    exact ih hclosed rfl hnodup fun z hz => hpiece z (List.mem_cons_of_mem _ hz)

/-- Every piece of a heavy item closes a group of its own. -/
theorem closed_addPieces (s : Packed α) (ys : List α) (hcur : s.current = []) :
    (addPieces s ys).closed = s.closed ++ ys.map ([·]) := by
  induction ys generalizing s with
  | nil => exact (List.append_nil _).symm
  | cons y ys ih =>
    have hrest := ih (close (add s y) []) rfl
    show (addPieces (close (add s y) []) ys).closed = _
    rw [hrest]
    show s.closed ++ [s.current ++ [y]] ++ _ = _
    rw [hcur, List.nil_append, List.map_cons, List.append_assoc]
    rfl

/-- Behind the pieces of a heavy item no group is open. -/
theorem current_addPieces (s : Packed α) (ys : List α) (hcur : s.current = []) :
    (addPieces s ys).current = [] := by
  induction ys generalizing s with
  | nil => exact hcur
  | cons y ys ih => exact ih (close (add s y) []) rfl

/-- The units of two lists stand one after the other. -/
theorem units_append (l l' : List α) : p.units (l ++ l') = p.units l ++ p.units l' :=
  List.flatMap_append

variable [DecidableEq α]

/-- **One item.** -/
theorem Packs.step (h : p.Packs u s) (hroom : p.total s.current ≤ p.capacity + p.overlap) {x : α}
    (hnodup : (u ++ p.units [x]).Nodup) :
    p.Packs (u ++ p.units [x]) (p.step s x) ∧
      p.total (p.step s x).current ≤ p.capacity + p.overlap := by
  have hunits : p.units [x] = if p.capacity < p.weight x then p.pieces x else [x] :=
    List.flatMap_singleton _ _
  rw [hunits] at hnodup ⊢
  unfold Packing.step
  -- a heavy item closes the open group, and each of its pieces is a group
  by_cases hheavy : p.capacity < p.weight x
  · rw [if_pos hheavy] at hnodup ⊢
    rw [if_pos hheavy]
    have hpiece : ∀ y ∈ p.pieces x, ∃ x, p.capacity < p.weight x ∧ y ∈ p.pieces x :=
      fun y hy => ⟨x, hheavy, hy⟩
    by_cases hcur : s.current = []
    · obtain ⟨hpacks, hempty⟩ := h.addPieces hcur hnodup hpiece
      rw [if_pos hcur, hempty]
      exact ⟨hpacks, Nat.zero_le _⟩
    · obtain ⟨hpacks, hempty⟩ := (h.close hcur (Or.inl hroom) List.nil_suffix
        fun _ hx => absurd hx List.not_mem_nil).addPieces rfl hnodup hpiece
      rw [if_neg hcur, hempty]
      exact ⟨hpacks, Nat.zero_le _⟩
  · rw [if_neg hheavy] at hnodup ⊢
    rw [if_neg hheavy]
    have hnew : x ∉ u := fun hx =>
      (List.nodup_append.mp hnodup).2.2 x hx x (List.mem_singleton.mpr rfl) rfl
    -- no room: the open group is closed, and the new one starts with what is carried over
    by_cases hfull : s.current ≠ [] ∧ p.capacity < p.total s.current + p.weight x
    · rw [if_pos hfull]
      refine ⟨(h.close hfull.1 (Or.inl hroom) (p.carry_suffix _) fun _ hx => hx).add hnew, ?_⟩
      have hcarry := p.total_carry_le s.current
      show p.total (p.carry s.current ++ [x]) ≤ _
      rw [total_append, total_cons, total_nil]
      omega
    · rw [if_neg hfull]
      refine ⟨h.add hnew, ?_⟩
      show p.total (s.current ++ [x]) ≤ _
      rw [total_append, total_cons, total_nil]
      by_cases hcur : s.current = []
      · rw [hcur, total_nil]
        omega
      · have hfit : ¬ p.capacity < p.total s.current + p.weight x := fun hlt => hfull ⟨hcur, hlt⟩
        omega

/-- The state after one more item. -/
theorem run_append_singleton (l : List α) (x : α) : p.run (l ++ [x]) = p.step (p.run l) x := by
  rw [run, List.foldl_append]
  rfl

/-- **The groups of a list.** -/
theorem packs_run {l : List α} (hnodup : (p.units l).Nodup) :
    p.Packs (p.units l) (p.run l) ∧ p.total (p.run l).current ≤ p.capacity + p.overlap := by
  induction l using List.reverseRecOn with
  | nil => exact ⟨p.packs_empty, Nat.zero_le _⟩
  | append_singleton l x ih =>
    rw [units_append] at hnodup ⊢
    obtain ⟨hpacks, hroom⟩ := ih (List.nodup_append.mp hnodup).1
    rw [run_append_singleton]
    exact hpacks.step hroom hnodup

/-- The open group has a unit that no closed one has. -/
theorem current_new {l : List α} (hnodup : (p.units l).Nodup) (hcur : (p.run l).current ≠ []) :
    ∃ x ∈ (p.run l).current, ∀ g ∈ (p.run l).closed, x ∉ g := by
  rcases List.eq_nil_or_concat l with rfl | ⟨l, x, rfl⟩
  · exact absurd rfl hcur
  rw [List.concat_eq_append] at hnodup hcur ⊢
  rw [units_append] at hnodup
  rw [run_append_singleton] at hcur ⊢
  obtain ⟨hpacks, hroom⟩ := packs_run (List.nodup_append.mp hnodup).1
  unfold Packing.step at hcur ⊢
  by_cases hheavy : p.capacity < p.weight x
  · rw [if_pos hheavy] at hcur
    refine absurd ?_ hcur
    rw [current_addPieces]
    split
    · assumption
    · rfl
  · have hnew : x ∉ p.units l := by
      refine fun hx => (List.nodup_append.mp hnodup).2.2 x hx x ?_ rfl
      rw [units, List.flatMap_singleton, if_neg hheavy]
      exact List.mem_singleton.mpr rfl
    rw [if_neg hheavy]
    split
    · refine ⟨x, List.mem_append_right _ (List.mem_singleton.mpr rfl), fun g hg hx => hnew ?_⟩
      rcases List.mem_append.mp hg with hg | hg
      · exact hpacks.closed_subset hg hx
      · rw [List.mem_singleton.mp hg] at hx
        exact hpacks.current.subset hx
    · exact ⟨x, List.mem_append_right _ (List.mem_singleton.mpr rfl),
        fun g hg hx => hnew (hpacks.closed_subset hg hx)⟩

/-- Closed groups stay. -/
theorem closed_step (s : Packed α) (x : α) : ∃ added, (p.step s x).closed = s.closed ++ added ∧
    (p.capacity < p.weight x → ∃ a, added = a ++ (p.pieces x).map ([·])) := by
  unfold Packing.step
  by_cases hheavy : p.capacity < p.weight x
  · rw [if_pos hheavy]
    by_cases hcur : s.current = []
    · rw [if_pos hcur, closed_addPieces s _ hcur]
      exact ⟨_, rfl, fun _ => ⟨[], rfl⟩⟩
    · rw [if_neg hcur, closed_addPieces _ _ rfl]
      exact ⟨_, List.append_assoc _ _ _, fun _ => ⟨_, rfl⟩⟩
  · rw [if_neg hheavy]
    split
    · exact ⟨_, rfl, fun h => absurd h hheavy⟩
    · exact ⟨[], (List.append_nil _).symm, fun h => absurd h hheavy⟩

/-- **A heavy item** is a run of groups of one piece each. -/
theorem pieces_closed {l : List α} {x : α} (hx : x ∈ l) (hheavy : p.capacity < p.weight x) :
    ∃ a b, (p.run l).closed = a ++ (p.pieces x).map ([·]) ++ b := by
  induction l using List.reverseRecOn with
  | nil => exact absurd hx List.not_mem_nil
  | append_singleton l y ih =>
    rw [run_append_singleton]
    obtain ⟨added, hclosed, hpieces⟩ := p.closed_step (p.run l) y
    rw [hclosed]
    rcases List.mem_append.mp hx with hx | hx
    · obtain ⟨a, b, hab⟩ := ih hx
      exact ⟨a, b ++ added, by rw [hab, List.append_assoc]⟩
    · rw [List.mem_singleton.mp hx] at hheavy ⊢
      obtain ⟨a, rfl⟩ := hpieces hheavy
      exact ⟨(p.run l).closed ++ a, [], by rw [List.append_nil, List.append_assoc]⟩

/-- **Two groups share** at most what the first carries over. -/
theorem shared_le {g h : List α} (hnodup : g.Nodup) (hshared : ∀ x ∈ g, x ∈ h → x ∈ p.carry g) :
    p.total (g.filter (· ∈ h)) ≤ p.overlap := by
  refine Nat.le_trans ?_ (p.total_carry_le g)
  obtain ⟨a, ha⟩ := p.carry_suffix g
  have hdrop : a.filter (· ∈ h) = [] := by
    refine List.filter_eq_nil_iff.mpr fun x hx => ?_
    rw [decide_eq_true_eq]
    intro hxh
    have hxg : x ∈ g := by
      rw [← ha]
      exact List.mem_append_left _ hx
    have hxc := hshared x hxg hxh
    rw [← ha] at hnodup
    exact (List.nodup_append.mp hnodup).2.2 x hx x hxc rfl
  have hfilter : g.filter (· ∈ h) = (p.carry g).filter (· ∈ h) := by
    conv_lhs => rw [← ha, List.filter_append, hdrop, List.nil_append]
  rw [hfilter]
  exact p.total_sublist List.filter_sublist

end Packing
