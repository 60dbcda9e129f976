/-
# Ranked lists: a stable sort, one entry for each key, a limit

Several sources return scored entries; the lists are concatenated, sorted by a fixed order,
cut down to the first entry of each key and then to a limit (`mergeRanked`).  The order is any
transitive relation, the sort is the stable insertion sort of Mathlib.

* `firstOf` — the first entry of each key that has not been seen;
* `Thins` — a list with entries left out that `firstOf` and the limit would drop anyway;
  inserting an entry keeps it (`Thins.orderedInsert`), and the limited list does not see the
  difference (`Thins.take_firstOf`);
* `mergeRanked_absorb` — merging one list on its own first does not change what it
  contributes to a later merge under the same limit;
* `mergeRanked_eq_self_iff` — the lists that a merge leaves alone.
-/
import Mathlib.Data.List.Sort
import Mathlib.Data.Finset.Card

namespace Ranked

variable {α κ : Type} [DecidableEq κ]

/-! ## One entry for each key -/

/-- The first entry of each key, among the entries whose key is not in `seen`. -/
def firstOf (key : α → κ) : Finset κ → List α → List α
  | _, [] => []
  | seen, a :: l =>
    if key a ∈ seen then firstOf key seen l else a :: firstOf key (insert (key a) seen) l

variable {key : α → κ} {seen : Finset κ} {a : α} {l : List α}

@[simp] theorem firstOf_nil : firstOf key seen [] = [] := rfl

/-- An element with a seen key is left out. -/
theorem firstOf_cons_of_mem (h : key a ∈ seen) :
    firstOf key seen (a :: l) = firstOf key seen l :=
  if_pos h

/-- An element with a new key is kept. -/
theorem firstOf_cons_of_notMem (h : key a ∉ seen) :
    firstOf key seen (a :: l) = a :: firstOf key (insert (key a) seen) l :=
  if_neg h

/-- What is kept stands in the list in that order. -/
theorem firstOf_sublist (key : α → κ) (l : List α) :
    ∀ seen, (firstOf key seen l).Sublist l := by
  induction l with
  | nil => intro seen; exact List.Sublist.refl _
  | cons a l ih =>
    intro seen
    by_cases h : key a ∈ seen
    · rw [firstOf_cons_of_mem h]
      exact (ih seen).cons a
    · rw [firstOf_cons_of_notMem h]
      exact (ih _).cons_cons a

/-- The keys are new and pairwise different. -/
theorem firstOf_keys (key : α → κ) (l : List α) :
    ∀ seen, (∀ b ∈ firstOf key seen l, key b ∉ seen) ∧ ((firstOf key seen l).map key).Nodup := by
  induction l with
  | nil => intro seen; simp
  | cons a l ih =>
    intro seen
    by_cases h : key a ∈ seen
    · rw [firstOf_cons_of_mem h]
      exact ih seen
    · rw [firstOf_cons_of_notMem h]
      obtain ⟨hnew, hnodup⟩ := ih (insert (key a) seen)
      refine ⟨?_, ?_⟩
      · intro b hb
        rcases List.mem_cons.mp hb with rfl | hb
        · exact h
        · exact fun hmem => hnew b hb (Finset.mem_insert_of_mem hmem)
      · rw [List.map_cons, List.nodup_cons]
        refine ⟨?_, hnodup⟩
        intro hmem
        obtain ⟨b, hb, hkey⟩ := List.mem_map.mp hmem
        exact hnew b hb (hkey ▸ Finset.mem_insert_self _ _)

/-- Of every key one element is kept. -/
theorem firstOf_nodup (key : α → κ) (seen : Finset κ) (l : List α) :
    ((firstOf key seen l).map key).Nodup :=
  (firstOf_keys key l seen).2

/-- Where every key is new nothing is left out. -/
theorem firstOf_eq_self (h : (l.map key).Nodup) :
    ∀ seen : Finset κ, (∀ b ∈ l, key b ∉ seen) → firstOf key seen l = l := by
  induction l with
  | nil => intro seen _; rfl
  | cons a l ih =>
    intro seen hnew
    rw [List.map_cons, List.nodup_cons] at h
    rw [firstOf_cons_of_notMem (hnew a List.mem_cons_self), ih h.2]
    intro b hb hmem
    rcases Finset.mem_insert.mp hmem with hkey | hmem
    · exact h.1 (hkey ▸ List.mem_map_of_mem hb)
    · exact hnew b (List.mem_cons_of_mem a hb) hmem

/-- Every new key has an entry. -/
theorem exists_mem_firstOf (key : α → κ) (l : List α) :
    ∀ seen : Finset κ, ∀ a ∈ l, key a ∉ seen → ∃ b ∈ firstOf key seen l, key b = key a := by
  induction l with
  | nil => intro seen a ha; exact absurd ha List.not_mem_nil
  | cons b l ih =>
    intro seen a ha hnew
    by_cases hb : key b ∈ seen
    · rw [firstOf_cons_of_mem hb]
      rcases List.mem_cons.mp ha with rfl | ha
      · exact absurd hb hnew
      · exact ih seen a ha hnew
    · rw [firstOf_cons_of_notMem hb]
      by_cases hkey : key a = key b
      · exact ⟨b, List.mem_cons_self, hkey.symm⟩
      · obtain ⟨c, hc, hca⟩ := ih (insert (key b) seen) a
          ((List.mem_cons.mp ha).resolve_left fun h => hkey (by rw [h]))
          fun hmem => (Finset.mem_insert.mp hmem).elim hkey hnew
        exact ⟨c, List.mem_cons_of_mem b hc, hca⟩

/-- Only the keys of the list matter in what has been seen. -/
theorem firstOf_congr (key : α → κ) (l : List α) : ∀ seen seen' : Finset κ,
    (∀ a ∈ l, key a ∈ seen ↔ key a ∈ seen') → firstOf key seen l = firstOf key seen' l := by
  induction l with
  | nil => intro seen seen' _; rfl
  | cons a l ih =>
    intro seen seen' hsame
    have ha := hsame a List.mem_cons_self
    by_cases h : key a ∈ seen
    · rw [firstOf_cons_of_mem h, firstOf_cons_of_mem (ha.mp h)]
      exact ih _ _ fun b hb => hsame b (List.mem_cons_of_mem a hb)
    · rw [firstOf_cons_of_notMem h, firstOf_cons_of_notMem fun h' => h (ha.mpr h'),
        ih (insert (key a) seen) (insert (key a) seen')]
      intro b hb
      rw [Finset.mem_insert, Finset.mem_insert, hsame b (List.mem_cons_of_mem a hb)]

/-- A filter on the keys can be moved in front. -/
theorem filter_firstOf (key : α → κ) (p : κ → Bool) (l : List α) : ∀ seen,
    (firstOf key seen l).filter (fun a => p (key a)) =
      firstOf key seen (l.filter fun a => p (key a)) := by
  induction l with
  | nil => intro seen; rfl
  | cons a l ih =>
    intro seen
    rw [List.filter_cons]
    by_cases h : key a ∈ seen
    · rw [firstOf_cons_of_mem h, ih seen]
      split
      · rw [firstOf_cons_of_mem h]
      · rfl
    · rw [firstOf_cons_of_notMem h, List.filter_cons, ih]
      split
      · rw [firstOf_cons_of_notMem h]
      · rename_i hp
        apply firstOf_congr
        intro b hb
        rw [Finset.mem_insert, or_iff_right]
        intro hkey
        exact hp (hkey ▸ (List.mem_filter.mp hb).2)

/-- In a sorted list, the first entry of a key stands in front of the others. -/
theorem firstOf_before {r : α → α → Prop} (l : List α) (hr : ∀ a ∈ l, r a a) (hl : l.Pairwise r) :
    ∀ seen, ∀ a ∈ firstOf key seen l, ∀ b ∈ l, key b = key a → r a b := by
  induction l with
  | nil => intro seen a ha; exact absurd ha List.not_mem_nil
  | cons x l ih =>
    intro seen a ha b hb hkey
    obtain ⟨hx, hl⟩ := List.pairwise_cons.mp hl
    have hrl : ∀ a ∈ l, r a a := fun a ha => hr a (List.mem_cons_of_mem x ha)
    by_cases h : key x ∈ seen
    · rw [firstOf_cons_of_mem h] at ha
      rcases List.mem_cons.mp hb with rfl | hb
      · exact absurd (hkey ▸ h) ((firstOf_keys key l seen).1 a ha)
      · exact ih hrl hl seen a ha b hb hkey
    · rw [firstOf_cons_of_notMem h] at ha
      rcases List.mem_cons.mp ha with rfl | ha
      · rcases List.mem_cons.mp hb with rfl | hb
        · exact hr b List.mem_cons_self
        · exact hx b hb
      · rcases List.mem_cons.mp hb with rfl | hb
        · exact absurd (hkey ▸ Finset.mem_insert_self _ _) ((firstOf_keys key l _).1 a ha)
        · exact ih hrl hl _ a ha b hb hkey

/-- **The first entries** of a sorted list are those in front of all others of their key. -/
theorem mem_firstOf_iff {r : α → α → Prop} (hr : ∀ a, r a a) (hl : l.Pairwise r)
    (hanti : ∀ a ∈ l, ∀ b ∈ l, key a = key b → r a b → r b a → a = b) :
    a ∈ firstOf key ∅ l ↔ a ∈ l ∧ ∀ b ∈ l, key b = key a → r a b := by
  constructor
  · intro ha
    exact ⟨(firstOf_sublist key l ∅).subset ha, firstOf_before l (fun a _ => hr a) hl ∅ a ha⟩
  · rintro ⟨ha, hfront⟩
    obtain ⟨b, hb, hkey⟩ := exists_mem_firstOf key l ∅ a ha (Finset.notMem_empty _)
    have hbl := (firstOf_sublist key l ∅).subset hb
    have hba := firstOf_before l (fun a _ => hr a) hl ∅ b hb a ha hkey.symm
    rw [hanti a ha b hbl hkey.symm (hfront b hbl hkey) hba]
    exact hb

/-! ## Leaving out what is dropped anyway -/

/-- The second list is the first without entries that are dropped anyway: their key has been
seen before them, or `n` keys have. -/
inductive Thins (key : α → κ) (n : ℕ) : Finset κ → List α → List α → Prop
  | nil {seen : Finset κ} : Thins key n seen [] []
  | keep {seen : Finset κ} {a : α} {l l' : List α} (h : Thins key n (insert (key a) seen) l l') :
      Thins key n seen (a :: l) (a :: l')
  | drop {seen : Finset κ} {a : α} {l l' : List α} (ha : key a ∈ seen ∨ n ≤ seen.card)
      (h : Thins key n seen l l') : Thins key n seen (a :: l) l'

namespace Thins

variable {n : ℕ} {l' : List α}

/-- A list thinned for some keys is so for more. -/
theorem mono (h : Thins key n seen l l') :
    ∀ {seen' : Finset κ}, seen ⊆ seen' → Thins key n seen' l l' := by
  induction h with
  | nil => intro _ _; exact .nil
  | keep _ ih => intro _ hsub; exact .keep (ih (Finset.insert_subset_insert _ hsub))
  | drop ha _ ih =>
    intro _ hsub
    refine .drop ?_ (ih hsub)
    rcases ha with hmem | hcard
    · exact .inl (hsub hmem)
    · exact .inr (hcard.trans (Finset.card_le_card hsub))

/-- A thinned list stands in the list in that order. -/
theorem sublist (h : Thins key n seen l l') : l'.Sublist l := by
  induction h with
  | nil => exact List.Sublist.refl _
  | keep _ ih => exact ih.cons_cons _
  | drop _ _ ih => exact ih.cons _

section Insert

variable {r : α → α → Prop} [DecidableRel r] [IsTrans α r]

/-- Inserting the same entry in both lists. -/
theorem orderedInsert (a : α) (h : Thins key n seen l l') (hl : l.Pairwise r) :
    Thins key n seen (l.orderedInsert r a) (l'.orderedInsert r a) := by
  induction h with
  | nil => exact .keep .nil
  | @keep seen b l l' h ih =>
    by_cases hab : r a b
    · rw [List.orderedInsert_cons_of_le r l hab, List.orderedInsert_cons_of_le r l' hab]
      exact .keep (.keep (h.mono (Finset.insert_subset_insert _ (Finset.subset_insert _ _))))
    · rw [List.orderedInsert_of_not_le r l hab, List.orderedInsert_of_not_le r l' hab]
      exact .keep (ih hl.of_cons)
  | @drop seen b l l' hb h ih =>
    by_cases hab : r a b
    · -- `a` goes before the dropped entry, so before everything that is left of the list
      have hfront : l'.orderedInsert r a = a :: l' := by
        cases l' with
        | nil => rfl
        | cons c l' =>
          have hbc : r b c := List.rel_of_pairwise_cons hl (h.sublist.subset List.mem_cons_self)
          exact List.orderedInsert_cons_of_le r l' (IsTrans.trans a b c hab hbc)
      rw [List.orderedInsert_cons_of_le r l hab, hfront]
      have hsub := Finset.subset_insert (key a) seen
      refine .keep (.drop ?_ (h.mono hsub))
      rcases hb with hmem | hcard
      · exact .inl (hsub hmem)
      · exact .inr (hcard.trans (Finset.card_le_card hsub))
    · rw [List.orderedInsert_of_not_le r l hab]
      exact .drop hb (ih hl.of_cons)

end Insert

/-- The limited list of first entries is the same. -/
theorem take_firstOf (h : Thins key n seen l l') :
    (firstOf key seen l).take (n - seen.card) = (firstOf key seen l').take (n - seen.card) := by
  induction h with
  | nil => rfl
  | @keep seen a l l' _ ih =>
    by_cases ha : key a ∈ seen
    · rw [Finset.insert_eq_of_mem ha] at ih
      rw [firstOf_cons_of_mem ha, firstOf_cons_of_mem ha, ih]
    · rw [Finset.card_insert_of_notMem ha] at ih
      rw [firstOf_cons_of_notMem ha, firstOf_cons_of_notMem ha]
      cases hn : n - seen.card with
      | zero => rfl
      | succ m =>
        rw [show n - (seen.card + 1) = m by omega] at ih
        rw [List.take_succ_cons, List.take_succ_cons, ih]
  | @drop seen a l l' ha _ ih =>
    rcases ha with hmem | hcard
    · rw [firstOf_cons_of_mem hmem, ih]
    · rw [Nat.sub_eq_zero_of_le hcard, List.take_zero, List.take_zero]

/-- Where enough keys have been seen all can be left out. -/
theorem of_card_le (h : n ≤ seen.card) : ∀ l : List α, Thins key n seen l []
  | [] => .nil
  | _ :: l => .drop (.inr h) (of_card_le h l)

/-- A list against its own limited list of first entries. -/
theorem of_firstOf (key : α → κ) (n : ℕ) (l : List α) :
    ∀ seen, Thins key n seen l ((firstOf key seen l).take (n - seen.card)) := by
  induction l with
  | nil => intro seen; simpa using Thins.nil
  | cons a l ih =>
    intro seen
    by_cases ha : key a ∈ seen
    · rw [firstOf_cons_of_mem ha]
      exact .drop (.inl ha) (ih seen)
    · rw [firstOf_cons_of_notMem ha]
      cases hn : n - seen.card with
      | zero => exact of_card_le (by omega) _
      | succ m =>
        have h := ih (insert (key a) seen)
        rw [Finset.card_insert_of_notMem ha, show n - (seen.card + 1) = m by omega] at h
        exact .keep h

end Thins

/-! ## The merge -/

/-- Concatenate, sort, keep the first entry of each key, cut at the limit. -/
def mergeRanked (r : α → α → Prop) [DecidableRel r] (key : α → κ) (lists : List (List α))
    (limit : ℕ) : List α :=
  (firstOf key ∅ (lists.flatten.insertionSort r)).take limit

variable {r : α → α → Prop} [DecidableRel r] {lists : List (List α)} {n : ℕ}

/-- A merge keeps the order. -/
theorem mergeRanked_sublist :
    (mergeRanked r key lists n).Sublist (lists.flatten.insertionSort r) :=
  (List.take_sublist _ _).trans (firstOf_sublist key _ _)

/-- What is in a merge is in one of the lists. -/
theorem mem_of_mem_mergeRanked (h : a ∈ mergeRanked r key lists n) : ∃ l ∈ lists, a ∈ l :=
  List.mem_flatten.mp ((List.mem_insertionSort r).mp (mergeRanked_sublist.subset h))

/-- A merge has every key once. -/
theorem nodup_mergeRanked : ((mergeRanked r key lists n).map key).Nodup :=
  (firstOf_nodup key ∅ _).sublist ((List.take_sublist _ _).map key)

/-- A merge keeps to its limit. -/
theorem length_mergeRanked_le : (mergeRanked r key lists n).length ≤ n :=
  List.length_take_le _ _

/-- Elements in front of a list are inserted into it sorted. -/
theorem insertionSort_append (e l : List α) :
    (e ++ l).insertionSort r = e.foldr (List.orderedInsert r) (l.insertionSort r) :=
  List.foldr_append

section Order

variable [IsTrans α r] [Std.Total r]

/-- A merge is sorted. -/
theorem pairwise_mergeRanked : (mergeRanked r key lists n).Pairwise r :=
  (List.pairwise_insertionSort r _).sublist mergeRanked_sublist

/-- Inserting elements keeps a list sorted. -/
theorem pairwise_foldr_orderedInsert (e : List α) (h : l.Pairwise r) :
    (e.foldr (List.orderedInsert r) l).Pairwise r := by
  induction e with
  | nil => exact h
  | cons a e ih => exact ih.orderedInsert a _

/-- Inserting elements keeps a list thinned. -/
theorem Thins.foldr_orderedInsert {l' : List α} (e : List α) (h : Thins key n seen l l')
    (hl : l.Pairwise r) :
    Thins key n seen (e.foldr (List.orderedInsert r) l) (e.foldr (List.orderedInsert r) l') := by
  induction e with
  | nil => exact h
  | cons a e ih => exact ih.orderedInsert a (pairwise_foldr_orderedInsert e hl)

/-- **Merging a list on its own first changes nothing.**  What the first merge drops has
a better entry of the same key before it, or `n` better keys, and keeps them in the second. -/
theorem mergeRanked_absorb (e l : List α) (n : ℕ) :
    mergeRanked r key [e, mergeRanked r key [l] n] n = mergeRanked r key [e, l] n := by
  have hsorted := List.pairwise_insertionSort r l
  have hmerged : (mergeRanked r key [l] n).insertionSort r = mergeRanked r key [l] n :=
    pairwise_mergeRanked.insertionSort_eq
  have hthin : Thins key n ∅ (l.insertionSort r) (mergeRanked r key [l] n) := by
    simpa [mergeRanked] using Thins.of_firstOf key n (l.insertionSort r) ∅
  have htake := (hthin.foldr_orderedInsert e hsorted).take_firstOf
  simp only [Finset.card_empty, Nat.sub_zero] at htake
  have hleft : ([e, mergeRanked r key [l] n].flatten).insertionSort r
      = e.foldr (List.orderedInsert r) (mergeRanked r key [l] n) := by
    rw [show [e, mergeRanked r key [l] n].flatten = e ++ mergeRanked r key [l] n by simp,
      insertionSort_append, hmerged]
  have hright : ([e, l].flatten).insertionSort r
      = e.foldr (List.orderedInsert r) (l.insertionSort r) := by
    rw [show [e, l].flatten = e ++ l by simp, insertionSort_append]
  calc mergeRanked r key [e, mergeRanked r key [l] n] n
      = (firstOf key ∅ (e.foldr (List.orderedInsert r) (mergeRanked r key [l] n))).take n := by
        conv_lhs => rw [mergeRanked, hleft]
    _ = (firstOf key ∅ (e.foldr (List.orderedInsert r) (l.insertionSort r))).take n := htake.symm
    _ = mergeRanked r key [e, l] n := by rw [mergeRanked, hright]

/-- **The lists a merge leaves alone**: sorted, with different keys, within the limit. -/
theorem mergeRanked_eq_self_iff :
    mergeRanked r key [l] n = l ↔ l.Pairwise r ∧ (l.map key).Nodup ∧ l.length ≤ n := by
  constructor
  · intro h
    refine ⟨h ▸ pairwise_mergeRanked, h ▸ nodup_mergeRanked, h ▸ length_mergeRanked_le⟩
  · rintro ⟨hsorted, hnodup, hlen⟩
    have hsort : l.insertionSort r = l := hsorted.insertionSort_eq
    rw [mergeRanked, show [l].flatten = l by simp, hsort,
      firstOf_eq_self hnodup ∅ fun _ _ => Finset.notMem_empty _]
    exact List.take_of_length_le hlen

end Order

end Ranked
