/-
# Cutting lists and selecting from sorted ones

What a stable sort, a filter and a limit do to each other, for any transitive order.

* `filter_insertionSort`, `filter_mergeSort` — a filter can be moved in front of the sort;
* `filter_take_isPrefix` — a limit in front of a filter keeps a beginning of what the limit behind
  the filter keeps;
* `filter_take_eq_iff` — when the two are the same;
* `insertionSort_eq_of_perm` — what is sorted does not depend on the order it came in;
* `insertionSort_congr` — a stable sort compares an element with those behind it only;
* `eq_of_mem_iff` — what is strictly sorted is determined by its members;
* `find?_pairwise` — the first hit in a sorted list stands before all others;
* `find?_insertionSort_eq_some_iff` — the first hit behind a sort is the least one;
* `maxByKey_eq_some` — the last of the elements with the greatest key;
* `cut_cases` — on which side of a cut an element stands;
* `forall_eq_of_filterMap_eq` — what is selected by key can be read off the selection.
-/
import Mathlib.Data.List.Induction
import Mathlib.Data.List.Sort

namespace Selection

variable {α : Type} {p : α → Bool} {l : List α}

/-- **A list cut in two**: an element of it stands in front of the cut or behind it. -/
theorem cut_cases {u v a b : List α} {c : α} (h : u ++ v = a ++ c :: b) :
    (∃ u', u = a ++ c :: u' ∧ b = u' ++ v) ∨ ∃ a', a = u ++ a' ∧ v = a' ++ c :: b := by
  rcases List.append_eq_append_iff.mp h with ⟨a', rfl, hv⟩ | ⟨u', rfl, hv⟩
  · exact .inr ⟨a', rfl, hv⟩
  · cases u' with
    | nil => exact .inr ⟨[], by simp, hv.symm⟩
    | cons d u' =>
      rw [List.cons_append, List.cons.injEq] at hv
      exact .inl ⟨u', by rw [hv.1], hv.2⟩

/-- The first hit in a sorted list stands before every other. -/
theorem find?_pairwise {r : α → α → Prop} {a b : α} (h : l.Pairwise r) (hfind : l.find? p = some a)
    (hb : b ∈ l) (hp : p b = true) : b = a ∨ r a b := by
  induction l with
  | nil => exact absurd hb List.not_mem_nil
  | cons c l ih =>
    obtain ⟨hc, hl⟩ := List.pairwise_cons.mp h
    cases hpc : p c with
    | true =>
      rw [List.find?_cons_of_pos hpc, Option.some.injEq] at hfind
      subst hfind
      exact (List.mem_cons.mp hb).imp_right (hc b)
    | false =>
      rw [List.find?_cons_of_neg (by simp [hpc])] at hfind
      rcases List.mem_cons.mp hb with rfl | hb
      · exact absurd hp (by simp [hpc])
      · exact ih hl hfind hb

/-- **A strictly sorted list** is determined by its members. -/
theorem eq_of_mem_iff {r : α → α → Prop} {l' : List α} (hasymm : ∀ a b, r a b → ¬ r b a)
    (h : l.Pairwise r) (h' : l'.Pairwise r) (hmem : ∀ a, a ∈ l ↔ a ∈ l') : l = l' := by
  have hnodup : ∀ {k : List α}, k.Pairwise r → k.Nodup := fun hk =>
    hk.imp fun {a b} hab (heq : a = b) => hasymm a b hab (heq ▸ hab)
  refine List.Perm.eq_of_pairwise ?_ h h' ?_
  · exact fun a b _ _ hab hba => absurd hba (hasymm a b hab)
  · exact (List.perm_ext_iff_of_nodup (hnodup h) (hnodup h')).mpr hmem

section Order

variable {r : α → α → Prop} [DecidableRel r]

/-- An element in front of everything stays there. -/
theorem orderedInsert_eq_cons {a : α} (h : ∀ b ∈ l, r a b) : l.orderedInsert r a = a :: l := by
  cases l with
  | nil => rfl
  | cons b l => exact List.orderedInsert_cons_of_le r l (h b List.mem_cons_self)

theorem filter_orderedInsert [IsTrans α r] {a : α} (h : l.Pairwise r) :
    (l.orderedInsert r a).filter p =
      if p a then (l.filter p).orderedInsert r a else l.filter p := by
  induction l with
  | nil => by_cases ha : p a <;> simp [ha]
  | cons b l ih =>
    obtain ⟨hb, hl⟩ := List.pairwise_cons.mp h
    by_cases hab : r a b
    · have hall : ∀ c ∈ (b :: l).filter p, r a c := by
        intro c hc
        rcases List.mem_cons.mp (List.mem_of_mem_filter hc) with rfl | hc
        · exact hab
        · exact IsTrans.trans _ _ _ hab (hb c hc)
      rw [List.orderedInsert_cons_of_le r l hab, List.filter_cons]
      split
      · rw [orderedInsert_eq_cons hall]
      · rfl
    · rw [List.orderedInsert_cons, if_neg hab, List.filter_cons, ih hl]
      by_cases hb' : p b <;> by_cases ha' : p a <;> simp [ha', hb', hab]

/-- **The order of arrival** does not matter when no two elements are equivalent. -/
theorem insertionSort_eq_of_perm [Std.Total r] [IsTrans α r] {l' : List α}
    (hanti : ∀ a ∈ l, ∀ b ∈ l, r a b → r b a → a = b) (h : l'.Perm l) :
    l'.insertionSort r = l.insertionSort r := by
  refine List.Perm.eq_of_pairwise ?_ (List.pairwise_insertionSort r l')
    (List.pairwise_insertionSort r l)
    ((List.perm_insertionSort r l').trans (h.trans (List.perm_insertionSort r l).symm))
  intro a b ha hb
  exact hanti a (h.mem_iff.mp ((List.mem_insertionSort r).mp ha)) b
    ((List.mem_insertionSort r).mp hb)

theorem orderedInsert_congr {r' : α → α → Prop} [DecidableRel r'] {a : α}
    (h : ∀ b ∈ l, r a b ↔ r' a b) : l.orderedInsert r a = l.orderedInsert r' a := by
  induction l with
  | nil => rfl
  | cons b l ih =>
    rw [List.orderedInsert_cons, List.orderedInsert_cons,
      ih fun c hc => h c (List.mem_cons_of_mem b hc)]
    exact if_congr (h b List.mem_cons_self) rfl rfl

/-- **A stable sort** compares an element with those behind it only. -/
theorem insertionSort_congr {r' : α → α → Prop} [DecidableRel r']
    (h : l.Pairwise fun a b => r a b ↔ r' a b) : l.insertionSort r = l.insertionSort r' := by
  induction l with
  | nil => rfl
  | cons a l ih =>
    obtain ⟨ha, hl⟩ := List.pairwise_cons.mp h
    rw [List.insertionSort_cons, List.insertionSort_cons, ih hl]
    apply orderedInsert_congr
    intro b hb
    exact ha b ((List.mem_insertionSort r').mp hb)

/-- **The first hit** behind a sort is the least. -/
theorem find?_insertionSort_eq_some_iff [Std.Total r] [IsTrans α r] {a : α}
    (hanti : ∀ b ∈ l, ∀ c ∈ l, r b c → r c b → b = c) :
    (l.insertionSort r).find? p = some a ↔
      a ∈ l ∧ p a = true ∧ ∀ b ∈ l, p b = true → r a b := by
  have hsorted := List.pairwise_insertionSort r l
  have hmem : ∀ {b : α}, b ∈ l.insertionSort r ↔ b ∈ l := List.mem_insertionSort r
  constructor
  · intro hfind
    refine ⟨hmem.mp (List.mem_of_find?_eq_some hfind), List.find?_some hfind, fun b hb hp => ?_⟩
    rcases find?_pairwise hsorted hfind (hmem.mpr hb) hp with rfl | hbefore
    · exact (Std.Total.total (r := r) b b).elim id id
    · exact hbefore
  · rintro ⟨ha, hpa, hleast⟩
    cases hfind : (l.insertionSort r).find? p with
    | none => exact absurd hpa (List.find?_eq_none.mp hfind a (hmem.mpr ha))
    | some b =>
      have hb : b ∈ l := hmem.mp (List.mem_of_find?_eq_some hfind)
      rcases find?_pairwise hsorted hfind (hmem.mpr ha) hpa with rfl | hbefore
      · rfl
      · exact congrArg some (hanti b hb a ha hbefore (hleast b hb (List.find?_some hfind)))

/-- **A filter** can be moved in front of a stable sort. -/
theorem filter_insertionSort [Std.Total r] [IsTrans α r] (p : α → Bool) (l : List α) :
    (l.insertionSort r).filter p = (l.filter p).insertionSort r := by
  induction l with
  | nil => rfl
  | cons a l ih =>
    rw [List.insertionSort_cons, filter_orderedInsert (List.pairwise_insertionSort r l), ih,
      List.filter_cons]
    split <;> rfl

end Order

/-- The same for the merge sort, where the order tells the elements of the list apart. -/
theorem filter_mergeSort {le : α → α → Bool} (trans : ∀ a b c, le a b → le b c → le a c)
    (total : ∀ a b, le a b || le b a)
    (antisymm : ∀ a ∈ l, ∀ b ∈ l, le a b → le b a → a = b) (p : α → Bool) :
    (l.mergeSort le).filter p = (l.filter p).mergeSort le := by
  refine List.Perm.eq_of_pairwise ?_ ((List.pairwise_mergeSort trans total l).filter p)
    (List.pairwise_mergeSort trans total (l.filter p)) ?_
  · intro a b ha hb
    exact antisymm a (List.mem_mergeSort.mp (List.mem_of_mem_filter ha)) b
      (List.mem_of_mem_filter (List.mem_mergeSort.mp hb))
  · exact ((List.mergeSort_perm l le).filter p).trans (List.mergeSort_perm (l.filter p) le).symm

/-! ## A selection by key -/

section Key

variable {κ γ : Type} [DecidableEq κ] {key : α → κ}

/-- The part of a selection with one key. -/
theorem filter_filterMap_key (f : α → Option γ) (k : κ) :
    (l.filterMap fun a => (f a).map (key a, ·)).filter (fun c => c.1 = k) =
      (l.filter fun a => key a = k).filterMap fun a => (f a).map (k, ·) := by
  rw [List.filter_filterMap, List.filterMap_filter]
  apply List.filterMap_congr
  intro a _
  by_cases ha : key a = k
  · cases f a <;> simp [ha]
  · cases f a <;> simp [ha]

/-- **What is selected by key** and listed with its key can be read off the list, if the selection
it is compared with depends on the key only. -/
theorem forall_eq_of_filterMap_eq (key : α → κ) (f : α → Option γ) (g : κ → Option γ)
    (h : (l.filterMap fun a => (f a).map (key a, ·)) =
      l.filterMap fun a => (g (key a)).map (key a, ·)) :
    ∀ a ∈ l, f a = g (key a) := by
  intro a ha
  have hsame := congrArg (List.filter fun c => c.1 = key a) h
  rw [filter_filterMap_key f, filter_filterMap_key fun b => g (key b)] at hsame
  have hin : a ∈ l.filter fun b => key b = key a := List.mem_filter.mpr ⟨ha, by simp⟩
  have hkey : ∀ b ∈ l.filter fun b => key b = key a,
      (g (key b)).map (key a, ·) = (g (key a)).map (key a, ·) := by
    intro b hb
    rw [of_decide_eq_true (List.mem_filter.mp hb).2]
  rw [List.filterMap_congr hkey] at hsame
  cases hg : g (key a) with
  | none =>
    rw [hg] at hsame
    -- nothing is selected on the right
    have hnone := List.filterMap_eq_nil_iff.mp
      (hsame.trans (List.filterMap_eq_nil_iff.mpr fun _ _ => rfl)) a hin
    exact Option.map_eq_none_iff.mp hnone
  | some c =>
    -- everything is selected on the right, so as many are on the left
    have hsome : (fun _ : α => (g (key a)).map (key a, ·)) = fun _ => some (key a, c) := by
      rw [hg]
      rfl
    rw [hsome, List.filterMap_eq_map'] at hsame
    cases hf : f a with
    | none =>
      have hlt : ((l.filter fun b => key b = key a).filterMap fun b =>
          (f b).map (key a, ·)).length < _ :=
        List.length_filterMap_lt_length_iff_exists.mpr ⟨a, hin, Option.map_eq_none_iff.mpr hf⟩
      rw [hsame, List.length_map] at hlt
      omega
    | some d =>
      have hd : (key a, d) ∈ (l.filter fun b => key b = key a).filterMap fun b =>
          (f b).map (key a, ·) := by
        apply List.mem_filterMap.mpr
        exact ⟨a, hin, by rw [hf]; rfl⟩
      rw [hsame] at hd
      obtain ⟨_, _, heq⟩ := List.mem_map.mp hd
      rw [(Prod.mk.inj heq).2]

end Key

/-! ## A limit -/

/-- A limit in front of a filter. -/
theorem take_filter_eq (n : ℕ) : (l.filter p).take n =
    (l.take n).filter p ++ ((l.drop n).filter p).take (n - ((l.take n).filter p).length) := by
  have hlen : ((l.take n).filter p).length ≤ n :=
    (List.length_filter_le _ _).trans (List.length_take_le n l)
  conv_lhs => rw [← List.take_append_drop n l, List.filter_append]
  rw [List.take_append, List.take_of_length_le hlen]

theorem filter_take_isPrefix (n : ℕ) : (l.take n).filter p <+: (l.filter p).take n := by
  rw [take_filter_eq]
  exact List.prefix_append _ _

/-- **The limit first** keeps the same exactly when everything within it passes the filter, or
nothing behind it does. -/
theorem filter_take_eq_iff {n : ℕ} : (l.take n).filter p = (l.filter p).take n ↔
    (∀ a ∈ l.take n, p a = true) ∨ ∀ a ∈ l.drop n, p a = false := by
  rw [take_filter_eq, eq_comm, List.append_right_eq_self, List.take_eq_nil_iff]
  constructor
  · rintro (hfull | hnone)
    · -- the limit is used up, so nothing within it was dropped
      left
      have hlen : ((l.take n).filter p).length = (l.take n).length := by
        have hle := List.length_filter_le p (l.take n)
        have htake := List.length_take_le n l
        omega
      exact List.length_filter_eq_length_iff.mp hlen
    · right
      intro a ha
      simpa using List.filter_eq_nil_iff.mp hnone a ha
  · rintro (hall | hnone)
    · rw [List.filter_eq_self.mpr hall, List.length_take]
      rcases Nat.le_total n l.length with hle | hle
      · exact .inl (by omega)
      · right
        rw [List.drop_of_length_le hle]
        rfl
    · right
      exact List.filter_eq_nil_iff.mpr fun a ha => by simp [hnone a ha]

/-! ## The greatest element -/

section MaxByKey

variable {κ : Type} [LinearOrder κ] (key : α → κ)

/-- The greater of the best so far and the next; the next of two equal ones. -/
def greater (best : Option α) (a : α) : Option α :=
  match best with
  | some b => if key b ≤ key a then some a else some b
  | none => some a

/-- `max_by_key`. -/
def maxByKey (l : List α) : Option α :=
  l.foldl (greater key) none

variable {key} {a : α}

theorem maxByKey_eq_none : maxByKey key l = none ↔ l = [] := by
  cases l using List.reverseRecOn with
  | nil => simp [maxByKey]
  | append_singleton l x =>
    rw [maxByKey, List.foldl_concat]
    have hsome : (greater key (l.foldl (greater key) none) x).isSome = true := by
      unfold greater
      split
      · split_ifs <;> rfl
      · rfl
    constructor
    · intro hnone
      rw [hnone] at hsome
      exact absurd hsome (by simp)
    · exact fun h => absurd h (by simp)

theorem maxByKey_eq_some (h : maxByKey key l = some a) : a ∈ l ∧ ∀ b ∈ l, key b ≤ key a := by
  induction l using List.reverseRecOn generalizing a with
  | nil => exact absurd h (by simp [maxByKey])
  | append_singleton l x ih =>
    rw [maxByKey, List.foldl_concat, ← maxByKey] at h
    cases hbest : maxByKey key l with
    | none =>
      rw [hbest] at h
      obtain rfl := Option.some.inj h
      rw [maxByKey_eq_none.mp hbest]
      simp
    | some b =>
      rw [hbest] at h
      obtain ⟨hb, hle⟩ := ih hbest
      unfold greater at h
      dsimp only at h
      split_ifs at h with hcmp
      · obtain rfl := Option.some.inj h
        refine ⟨by simp, fun c hc => ?_⟩
        rcases List.mem_append.mp hc with hc | hc
        · exact (hle c hc).trans hcmp
        · obtain rfl := List.mem_singleton.mp hc
          exact le_rfl
      · obtain rfl := Option.some.inj h
        refine ⟨List.mem_append_left _ hb, fun c hc => ?_⟩
        rcases List.mem_append.mp hc with hc | hc
        · exact hle c hc
        · obtain rfl := List.mem_singleton.mp hc
          exact (not_le.mp hcmp).le

/-- With different keys it does not depend on the order. -/
theorem maxByKey_perm {l' : List α} (hkeys : (l.map key).Nodup) (hp : l.Perm l') :
    maxByKey key l = maxByKey key l' := by
  cases hl : maxByKey key l with
  | none =>
    obtain rfl := maxByKey_eq_none.mp hl
    rw [List.nil_perm.mp hp, maxByKey_eq_none.mpr rfl]
  | some a =>
    cases hl' : maxByKey key l' with
    | none =>
      obtain rfl := maxByKey_eq_none.mp hl'
      rw [List.perm_nil.mp hp, maxByKey_eq_none.mpr rfl] at hl
      exact absurd hl (by simp)
    | some b =>
      obtain ⟨ha, hmax⟩ := maxByKey_eq_some hl
      obtain ⟨hb, hmax'⟩ := maxByKey_eq_some hl'
      have hle := hmax b (hp.mem_iff.mpr hb)
      have hge := hmax' a (hp.mem_iff.mp ha)
      rw [List.inj_on_of_nodup_map hkeys ha (hp.mem_iff.mpr hb) (le_antisymm hge hle)]

end MaxByKey

end Selection
