/-
# Orders in which references point back

Elements with keys, each of which refers to keys.  A list is `Ordered` when everything an element
refers to stands before it; `linearize` takes, as long as it can, the first element that refers
to nothing still waiting.

* `Ordered.rank` — the keys of an ordered list have ranks that grow along the references;
* `Ordered.filter` — a part of an ordered list that keeps its references is ordered;
* `Acyclic` — the same facts for lists that can be brought into such an order;
* `linearize_perm`, `linearize_ready` — what `linearize` returns is the list in another order, and
  each element comes when nothing it refers to is waiting;
* `exists_linearize` — it returns whenever the references can be ranked;
* `linearize_drop` — it can be stopped anywhere and started again with the rest.
-/
import Mathlib.Data.List.Basic
import Mathlib.Data.List.Nodup
import Mathlib.Data.List.Perm.Basic
import Mathlib.Logic.Function.Basic

namespace Causal

variable {α κ : Type}

/-! ## Ordered lists -/

section Ordered

variable (key : α → κ) (refs : α → List κ)

/-- Everything an element refers to stands before it. -/
inductive Ordered : List α → Prop
  | nil : Ordered []
  | snoc {l : List α} {a : α} (h : Ordered l) (hrefs : ∀ r ∈ refs a, ∃ b ∈ l, key b = r) :
      Ordered (l ++ [a])

variable {key refs} {l l' : List α} {a : α}

/-- The references stay within the list. -/
theorem Ordered.exists_of_mem (h : Ordered key refs l) :
    ∀ a ∈ l, ∀ r ∈ refs a, ∃ b ∈ l, key b = r := by
  induction h with
  | nil => exact fun a ha => absurd ha List.not_mem_nil
  | @snoc l a h hrefs ih =>
    intro b hb r hr
    have hearlier : ∃ c ∈ l, key c = r := by
      rcases List.mem_append.mp hb with hb | hb
      · exact ih b hb r hr
      · obtain rfl := List.mem_singleton.mp hb
        exact hrefs r hr
    obtain ⟨c, hc, hkey⟩ := hearlier
    exact ⟨c, List.mem_append_left _ hc, hkey⟩

/-- **The keys have ranks** that grow along the references. -/
theorem Ordered.rank [DecidableEq κ] (h : Ordered key refs l) (hk : (l.map key).Nodup) :
    ∃ rank : κ → ℕ, (∀ a ∈ l, rank (key a) < l.length) ∧
      ∀ a ∈ l, ∀ r ∈ refs a, rank r < rank (key a) := by
  induction h with
  | nil => exact ⟨fun _ => 0, fun a ha => absurd ha List.not_mem_nil,
      fun a ha => absurd ha List.not_mem_nil⟩
  | @snoc l a h hrefs ih =>
    rw [List.map_append, List.map_singleton, List.nodup_append] at hk
    obtain ⟨hnodup, -, hdisjoint⟩ := hk
    obtain ⟨rank, hbound, hlt⟩ := ih hnodup
    have hold : ∀ b ∈ l, key b ≠ key a := fun b hb =>
      hdisjoint _ (List.mem_map_of_mem hb) _ (List.mem_singleton_self _)
    -- the new element gets a rank above all others
    refine ⟨Function.update rank (key a) l.length, ?_, ?_⟩
    · intro b hb
      rw [List.length_append, List.length_singleton]
      rcases List.mem_append.mp hb with hb | hb
      · rw [Function.update_of_ne (hold b hb)]
        have hlt := hbound b hb
        omega
      · obtain rfl := List.mem_singleton.mp hb
        rw [Function.update_self]
        omega
    · intro b hb r hr
      have hearlier : ∃ c ∈ l, key c = r := by
        rcases List.mem_append.mp hb with hb | hb
        · exact h.exists_of_mem b hb r hr
        · obtain rfl := List.mem_singleton.mp hb
          exact hrefs r hr
      obtain ⟨c, hc, rfl⟩ := hearlier
      rw [Function.update_of_ne (hold c hc)]
      rcases List.mem_append.mp hb with hb | hb
      · rw [Function.update_of_ne (hold b hb)]
        exact hlt b hb _ hr
      · obtain rfl := List.mem_singleton.mp hb
        rw [Function.update_self]
        exact hbound c hc

/-- A part of an ordered list that keeps its references is ordered. -/
theorem Ordered.filter (h : Ordered key refs l) (hk : (l.map key).Nodup) (p : α → Bool)
    (hp : ∀ a ∈ l.filter p, ∀ r ∈ refs a, ∃ b ∈ l.filter p, key b = r) :
    Ordered key refs (l.filter p) := by
  induction h with
  | nil => exact .nil
  | @snoc l a h hrefs ih =>
    rw [List.map_append, List.nodup_append] at hk
    obtain ⟨hnodup, -, hdisjoint⟩ := hk
    have hold : ∀ b ∈ l, key b ≠ key a := fun b hb =>
      hdisjoint _ (List.mem_map_of_mem hb) _ (List.mem_singleton_self _)
    -- what an element refers to stands before it, so it is not the last
    have hbefore : ∀ r, (∃ b ∈ l, key b = r) → (∃ b ∈ (l ++ [a]).filter p, key b = r) →
        ∃ b ∈ l.filter p, key b = r := by
      rintro r ⟨b, hb, rfl⟩ ⟨c, hc, hkey⟩
      obtain ⟨hmem, hpc⟩ := List.mem_filter.mp hc
      rcases List.mem_append.mp hmem with hcl | hca
      · exact ⟨c, List.mem_filter.mpr ⟨hcl, hpc⟩, hkey⟩
      · obtain rfl := List.mem_singleton.mp hca
        exact absurd hkey.symm (hold b hb)
    have hrest : Ordered key refs (l.filter p) := by
      apply ih hnodup
      intro b hb r hr
      have hb' : b ∈ (l ++ [a]).filter p := by
        rw [List.filter_append]
        exact List.mem_append_left _ hb
      exact hbefore r (h.exists_of_mem b (List.mem_of_mem_filter hb) r hr) (hp b hb' r hr)
    rw [List.filter_append]
    by_cases hpa : p a = true
    · rw [List.filter_cons_of_pos hpa, List.filter_nil]
      apply Ordered.snoc hrest
      intro r hr
      apply hbefore r (hrefs r hr)
      exact hp a (List.mem_filter.mpr ⟨List.mem_append_right _ (List.mem_singleton_self _), hpa⟩) r hr
    · rw [List.filter_cons_of_neg hpa, List.filter_nil, List.append_nil]
      exact hrest

/-- The elements can be brought into an order in which the references point back. -/
def Acyclic (key : α → κ) (refs : α → List κ) (l : List α) : Prop :=
  ∃ l', l'.Perm l ∧ Ordered key refs l'

theorem Acyclic.nil : Acyclic key refs [] :=
  ⟨[], .refl _, .nil⟩

theorem Acyclic.perm (h : Acyclic key refs l) (hp : l.Perm l') : Acyclic key refs l' := by
  obtain ⟨m, hm, hordered⟩ := h
  exact ⟨m, hm.trans hp, hordered⟩

theorem Acyclic.snoc (h : Acyclic key refs l) (hrefs : ∀ r ∈ refs a, ∃ b ∈ l, key b = r) :
    Acyclic key refs (l ++ [a]) := by
  obtain ⟨m, hm, hordered⟩ := h
  refine ⟨m ++ [a], hm.append_right _, hordered.snoc fun r hr => ?_⟩
  obtain ⟨b, hb, hkey⟩ := hrefs r hr
  exact ⟨b, hm.mem_iff.mpr hb, hkey⟩

theorem Acyclic.rank [DecidableEq κ] (h : Acyclic key refs l) (hk : (l.map key).Nodup) :
    ∃ rank : κ → ℕ, (∀ a ∈ l, rank (key a) < l.length) ∧
      ∀ a ∈ l, ∀ r ∈ refs a, rank r < rank (key a) := by
  obtain ⟨m, hm, hordered⟩ := h
  obtain ⟨rank, hbound, hlt⟩ := hordered.rank ((hm.map key).nodup_iff.mpr hk)
  refine ⟨rank, fun a ha => ?_, fun a ha => hlt a (hm.mem_iff.mpr ha)⟩
  rw [← hm.length_eq]
  exact hbound a (hm.mem_iff.mpr ha)

theorem Acyclic.filter (h : Acyclic key refs l) (hk : (l.map key).Nodup) (p : α → Bool)
    (hp : ∀ a ∈ l.filter p, ∀ r ∈ refs a, ∃ b ∈ l.filter p, key b = r) :
    Acyclic key refs (l.filter p) := by
  obtain ⟨m, hm, hordered⟩ := h
  have hfilter := hm.filter p
  refine ⟨m.filter p, hfilter, hordered.filter ((hm.map key).nodup_iff.mpr hk) p ?_⟩
  intro a ha r hr
  obtain ⟨b, hb, hkey⟩ := hp a (hfilter.mem_iff.mp ha) r hr
  exact ⟨b, hfilter.mem_iff.mpr hb, hkey⟩

end Ordered

/-! ## Taking what waits for nothing -/

section Linearize

variable (key : α → κ) (refs : α → List κ) [DecidableEq κ]

/-- Nothing an element refers to is waiting. -/
def ready (waiting : List α) (a : α) : Bool :=
  (refs a).all fun r => !(waiting.map key).contains r

/-- The first ready element, again and again; the fuel is the number of elements. -/
def linearize : ℕ → List α → Option (List α)
  | _, [] => some []
  | 0, _ :: _ => none
  | fuel + 1, waiting =>
    match waiting.find? (ready key refs waiting) with
    | none => none
    | some a =>
      (linearize fuel (waiting.eraseP (ready key refs waiting))).map (a :: ·)

variable {key refs} {l l' : List α} {a : α}

theorem ready_iff : ready key refs l a = true ↔ ∀ r ∈ refs a, ∀ b ∈ l, key b ≠ r := by
  simp only [ready, List.all_eq_true, Bool.not_eq_true', List.contains_eq_mem,
    decide_eq_false_iff_not, List.mem_map, not_exists, not_and]

theorem ready_congr (h : ∀ b, b ∈ l ↔ b ∈ l') : ready key refs l = ready key refs l' := by
  funext a
  rw [Bool.eq_iff_iff, ready_iff, ready_iff]
  simp only [h]

@[simp] theorem linearize_nil (n : ℕ) : linearize key refs n [] = some [] := by
  cases n <;> rfl

/-- One step: the first ready element and the others. -/
theorem linearize_succ {n : ℕ} {out : List α} (hne : l ≠ []) :
    linearize key refs (n + 1) l = some out ↔
      ∃ a pre post rest, l = pre ++ a :: post ∧ (∀ b ∈ pre, ready key refs l b = false) ∧
        ready key refs l a = true ∧ linearize key refs n (pre ++ post) = some rest ∧
        out = a :: rest := by
  obtain ⟨c, l₀, rfl⟩ := List.exists_cons_of_ne_nil hne
  simp only [linearize]
  cases hfind : (c :: l₀).find? (ready key refs (c :: l₀)) with
  | none =>
    simp only [reduceCtorEq, false_iff]
    rintro ⟨a, pre, post, rest, heq, -, hready, -⟩
    have hmem : a ∈ c :: l₀ := by
      rw [heq]
      exact List.mem_append_right _ List.mem_cons_self
    exact absurd hready (List.find?_eq_none.mp hfind a hmem)
  | some a =>
    obtain ⟨hready, pre, post, heq, hpre⟩ := List.find?_eq_some_iff_append.mp hfind
    have herase : (c :: l₀).eraseP (ready key refs (c :: l₀)) = pre ++ post := by
      rw [heq] at hready hpre ⊢
      rw [List.eraseP_append_right _ (fun b hb => by simpa using hpre b hb),
        List.eraseP_cons_of_pos hready]
    simp only [herase, Option.map_eq_some_iff]
    constructor
    · rintro ⟨rest, hrest, rfl⟩
      exact ⟨a, pre, post, rest, heq, fun b hb => by simpa using hpre b hb, hready, hrest, rfl⟩
    · rintro ⟨a', pre', post', rest, heq', hpre', hready', hrest, rfl⟩
      -- the first ready element is only one
      have hsame : a = a' ∧ pre = pre' ∧ post = post' := by
        have hfind' : (c :: l₀).find? (ready key refs (c :: l₀)) = some a' :=
          List.find?_eq_some_iff_append.mpr ⟨hready', pre', post', heq',
            fun b hb => by simpa using hpre' b hb⟩
        obtain rfl : a = a' := Option.some.inj (hfind.symm.trans hfind')
        have hsplit := heq.symm.trans heq'
        have hlen : pre.length = pre'.length := by
          rcases List.append_eq_append_iff.mp hsplit with ⟨m, hm, hm'⟩ | ⟨m, hm, hm'⟩
          · cases m with
            | nil => rw [hm, List.append_nil]
            | cons x m =>
              obtain ⟨rfl, -⟩ := List.cons.inj hm'
              have hnot := hpre' a (by rw [hm]; simp)
              exact absurd (hnot.symm.trans hready) (by decide)
          · cases m with
            | nil => rw [hm, List.append_nil]
            | cons x m =>
              obtain ⟨rfl, -⟩ := List.cons.inj hm'
              have hnot := hpre a (by rw [hm]; simp)
              exact absurd hready (by simpa using hnot)
        obtain ⟨hpre_eq, hpost_eq⟩ := List.append_inj hsplit hlen
        exact ⟨rfl, hpre_eq, (List.cons.inj hpost_eq).2⟩
      obtain ⟨rfl, rfl, rfl⟩ := hsame
      exact ⟨rest, hrest, rfl⟩

theorem linearize_perm {n : ℕ} {out : List α} (h : linearize key refs n l = some out) :
    out.Perm l := by
  induction n generalizing l out with
  | zero =>
    cases l with
    | nil =>
      obtain rfl := Option.some.inj h
      exact .refl _
    | cons a l => exact absurd h (by simp [linearize])
  | succ n ih =>
    by_cases hnil : l = []
    · subst hnil
      obtain rfl := Option.some.inj h
      exact .refl _
    · obtain ⟨a, pre, post, rest, rfl, -, -, hrest, rfl⟩ := (linearize_succ hnil).mp h
      exact ((ih hrest).cons a).trans List.perm_middle.symm

/-- **Each element comes when nothing it refers to is waiting.** -/
theorem linearize_ready {n : ℕ} {out : List α} (h : linearize key refs n l = some out) :
    ∀ pre a post, out = pre ++ a :: post → ready key refs (a :: post) a = true := by
  induction n generalizing l out with
  | zero =>
    intro pre a post hsplit
    have hout : out = [] := by
      cases l with
      | nil => exact (Option.some.inj h).symm
      | cons a l => exact absurd h (by simp [linearize])
    exact absurd (hout.symm.trans hsplit) (by simp)
  | succ n ih =>
    intro pre a post hsplit
    by_cases hnil : l = []
    · subst hnil
      exact absurd ((Option.some.inj h).trans hsplit) (by simp)
    · obtain ⟨b, before, after, rest, rfl, -, hready, hrest, rfl⟩ := (linearize_succ hnil).mp h
      cases pre with
      | nil =>
        obtain ⟨rfl, rfl⟩ := List.cons.inj hsplit
        have hsame : ∀ c, c ∈ b :: rest ↔ c ∈ before ++ b :: after := by
          intro c
          exact (((linearize_perm hrest).cons b).trans List.perm_middle.symm).mem_iff
        rw [ready_congr hsame]
        exact hready
      | cons x pre =>
        obtain ⟨-, hsplit⟩ := List.cons.inj hsplit
        exact ih hrest pre a post hsplit

/-- **It gets through** whenever the references among the elements can be ranked. -/
theorem exists_linearize {n : ℕ} (hn : l.length ≤ n) {rank : κ → ℕ}
    (hrank : ∀ a ∈ l, ∀ r ∈ refs a, (∃ b ∈ l, key b = r) → rank r < rank (key a)) :
    ∃ out, linearize key refs n l = some out := by
  induction n generalizing l with
  | zero =>
    obtain rfl := List.length_eq_zero_iff.mp (Nat.le_zero.mp hn)
    exact ⟨[], rfl⟩
  | succ n ih =>
    by_cases hnil : l = []
    · exact ⟨[], by rw [hnil]; rfl⟩
    -- an element of the least rank refers to nothing in the list
    obtain ⟨m, hm, hleast⟩ : ∃ m ∈ l, ∀ b ∈ l, rank (key m) ≤ rank (key b) := by
      obtain ⟨m, hm⟩ := List.exists_mem_of_ne_nil l hnil
      induction hr : rank (key m) using Nat.strongRecOn generalizing m with
      | ind r ihr =>
        by_cases hless : ∃ b ∈ l, rank (key b) < rank (key m)
        · obtain ⟨b, hb, hlt⟩ := hless
          exact ihr (rank (key b)) (hr ▸ hlt) b hb rfl
        · refine ⟨m, hm, fun b hb => ?_⟩
          by_contra hlt
          exact hless ⟨b, hb, by omega⟩
    have hready : ready key refs l m = true := by
      rw [ready_iff]
      rintro r hr b hb rfl
      have hlt := hrank m hm _ hr ⟨b, hb, rfl⟩
      have hle := hleast b hb
      omega
    have hsome : (l.find? (ready key refs l)).isSome = true :=
      List.find?_isSome.mpr ⟨m, hm, hready⟩
    obtain ⟨a, ha⟩ := Option.isSome_iff_exists.mp hsome
    obtain ⟨hreadya, pre, post, heq, hpre⟩ := List.find?_eq_some_iff_append.mp ha
    have hsub : ∀ b ∈ pre ++ post, b ∈ l := by
      intro b hb
      rw [heq]
      rcases List.mem_append.mp hb with hb | hb
      · exact List.mem_append_left _ hb
      · exact List.mem_append_right _ (List.mem_cons_of_mem _ hb)
    obtain ⟨rest, hrest⟩ := ih (l := pre ++ post)
      (by
        rw [heq, List.length_append, List.length_cons] at hn
        rw [List.length_append]
        omega)
      (by
        rintro b hb r hr ⟨c, hc, hkey⟩
        exact hrank b (hsub b hb) r hr ⟨c, hsub c hc, hkey⟩)
    exact ⟨a :: rest, (linearize_succ hnil).mpr ⟨a, pre, post, rest, heq,
      fun b hb => by simpa using hpre b hb, hreadya, hrest, rfl⟩⟩

/-- **It can be stopped and started again**: what is left is taken in the same order. -/
theorem linearize_drop {n : ℕ} {out : List α} (hk : (l.map key).Nodup)
    (h : linearize key refs n l = some out) (k : ℕ) :
    linearize key refs (n - k) (l.filter fun a => !((out.take k).map key).contains (key a)) =
      some (out.drop k) := by
  induction k generalizing n l out with
  | zero => simpa using h
  | succ k ih =>
    cases n with
    | zero =>
      have hnil : l = [] := by
        cases l with
        | nil => rfl
        | cons a l => exact absurd h (by simp [linearize])
      subst hnil
      obtain rfl := Option.some.inj h
      rw [List.filter_nil, linearize_nil, List.drop_nil]
    | succ n =>
      by_cases hnil : l = []
      · subst hnil
        obtain rfl := Option.some.inj h
        rw [List.filter_nil, linearize_nil, List.drop_nil]
      · obtain ⟨a, pre, post, rest, rfl, -, -, hrest, rfl⟩ := (linearize_succ hnil).mp h
        rw [List.map_append, List.map_cons, List.nodup_middle, List.nodup_cons] at hk
        obtain ⟨hnotin, hnodup⟩ := hk
        rw [← List.map_append] at hnotin hnodup
        have hstep := ih hnodup hrest
        rw [Nat.add_sub_add_right, List.take_succ_cons, List.drop_succ_cons, ← hstep]
        congr 1
        have hkeep : ∀ part : List α, (∀ b ∈ part, key b ≠ key a) →
            part.filter (fun b => !((a :: rest.take k).map key).contains (key b)) =
              part.filter fun b => !((rest.take k).map key).contains (key b) := by
          intro part hpart
          apply List.filter_congr
          intro b hb
          simp [hpart b hb]
        have hne : ∀ b ∈ pre ++ post, key b ≠ key a := by
          intro b hb heq
          exact hnotin (heq ▸ List.mem_map_of_mem hb)
        rw [List.filter_append, List.filter_append, List.filter_cons_of_neg (by simp),
          hkeep pre fun b hb => hne b (List.mem_append_left _ hb),
          hkeep post fun b hb => hne b (List.mem_append_right _ hb)]

/-- What is taken, up to any point, can follow what was there before. -/
theorem Acyclic.append_take {m : List α} {n : ℕ} {out : List α} (h : Acyclic key refs m)
    (hout : linearize key refs n l = some out)
    (hrefs : ∀ a ∈ out, ∀ r ∈ refs a, ∃ b ∈ m ++ out, key b = r) (k : ℕ) :
    Acyclic key refs (m ++ out.take k) := by
  induction k with
  | zero => simpa using h
  | succ k ih =>
    rw [List.take_add_one, ← List.append_assoc]
    cases hget : out[k]? with
    | none => simpa using ih
    | some a =>
      obtain ⟨hk, rfl⟩ := List.getElem?_eq_some_iff.mp hget
      have hsplit : out = out.take k ++ out[k] :: out.drop (k + 1) := by
        rw [← List.drop_eq_getElem_cons hk, List.take_append_drop]
      have hready := ready_iff.mp (linearize_ready hout _ _ _ hsplit)
      apply ih.snoc
      intro r hr
      obtain ⟨b, hb, hkey⟩ := hrefs _ (List.getElem_mem hk) r hr
      refine ⟨b, ?_, hkey⟩
      rw [hsplit, ← List.append_assoc] at hb
      rcases List.mem_append.mp hb with hb | hb
      · exact hb
      · exact absurd hkey (hready r hr b hb)

end Linearize

end Causal
