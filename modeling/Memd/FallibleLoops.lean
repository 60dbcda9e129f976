/-
# Loops that may fail

`forM`, `mapM` and `foldlM` over a list in `Except`: what it takes for a loop to get through.

* `forM_eq_ok`, `mapM_eq_ok` — a loop gets through when each of its turns does;
* `mapM_total`, `foldlM_total` — turns that all return make a loop that returns;
* `foldlM_distinct` — a loop that stops at a key it has seen.
-/
import Mathlib.Data.List.Basic
import Mathlib.Data.List.Forall2
import Memd.Proc

namespace Fallible

variable {ε α β γ : Type}

theorem forM_eq_ok {f : α → Except ε Unit} {l : List α} {u : Unit} :
    l.forM f = .ok u ↔ ∀ a ∈ l, f a = .ok () := by
  induction l with
  | nil =>
    refine ⟨fun _ a ha => absurd ha List.not_mem_nil, fun _ => rfl⟩
  | cons x l ih =>
    show (f x >>= fun _ => l.forM f) = .ok u ↔ _
    rw [Proc.except_bind_eq_ok, List.forall_mem_cons]
    constructor
    · rintro ⟨_, hx, hl⟩
      exact ⟨hx, ih.mp hl⟩
    · rintro ⟨hx, hl⟩
      exact ⟨(), hx, ih.mpr hl⟩

theorem mapM_eq_ok {f : α → Except ε β} {l : List α} {out : List β} :
    l.mapM f = .ok out ↔ List.Forall₂ (fun a b => f a = .ok b) l out := by
  induction l generalizing out with
  | nil =>
    rw [List.mapM_nil, List.forall₂_nil_left_iff]
    exact ⟨fun h => (Except.ok.inj h).symm, fun h => by rw [h]; rfl⟩
  | cons x l ih =>
    rw [List.mapM_cons, Proc.except_bind_eq_ok]
    constructor
    · rintro ⟨b, hb, hrest⟩
      obtain ⟨bs, hbs, hpure⟩ := Proc.except_bind_eq_ok.mp hrest
      obtain rfl := Except.ok.inj hpure
      exact .cons hb (ih.mp hbs)
    · rintro (_ | ⟨hb, hbs⟩)
      exact ⟨_, hb, Proc.except_bind_eq_ok.mpr ⟨_, ih.mpr hbs, rfl⟩⟩

/-- What a loop returns are the values of its turns. -/
theorem mapM_turn {f : α → Except ε β} {l : List α} {out : List β} (h : l.mapM f = .ok out) :
    (∀ a ∈ l, ∃ b ∈ out, f a = .ok b) ∧ ∀ b ∈ out, ∃ a ∈ l, f a = .ok b := by
  induction mapM_eq_ok.mp h with
  | nil => exact ⟨fun a ha => absurd ha List.not_mem_nil, fun b hb => absurd hb List.not_mem_nil⟩
  | @cons a b l out hab htail ih =>
    obtain ⟨hleft, hright⟩ := ih (mapM_eq_ok.mpr htail)
    rw [List.forall_mem_cons, List.forall_mem_cons]
    refine ⟨⟨⟨b, List.mem_cons_self, hab⟩, fun c hc => ?_⟩, ⟨a, List.mem_cons_self, hab⟩,
      fun c hc => ?_⟩
    · obtain ⟨d, hd, hcd⟩ := hleft c hc
      exact ⟨d, List.mem_cons_of_mem _ hd, hcd⟩
    · obtain ⟨d, hd, hcd⟩ := hright c hc
      exact ⟨d, List.mem_cons_of_mem _ hd, hcd⟩

/-- A loop whose turns all return returns their values. -/
theorem mapM_total {f : α → Except ε β} {g : α → β} {l : List α}
    (h : ∀ a ∈ l, f a = .ok (g a)) : l.mapM f = .ok (l.map g) := by
  apply mapM_eq_ok.mpr
  induction l with
  | nil => exact .nil
  | cons x l ih =>
    exact .cons (h x List.mem_cons_self) (ih fun a ha => h a (List.mem_cons_of_mem x ha))

/-- A loop whose turns all return collects what they return. -/
theorem exists_mapM {f : α → Except ε β} {l : List α} (h : ∀ a ∈ l, ∃ b, f a = .ok b) :
    ∃ out, l.mapM f = .ok out ∧ ∀ b, b ∈ out ↔ ∃ a ∈ l, f a = .ok b := by
  induction l with
  | nil => exact ⟨[], rfl, by simp⟩
  | cons x l ih =>
    rw [List.forall_mem_cons] at h
    obtain ⟨y, hy⟩ := h.1
    obtain ⟨out, hout, hmem⟩ := ih h.2
    refine ⟨y :: out, mapM_eq_ok.mpr (.cons hy (mapM_eq_ok.mp hout)), fun b => ?_⟩
    rw [List.mem_cons, List.exists_mem_cons_iff, hmem, hy, Except.ok.injEq, eq_comm]

/-- A loop whose turns all return folds what they return. -/
theorem foldlM_total {f : β → α → Except ε β} {g : β → α → β} {l : List α}
    (h : ∀ a ∈ l, ∀ b, f b a = .ok (g b a)) (b : β) : l.foldlM f b = .ok (l.foldl g b) := by
  induction l generalizing b with
  | nil => rfl
  | cons x l ih =>
    rw [List.foldlM_cons, h x List.mem_cons_self b, List.foldl_cons]
    exact ih (fun a ha => h a (List.mem_cons_of_mem x ha)) (g b x)

/-- In a loop that gets through, every turn did. -/
theorem foldlM_turn {f : β → α → Except ε β} {l : List α} {b b' : β}
    (h : l.foldlM f b = .ok b') : ∀ a ∈ l, ∃ before after, f before a = .ok after := by
  induction l generalizing b with
  | nil => exact fun a ha => absurd ha List.not_mem_nil
  | cons x l ih =>
    rw [List.foldlM_cons] at h
    obtain ⟨c, hc, hrest⟩ := Proc.except_bind_eq_ok.mp h
    rw [List.forall_mem_cons]
    exact ⟨⟨b, c, hc⟩, ih hrest⟩

/-- A loop that collects keys and stops at one it has already gets through when the keys differ
and every element passes. -/
theorem foldlM_distinct {κ : Type} {f : List κ → α → Except ε (List κ)} {key : α → κ}
    {P : α → Prop} (hturn : ∀ seen a next, f seen a = .ok next ↔
      next = key a :: seen ∧ key a ∉ seen ∧ P a) {l : List α} {seen seen' : List κ} :
    l.foldlM f seen = .ok seen' ↔ seen' = (l.map key).reverse ++ seen ∧ (l.map key).Nodup ∧
      (∀ k ∈ l.map key, k ∉ seen) ∧ ∀ a ∈ l, P a := by
  induction l generalizing seen with
  | nil =>
    show Except.ok seen = .ok seen' ↔ _
    simp [eq_comm]
  | cons a l ih =>
    rw [List.foldlM_cons, Proc.except_bind_eq_ok]
    simp only [hturn, ih, List.map_cons, List.nodup_cons, List.reverse_cons, List.append_assoc,
      List.singleton_append, List.forall_mem_cons]
    constructor
    · rintro ⟨_, ⟨rfl, hnew, ha⟩, rfl, hnodup, hfresh, hrest⟩
      refine ⟨rfl, ⟨fun hmem => ?_, hnodup⟩, ⟨hnew, ?_⟩, ha, hrest⟩
      · exact hfresh _ hmem List.mem_cons_self
      · exact fun k hk hseen => hfresh k hk (List.mem_cons_of_mem _ hseen)
    · rintro ⟨rfl, ⟨hnotin, hnodup⟩, ⟨hnew, hfresh⟩, ha, hrest⟩
      refine ⟨_, ⟨rfl, hnew, ha⟩, rfl, hnodup, ?_, hrest⟩
      intro k hk hseen
      rcases List.mem_cons.mp hseen with rfl | hseen
      · exact hnotin hk
      · exact hfresh k hk hseen

end Fallible
