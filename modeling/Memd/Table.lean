/-
# Database tables as lists of rows

What SQL statements do to a table that is read as a list of rows: `updateWhere`,
`deleteWhere`, `insertOrReplace` (`INSERT OR REPLACE`, where `conflict` says which
rows a new row evicts) and the key constraint `Keyed` that they keep.  `Spares p`
says that a statement leaves the rows of a kind alone: for each of the three, exactly
when it does.
-/
import Mathlib.Data.List.Basic
import Mathlib.Data.List.Induction
import Mathlib.Data.List.Nodup

namespace Table

variable {α κ : Type}

/-- `UPDATE … SET f WHERE p`. -/
def updateWhere (p : α → Bool) (f : α → α) (t : List α) : List α :=
  t.map fun r => if p r then f r else r

/-- `DELETE FROM … WHERE p`. -/
def deleteWhere (p : α → Bool) (t : List α) : List α :=
  t.filter fun r => !p r

/-- `INSERT OR REPLACE`: every row in conflict with the new one is evicted. -/
def insertOrReplace (conflict : α → α → Bool) (new : α) (t : List α) : List α :=
  t.filter (fun r => !conflict r new) ++ [new]

/-- No two rows of the table have the same key. -/
def Keyed (key : α → κ) (t : List α) : Prop :=
  (t.map key).Nodup

/-! ## Membership -/

theorem mem_updateWhere {p : α → Bool} {f : α → α} {t : List α} {x : α} :
    x ∈ updateWhere p f t ↔ ∃ r ∈ t, x = if p r then f r else r := by
  rw [updateWhere, List.mem_map]
  exact ⟨fun ⟨r, hr, h⟩ => ⟨r, hr, h.symm⟩, fun ⟨r, hr, h⟩ => ⟨r, hr, h.symm⟩⟩

theorem mem_deleteWhere {p : α → Bool} {t : List α} {x : α} :
    x ∈ deleteWhere p t ↔ x ∈ t ∧ p x = false := by
  simp [deleteWhere]

theorem mem_insertOrReplace {conflict : α → α → Bool} {new : α} {t : List α} {x : α} :
    x ∈ insertOrReplace conflict new t ↔ (x ∈ t ∧ conflict x new = false) ∨ x = new := by
  simp [insertOrReplace]

/-! ## Keys -/

/-- Two rows of a keyed table with the same key are the same row. -/
theorem Keyed.eq {key : α → κ} {t : List α} (h : Keyed key t) {x y : α} (hx : x ∈ t)
    (hy : y ∈ t) (hk : key x = key y) : x = y :=
  List.inj_on_of_nodup_map h hx hy hk

theorem Keyed.nil (key : α → κ) : Keyed key [] :=
  List.nodup_nil

/-- An update that leaves the key alone keeps the constraint. -/
theorem Keyed.updateWhere {key : α → κ} {t : List α} (h : Keyed key t) (p : α → Bool)
    (f : α → α) (hf : ∀ r, key (f r) = key r) : Keyed key (updateWhere p f t) := by
  have hmap : (Table.updateWhere p f t).map key = t.map key := by
    rw [Table.updateWhere, List.map_map]
    apply List.map_congr_left
    intro r _
    by_cases hp : p r <;> simp [hp, hf]
  rw [Keyed, hmap]
  exact h

theorem Keyed.deleteWhere {key : α → κ} {t : List α} (h : Keyed key t) (p : α → Bool) :
    Keyed key (deleteWhere p t) :=
  List.Nodup.sublist (List.filter_sublist.map key) h

/-- A replacing insert keeps the constraint when every row with the new row's key is
in conflict with it. -/
theorem Keyed.insertOrReplace {key : α → κ} {t : List α} (h : Keyed key t)
    {conflict : α → α → Bool} {new : α} (hc : ∀ r ∈ t, key r = key new → conflict r new = true) :
    Keyed key (insertOrReplace conflict new t) := by
  rw [Keyed, Table.insertOrReplace, List.map_append, List.nodup_append]
  refine ⟨List.Nodup.sublist (List.filter_sublist.map key) h, List.nodup_singleton _, ?_⟩
  intro k hk k' hk'
  obtain ⟨r, hr, rfl⟩ := List.mem_map.mp hk
  obtain ⟨x, hx, rfl⟩ := List.mem_map.mp hk'
  obtain rfl := List.mem_singleton.mp hx
  intro heq
  obtain ⟨hrt, hrc⟩ := List.mem_filter.mp hr
  rw [hc r hrt heq] at hrc
  exact absurd hrc (by simp)

/-! ## Rows a statement leaves alone -/

section Spares

variable {p : α → Bool} {t t' t'' : List α}

/-- The rows of the kind `p` are the same in both tables, in the same order. -/
def Spares (p : α → Bool) (t t' : List α) : Prop :=
  t'.filter p = t.filter p

theorem Spares.refl (p : α → Bool) (t : List α) : Spares p t t := rfl

theorem Spares.trans (h : Spares p t t') (h' : Spares p t' t'') : Spares p t t'' :=
  Eq.trans h' h

theorem Spares.symm (h : Spares p t t') : Spares p t' t :=
  Eq.symm h

theorem Spares.mem_iff (h : Spares p t t') {x : α} (hx : p x = true) : x ∈ t' ↔ x ∈ t := by
  have : x ∈ t'.filter p ↔ x ∈ t.filter p := by rw [h]
  simpa [hx] using this

/-- A kind that implies `p` is left alone too. -/
theorem Spares.of_imp (h : Spares p t t') {q : α → Bool} (hq : ∀ x, q x = true → p x = true) :
    Spares q t t' := by
  have hqp : ∀ l : List α, l.filter q = (l.filter p).filter q := by
    intro l
    rw [List.filter_filter]
    apply List.filter_congr
    intro x _
    by_cases hx : q x = true
    · simp [hx, hq x hx]
    · simp [hx]
  rw [Spares, hqp t', hqp t, h]

/-- Dropping rows leaves the kind alone when no row of the kind is dropped. -/
theorem filter_and_eq_filter {q : α → Bool} :
    t.filter (fun x => p x && q x) = t.filter p ↔ ∀ x ∈ t, p x = true → q x = true := by
  constructor
  · intro h x hx hp
    have hmem : x ∈ t.filter p := List.mem_filter.mpr ⟨hx, hp⟩
    rw [← h, List.mem_filter, Bool.and_eq_true] at hmem
    exact hmem.2.2
  · intro h
    apply List.filter_congr
    intro x hx
    by_cases hp : p x = true
    · rw [hp, h x hx hp, Bool.and_self]
    · simp [hp]

theorem spares_deleteWhere {q : α → Bool} :
    Spares p t (deleteWhere q t) ↔ ∀ x ∈ t, p x = true → q x = false := by
  rw [Spares, deleteWhere, List.filter_filter, filter_and_eq_filter]
  simp

/-- An update that keeps the kind of every row. -/
theorem spares_updateWhere {q : α → Bool} {f : α → α} (hf : ∀ x, p (f x) = p x) :
    Spares p t (updateWhere q f t) ↔ ∀ x ∈ t, p x = true → q x = true → f x = x := by
  induction t with
  | nil => simp [Spares, updateWhere]
  | cons a t ih =>
    have hkind : p (if q a then f a else a) = p a := by
      by_cases hq : q a <;> simp [hq, hf]
    rw [Spares, updateWhere, List.map_cons, List.filter_cons, List.filter_cons, hkind,
      List.forall_mem_cons, ← ih]
    by_cases hp : p a = true
    · rw [if_pos hp, if_pos hp, List.cons.injEq]
      by_cases hq : q a = true
      · simp [hq, hp, Spares, updateWhere]
      · simp [hq, hp, Spares, updateWhere]
    · rw [if_neg hp, if_neg hp]
      simp [hp, Spares, updateWhere]

/-- What a loop of inserts of rows of another kind leaves of the kind. -/
theorem filter_foldl_insertOrReplace {conflict : α → α → Bool} {news : List α}
    (hnew : ∀ x ∈ news, p x = false) :
    (news.foldl (fun t x => insertOrReplace conflict x t) t).filter p =
      t.filter fun x => p x && news.all fun new => !conflict x new := by
  induction news generalizing t with
  | nil => simp
  | cons a news ih =>
    have ha := hnew a List.mem_cons_self
    rw [List.foldl_cons, ih fun x hx => hnew x (List.mem_cons_of_mem a hx), insertOrReplace,
      List.filter_append, List.filter_filter]
    simp only [List.filter_cons, ha, Bool.false_and, Bool.false_eq_true, if_false, List.filter_nil,
      List.append_nil, List.all_cons]
    apply List.filter_congr
    intro x _
    rw [Bool.and_assoc, Bool.and_comm (!conflict x a)]

/-- A loop of inserts of rows of another kind. -/
theorem spares_foldl_insertOrReplace {conflict : α → α → Bool} {news : List α}
    (hnew : ∀ x ∈ news, p x = false) :
    Spares p t (news.foldl (fun t x => insertOrReplace conflict x t) t) ↔
      ∀ x ∈ t, p x = true → ∀ new ∈ news, conflict x new = false := by
  rw [Spares, filter_foldl_insertOrReplace hnew, filter_and_eq_filter]
  simp

/-- An insert of a row of another kind. -/
theorem spares_insertOrReplace {conflict : α → α → Bool} {new : α} (hnew : p new = false) :
    Spares p t (insertOrReplace conflict new t) ↔
      ∀ x ∈ t, p x = true → conflict x new = false := by
  have h : Spares p t ([new].foldl (fun t x => insertOrReplace conflict x t) t) ↔
      ∀ x ∈ t, p x = true → ∀ y ∈ [new], conflict x y = false :=
    spares_foldl_insertOrReplace (by simpa using hnew)
  simpa using h

/-- What a loop of inserts leaves in a table whose conflicts are equal keys: an old row with
a key that no new row has, or the last new row with its key. -/
theorem mem_foldl_insertOrReplace [BEq κ] [LawfulBEq κ] {key : α → κ} {news : List α} {x : α} :
    x ∈ news.foldl (fun t y => insertOrReplace (fun a b => key a == key b) y t) t ↔
      (x ∈ t ∧ ∀ y ∈ news, key y ≠ key x) ∨ news.reverse.find? (key · == key x) = some x := by
  induction news using List.reverseRecOn with
  | nil => simp
  | append_singleton news a ih =>
    rw [List.foldl_append, List.foldl_cons, List.foldl_nil, mem_insertOrReplace, ih,
      List.reverse_append, List.reverse_singleton, List.singleton_append, List.find?_cons]
    by_cases hk : key a = key x
    · simp only [hk, beq_self_eq_true, Option.some.injEq]
      constructor
      · rintro (⟨_, h⟩ | rfl)
        · exact absurd h (by simp)
        · exact .inr rfl
      · rintro (⟨_, h⟩ | rfl)
        · exact absurd hk (h a (by simp))
        · exact .inr rfl
    · have hne : x ≠ a := by
        rintro rfl
        exact hk rfl
      have hbeq : (key x == key a) = false := by simpa using fun h => hk h.symm
      have hbeq' : (key a == key x) = false := by simpa using hk
      simp only [hbeq, hbeq', hne, or_false, and_true, List.mem_append, List.mem_singleton]
      apply or_congr_left
      apply and_congr_right
      intro _
      constructor
      · rintro h y (hy | rfl)
        · exact h y hy
        · exact hk
      · exact fun h y hy => h y (.inl hy)

end Spares

end Table
