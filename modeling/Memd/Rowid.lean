/-
# Row ids of a table

A table whose primary key is the row id gives a new row one more than the largest id it holds,
so the id of a deleted row can come back.  `insertRowids` inserts a list of rows, each a
function of the id it gets.

* `insertRowids_eq` — the new rows stand at the end, with consecutive ids;
* `filterMap_insertRowids` — what is read of the rows but their ids;
* `Keyed.insertRowids` — ids stay unique.
-/
import Mathlib.Order.Lattice
import Mathlib.Order.Defs.LinearOrder
import Memd.Table

namespace Table

variable {α : Type} {key : α → ℕ}

/-- The id of the next row. -/
def nextRowid (key : α → ℕ) (t : List α) : ℕ :=
  (t.map key).foldr max 0 + 1

/-- `INSERT` of a row that gets its id from the table. -/
def insertRowid (key : α → ℕ) (t : List α) (row : ℕ → α) : List α :=
  t ++ [row (nextRowid key t)]

/-- The inserts of a batch. -/
def insertRowids (key : α → ℕ) (t : List α) (rows : List (ℕ → α)) : List α :=
  rows.foldl (insertRowid key) t

theorem lt_nextRowid {t : List α} {x : α} (hx : x ∈ t) : key x < nextRowid key t := by
  unfold nextRowid
  induction t with
  | nil => exact absurd hx List.not_mem_nil
  | cons y t ih =>
    rw [List.map_cons, List.foldr_cons]
    rcases List.mem_cons.mp hx with rfl | hx
    · exact Nat.lt_succ_of_le (le_max_left _ _)
    · exact lt_of_lt_of_le (ih hx) (Nat.succ_le_succ (le_max_right _ _))

theorem foldr_max_append (t : List ℕ) (n : ℕ) :
    (t ++ [n]).foldr max 0 = max (t.foldr max 0) n := by
  induction t with
  | nil => simp
  | cons m t ih => rw [List.cons_append, List.foldr_cons, ih, List.foldr_cons, max_assoc]

/-- An insert moves the next id by one. -/
theorem nextRowid_insertRowid {t : List α} {row : ℕ → α} (hrow : ∀ n, key (row n) = n) :
    nextRowid key (insertRowid key t row) = nextRowid key t + 1 := by
  rw [nextRowid, insertRowid, List.map_append, List.map_singleton, foldr_max_append, hrow]
  have hle : (t.map key).foldr max 0 ≤ nextRowid key t := Nat.le_succ _
  rw [max_eq_right hle]

/-- **A batch gets consecutive ids.** -/
theorem insertRowids_eq (rows : List (ℕ → α)) (hrows : ∀ row ∈ rows, ∀ n, key (row n) = n) :
    ∀ t : List α, insertRowids key t rows =
      t ++ rows.mapIdx fun i row => row (nextRowid key t + i) := by
  induction rows with
  | nil => exact fun t => (List.append_nil t).symm
  | cons row rows ih =>
    intro t
    have hrow := hrows row List.mem_cons_self
    have hrest := ih (fun r hr => hrows r (List.mem_cons_of_mem _ hr)) (insertRowid key t row)
    have hshift : ∀ i, nextRowid key t + 1 + i = nextRowid key t + (i + 1) := fun i => by omega
    rw [insertRowids, List.foldl_cons]
    show insertRowids key (insertRowid key t row) rows = _
    rw [hrest, nextRowid_insertRowid hrow, List.mapIdx_cons, insertRowid, List.append_assoc]
    simp only [hshift, List.singleton_append, Nat.add_zero]

/-- **Reading a table** without the new ids. -/
theorem filterMap_insertRowids {β : Type} {f : α → Option β} (rows : List (ℕ → α))
    (hrows : ∀ row ∈ rows, ∀ n, f (row n) = f (row 0)) :
    ∀ t : List α, (insertRowids key t rows).filterMap f =
      t.filterMap f ++ rows.filterMap fun row => f (row 0) := by
  induction rows with
  | nil => exact fun t => (List.append_nil _).symm
  | cons row rows ih =>
    intro t
    have hrow := hrows row List.mem_cons_self (nextRowid key t)
    have hone : [row (nextRowid key t)].filterMap f = [row].filterMap fun row => f (row 0) := by
      rw [List.filterMap_cons, List.filterMap_cons, hrow]
      rfl
    show (insertRowids key (insertRowid key t row) rows).filterMap f = _
    rw [ih (fun r hr => hrows r (List.mem_cons_of_mem _ hr)), insertRowid, List.filterMap_append,
      hone, List.append_assoc, ← List.filterMap_append, List.singleton_append]

theorem Keyed.insertRowid {t : List α} (h : Keyed key t) {row : ℕ → α}
    (hrow : ∀ n, key (row n) = n) : Keyed key (insertRowid key t row) := by
  rw [Keyed, Table.insertRowid, List.map_append, List.nodup_append]
  refine ⟨h, List.nodup_singleton _, ?_⟩
  intro k hk k' hk'
  obtain ⟨x, hx, rfl⟩ := List.mem_map.mp hk
  rw [List.map_singleton, List.mem_singleton, hrow] at hk'
  have : key x < nextRowid key t := lt_nextRowid hx
  omega

theorem Keyed.insertRowids (rows : List (ℕ → α)) (hrows : ∀ row ∈ rows, ∀ n, key (row n) = n) :
    ∀ {t : List α}, Keyed key t → Keyed key (Table.insertRowids key t rows) := by
  induction rows with
  | nil => exact fun h => h
  | cons row rows ih =>
    intro t h
    exact ih (fun r hr => hrows r (List.mem_cons_of_mem _ hr))
      (h.insertRowid (hrows row List.mem_cons_self))

end Table
