/-
# Maps in the order of their keys

A map as the list of its entries, which ascend by their keys.

* `SortedMap.insert`, `SortedMap.erase` — updates that keep the order;
* `SortedMap.get?_eq_some` — a key has the value it is listed with.
-/
import Mathlib.Data.List.Nodup
import Mathlib.Order.Lattice

/-- Entries with ascending keys. -/
structure SortedMap (κ α : Type) [LT κ] where
  entries : List (κ × α)
  sorted : entries.Pairwise fun p q => p.1 < q.1

/-- The entries with another value for a key. -/
def insertEntry {κ α : Type} [LT κ] [DecidableLT κ] (k : κ) (v : α) (entries : List (κ × α)) :
    List (κ × α) :=
  entries.filter (fun p => decide (p.1 < k)) ++ (k, v) :: entries.filter fun p => decide (k < p.1)

namespace SortedMap

variable {κ α : Type} [LinearOrder κ] {m : SortedMap κ α} {k : κ} {v : α} {p : κ × α}

instance [DecidableEq α] : DecidableEq (SortedMap κ α) := fun m m' =>
  decidable_of_iff (m.entries = m'.entries) (by cases m; cases m'; simp)

/-- The map without entries. -/
def empty : SortedMap κ α :=
  ⟨[], List.Pairwise.nil⟩

/-- The value of a key. -/
def get? (m : SortedMap κ α) (k : κ) : Option α :=
  (m.entries.find? fun p => decide (p.1 = k)).map (·.2)

/-- The map with another value for a key. -/
def insert (m : SortedMap κ α) (k : κ) (v : α) : SortedMap κ α where
  entries := insertEntry k v m.entries
  sorted := by
    unfold insertEntry
    refine List.pairwise_append.mpr ⟨m.sorted.filter _, List.pairwise_cons.mpr ⟨?_, m.sorted.filter _⟩, ?_⟩
    · intro q hq
      exact of_decide_eq_true (List.mem_filter.mp hq).2
    · intro p hp q hq
      have hpk : p.1 < k := of_decide_eq_true (List.mem_filter.mp hp).2
      rcases List.mem_cons.mp hq with rfl | hq
      · exact hpk
      · exact hpk.trans (of_decide_eq_true (List.mem_filter.mp hq).2)

/-- The map without a key. -/
def erase (m : SortedMap κ α) (k : κ) : SortedMap κ α where
  entries := m.entries.filter fun p => decide (p.1 ≠ k)
  sorted := m.sorted.filter _

/-- A key is listed once. -/
theorem eq_of_key (hp : p ∈ m.entries) {q : κ × α} (hq : q ∈ m.entries) (hk : p.1 = q.1) : p = q := by
  have hnodup : (m.entries.map (·.1)).Nodup :=
    List.pairwise_map.mpr (m.sorted.imp fun hlt => ne_of_lt hlt)
  exact List.inj_on_of_nodup_map hnodup hp hq hk

/-- **A key has the value it is listed with.** -/
theorem get?_eq_some : m.get? k = some v ↔ (k, v) ∈ m.entries := by
  unfold get?
  rw [Option.map_eq_some_iff]
  constructor
  · rintro ⟨p, hfind, rfl⟩
    have hk : p.1 = k := by simpa using List.find?_some hfind
    exact hk ▸ List.mem_of_find?_eq_some hfind
  · intro hmem
    cases hfind : m.entries.find? fun p => decide (p.1 = k) with
    | none =>
      have hno := List.find?_eq_none.mp hfind _ hmem
      simp at hno
    | some p =>
      have hk : p.1 = k := by simpa using List.find?_some hfind
      exact ⟨p, rfl, by rw [eq_of_key (List.mem_of_find?_eq_some hfind) hmem hk]⟩

end SortedMap
