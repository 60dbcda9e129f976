/-
# The dense index

`index/hnsw.rs` and `index/embedding_cache.rs`: a mapping from chunk ids to internal ids, a
cache of the embeddings by internal id, and the graph that is searched.  Each of the three
sits behind a lock of its own, and a call takes the locks one after the other; `IndexCall`
says where a call in flight stands and `DenseSystem.step` lets one of them go on.

* `EmbeddingCache` — the flat vector of the embeddings and the bitmap of the valid slots,
  with the lengths that make every slice legal;
* `HnswIndex` — mapping, cache and graph;
* `DenseSystem` — the index, the calls in flight and what has been answered.

The graph is the list of its points; which of them a search of the graph finds is left
open (`Neighbours`).  Scores are left out, and so is the wait for a lock.
-/
import Mathlib.Logic.Function.Basic
import Mathlib.Data.List.Nodup
import Mathlib.Data.List.Perm.Subperm
import Memd.Chunk

/-- An embedding. -/
abbrev Embedding := List F32

/-- A point of the graph: an internal id and a vector. -/
abbrev Point := ℕ × Embedding

/-! ## The mapping -/

/-- The two hash maps, as functions. -/
structure IndexMapping where
  idToChunk : ℕ → Option ChunkId := fun _ => none
  chunkToId : ChunkId → Option ℕ := fun _ => none
  nextId : ℕ := 0
  version : ℕ := 0

namespace IndexMapping

/-- `insert`: the id a chunk has, or the next one. -/
def insert (m : IndexMapping) (c : ChunkId) : ℕ × IndexMapping :=
  match m.chunkToId c with
  | some id => (id, m)
  | none => (m.nextId, {
      idToChunk := Function.update m.idToChunk m.nextId (some c)
      chunkToId := Function.update m.chunkToId c (some m.nextId)
      nextId := m.nextId + 1
      version := m.version + 1 })

/-- `get_chunk_id`. -/
def getChunkId (m : IndexMapping) (id : ℕ) : Option ChunkId :=
  m.idToChunk id

/-- `get_internal_id`. -/
def getInternalId (m : IndexMapping) (c : ChunkId) : Option ℕ :=
  m.chunkToId c

/-- The mapping is a bijection between the mapped chunks and the ids below `nextId`. -/
structure Bijective (m : IndexMapping) : Prop where
  inverse : ∀ c id, m.chunkToId c = some id ↔ m.idToChunk id = some c
  range : ∀ id, (m.idToChunk id).isSome = true ↔ id < m.nextId

/-- The empty mapping is a bijection. -/
theorem bijective_new : Bijective {} := by
  constructor <;> simp

variable {m : IndexMapping}

/-- The next id maps to no chunk. -/
theorem Bijective.nextId_free (h : m.Bijective) : m.idToChunk m.nextId = none := by
  have hfree := (h.range m.nextId).not.mpr (Nat.lt_irrefl _)
  simpa using hfree

/-- An insert leaves the ids of other chunks. -/
theorem insert_of_ne (m : IndexMapping) {c c' : ChunkId} (hne : c' ≠ c) :
    (m.insert c).2.chunkToId c' = m.chunkToId c' := by
  unfold insert
  cases m.chunkToId c with
  | some _ => rfl
  | none => exact Function.update_of_ne hne ..

/-- Inserting keeps what is mapped. -/
theorem insert_mono (m : IndexMapping) (c : ChunkId) {c' : ChunkId} {id : ℕ}
    (h : m.chunkToId c' = some id) : (m.insert c).2.chunkToId c' = some id := by
  by_cases hne : c' = c
  · subst hne
    unfold insert
    rw [h]
    exact h
  · rw [m.insert_of_ne hne]
    exact h

/-- The chunk has the id it was given. -/
theorem insert_self (m : IndexMapping) (c : ChunkId) :
    (m.insert c).2.chunkToId c = some (m.insert c).1 := by
  unfold insert
  cases hc : m.chunkToId c with
  | some id => exact hc
  | none => exact Function.update_self ..

/-- The next id never falls. -/
theorem nextId_le_insert (m : IndexMapping) (c : ChunkId) : m.nextId ≤ (m.insert c).2.nextId := by
  unfold insert
  cases hc : m.chunkToId c with
  | some id => exact Nat.le_refl _
  | none => exact Nat.le_succ _

/-- An insert keeps the bijection. -/
theorem Bijective.insert (h : m.Bijective) (c : ChunkId) : (m.insert c).2.Bijective := by
  unfold IndexMapping.insert
  cases hc : m.chunkToId c with
  | some id => exact h
  | none =>
    have hfree := h.nextId_free
    constructor
    · intro c' id
      show Function.update m.chunkToId c (some m.nextId) c' = some id ↔
        Function.update m.idToChunk m.nextId (some c) id = some c'
      by_cases hcc : c' = c <;> by_cases hid : id = m.nextId
      · subst hcc hid
        simp
      · subst hcc
        rw [Function.update_self, Function.update_of_ne hid, ← h.inverse, hc]
        simp [Ne.symm hid]
      · subst hid
        rw [Function.update_of_ne hcc, Function.update_self, h.inverse, hfree]
        simp [Ne.symm hcc]
      · rw [Function.update_of_ne hcc, Function.update_of_ne hid]
        exact h.inverse c' id
    · intro id
      show (Function.update m.idToChunk m.nextId (some c) id).isSome = true ↔ id < m.nextId + 1
      by_cases hid : id = m.nextId
      · subst hid
        simp
      · rw [Function.update_of_ne hid, h.range]
        omega

/-- An id in use is below the next one. -/
theorem Bijective.lt (h : m.Bijective) {c : ChunkId} {id : ℕ} (hc : m.chunkToId c = some id) :
    id < m.nextId := by
  rw [← h.range, (h.inverse c id).mp hc]
  rfl

end IndexMapping

/-! ## The embedding cache -/

/-- Slot `i` occupies the elements from `i * dimension` on. -/
structure EmbeddingCache where
  embeddings : List F32
  dimension : ℕ
  count : ℕ
  validIds : List Bool
  embeddings_length : embeddings.length = validIds.length * dimension
  count_eq : count = validIds.count true

namespace EmbeddingCache

/-- An empty cache of a dimension. -/
def new (dimension : ℕ) : EmbeddingCache where
  embeddings := []
  dimension := dimension
  count := 0
  validIds := []
  embeddings_length := by simp
  count_eq := rfl

/-- `copy_from_slice` into the elements from `start` on. -/
def overwrite (l : List F32) (start : ℕ) (e : Embedding) : List F32 :=
  l.take start ++ e ++ l.drop (start + e.length)

/-- Overwriting a range keeps the length. -/
theorem length_overwrite {l : List F32} {start : ℕ} {e : Embedding}
    (h : start + e.length ≤ l.length) : (overwrite l start e).length = l.length := by
  simp only [overwrite, List.length_append, List.length_take, List.length_drop]
  omega

/-- The slot of an id, whether valid or not. -/
def slot (cache : EmbeddingCache) (id : ℕ) : Embedding :=
  (cache.embeddings.drop (id * cache.dimension)).take cache.dimension

/-- The writes of `EmbeddingCache::insert` behind its check. -/
def write (cache : EmbeddingCache) (id : ℕ) (e : Embedding) (h : e.length = cache.dimension) :
    EmbeddingCache where
  embeddings := overwrite (cache.embeddings.rightpad ((id + 1) * cache.dimension) 0)
    (id * cache.dimension) e
  dimension := cache.dimension
  -- the source counts a slot up only where it was not valid
  count := if (cache.validIds.rightpad (id + 1) false)[id]? = some true then cache.count
    else cache.count + 1
  validIds := (cache.validIds.rightpad (id + 1) false).set id true
  embeddings_length := by
    have hlen := cache.embeddings_length
    have hpad : (cache.embeddings.rightpad ((id + 1) * cache.dimension) 0).length =
        (cache.validIds.rightpad (id + 1) false).length * cache.dimension := by
      rw [List.length_rightpad, List.length_rightpad, hlen]
      exact Nat.mul_max_mul_right ..
    rw [length_overwrite, hpad, List.length_set]
    rw [hpad, h, List.length_rightpad, ← Nat.mul_max_mul_right, Nat.add_mul]
    omega
  count_eq := by
    have hlt : id < (cache.validIds.rightpad (id + 1) false).length := by
      rw [List.length_rightpad]
      omega
    have hpad : (cache.validIds.rightpad (id + 1) false).count true = cache.count := by
      rw [List.rightpad, List.count_append, cache.count_eq, List.count_replicate]
      simp
    rw [List.count_set hlt, hpad, List.getElem?_eq_getElem hlt]
    cases hv : (cache.validIds.rightpad (id + 1) false)[id] with
    | false => simp
    | true =>
      have hpos : 0 < (cache.validIds.rightpad (id + 1) false).count true :=
        List.count_pos_iff.mpr (hv ▸ List.getElem_mem hlt)
      rw [hpad] at hpos
      simp only [if_true, beq_self_eq_true]
      omega

/-- `insert`: an embedding of another dimension is refused. -/
def insert (cache : EmbeddingCache) (id : ℕ) (e : Embedding) : Except MemdError EmbeddingCache :=
  if h : e.length = cache.dimension then .ok (cache.write id e h)
  else .error (.validationError
    s!"Embedding dimension mismatch: expected {cache.dimension}, got {e.length}")

/-- `get`: the slot of an id that is valid. -/
def get (cache : EmbeddingCache) (id : ℕ) : Option Embedding :=
  if cache.validIds[id]? = some true then some (cache.slot id) else none

/-- `mark_invalid`: the slot stays, its flag is cleared. -/
def markInvalid (cache : EmbeddingCache) (id : ℕ) : EmbeddingCache where
  embeddings := cache.embeddings
  dimension := cache.dimension
  count := if cache.validIds[id]? = some true then cache.count - 1 else cache.count
  validIds := cache.validIds.set id false
  embeddings_length := by rw [List.length_set, cache.embeddings_length]
  count_eq := by
    by_cases hlt : id < cache.validIds.length
    · rw [List.count_set hlt, List.getElem?_eq_getElem hlt, cache.count_eq]
      cases cache.validIds[id] <;> simp
    · rw [List.set_eq_of_length_le (by omega), List.getElem?_eq_none (by omega), cache.count_eq]
      simp

/-- `iter_valid`. -/
def iterValid (cache : EmbeddingCache) : List Point :=
  cache.validIds.zipIdx.filterMap fun v => if v.1 then some (v.2, cache.slot v.2) else none

/-- The number of slots. -/
def nextId (cache : EmbeddingCache) : ℕ :=
  cache.validIds.length

/-! ### What the cache holds -/

variable {cache : EmbeddingCache}

/-- What stands in a slot. -/
theorem getElem?_slot (cache : EmbeddingCache) (id k : ℕ) :
    (cache.slot id)[k]? =
      if k < cache.dimension then cache.embeddings[id * cache.dimension + k]? else none := by
  rw [slot, List.getElem?_take, List.getElem?_drop]

/-- What stands behind an overwrite. -/
theorem getElem?_overwrite {l : List F32} {start : ℕ} {e : Embedding}
    (h : start + e.length ≤ l.length) (n : ℕ) :
    (overwrite l start e)[n]? =
      if start ≤ n ∧ n < start + e.length then e[n - start]? else l[n]? := by
  have hlen : (l.take start).length = start := by
    rw [List.length_take]
    omega
  unfold overwrite
  by_cases hn : n < start
  · rw [List.append_assoc, List.getElem?_append_left (by omega), List.getElem?_take_of_lt hn,
      if_neg (by omega)]
  · rw [List.append_assoc, List.getElem?_append_right (by omega), hlen]
    by_cases hn' : n < start + e.length
    · rw [List.getElem?_append_left (by omega), if_pos ⟨by omega, hn'⟩]
    · rw [List.getElem?_append_right (by omega), List.getElem?_drop, if_neg (by omega)]
      congr 1
      omega

/-- Slots do not overlap. -/
theorem slot_write_of_ne {id j : ℕ} {e : Embedding} (h : e.length = cache.dimension) (hne : j ≠ id)
    (hj : j < cache.validIds.length) : (cache.write id e h).slot j = cache.slot j := by
  have hlen := cache.embeddings_length
  have hroom : id * cache.dimension + e.length ≤
      (cache.embeddings.rightpad ((id + 1) * cache.dimension) 0).length := by
    rw [List.length_rightpad, h, Nat.add_mul]
    omega
  apply List.ext_getElem?
  intro k
  rw [getElem?_slot, getElem?_slot]
  show (if k < cache.dimension then _ else none) = _
  by_cases hk : k < cache.dimension
  · rw [if_pos hk, if_pos hk]
    have hin : j * cache.dimension + k < cache.embeddings.length := by
      have hle : (j + 1) * cache.dimension ≤ cache.validIds.length * cache.dimension :=
        Nat.mul_le_mul_right _ hj
      rw [Nat.add_mul] at hle
      omega
    -- the slot lies below or above the one that is written
    have hapart : ¬ (id * cache.dimension ≤ j * cache.dimension + k ∧
        j * cache.dimension + k < id * cache.dimension + e.length) := by
      rcases Nat.lt_or_gt_of_ne hne with hlt | hgt
      · have hle : (j + 1) * cache.dimension ≤ id * cache.dimension := Nat.mul_le_mul_right _ hlt
        rw [Nat.add_mul] at hle
        omega
      · have hle : (id + 1) * cache.dimension ≤ j * cache.dimension := Nat.mul_le_mul_right _ hgt
        rw [Nat.add_mul] at hle
        omega
    show (overwrite _ _ _)[j * cache.dimension + k]? = _
    rw [getElem?_overwrite hroom, if_neg hapart, List.rightpad, List.getElem?_append_left hin]
  · rw [if_neg hk, if_neg hk]

/-- A slot holds what was written to it. -/
theorem slot_write_self (id : ℕ) {e : Embedding} (h : e.length = cache.dimension) :
    (cache.write id e h).slot id = e := by
  have hroom : id * cache.dimension + e.length ≤
      (cache.embeddings.rightpad ((id + 1) * cache.dimension) 0).length := by
    rw [List.length_rightpad, h, Nat.add_mul]
    omega
  apply List.ext_getElem?
  intro k
  rw [getElem?_slot]
  show (if k < cache.dimension then (overwrite _ _ _)[id * cache.dimension + k]? else none) = _
  by_cases hk : k < cache.dimension
  · rw [if_pos hk, getElem?_overwrite hroom, if_pos ⟨by omega, by omega⟩]
    congr 1
    omega
  · rw [if_neg hk, List.getElem?_eq_none (by omega)]

/-- Padding with cleared flags sets none. -/
theorem getElem?_rightpad_false (l : List Bool) (n j : ℕ) :
    (l.rightpad n false)[j]? = some true ↔ l[j]? = some true := by
  rw [List.rightpad]
  by_cases hj : j < l.length
  · rw [List.getElem?_append_left hj]
  · rw [List.getElem?_append_right (by omega), List.getElem?_eq_none (by omega : l.length ≤ j),
      List.getElem?_replicate]
    split <;> simp

/-- **A write** is seen at its id and nowhere else. -/
theorem get_write (id : ℕ) {e : Embedding} (h : e.length = cache.dimension) (j : ℕ) :
    (cache.write id e h).get j = if j = id then some e else cache.get j := by
  show (if ((cache.validIds.rightpad (id + 1) false).set id true)[j]? = some true then
    some ((cache.write id e h).slot j) else none) = _
  by_cases hj : j = id
  · subst hj
    have hlt : j < (cache.validIds.rightpad (j + 1) false).length := by
      rw [List.length_rightpad]
      omega
    rw [List.getElem?_set_self hlt, if_pos rfl, if_pos rfl, slot_write_self]
  · rw [List.getElem?_set_ne (Ne.symm hj), if_neg hj, get]
    by_cases hv : cache.validIds[j]? = some true
    · have hlt := (List.getElem?_eq_some_iff.mp hv).1
      rw [if_pos ((getElem?_rightpad_false _ _ _).mpr hv), if_pos hv, slot_write_of_ne h hj hlt]
    · rw [if_neg (mt (getElem?_rightpad_false _ _ _).mp hv), if_neg hv]

/-- **A cleared flag** hides its id and no other. -/
theorem get_markInvalid (cache : EmbeddingCache) (id j : ℕ) :
    (cache.markInvalid id).get j = if j = id then none else cache.get j := by
  show (if (cache.validIds.set id false)[j]? = some true then some (cache.slot j) else none) = _
  by_cases hj : j = id
  · subst hj
    rw [if_pos rfl, List.getElem?_set_self']
    cases cache.validIds[j]? <;> simp
  · rw [List.getElem?_set_ne (Ne.symm hj), if_neg hj, get]

/-- The loop of `swap_graph` over the excluded ids. -/
def markAllInvalid (cache : EmbeddingCache) (ids : List ℕ) : EmbeddingCache :=
  ids.foldl markInvalid cache

/-- So do several of them. -/
theorem get_markAllInvalid (cache : EmbeddingCache) (ids : List ℕ) (j : ℕ) :
    (cache.markAllInvalid ids).get j = if j ∈ ids then none else cache.get j := by
  induction ids generalizing cache with
  | nil => simp [markAllInvalid]
  | cons id ids ih =>
    show ((cache.markInvalid id).markAllInvalid ids).get j = _
    rw [ih, get_markInvalid]
    by_cases hmem : j ∈ ids <;> by_cases hj : j = id <;> simp [hmem, hj]

/-- Clearing flags keeps the dimension. -/
theorem dimension_markAllInvalid (cache : EmbeddingCache) (ids : List ℕ) :
    (cache.markAllInvalid ids).dimension = cache.dimension := by
  induction ids generalizing cache with
  | nil => rfl
  | cons id ids ih => exact ih (cache.markInvalid id)

/-- The points are the valid slots. -/
@[simp]
theorem mem_iterValid {p : Point} : p ∈ cache.iterValid ↔ cache.get p.1 = some p.2 := by
  obtain ⟨id, e⟩ := p
  simp only [iterValid, get, List.mem_filterMap, Prod.exists, List.mem_zipIdx_iff_getElem?]
  constructor
  · rintro ⟨v, j, hv, hp⟩
    cases v with
    | false => exact absurd hp (by simp)
    | true =>
      obtain ⟨rfl, rfl⟩ := Prod.mk.inj (Option.some.inj hp)
      rw [if_pos hv]
  · intro h
    by_cases hv : cache.validIds[id]? = some true
    · rw [if_pos hv] at h
      exact ⟨true, id, hv, by rw [← Option.some.inj h]; rfl⟩
    · rw [if_neg hv] at h
      exact absurd h (by simp)

/-- Each id comes once. -/
theorem nodup_ids_iterValid (cache : EmbeddingCache) : (cache.iterValid.map Prod.fst).Nodup := by
  have hsub : (cache.iterValid.map Prod.fst).Sublist (cache.validIds.zipIdx.map Prod.snd) := by
    unfold iterValid
    generalize cache.validIds.zipIdx = l
    induction l with
    | nil => simp
    | cons v l ih =>
      cases hv : v.1 with
      | false => simpa [hv] using ih.cons v.2
      | true => simpa [hv] using ih.cons_cons v.2
  refine hsub.nodup ?_
  rw [List.zipIdx_map_snd]
  exact List.nodup_range' ..

/-- So does each point. -/
theorem nodup_iterValid (cache : EmbeddingCache) : cache.iterValid.Nodup :=
  List.Nodup.of_map _ cache.nodup_ids_iterValid

end EmbeddingCache

/-! ## The index -/

/-- The index: its mapping, its cache and the points of the graph. -/
structure HnswIndex where
  /-- `config.dimension` -/
  dimension : ℕ
  mapping : IndexMapping
  cache : EmbeddingCache
  graph : List Point

namespace HnswIndex

/-- An empty index. -/
def new (dimension : ℕ) : HnswIndex where
  dimension := dimension
  mapping := {}
  cache := .new dimension
  graph := []

/-- The error of an embedding of another dimension. -/
def dimensionMismatch (what : String) (expected got : ℕ) : MemdError :=
  .validationError (s!"{what}: expected {expected}, got {got}. " ++
    "This usually means the embedding model changed. " ++
    "To fix: delete the data directory and restart, or use --rebuild-index flag.")

/-- The loop of `insert_batch` under the locks of the mapping and of the cache: an error
leaves what the earlier items have done. -/
def batchLoop (dimension : ℕ) : List (ChunkId × Embedding) → IndexMapping → EmbeddingCache →
    List Point → IndexMapping × EmbeddingCache × Except MemdError (List Point)
  | [], m, cache, toInsert => (m, cache, .ok toInsert)
  | (c, e) :: items, m, cache, toInsert =>
    if e.length ≠ dimension then
      (m, cache, .error (dimensionMismatch s!"Embedding dimension mismatch for {c}" dimension e.length))
    else
      match cache.insert (m.insert c).1 e with
      | .error err => ((m.insert c).2, cache, .error err)
      | .ok cache => batchLoop dimension items (m.insert c).2 cache (toInsert ++ [((m.insert c).1, e)])

/-- `HnswRebuilder::rebuild_clean`. -/
def rebuildClean (cache : EmbeddingCache) (deletedInternalIds : List ℕ) : List Point :=
  cache.iterValid.filter fun p => p.1 ∉ deletedInternalIds

/-- `HnswIndex::search` with the given search of the graph. -/
def search (ix : HnswIndex) (knn : List Point → Embedding → ℕ → List Point) (query : Embedding)
    (k : ℕ) : Except MemdError (List ChunkId) :=
  if query.length ≠ ix.dimension then
    .error (dimensionMismatch "Query embedding dimension mismatch" ix.dimension query.length)
  else .ok ((knn ix.graph query k).filterMap fun p => ix.mapping.getChunkId p.1)

/-- What is assumed of the search of the graph: it finds points of the graph, each at most
once. -/
def LawfulKnn (knn : List Point → Embedding → ℕ → List Point) : Prop :=
  ∀ graph query k, (knn graph query k).Subperm graph

end HnswIndex

/-! ## Calls in flight -/

/-- Where a call stands: what it has done and what it carries to its next lock. -/
inductive IndexCall
  /-- `insert` behind the lock of the mapping -/
  | insertMapped (c : ChunkId) (id : ℕ) (e : Embedding)
  /-- `insert` behind the lock of the cache -/
  | insertCached (c : ChunkId) (id : ℕ) (e : Embedding)
  /-- `insert_batch` behind the locks of the mapping and of the cache -/
  | batchCached (cs : List ChunkId) (toInsert : List Point)
  /-- a rebuild that has looked up the ids of the deleted chunks -/
  | rebuildCollected (cs : List ChunkId) (ids : List ℕ)
  /-- a rebuild that has built its graph from the cache -/
  | rebuildBuilt (cs : List ChunkId) (ids : List ℕ) (graph : List Point)
  /-- a rebuild that has swapped the graph -/
  | rebuildSwapped (cs : List ChunkId) (ids : List ℕ)

/-- What a caller may ask for. -/
inductive IndexRequest
  | insert (c : ChunkId) (e : Embedding)
  | insertBatch (items : List (ChunkId × Embedding))
  | rebuild (deletedChunkIds : List ChunkId)

/-- What the calls have answered: chunks inserted, mapped chunks excluded by a rebuild, or an
error. -/
inductive IndexEvent
  | inserted (cs : List ChunkId)
  | excluded (cs : List ChunkId)
  | failed (err : MemdError)

namespace HnswIndex

/-- What a step of a call leaves: the index, the rest of the call and its answer. -/
structure Stepped where
  index : HnswIndex
  call : Option IndexCall := none
  answer : List IndexEvent := []

/-- The first locked step of a call. -/
def start (ix : HnswIndex) : IndexRequest → Stepped
  -- the check comes first, and a failed one changes nothing
  | .insert c e =>
    if e.length ≠ ix.dimension then
      { index := ix
        answer := [.failed (dimensionMismatch "Embedding dimension mismatch" ix.dimension e.length)] }
    else
      { index := { ix with mapping := (ix.mapping.insert c).2 }
        call := some (.insertMapped c (ix.mapping.insert c).1 e) }
  -- mapping and cache change before the graph does, also where an item fails half way
  | .insertBatch items =>
    match batchLoop ix.dimension items ix.mapping ix.cache [] with
    | (m, cache, .error err) =>
      { index := { ix with mapping := m, cache := cache }
        answer := [.failed err] }
    | (m, cache, .ok toInsert) =>
      { index := { ix with mapping := m, cache := cache }
        call := some (.batchCached (items.map Prod.fst) toInsert) }
  -- a rebuild collects the ids first and builds without the lock
  | .rebuild deletedChunkIds =>
    { index := ix
      call := some (.rebuildCollected
        (deletedChunkIds.filter fun c => (ix.mapping.getInternalId c).isSome)
        (deletedChunkIds.filterMap ix.mapping.getInternalId)) }

/-- The next locked step of a call. -/
def advance (ix : HnswIndex) : IndexCall → Stepped
  | .insertMapped c id e =>
    match ix.cache.insert id e with
    | .error err => { index := ix, answer := [.failed err] }
    | .ok cache => { index := { ix with cache := cache }, call := some (.insertCached c id e) }
  | .insertCached c id e =>
    { index := { ix with graph := ix.graph ++ [(id, e)] }, answer := [.inserted [c]] }
  | .batchCached cs toInsert =>
    { index := { ix with graph := ix.graph ++ toInsert }, answer := [.inserted cs] }
  | .rebuildCollected cs ids =>
    { index := ix, call := some (.rebuildBuilt cs ids (rebuildClean ix.cache ids)) }
  | .rebuildBuilt cs ids graph =>
    { index := { ix with graph := graph }, call := some (.rebuildSwapped cs ids) }
  | .rebuildSwapped cs ids =>
    { index := { ix with cache := ix.cache.markAllInvalid ids }, answer := [.excluded cs] }

end HnswIndex

/-- The index, the calls in flight and the answers so far. -/
structure DenseSystem where
  index : HnswIndex
  calls : List IndexCall := []
  log : List IndexEvent := []

/-- A call that starts, or the next step of one in flight. -/
inductive DenseStep
  | start (req : IndexRequest)
  | next (k : ℕ)

namespace DenseSystem

/-- A call starts, or the `k`-th call in flight takes its next step. -/
def step (s : DenseSystem) : DenseStep → DenseSystem
  | .start req =>
    let r := s.index.start req
    ⟨r.index, s.calls ++ r.call.toList, s.log ++ r.answer⟩
  | .next k =>
    match s.calls[k]? with
    | none => s
    | some call =>
      let r := s.index.advance call
      match r.call with
      | none => ⟨r.index, s.calls.eraseIdx k, s.log ++ r.answer⟩
      | some call' => ⟨r.index, s.calls.set k call', s.log ++ r.answer⟩

/-- A run from an empty index. -/
def run (dimension : ℕ) (steps : List DenseStep) : DenseSystem :=
  steps.foldl step ⟨.new dimension, [], []⟩

end DenseSystem
