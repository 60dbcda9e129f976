/-
# Indexing a chunk twice over

`store/hybrid.rs`, `index/bm25.rs` and `store/persistent/indexing.rs`: a chunk goes into the
graph of its tenant (`DenseIndex`) and, sentence by sentence, into the sparse index that all
tenants share.

* `HybridSearcher.indexBatch`, `HybridSearcher.deleteChunk` — the two calls on both sides;
* `IndexedStore.runHnswBackfill` — the repair pass: what has no valid embedding, or
  everything where the sparse side is empty, in batches of 64;
* `IndexedStore.runAsyncIndexJob`, `IndexedStore.sweepPendingIndexJobs` — the jobs of the
  asynchronous indexer, which stop at the first batch that fails.

The embedder, the writer of the sparse index and the sentence splitter are parameters
(`Backend`, `HybridConfig.processChunk`).  The version that the calls bump belongs to the
semantic cache and is left out here.
-/
import Mathlib.Data.List.Dedup
import Memd.DenseIndex
import Memd.ChunkStatements

/-! ## The index of a tenant -/

/-- The index as it is loaded: every point of the graph and every embedding of the cache
belongs to a mapped chunk. -/
structure LoadedIndex extends HnswIndex where
  bijective : mapping.Bijective
  mapped : ∀ p ∈ graph, p.1 < mapping.nextId
  cached : ∀ id, (cache.get id).isSome = true → id < mapping.nextId
  cache_dimension : cache.dimension = dimension

namespace HnswIndex

/-- `HnswIndex::insert_batch` with nobody else around. -/
def insertBatch (ix : HnswIndex) (items : List (ChunkId × Embedding)) :
    HnswIndex × Except MemdError Unit :=
  match batchLoop ix.dimension items ix.mapping ix.cache [] with
  | (m, cache, .error err) => ({ ix with mapping := m, cache := cache }, .error err)
  | (m, cache, .ok toInsert) =>
    ({ ix with mapping := m, cache := cache, graph := ix.graph ++ toInsert }, .ok ())

/-- The chunk has a valid embedding. -/
def hasEmbedding (ix : HnswIndex) (c : ChunkId) : Bool :=
  ((ix.mapping.getInternalId c).bind ix.cache.get).isSome

/-! ### What a batch does -/

/-- What the loop leaves after an error as well: a mapping that extends the old one, for no
other chunk than those of the batch. -/
structure Extends (m m' : IndexMapping) (cs : List ChunkId) : Prop where
  bijective : m.Bijective → m'.Bijective
  mono : ∀ c id, m.chunkToId c = some id → m'.chunkToId c = some id
  others : ∀ c, c ∉ cs → m'.chunkToId c = m.chunkToId c
  nextId_le : m.nextId ≤ m'.nextId

/-- A mapping extends itself. -/
theorem Extends.refl (m : IndexMapping) (cs : List ChunkId) : Extends m m cs :=
  ⟨id, fun _ _ h => h, fun _ _ => rfl, Nat.le_refl _⟩

/-- Extensions compose. -/
theorem Extends.cons {m m' : IndexMapping} {c : ChunkId} {cs : List ChunkId}
    (h : Extends (m.insert c).2 m' cs) : Extends m m' (c :: cs) where
  bijective hb := h.bijective (hb.insert c)
  mono c' id hc' := h.mono c' id (m.insert_mono c hc')
  others c' hc' := by
    rw [List.mem_cons, not_or] at hc'
    rw [h.others c' hc'.2, m.insert_of_ne hc'.1]
  nextId_le := Nat.le_trans (m.nextId_le_insert c) h.nextId_le

/-- The ids that were handed out keep their chunk. -/
theorem Extends.idToChunk {m m' : IndexMapping} {cs : List ChunkId} (h : Extends m m' cs)
    (hb : m.Bijective) {id : ℕ} (hid : id < m.nextId) : m'.idToChunk id = m.idToChunk id := by
  obtain ⟨c, hc⟩ := Option.isSome_iff_exists.mp ((hb.range id).mpr hid)
  rw [hc]
  exact ((h.bijective hb).inverse c id).mp (h.mono c id ((hb.inverse c id).mpr hc))

/-- Giving a chunk an id extends the mapping. -/
theorem Extends.insert (m : IndexMapping) (c : ChunkId) (cs : List ChunkId) :
    Extends m (m.insert c).2 (c :: cs) :=
  (Extends.refl (m.insert c).2 cs).cons

/-- The loop over a batch extends the mapping by its chunks. -/
theorem extends_batchLoop (d : ℕ) (items : List (ChunkId × Embedding)) (m : IndexMapping)
    (cache : EmbeddingCache) (acc : List Point) :
    Extends m (batchLoop d items m cache acc).1 (items.map Prod.fst) := by
  induction items generalizing m cache acc with
  | nil => exact .refl m []
  | cons item items ih =>
    obtain ⟨c, e⟩ := item
    rw [batchLoop]
    split
    · exact .refl m _
    · split
      · exact .insert m c _
      · exact (ih _ _ _).cons

/-- The loop over a batch leaves the dimension alone. -/
theorem cache_dimension_batchLoop (d : ℕ) (items : List (ChunkId × Embedding)) (m : IndexMapping)
    (cache : EmbeddingCache) (acc : List Point) :
    (batchLoop d items m cache acc).2.1.dimension = cache.dimension := by
  induction items generalizing m cache acc with
  | nil => rfl
  | cons item items ih =>
    obtain ⟨c, e⟩ := item
    rw [batchLoop]
    split
    · rfl
    · rw [EmbeddingCache.insert]
      by_cases he : e.length = cache.dimension
      · rw [dif_pos he]
        exact ih _ _ _
      · rw [dif_neg he]

/-- The point of an item under the id of its chunk. -/
def pointOf (m : IndexMapping) (item : ChunkId × Embedding) : Point :=
  ((m.chunkToId item.1).getD 0, item.2)

/-- A loop that completes has mapped every chunk and has a point for each item. -/
theorem batchLoop_points {d : ℕ} {items : List (ChunkId × Embedding)} {m m' : IndexMapping}
    {cache cache' : EmbeddingCache} {acc points : List Point}
    (h : batchLoop d items m cache acc = (m', cache', .ok points)) :
    points = acc ++ items.map (pointOf m') ∧
      ∀ item ∈ items, (m'.chunkToId item.1).isSome = true := by
  induction items generalizing m cache acc with
  | nil =>
    rw [batchLoop, Prod.mk.injEq, Prod.mk.injEq] at h
    exact ⟨by rw [List.map_nil, List.append_nil, Except.ok.inj h.2.2], by simp⟩
  | cons item items ih =>
    obtain ⟨c, e⟩ := item
    rw [batchLoop] at h
    split at h
    · simp at h
    · split at h
      · simp at h
      · rename_i cache₁ _
        have hext := extends_batchLoop d items (m.insert c).2 cache₁ (acc ++ [((m.insert c).1, e)])
        rw [h] at hext
        have hc : m'.chunkToId c = some (m.insert c).1 := hext.mono c _ (m.insert_self c)
        obtain ⟨rfl, hmapped⟩ := ih h
        constructor
        · rw [List.map_cons, pointOf, hc, List.append_assoc]
          rfl
        · intro item hitem
          rcases List.mem_cons.mp hitem with rfl | hitem
          · rw [hc]
            rfl
          · exact hmapped item hitem

/-- The embeddings behind the loop are the old ones and those of chunks of the batch; behind
a loop that completes, all of them. -/
theorem batchLoop_cached (d : ℕ) (items : List (ChunkId × Embedding)) (m : IndexMapping)
    (cache : EmbeddingCache) (acc : List Point) (id : ℕ) :
    ((batchLoop d items m cache acc).2.1.get id).isSome = true →
      (cache.get id).isSome = true ∨
        ∃ item ∈ items, (batchLoop d items m cache acc).1.chunkToId item.1 = some id := by
  induction items generalizing m cache acc with
  | nil => exact .inl
  | cons item items ih =>
    obtain ⟨c, e⟩ := item
    rw [batchLoop]
    split
    · exact .inl
    · rw [EmbeddingCache.insert]
      by_cases he : e.length = cache.dimension
      · rw [dif_pos he]
        intro hget
        have hext := extends_batchLoop d items (m.insert c).2 (cache.write (m.insert c).1 e he)
          (acc ++ [((m.insert c).1, e)])
        rcases ih _ _ _ hget with hold | ⟨item, hitem, hid⟩
        · rw [EmbeddingCache.get_write] at hold
          by_cases heq : id = (m.insert c).1
          · refine .inr ⟨(c, e), List.mem_cons_self, ?_⟩
            rw [heq]
            exact hext.mono c _ (m.insert_self c)
          · rw [if_neg heq] at hold
            exact .inl hold
        · exact .inr ⟨item, List.mem_cons_of_mem _ hitem, hid⟩
      · rw [dif_neg he]
        exact .inl

end HnswIndex

open HnswIndex

namespace LoadedIndex

/-- An empty index. -/
def new (dimension : ℕ) : LoadedIndex where
  toHnswIndex := HnswIndex.new dimension
  bijective := IndexMapping.bijective_new
  mapped := by simp [HnswIndex.new]
  cached := by simp [HnswIndex.new, EmbeddingCache.new, EmbeddingCache.get]
  cache_dimension := rfl

section Invariant

variable (ix : LoadedIndex) (items : List (ChunkId × Embedding))

/-- Inserting a batch extends the mapping by its chunks. -/
theorem extends_insertBatch :
    Extends ix.mapping (ix.toHnswIndex.insertBatch items).1.mapping (items.map Prod.fst) := by
  have hext := extends_batchLoop ix.dimension items ix.mapping ix.cache []
  unfold HnswIndex.insertBatch
  split <;> rename_i heq <;> rw [heq] at hext <;> exact hext

/-- Inserting a batch keeps the mapping bijective. -/
theorem bijective_insertBatch : (ix.toHnswIndex.insertBatch items).1.mapping.Bijective :=
  (ix.extends_insertBatch items).bijective ix.bijective

/-- The points of the graph have ids of the mapping. -/
theorem mapped_insertBatch : ∀ p ∈ (ix.toHnswIndex.insertBatch items).1.graph,
    p.1 < (ix.toHnswIndex.insertBatch items).1.mapping.nextId := by
  have hext := ix.extends_insertBatch items
  have hbij := ix.bijective_insertBatch items
  have hold : ∀ p ∈ ix.graph, p.1 < (ix.toHnswIndex.insertBatch items).1.mapping.nextId :=
    fun p hp => Nat.lt_of_lt_of_le (ix.mapped p hp) hext.nextId_le
  unfold HnswIndex.insertBatch at hbij hold ⊢
  cases hloop : batchLoop ix.dimension items ix.mapping ix.cache [] with
  | mk m r =>
    obtain ⟨cache, outcome⟩ := r
    rw [hloop] at hbij hold
    cases outcome with
    | error err => exact hold
    | ok toInsert =>
      obtain ⟨rfl, hmapped⟩ := batchLoop_points hloop
      intro p hp
      rcases List.mem_append.mp hp with hp | hp
      · exact hold p hp
      · obtain ⟨item, hitem, rfl⟩ := List.mem_map.mp hp
        obtain ⟨id, hid⟩ := Option.isSome_iff_exists.mp (hmapped item hitem)
        rw [pointOf, hid]
        exact hbij.lt hid

/-- The embeddings behind a batch are the old ones and those of chunks of the batch. -/
theorem cached_of_insertBatch (id : ℕ)
    (h : ((ix.toHnswIndex.insertBatch items).1.cache.get id).isSome = true) :
    (ix.cache.get id).isSome = true ∨ ∃ item ∈ items,
      (ix.toHnswIndex.insertBatch items).1.mapping.chunkToId item.1 = some id := by
  have hcached := batchLoop_cached ix.dimension items ix.mapping ix.cache [] id
  unfold HnswIndex.insertBatch at h ⊢
  split at h <;> rename_i heq <;> rw [heq] at hcached <;> exact hcached h

/-- The cached embeddings have ids of the mapping. -/
theorem cached_insertBatch (id : ℕ)
    (h : ((ix.toHnswIndex.insertBatch items).1.cache.get id).isSome = true) :
    id < (ix.toHnswIndex.insertBatch items).1.mapping.nextId := by
  rcases ix.cached_of_insertBatch items id h with hold | ⟨item, _, hid⟩
  · exact Nat.lt_of_lt_of_le (ix.cached id hold) (ix.extends_insertBatch items).nextId_le
  · exact (ix.bijective_insertBatch items).lt hid

/-- Inserting a batch leaves the dimension alone. -/
theorem cache_dimension_insertBatch : (ix.toHnswIndex.insertBatch items).1.cache.dimension =
    (ix.toHnswIndex.insertBatch items).1.dimension := by
  have hdim := cache_dimension_batchLoop ix.dimension items ix.mapping ix.cache []
  unfold HnswIndex.insertBatch
  split <;> rename_i heq <;> rw [heq] at hdim <;> exact hdim.trans ix.cache_dimension

end Invariant

/-- `insert_batch` on a loaded index. -/
def insertBatch (ix : LoadedIndex) (items : List (ChunkId × Embedding)) :
    LoadedIndex × Except MemdError Unit :=
  ({ toHnswIndex := (ix.toHnswIndex.insertBatch items).1
     bijective := ix.bijective_insertBatch items
     mapped := ix.mapped_insertBatch items
     cached := ix.cached_insertBatch items
     cache_dimension := ix.cache_dimension_insertBatch items },
   (ix.toHnswIndex.insertBatch items).2)

/-- The points of a chunk. -/
def points (ix : LoadedIndex) (c : ChunkId) : List Point :=
  ix.graph.filter fun p => ix.mapping.getChunkId p.1 = some c

/-- The points of a chunk that the mapping knew already. -/
theorem filter_graph_of_extends (ix : LoadedIndex) {m : IndexMapping} {cs : List ChunkId}
    (h : Extends ix.mapping m cs) (c : ChunkId) :
    (ix.graph.filter fun p => m.getChunkId p.1 = some c) = ix.points c := by
  apply List.filter_congr
  intro p hp
  rw [IndexMapping.getChunkId, h.idToChunk ix.bijective (ix.mapped p hp)]
  rfl

/-- A batch that fails leaves the graph. -/
theorem points_insertBatch_error (ix : LoadedIndex) (items : List (ChunkId × Embedding))
    {err : MemdError} (herr : (ix.insertBatch items).2 = .error err) (c : ChunkId) :
    (ix.insertBatch items).1.points c = ix.points c := by
  have hext := extends_batchLoop ix.dimension items ix.mapping ix.cache []
  change (ix.toHnswIndex.insertBatch items).2 = .error err at herr
  show ((ix.toHnswIndex.insertBatch items).1.graph.filter fun p =>
    (ix.toHnswIndex.insertBatch items).1.mapping.getChunkId p.1 = some c) = ix.points c
  unfold HnswIndex.insertBatch at herr ⊢
  cases hloop : batchLoop ix.dimension items ix.mapping ix.cache [] with
  | mk m r =>
    obtain ⟨cache, outcome⟩ := r
    rw [hloop] at hext herr
    cases outcome with
    | error err => exact ix.filter_graph_of_extends hext c
    | ok toInsert => simp at herr

/-- A batch that succeeds gives each chunk one more point for each of its items. -/
theorem points_insertBatch (ix : LoadedIndex) (items : List (ChunkId × Embedding))
    (hok : (ix.insertBatch items).2 = .ok ()) (c : ChunkId) :
    ∃ pts : List Point, (ix.insertBatch items).1.points c = ix.points c ++ pts ∧
      pts.length = (items.map Prod.fst).count c := by
  have hext := extends_batchLoop ix.dimension items ix.mapping ix.cache []
  change (ix.toHnswIndex.insertBatch items).2 = .ok () at hok
  show ∃ pts, ((ix.toHnswIndex.insertBatch items).1.graph.filter fun p =>
    (ix.toHnswIndex.insertBatch items).1.mapping.getChunkId p.1 = some c) = _ ∧ _
  unfold HnswIndex.insertBatch at hok ⊢
  cases hloop : batchLoop ix.dimension items ix.mapping ix.cache [] with
  | mk m r =>
    obtain ⟨cache, outcome⟩ := r
    rw [hloop] at hext hok
    cases outcome with
    | error err => simp at hok
    | ok toInsert =>
      have hbij := hext.bijective ix.bijective
      obtain ⟨rfl, hmapped⟩ := batchLoop_points hloop
      refine ⟨(items.map (pointOf m)).filter fun p => m.getChunkId p.1 = some c, ?_, ?_⟩
      · dsimp only
        rw [List.nil_append, List.filter_append, ix.filter_graph_of_extends hext c]
      rw [List.filter_map, List.length_map, List.count_eq_length_filter, List.filter_map,
        List.length_map]
      congr 1
      apply List.filter_congr
      intro item hitem
      obtain ⟨id, hid⟩ := Option.isSome_iff_exists.mp (hmapped item hitem)
      have hback : m.idToChunk id = some item.1 := (hbij.inverse item.1 id).mp hid
      simp only [Function.comp_apply, pointOf, hid, IndexMapping.getChunkId, Option.getD_some, hback,
        Option.some.injEq, beq_eq_decide]

end LoadedIndex

/-! ## Both sides -/

/-- A document of the sparse index: one sentence of a chunk. -/
structure SparseDoc where
  tenantId : TenantId
  chunkId : ChunkId
  sentenceIdx : ℕ
  text : String
  deriving DecidableEq, Repr

/-- What a call finds behind it: the embedder, which gives one vector for each text or
fails, and the writer of the sparse index, which may fail behind a number of documents. -/
structure Backend where
  embedTexts : List String → Except MemdError (List Embedding)
  addDocument : List SparseDoc → Option (ℕ × MemdError)
  embedTexts_length : ∀ texts es, embedTexts texts = .ok es → es.length = texts.length

/-- What the hybrid index reads of its configuration. -/
structure HybridConfig where
  denseK : ℕ := 100
  enableSparse : Bool := true
  /-- The sentences of `TextProcessor::process_chunk`. -/
  processChunk : String → List String

/-- The sparse index of all tenants, if it is configured, and the index of each tenant. -/
structure HybridSearcher where
  config : HybridConfig
  sparse : Option (List SparseDoc)
  dense : TenantId → LoadedIndex

namespace HybridSearcher

/-- `DenseSearcher::index_batch`. -/
def denseIndexBatch (b : Backend) (ix : LoadedIndex) (rows : List (ChunkId × String)) :
    LoadedIndex × Except MemdError Unit :=
  match b.embedTexts (rows.map Prod.snd) with
  | .error err => (ix, .error err)
  | .ok es => ix.insertBatch ((rows.map Prod.fst).zip es)

/-- The sentences that go into the sparse index, for the chunks that have any. -/
def sparseItems (cfg : HybridConfig) (t : TenantId) (rows : List (ChunkId × String)) :
    List (TenantId × ChunkId × List String) :=
  rows.filterMap fun r =>
    if (cfg.processChunk r.2).isEmpty then none else some (t, r.1, cfg.processChunk r.2)

/-- The sparse documents of an item, one for each sentence. -/
def itemDocs (item : TenantId × ChunkId × List String) : List SparseDoc :=
  item.2.2.zipIdx.map fun s => ⟨item.1, item.2.1, s.2, s.1⟩

/-- `Bm25Index::insert_batch`: documents are added, none is looked for. -/
def sparseInsertBatch (b : Backend) (docs : List SparseDoc)
    (items : List (TenantId × ChunkId × List String)) : List SparseDoc × Except MemdError Unit :=
  if items.isEmpty then (docs, .ok ())
  else
    match b.addDocument (items.flatMap itemDocs) with
    | none => (docs ++ items.flatMap itemDocs, .ok ())
    | some (n, err) => (docs ++ (items.flatMap itemDocs).take n, .error err)

/-- The dense side of `HybridSearcher::index_batch`. -/
def indexDense (b : Backend) (s : HybridSearcher) (t : TenantId) (rows : List (ChunkId × String)) :
    HybridSearcher × Except MemdError Unit :=
  if 0 < s.config.denseK then
    ({ s with dense := Function.update s.dense t (denseIndexBatch b (s.dense t) rows).1 },
     (denseIndexBatch b (s.dense t) rows).2)
  else (s, .ok ())

/-- The sparse side of `HybridSearcher::index_batch`. -/
def indexSparse (b : Backend) (s : HybridSearcher) (t : TenantId) (rows : List (ChunkId × String)) :
    HybridSearcher × Except MemdError Unit :=
  match s.config.enableSparse, s.sparse with
  | true, some docs =>
    ({ s with sparse := some (sparseInsertBatch b docs (sparseItems s.config t rows)).1 },
     (sparseInsertBatch b docs (sparseItems s.config t rows)).2)
  | _, _ => (s, .ok ())

/-- `HybridSearcher::index_batch`: the graph first, then the sparse index. -/
def indexBatch (b : Backend) (s : HybridSearcher) (t : TenantId) (rows : List (ChunkId × String)) :
    HybridSearcher × Except MemdError Unit :=
  if rows.isEmpty then (s, .ok ())
  else
    match s.indexDense b t rows with
    | (s, .error err) => (s, .error err)
    | (s, .ok ()) => s.indexSparse b t rows

/-- `HybridSearcher::delete_chunk`: the graph keeps its point. -/
def deleteChunk (s : HybridSearcher) (t : TenantId) (c : ChunkId) : HybridSearcher :=
  match s.config.enableSparse, s.sparse with
  | true, some docs =>
    { s with sparse := some (docs.filter fun d => !(d.tenantId == t && d.chunkId == c)) }
  | _, _ => s

/-- The documents of a chunk. -/
def docs (s : HybridSearcher) (t : TenantId) (c : ChunkId) : List SparseDoc :=
  (s.sparse.getD []).filter fun d => d.tenantId == t && d.chunkId == c

/-- The points of a chunk. -/
def points (s : HybridSearcher) (t : TenantId) (c : ChunkId) : List Point :=
  (s.dense t).points c

/-- Indexing reaches the sparse index. -/
def sparseOn (s : HybridSearcher) : Bool :=
  s.config.enableSparse && s.sparse.isSome

end HybridSearcher

/-! ## Repair passes and jobs -/

namespace Db

/-- `list_pending_index_chunk_ids`: oldest first. -/
def listPendingIndexChunkIds (db : Db) (t : TenantId) (limit : ℕ) : List ChunkId :=
  (((db.chunks.filter fun r => r.tenantId == t
      && !(r.status == .candidate || r.status == .deleted || r.status == .error)
      && r.indexState == .pending).mergeSort
      fun a b => decide (a.timestampCreated ≤ b.timestampCreated)).take limit).map (·.chunkId)

/-- `mark_index_failed_many`. -/
def markIndexFailedMany (db : Db) (t : TenantId) (ids : List ChunkId) (error : String) (now : ℤ) :
    Db :=
  ids.foldl (fun db c => db.markIndexFailed t c error now) db

end Db

/-- The rows, the payloads behind them, and the searcher.  `indexed` keeps the chunks whose
last index call succeeded, with the text that was indexed. -/
structure IndexedStore where
  db : Db
  /-- The text of a payload by tenant, chunk, segment and ordinal. -/
  readPayload : TenantId → ChunkId → ℕ → ℕ → Except MemdError (Option String)
  searcher : HybridSearcher
  indexed : List (TenantId × ChunkId × String) := []

/-- `BackfillStats`. -/
structure BackfillStats where
  tenantsBackfilled : ℕ := 0
  chunksIndexed : ℕ := 0
  chunksSkipped : ℕ := 0
  deriving DecidableEq, Repr

/-- The batches of the repair pass. -/
def backfillBatchSize : ℕ := 64

namespace IndexedStore

/-- The chunks of a tenant are forgotten. -/
def forget (indexed : List (TenantId × ChunkId × String)) (t : TenantId) (ids : List ChunkId) :
    List (TenantId × ChunkId × String) :=
  indexed.filter fun e => !(e.1 == t && e.2.1 ∈ ids)

/-- `HybridSearcher::index_batch` on the store's searcher. -/
def indexBatch (b : Backend) (s : IndexedStore) (t : TenantId) (rows : List (ChunkId × String)) :
    IndexedStore × Except MemdError Unit :=
  let r := s.searcher.indexBatch b t rows
  let rest := forget s.indexed t (rows.map Prod.fst)
  match r.2 with
  | .ok () => ({ s with searcher := r.1, indexed := rest ++ rows.map fun row => (t, row) }, .ok ())
  | .error err => ({ s with searcher := r.1, indexed := rest }, .error err)

/-- `HybridSearcher::delete_chunk` on the store's searcher. -/
def deleteChunk (s : IndexedStore) (t : TenantId) (c : ChunkId) : IndexedStore :=
  { s with searcher := s.searcher.deleteChunk t c, indexed := forget s.indexed t [c] }

/-- `load_chunk_text_for_index`. -/
def loadChunkTextForIndex (s : IndexedStore) (t : TenantId) (c : ChunkId) :
    Except MemdError (Option String) :=
  match s.db.get t c with
  | none => .ok none
  | some m =>
    if m.status = .candidate ∨ m.status = .deleted ∨ m.status = .error then .ok none
    else s.readPayload t m.chunkId m.segmentId m.ordinal

/-- The rows that could be loaded. -/
def loadRows (s : IndexedStore) (t : TenantId) (ids : List ChunkId) : List (ChunkId × String) :=
  ids.filterMap fun c =>
    match s.loadChunkTextForIndex t c with
    | .ok (some text) => some (c, text)
    | _ => none

/-- `sparse_cold`: the sparse index is there and holds nothing of the tenant. -/
def sparseCold (s : IndexedStore) (t : TenantId) : Bool :=
  match s.searcher.sparse with
  | none => false
  | some docs => docs.all fun d => d.tenantId != t

/-- What the repair pass takes for missing.  `usize::MAX as i64` is no limit. -/
def missing (s : IndexedStore) (t : TenantId) : List ChunkId :=
  let ids := (s.db.list t s.db.chunks.length 0).map (·.chunkId)
  if s.sparseCold t then ids else ids.filter fun c => !(s.searcher.dense t).hasEmbedding c

/-- One batch of the repair pass; a failure does not end it. -/
def backfillBatch (b : Backend) (t : TenantId) (acc : IndexedStore × BackfillStats)
    (batch : List ChunkId) : IndexedStore × BackfillStats :=
  let rows := acc.1.loadRows t batch
  let stats := { acc.2 with chunksSkipped := acc.2.chunksSkipped + (batch.length - rows.length) }
  if rows.isEmpty then (acc.1, stats)
  else
    match acc.1.indexBatch b t rows with
    | (s, .ok ()) => (s, { stats with chunksIndexed := stats.chunksIndexed + rows.length })
    | (s, .error _) => (s, { stats with chunksSkipped := stats.chunksSkipped + rows.length })

/-- `run_hnsw_backfill` for one tenant, from the given batch on. -/
def backfillLoop (bs : ℕ → Backend) (t : TenantId) :
    ℕ → List (List ChunkId) → IndexedStore × BackfillStats → IndexedStore × BackfillStats
  | _, [], acc => acc
  | n, batch :: batches, acc => backfillLoop bs t (n + 1) batches (backfillBatch (bs n) t acc batch)

/-- `run_hnsw_backfill` for one tenant. -/
def backfillTenant (bs : ℕ → Backend) (acc : IndexedStore × BackfillStats) (t : TenantId) :
    IndexedStore × BackfillStats :=
  let r := backfillLoop bs t 0 ((acc.1.missing t).toChunks backfillBatchSize) acc
  if acc.2.chunksIndexed < r.2.chunksIndexed then
    (r.1, { r.2 with tenantsBackfilled := r.2.tenantsBackfilled + 1 })
  else r

/-- `run_hnsw_backfill` over the loaded tenants. -/
def runHnswBackfill (bs : TenantId → ℕ → Backend) (s : IndexedStore) (tenants : List TenantId) :
    IndexedStore × BackfillStats :=
  tenants.foldl (fun acc t => backfillTenant (bs t) acc t) (s, {})

/-- The batches of a job, up to the first that fails. -/
def jobLoop (bs : ℕ → Backend) (t : TenantId) :
    ℕ → List (List (ChunkId × String)) → IndexedStore → IndexedStore × Option MemdError
  | _, [], s => (s, none)
  | n, batch :: batches, s =>
    match s.indexBatch (bs n) t batch with
    | (s, .ok ()) => jobLoop bs t (n + 1) batches s
    | (s, .error err) => (s, some err)

/-- `run_async_index_job`. -/
def runAsyncIndexJob (bs : ℕ → Backend) (s : IndexedStore) (t : TenantId) (batchSize : ℕ)
    (chunkIds : List ChunkId) (rows : List (ChunkId × String)) (now : ℤ) : IndexedStore :=
  match jobLoop bs t 0 (rows.toChunks (max batchSize 1)) s with
  | (s, some err) => { s with db := s.db.markIndexFailedMany t chunkIds err.display now }
  | (s, none) => { s with db := s.db.markIndexed t chunkIds now }

/-- One pending row of a sweep: its text, or a failure that is recorded. -/
def sweepLoad (t : TenantId) (now : ℤ) (acc : IndexedStore × List (ChunkId × String))
    (c : ChunkId) : IndexedStore × List (ChunkId × String) :=
  let failed (msg : String) : IndexedStore :=
    { acc.1 with db := acc.1.db.markIndexFailedMany t [c] msg now }
  match acc.1.loadChunkTextForIndex t c with
  | .ok (some text) => (acc.1, acc.2 ++ [(c, text)])
  | .ok none => (failed "pending chunk not found during index sweep", acc.2)
  | .error err => (failed err.display, acc.2)

/-- `sweep_pending_index_jobs` for one tenant. -/
def sweepPendingIndexJobs (bs : ℕ → Backend) (s : IndexedStore) (t : TenantId) (batchSize : ℕ)
    (now : ℤ) : IndexedStore :=
  let loaded := (s.db.listPendingIndexChunkIds t batchSize).foldl (sweepLoad t now) (s, [])
  if loaded.2.isEmpty then loaded.1
  else runAsyncIndexJob bs loaded.1 t batchSize (loaded.2.map Prod.fst) loaded.2 now

end IndexedStore
