/-
# The semantic cache of the tiered search

`tiered/semantic_cache.rs` and the search of `tiered/tiered_searcher.rs`: all tenants share a
record store by key and an index of the cached queries.  A search reads the version of its
tenant, looks for the most similar cached query of its tenant and project, and takes the
record behind it when its version is not older; else it searches the tiers and caches what it
found under the version it read at its start.  A write bumps the version when it is done.

`TieredSystem` runs any number of searches and writes, one atomic step at a time; the cache
may drop records whenever it likes.  It keeps what was computed when, so that
`no_stale_hit` can say which computation a hit comes from.

* `keyBytes` — what is hashed to a key, injective in tenant and project;
* `Fresh` — the invariant: a record belongs to a computation that is behind all writes its
  version covers;
* `no_stale_hit` — every hit, in every run.

What the tiers find and how it is merged is left open, and so are times and confidences.  The
similarity of two queries and SHA-256 are parameters; a version counts writes of one process
and is a number here.
-/
import Mathlib.Logic.Function.Basic
import Mathlib.Data.List.Induction
import Memd.WalFormat
import Memd.DenseIndex

open ByteCodec

/-! ## Keys -/

/-- A tenant and a project, as strings of the language: their lengths are `usize`s. -/
structure CacheScope where
  tenantId : TenantId
  projectId : Option String
  tenant_size : (utf8Bytes tenantId).length < 2 ^ 64
  project_size : ∀ p ∈ projectId, (utf8Bytes p).length < 2 ^ 64
  deriving DecidableEq

/-- A string behind its length. -/
def sizedBytes (s : String) : List UInt8 :=
  leBytes 8 (utf8Bytes s).length ++ utf8Bytes s

/-- The bytes of an optional project: absent, or present and sized. -/
def projectBytes : Option String → List UInt8
  | none => [0]
  | some p => 1 :: sizedBytes p

/-- The bytes `embedding_hash` feeds to the hasher. -/
def keyBytes (scope : CacheScope) (embedding : Embedding) : List UInt8 :=
  sizedBytes scope.tenantId ++ (projectBytes scope.projectId
    ++ embedding.flatMap fun x => leBytes 4 x.toNat)

/-- Different texts have different bytes. -/
theorem utf8Bytes_injective : Function.Injective utf8Bytes := by
  intro s s' h
  have hs := ofUtf8Bytes_utf8Bytes s
  rw [h, ofUtf8Bytes_utf8Bytes] at hs
  exact (Option.some.inj hs).symm

/-- A text behind its length can be read off the bytes. -/
theorem sizedBytes_append_inj {s s' : String} {y y' : List UInt8}
    (hs : (utf8Bytes s).length < 2 ^ 64) (hs' : (utf8Bytes s').length < 2 ^ 64)
    (h : sizedBytes s ++ y = sizedBytes s' ++ y') : s = s' ∧ y = y' := by
  rw [sizedBytes, sizedBytes, List.append_assoc, List.append_assoc] at h
  have hread := readLe_append (k := 8) (by omega : (utf8Bytes s).length < 256 ^ 8)
    (utf8Bytes s ++ y)
  rw [h, readLe_append (by omega)] at hread
  obtain ⟨hlen, hrest⟩ := Prod.mk.inj (Option.some.inj hread)
  obtain ⟨hbytes, hy⟩ := List.append_inj hrest hlen
  exact ⟨utf8Bytes_injective hbytes.symm, hy.symm⟩

/-- **Keys tell scopes apart**: equal bytes are of the same tenant and project. -/
theorem keyBytes_scope {a b : CacheScope} {e e' : Embedding} (h : keyBytes a e = keyBytes b e') :
    a = b := by
  obtain ⟨htenant, hrest⟩ := sizedBytes_append_inj a.tenant_size b.tenant_size h
  have hproject : a.projectId = b.projectId := by
    cases ha : a.projectId with
    | none =>
      cases hb : b.projectId with
      | none => rfl
      | some q =>
        rw [ha, hb] at hrest
        exact absurd (List.cons.inj hrest).1 (by decide)
    | some p =>
      cases hb : b.projectId with
      | none =>
        rw [ha, hb] at hrest
        exact absurd (List.cons.inj hrest).1 (by decide)
      | some q =>
        rw [ha, hb] at hrest
        obtain ⟨rfl, _⟩ := sizedBytes_append_inj (a.project_size p ha) (b.project_size q hb)
          (List.cons.inj hrest).2
        rfl
  cases a
  cases b
  subst htenant hproject
  rfl

/-! ## The cache -/

/-- The hash of a key and the ranker, which come from outside. -/
structure CacheExternals where
  /-- SHA-256 -/
  sha256 : List UInt8 → List UInt8
  /-- cosine similarity -/
  similarity : Embedding → Embedding → F32
  /-- the similarity reaches `similarity_threshold` -/
  similar : F32 → Bool
  /-- `>` on similarities -/
  closer : F32 → F32 → Bool

/-- A result as it is cached. -/
structure CachedResult where
  chunkId : ChunkId
  score : F32
  deriving DecidableEq, Repr

/-- The record of a search: its results, and what they were computed for. -/
structure CacheRecord where
  queryEmbedding : Embedding
  results : List CachedResult
  scope : CacheScope
  memoryVersion : ℕ
  hitCount : ℕ
  retrievalLimit : ℕ
  deriving DecidableEq

/-- The record as a hit writes it back. -/
def CacheRecord.touched (r : CacheRecord) : CacheRecord :=
  { r with hitCount := r.hitCount + 1 }

/-- An entry of the similarity index: a query and the key of its record. -/
structure QueryIndexEntry where
  cacheKey : List UInt8
  embedding : Embedding
  scope : CacheScope
  deriving DecidableEq

/-- The cache: records by key, and the index over their queries. -/
structure SemanticCache where
  entries : List UInt8 → Option CacheRecord := fun _ => none
  queryIndex : List QueryIndexEntry := []

namespace SemanticCache

variable (E : CacheExternals)

/-- `embedding_hash`; the key is the hexadecimal text of these 16 bytes. -/
def embeddingHash (scope : CacheScope) (embedding : Embedding) : List UInt8 :=
  (E.sha256 (keyBytes scope embedding)).take 16

/-- The loop of `lookup_with_limit` over the index. -/
def bestMatch (query : Embedding) (scope : CacheScope) (index : List QueryIndexEntry) :
    Option (List UInt8 × F32) :=
  index.foldl (fun best entry =>
    if entry.scope.tenantId ≠ scope.tenantId then best
    else if entry.scope.projectId ≠ scope.projectId then best
    else
      let similarity := E.similarity query entry.embedding
      if E.similar similarity && best.all fun b => E.closer similarity b.2 then
        some (entry.cacheKey, similarity)
      else best) none

/-- The record a lookup goes on with: fresh enough and computed for enough results. -/
def usable (cache : SemanticCache) (key : List UInt8) (currentVersion requestedLimit : ℕ) :
    Option CacheRecord :=
  (cache.entries key).filter fun r =>
    decide (currentVersion ≤ r.memoryVersion) && decide (requestedLimit ≤ r.retrievalLimit)

/-- `entries.insert`. -/
def putRecord (cache : SemanticCache) (key : List UInt8) (r : CacheRecord) : SemanticCache :=
  { cache with entries := Function.update cache.entries key (some r) }

/-- The part of `insert_with_limit` under the lock of the index: the first entry of the key is
replaced, or the entry is appended. -/
def putIndex (entry : QueryIndexEntry) : List QueryIndexEntry → List QueryIndexEntry
  | [] => [entry]
  | e :: rest => if e.cacheKey = entry.cacheKey then entry :: rest else e :: putIndex entry rest

/-- Entries and index entries of the keys are dropped. -/
def dropKeys (cache : SemanticCache) (keys : List (List UInt8)) : SemanticCache where
  entries := fun key => if key ∈ keys then none else cache.entries key
  queryIndex := cache.queryIndex.filter fun e => e.cacheKey ∉ keys

/-- `invalidate_chunks`. -/
def invalidateChunks (cache : SemanticCache) (cs : List ChunkId) : SemanticCache :=
  cache.dropKeys ((cache.queryIndex.map (·.cacheKey)).filter fun key =>
    (cache.entries key).any fun r => r.results.any fun x => cs.contains x.chunkId)

/-- `prune_index`. -/
def pruneIndex (cache : SemanticCache) : SemanticCache :=
  { cache with queryIndex := cache.queryIndex.filter fun e => (cache.entries e.cacheKey).isSome }

/-- The record store drops a record: it has expired or there is no room. -/
def evict (cache : SemanticCache) (key : List UInt8) : SemanticCache :=
  { cache with entries := Function.update cache.entries key none }

end SemanticCache

/-! ## Searches and writes -/

/-- A search behind the read of the version. -/
structure TieredSearch where
  query : Embedding
  scope : CacheScope
  k : ℕ
  version : ℕ
  /-- when the version was read -/
  startedAt : ℕ

/-- A warm tier search and what became of it. -/
structure ResultComputation where
  scope : CacheScope
  limit : ℕ
  results : List CachedResult
  /-- when the warm tier was searched -/
  warmAt : ℕ

/-- A write of a tenant that has returned `Ok`. -/
structure TieredWrite where
  tenantId : TenantId
  /-- when it inserted into the dense index, or invalidated the deleted chunk -/
  insertedAt : ℕ
  /-- when it bumped the version, which was its last step -/
  completedAt : ℕ
  /-- the version behind the bump -/
  version : ℕ

/-- A cache hit returned to a search. -/
structure TieredHit where
  search : TieredSearch
  results : List CachedResult

/-- Where a call stands. -/
inductive TieredCall
  /-- the version is read -/
  | started (s : TieredSearch)
  /-- the best key is known -/
  | picked (s : TieredSearch) (key : List UInt8)
  /-- the record is read and good enough -/
  | matched (s : TieredSearch) (key : List UInt8) (r : CacheRecord)
  /-- there was no hit -/
  | missed (s : TieredSearch)
  /-- the hot tier is searched -/
  | hotSearched (s : TieredSearch)
  /-- the warm tier is searched and the results are merged -/
  | warmSearched (s : TieredSearch) (results : List CachedResult)
  /-- the record is stored -/
  | recorded (s : TieredSearch)
  /-- `index_batch` has inserted into the dense index, or `delete_chunk` has invalidated -/
  | written (tenantId : TenantId) (insertedAt : ℕ)

/-- The cache beside the versions of the tenants, with the calls in flight and what happened so far.
-/
structure TieredSystem where
  versions : TenantId → ℕ := fun _ => 1
  cache : SemanticCache := {}
  calls : List TieredCall := []
  /-- the number of steps so far -/
  now : ℕ := 0
  computations : List ResultComputation := []
  writes : List TieredWrite := []
  hits : List TieredHit := []

/-- What can happen: a search, a write, a step of a call, or a failure. -/
inductive TieredStep
  | search (query : Embedding) (scope : CacheScope) (k : ℕ)
  | indexBatch (tenantId : TenantId)
  | deleteChunk (tenantId : TenantId) (c : ChunkId)
  /-- the next step of the `i`-th call, with what the tiers find if it searches them -/
  | next (i : ℕ) (found : List CachedResult)
  /-- the `i`-th call returns an error -/
  | abort (i : ℕ)
  | evict (key : List UInt8)
  | invalidate (cs : List ChunkId)
  | prune

namespace TieredSystem

variable (E : CacheExternals)

/-- The call goes on as `call'`, or it is over. -/
def replace (s : TieredSystem) (i : ℕ) : Option TieredCall → TieredSystem
  | none => { s with calls := s.calls.eraseIdx i }
  | some call' => { s with calls := s.calls.set i call' }

/-- The next step of a call of `search_internal`, `index_batch` or `delete_chunk`. -/
def advance (s : TieredSystem) (i : ℕ) (found : List CachedResult) : TieredCall → TieredSystem
  | .started q =>
    -- the query index is searched under its own lock; an entry that matches need not be usable
    match SemanticCache.bestMatch E q.query q.scope s.cache.queryIndex with
    | none => s.replace i (some (.missed q))
    | some (key, _) => s.replace i (some (.picked q key))
  | .picked q key =>
    -- the record is fetched under another lock: it may have gone or grown old since
    match s.cache.usable key q.version q.k with
    | none => s.replace i (some (.missed q))
    | some r => s.replace i (some (.matched q key r))
  | .matched q key r =>
    -- a hit is written back, which counts it
    { s.replace i none with
      cache := s.cache.putRecord key r.touched
      hits := s.hits ++ [⟨q, r.results.take q.k⟩] }
  | .missed q => s.replace i (some (.hotSearched q))
  | .hotSearched q =>
    -- an empty result is not cached
    { s.replace i (if found = [] then none else some (.warmSearched q found)) with
      computations := s.computations ++ [⟨q.scope, q.k, found, s.now⟩] }
  | .warmSearched q results =>
    -- the record goes in under the version read when the call started
    { s.replace i (some (.recorded q)) with
      cache := s.cache.putRecord (SemanticCache.embeddingHash E q.scope q.query) {
        queryEmbedding := q.query
        results := results
        scope := q.scope
        memoryVersion := q.version
        hitCount := 0
        retrievalLimit := q.k } }
  | .recorded q =>
    { s.replace i none with
      cache := { s.cache with
        queryIndex := SemanticCache.putIndex
          ⟨SemanticCache.embeddingHash E q.scope q.query, q.query, q.scope⟩ s.cache.queryIndex } }
  -- a write of the tenant has been seen: its version is counted up
  | .written t insertedAt =>
    { s.replace i none with
      versions := Function.update s.versions t (s.versions t + 1)
      writes := s.writes ++ [⟨t, insertedAt, s.now, s.versions t + 1⟩] }

/-- What a step does, at a time that then passes. -/
def act (s : TieredSystem) : TieredStep → TieredSystem
  | .search query scope k =>
    { s with calls := s.calls ++ [.started ⟨query, scope, k, s.versions scope.tenantId, s.now⟩] }
  | .indexBatch t => { s with calls := s.calls ++ [.written t s.now] }
  | .deleteChunk t c =>
    { s with cache := s.cache.invalidateChunks [c], calls := s.calls ++ [.written t s.now] }
  | .next i found =>
    match s.calls[i]? with
    | none => s
    | some call => s.advance E i found call
  | .abort i => { s with calls := s.calls.eraseIdx i }
  | .evict key => { s with cache := s.cache.evict key }
  | .invalidate cs => { s with cache := s.cache.invalidateChunks cs }
  | .prune => { s with cache := s.cache.pruneIndex }

/-- What a step does to the system. -/
def step (s : TieredSystem) (a : TieredStep) : TieredSystem :=
  { s.act E a with now := s.now + 1 }

/-- A run from an empty cache. -/
def run (steps : List TieredStep) : TieredSystem :=
  steps.foldl (step E) {}

/-! ## What is kept -/

section Invariant

variable (Q : CacheScope → Embedding → Prop) (s : TieredSystem)

/-- The results were computed for the scope and the limit, behind all writes up to the
version. -/
def Computed (scope : CacheScope) (limit version : ℕ) (results : List CachedResult) : Prop :=
  ∃ comp ∈ s.computations, comp.scope = scope ∧ comp.limit = limit ∧ comp.results = results ∧
    ∀ w ∈ s.writes, w.tenantId = scope.tenantId → w.version ≤ version → w.insertedAt < comp.warmAt

/-- A search under way: the writes its version covers are those that were complete when it
started. -/
structure SearchOk (q : TieredSearch) : Prop where
  known : Q q.scope q.query
  started : q.startedAt < s.now
  version : q.version ≤ s.versions q.scope.tenantId
  covers : ∀ w ∈ s.writes, w.tenantId = q.scope.tenantId →
    (w.completedAt < q.startedAt ↔ w.version ≤ q.version)

/-- A record under its key. -/
structure RecordOk (key : List UInt8) (r : CacheRecord) : Prop where
  known : Q r.scope r.queryEmbedding
  key : key = SemanticCache.embeddingHash E r.scope r.queryEmbedding
  version : r.memoryVersion ≤ s.versions r.scope.tenantId
  computed : s.Computed r.scope r.retrievalLimit r.memoryVersion r.results

/-- The key is one of the scope of the search. -/
def KeyOk (q : TieredSearch) (key : List UInt8) : Prop :=
  ∃ e, Q q.scope e ∧ key = SemanticCache.embeddingHash E q.scope e

/-- What a call holds. -/
def CallOk : TieredCall → Prop
  | .started q | .missed q | .hotSearched q | .recorded q => s.SearchOk Q q
  | .picked q key => s.SearchOk Q q ∧ KeyOk E Q q key
  | .matched q key r => s.SearchOk Q q ∧ KeyOk E Q q key ∧ s.RecordOk E Q key r ∧
      q.version ≤ r.memoryVersion ∧ q.k ≤ r.retrievalLimit
  | .warmSearched q results => s.SearchOk Q q ∧ s.Computed q.scope q.k q.version results
  | .written _ insertedAt => insertedAt < s.now

/-- A hit comes from a computation of its scope, for enough results, that is behind every write
that was complete when the search started. -/
def HitOk (h : TieredHit) : Prop :=
  h.search.startedAt < s.now ∧ ∃ comp ∈ s.computations, comp.scope = h.search.scope ∧
    h.search.k ≤ comp.limit ∧ h.results = comp.results.take h.search.k ∧
    ∀ w ∈ s.writes, w.tenantId = h.search.scope.tenantId → w.completedAt < h.search.startedAt →
      w.insertedAt < comp.warmAt

/-- A write that is complete. -/
structure WriteOk (w : TieredWrite) : Prop where
  inserted : w.insertedAt < w.completedAt
  completed : w.completedAt < s.now
  version : w.version ≤ s.versions w.tenantId

/-- The invariant: every record, call, hit and write is at least as new as it claims. -/
structure Fresh : Prop where
  calls : ∀ call ∈ s.calls, s.CallOk E Q call
  entries : ∀ key r, s.cache.entries key = some r → s.RecordOk E Q key r
  index : ∀ e ∈ s.cache.queryIndex, Q e.scope e.embedding ∧
    e.cacheKey = SemanticCache.embeddingHash E e.scope e.embedding
  hits : ∀ h ∈ s.hits, s.HitOk h
  writes : ∀ w ∈ s.writes, s.WriteOk w

end Invariant

/-! ## Time passes -/

/-- What every step does to times, versions and the past. -/
structure Later (s s' : TieredSystem) : Prop where
  now : s.now ≤ s'.now
  versions : ∀ t, s.versions t ≤ s'.versions t
  computations : ∀ comp ∈ s.computations, comp ∈ s'.computations
  writes : ∀ w ∈ s'.writes, w ∈ s.writes ∨ s.versions w.tenantId < w.version ∧ s.now ≤ w.completedAt

variable {E} {Q : CacheScope → Embedding → Prop} {s s' : TieredSystem}

/-- What was computed stays computed. -/
theorem Later.computed (h : Later s s') {scope : CacheScope} {limit version : ℕ}
    {results : List CachedResult} (hver : version ≤ s.versions scope.tenantId)
    (hc : s.Computed scope limit version results) : s'.Computed scope limit version results := by
  obtain ⟨comp, hcomp, hscope, hlimit, hresults, hwrites⟩ := hc
  refine ⟨comp, h.computations comp hcomp, hscope, hlimit, hresults, ?_⟩
  intro w hw ht hwver
  rcases h.writes w hw with hold | ⟨hnew, _⟩
  · exact hwrites w hold ht hwver
  · rw [ht] at hnew
    omega

/-- A search that is fine stays fine. -/
theorem Later.searchOk (h : Later s s') {q : TieredSearch} (hq : s.SearchOk Q q) :
    s'.SearchOk Q q where
  known := hq.known
  started := Nat.lt_of_lt_of_le hq.started h.now
  version := Nat.le_trans hq.version (h.versions _)
  covers := by
    intro w hw ht
    rcases h.writes w hw with hold | ⟨hnew, hlate⟩
    · exact hq.covers w hold ht
    · -- a later write is neither complete at the start nor covered
      have hstart := hq.started
      have hver := hq.version
      rw [ht] at hnew
      omega

/-- So does a record. -/
theorem Later.recordOk (h : Later s s') {key : List UInt8} {r : CacheRecord}
    (hr : s.RecordOk E Q key r) : s'.RecordOk E Q key r where
  known := hr.known
  key := hr.key
  version := Nat.le_trans hr.version (h.versions _)
  computed := h.computed hr.version hr.computed

/-- So does a call in flight. -/
theorem Later.callOk (h : Later s s') {call : TieredCall} (hcall : s.CallOk E Q call) :
    s'.CallOk E Q call := by
  cases call with
  | started q => exact h.searchOk hcall
  | picked q key => exact ⟨h.searchOk hcall.1, hcall.2⟩
  | matched q key r =>
    exact ⟨h.searchOk hcall.1, hcall.2.1, h.recordOk hcall.2.2.1, hcall.2.2.2⟩
  | missed q => exact h.searchOk hcall
  | hotSearched q => exact h.searchOk hcall
  | warmSearched q results =>
    exact ⟨h.searchOk hcall.1, h.computed hcall.1.version hcall.2⟩
  | recorded q => exact h.searchOk hcall
  | written t insertedAt => exact Nat.lt_of_lt_of_le hcall h.now

/-- So does a hit. -/
theorem Later.hitOk (h : Later s s') {hit : TieredHit} (hhit : s.HitOk hit) : s'.HitOk hit := by
  obtain ⟨hstart, comp, hcomp, hscope, hlimit, hresults, hwrites⟩ := hhit
  refine ⟨Nat.lt_of_lt_of_le hstart h.now, comp, h.computations comp hcomp, hscope, hlimit,
    hresults, ?_⟩
  intro w hw ht hdone
  rcases h.writes w hw with hold | ⟨_, hlate⟩
  · exact hwrites w hold ht hdone
  · omega

/-- So does a write. -/
theorem Later.writeOk (h : Later s s') {w : TieredWrite} (hw : s.WriteOk w) : s'.WriteOk w :=
  ⟨hw.inserted, Nat.lt_of_lt_of_le hw.completed h.now, Nat.le_trans hw.version (h.versions _)⟩

/-! ## The parts of the cache -/

/-- A scope is its tenant and its project. -/
theorem scope_ext {a b : CacheScope} (ht : a.tenantId = b.tenantId)
    (hp : a.projectId = b.projectId) : a = b := by
  cases a
  cases b
  subst ht hp
  rfl

/-- The best match is a cached query of the scope. -/
theorem bestMatch_scope {query : Embedding} {scope : CacheScope} {index : List QueryIndexEntry}
    {key : List UInt8} {sim : F32}
    (h : SemanticCache.bestMatch E query scope index = some (key, sim)) :
    ∃ e ∈ index, e.scope = scope ∧ e.cacheKey = key := by
  -- what the loop has found so far comes from the part it has seen
  have hloop : ∀ (seen rest : List QueryIndexEntry) (best : Option (List UInt8 × F32)),
      (∀ b ∈ best, ∃ e ∈ seen, e.scope = scope ∧ e.cacheKey = b.1) →
      ∀ b ∈ rest.foldl (fun best entry =>
        if entry.scope.tenantId ≠ scope.tenantId then best
        else if entry.scope.projectId ≠ scope.projectId then best
        else
          let similarity := E.similarity query entry.embedding
          if E.similar similarity && best.all fun b => E.closer similarity b.2 then
            some (entry.cacheKey, similarity)
          else best) best,
        ∃ e ∈ seen ++ rest, e.scope = scope ∧ e.cacheKey = b.1 := by
    intro seen rest
    induction rest generalizing seen with
    | nil => simp
    | cons entry rest ih =>
      intro best hbest
      have hkeep : ∀ b ∈ best, ∃ e ∈ seen ++ [entry], e.scope = scope ∧ e.cacheKey = b.1 := by
        intro b hb
        obtain ⟨e, he, hscope⟩ := hbest b hb
        exact ⟨e, List.mem_append_left _ he, hscope⟩
      have happend : seen ++ entry :: rest = seen ++ [entry] ++ rest := by simp
      rw [List.foldl_cons, happend]
      refine ih (seen ++ [entry]) _ ?_
      dsimp only
      split_ifs with ht hp hsim
      · exact hkeep
      · exact hkeep
      · intro b hb
        rw [← Option.mem_some_iff.mp hb]
        exact ⟨entry, by simp, scope_ext (not_not.mp ht) (not_not.mp hp), rfl⟩
      · exact hkeep
  exact hloop [] index none (by simp) (key, sim) h

/-- A usable record is in the cache, new enough and large enough. -/
theorem usable_eq_some {cache : SemanticCache} {key : List UInt8} {version limit : ℕ}
    {r : CacheRecord} (h : cache.usable key version limit = some r) :
    cache.entries key = some r ∧ version ≤ r.memoryVersion ∧ limit ≤ r.retrievalLimit := by
  unfold SemanticCache.usable at h
  rw [Option.filter_eq_some_iff] at h
  obtain ⟨hget, hok⟩ := h
  simp only [Bool.and_eq_true, decide_eq_true_eq] at hok
  exact ⟨hget, hok.1, hok.2⟩

/-- An entry behind a put is the new one or an old one. -/
theorem mem_putIndex {entry e : QueryIndexEntry} {index : List QueryIndexEntry}
    (h : e ∈ SemanticCache.putIndex entry index) : e = entry ∨ e ∈ index := by
  induction index with
  | nil => exact .inl (List.mem_singleton.mp h)
  | cons e' rest ih =>
    unfold SemanticCache.putIndex at h
    split at h
    · rcases List.mem_cons.mp h with rfl | h
      · exact .inl rfl
      · exact .inr (List.mem_cons_of_mem _ h)
    · rcases List.mem_cons.mp h with rfl | h
      · exact .inr (by simp)
      · exact (ih h).imp_right (List.mem_cons_of_mem _)

/-- A record behind a put is the new one or an old one. -/
theorem putRecord_entries {cache : SemanticCache} {key key' : List UInt8} {r r' : CacheRecord}
    (h : (cache.putRecord key r).entries key' = some r') :
    key' = key ∧ r' = r ∨ cache.entries key' = some r' := by
  by_cases hkey : key' = key
  · subst hkey
    have hself : (cache.putRecord key' r).entries key' = some r := Function.update_self ..
    rw [hself] at h
    exact .inl ⟨rfl, (Option.some.inj h).symm⟩
  · have hother : (cache.putRecord key r).entries key' = cache.entries key' :=
      Function.update_of_ne hkey ..
    rw [hother] at h
    exact .inr h

/-- The cache only drops. -/
structure Shrinks (cache cache' : SemanticCache) : Prop where
  entries : ∀ key r, cache'.entries key = some r → cache.entries key = some r
  index : ∀ e ∈ cache'.queryIndex, e ∈ cache.queryIndex

theorem Shrinks.refl (cache : SemanticCache) : Shrinks cache cache :=
  ⟨fun _ _ h => h, fun _ h => h⟩

/-- Dropping keys adds nothing. -/
theorem shrinks_dropKeys (cache : SemanticCache) (keys : List (List UInt8)) :
    Shrinks cache (cache.dropKeys keys) := by
  constructor
  · intro key r h
    have hget : (if key ∈ keys then none else cache.entries key) = some r := h
    by_cases hkey : key ∈ keys
    · rw [if_pos hkey] at hget
      exact absurd hget (by simp)
    · rw [if_neg hkey] at hget
      exact hget
  · exact fun e he => (List.mem_filter.mp he).1

/-- Neither does pruning the index. -/
theorem shrinks_pruneIndex (cache : SemanticCache) : Shrinks cache cache.pruneIndex :=
  ⟨fun _ _ h => h, fun _ he => (List.mem_filter.mp he).1⟩

/-- Nor an eviction. -/
theorem shrinks_evict (cache : SemanticCache) (key : List UInt8) :
    Shrinks cache (cache.evict key) := by
  constructor
  · intro key' r h
    by_cases hkey : key' = key
    · subst hkey
      have hself : (cache.evict key').entries key' = none := Function.update_self ..
      rw [hself] at h
      exact absurd h (by simp)
    · have hother : (cache.evict key).entries key' = cache.entries key' :=
        Function.update_of_ne hkey ..
      rw [hother] at h
      exact h
  · exact fun _ he => he

/-! ## One step -/

/-- A step leaves what it does not touch fresh. -/
theorem Fresh.later (h : s.Fresh E Q) (hl : Later s s')
    (hcalls : ∀ call ∈ s'.calls, call ∈ s.calls ∨ s'.CallOk E Q call)
    (hentries : ∀ key r, s'.cache.entries key = some r →
      s.cache.entries key = some r ∨ s'.RecordOk E Q key r)
    (hindex : ∀ e ∈ s'.cache.queryIndex, e ∈ s.cache.queryIndex ∨
      Q e.scope e.embedding ∧ e.cacheKey = SemanticCache.embeddingHash E e.scope e.embedding)
    (hhits : ∀ hit ∈ s'.hits, hit ∈ s.hits ∨ s'.HitOk hit)
    (hwrites : ∀ w ∈ s'.writes, w ∈ s.writes ∨ s'.WriteOk w) : s'.Fresh E Q where
  calls := fun call hcall => (hcalls call hcall).elim (fun hold => hl.callOk (h.calls call hold)) id
  entries := fun key r hr => (hentries key r hr).elim
    (fun hold => hl.recordOk (h.entries key r hold)) id
  index := fun e he => (hindex e he).elim (h.index e) id
  hits := fun hit hhit => (hhits hit hhit).elim (fun hold => hl.hitOk (h.hits hit hold)) id
  writes := fun w hw => (hwrites w hw).elim (fun hold => hl.writeOk (h.writes w hold)) id

/-- Times and versions as they were, one step later. -/
theorem later_of_eq (hnow : s'.now = s.now + 1) (hver : s'.versions = s.versions)
    (hcomp : ∀ comp ∈ s.computations, comp ∈ s'.computations) (hw : s'.writes = s.writes) :
    Later s s' := by
  refine ⟨by omega, ?_, hcomp, ?_⟩
  · intro t
    rw [hver]
  · intro w hmem
    rw [hw] at hmem
    exact .inl hmem

/-- A step that only lets calls go on and the cache drop something. -/
theorem Fresh.quiet (h : s.Fresh E Q) (hnow : s'.now = s.now + 1) (hver : s'.versions = s.versions)
    (hcomp : s'.computations = s.computations) (hw : s'.writes = s.writes)
    (hhits : s'.hits = s.hits) (hcache : Shrinks s.cache s'.cache)
    (hcalls : ∀ call ∈ s'.calls, call ∈ s.calls ∨ s'.CallOk E Q call) : s'.Fresh E Q := by
  refine h.later (later_of_eq hnow hver (by rw [hcomp]; exact fun _ hmem => hmem) hw) hcalls ?_ ?_
    ?_ ?_
  · exact fun key r hr => .inl (hcache.entries key r hr)
  · exact fun e he => .inl (hcache.index e he)
  · rw [hhits]
    exact fun hit hhit => .inl hhit
  · rw [hw]
    exact fun w hmem => .inl hmem

/-- A call behind a replacement is an old one or the new one. -/
theorem mem_replace {i : ℕ} {call' : Option TieredCall} {call : TieredCall}
    (h : call ∈ (s.replace i call').calls) : call ∈ s.calls ∨ call ∈ call' := by
  cases call' with
  | none => exact .inl (List.mem_of_mem_eraseIdx h)
  | some call'' =>
    rcases List.mem_or_eq_of_mem_set h with hold | rfl
    · exact .inl hold
    · exact .inr rfl

variable (E Q) in
/-- Different queries of the run have different keys. -/
def NoCollision : Prop :=
  ∀ a e b e', Q a e → Q b e' →
    SemanticCache.embeddingHash E a e = SemanticCache.embeddingHash E b e' →
    keyBytes a e = keyBytes b e'

@[simp] theorem replace_versions (i : ℕ) (call' : Option TieredCall) :
    (s.replace i call').versions = s.versions := by
  cases call' <;> rfl

@[simp] theorem replace_cache (i : ℕ) (call' : Option TieredCall) :
    (s.replace i call').cache = s.cache := by
  cases call' <;> rfl

@[simp] theorem replace_computations (i : ℕ) (call' : Option TieredCall) :
    (s.replace i call').computations = s.computations := by
  cases call' <;> rfl

@[simp] theorem replace_writes (i : ℕ) (call' : Option TieredCall) :
    (s.replace i call').writes = s.writes := by
  cases call' <;> rfl

@[simp] theorem replace_hits (i : ℕ) (call' : Option TieredCall) :
    (s.replace i call').hits = s.hits := by
  cases call' <;> rfl

/-- A call goes on with what it knows, or returns. -/
theorem Fresh.goOn (h : s.Fresh E Q) (i : ℕ) (call' : Option TieredCall)
    (hcall' : ∀ call ∈ call', s.CallOk E Q call) :
    ({ s.replace i call' with now := s.now + 1 } : TieredSystem).Fresh E Q := by
  have hl : Later s { s.replace i call' with now := s.now + 1 } :=
    later_of_eq rfl (replace_versions i call') (by simp) (replace_writes i call')
  refine h.quiet rfl (replace_versions i call') (replace_computations i call')
    (replace_writes i call') (replace_hits i call') ?_ fun call hmem => ?_
  · show Shrinks s.cache (s.replace i call').cache
    rw [replace_cache]
    exact Shrinks.refl _
  · exact (mem_replace hmem).imp_right fun hnew => hl.callOk (hcall' call hnew)

/-- A call that goes on to a fine one keeps the invariant. -/
theorem Fresh.goOnTo (h : s.Fresh E Q) (i : ℕ) (call' : TieredCall)
    (hcall' : s.CallOk E Q call') :
    ({ s.replace i (some call') with now := s.now + 1 } : TieredSystem).Fresh E Q := by
  refine h.goOn i _ fun call hnew => ?_
  obtain rfl := Option.mem_some_iff.mp hnew
  exact hcall'

/-- The warm tier is searched: what it finds is behind all writes the search covers. -/
theorem Fresh.computed (h : s.Fresh E Q) {q : TieredSearch} (hq : s.SearchOk Q q)
    (found : List CachedResult) (i : ℕ) :
    ({ s.replace i (if found = [] then none else some (.warmSearched q found)) with
      computations := s.computations ++ [⟨q.scope, q.k, found, s.now⟩]
      now := s.now + 1 } : TieredSystem).Fresh E Q := by
  generalize hs' : ({ s.replace i (if found = [] then none else some (.warmSearched q found)) with
      computations := s.computations ++ [⟨q.scope, q.k, found, s.now⟩]
      now := s.now + 1 } : TieredSystem) = s'
  have hnow : s'.now = s.now + 1 := by rw [← hs']
  have hver : s'.versions = s.versions := by rw [← hs']; exact replace_versions ..
  have hw : s'.writes = s.writes := by rw [← hs']; exact replace_writes ..
  have hcache : s'.cache = s.cache := by rw [← hs']; exact replace_cache ..
  have hhits : s'.hits = s.hits := by rw [← hs']; exact replace_hits ..
  have hcomp : s'.computations = s.computations ++ [⟨q.scope, q.k, found, s.now⟩] := by rw [← hs']
  have hl : Later s s' := later_of_eq hnow hver
    (by rw [hcomp]; exact fun _ hmem => List.mem_append_left _ hmem) hw
  refine h.later hl ?_ ?_ ?_ ?_ ?_
  · intro call hmem
    rw [← hs'] at hmem
    refine (mem_replace hmem).imp_right fun hnew => ?_
    split_ifs at hnew with hfound
    · exact absurd hnew (by simp)
    · obtain rfl := Option.mem_some_iff.mp hnew
      refine ⟨hl.searchOk hq, ⟨q.scope, q.k, found, s.now⟩, by rw [hcomp]; simp, rfl, rfl, rfl, ?_⟩
      intro w hmem' ht hcovered
      rw [hw] at hmem'
      have hdone := (hq.covers w hmem' ht).mpr hcovered
      have hins := (h.writes w hmem').inserted
      have hstart := hq.started
      show w.insertedAt < s.now
      omega
  · rw [hcache]
    exact fun key r hr => .inl hr
  · rw [hcache]
    exact fun e he => .inl he
  · rw [hhits]
    exact fun hit hhit => .inl hhit
  · rw [hw]
    exact fun w hmem => .inl hmem

/-- **The next step of a call.** -/
theorem Fresh.advance (h : s.Fresh E Q) (hsha : NoCollision E Q) {i : ℕ}
    {found : List CachedResult} {call : TieredCall} (hcall : s.CallOk E Q call) :
    ({ s.advance E i found call with now := s.now + 1 } : TieredSystem).Fresh E Q := by
  cases call with
  | started q =>
    simp only [TieredSystem.advance]
    cases hbest : SemanticCache.bestMatch E q.query q.scope s.cache.queryIndex with
    | none => exact h.goOnTo i (.missed q) hcall
    | some b =>
      refine h.goOnTo i (.picked q b.1) ?_
      obtain ⟨e, he, hscope, hkey⟩ := bestMatch_scope hbest
      obtain ⟨hknown, hhash⟩ := h.index e he
      rw [hscope] at hknown hhash
      exact ⟨hcall, e.embedding, hknown, by rw [← hkey, hhash]⟩
  | picked q key =>
    simp only [TieredSystem.advance]
    cases huse : s.cache.usable key q.version q.k with
    | none => exact h.goOnTo i (.missed q) hcall.1
    | some r =>
      refine h.goOnTo i (.matched q key r) ?_
      obtain ⟨hget, hver, hlimit⟩ := usable_eq_some huse
      exact ⟨hcall.1, hcall.2, h.entries key r hget, hver, hlimit⟩
  | matched q key r =>
    obtain ⟨hq, ⟨e, hknown, hkey⟩, hr, hver, hlimit⟩ := hcall
    -- the key tells the scope, so the record is of the scope of the search
    have hscope : r.scope = q.scope :=
      keyBytes_scope (hsha _ _ _ _ hr.known hknown (hr.key.symm.trans hkey))
    have hl : Later s { s.advance E i found (.matched q key r) with now := s.now + 1 } :=
      later_of_eq rfl rfl (fun _ hmem => hmem) rfl
    refine h.later hl ?_ ?_ ?_ ?_ ?_
    · exact fun call hmem => .inl (List.mem_of_mem_eraseIdx hmem)
    · intro key' r' hget
      rcases putRecord_entries hget with ⟨rfl, rfl⟩ | hold
      · have hr' := hl.recordOk hr
        exact .inr ⟨hr'.known, hr'.key, hr'.version, hr'.computed⟩
      · exact .inl hold
    · exact fun e he => .inl he
    · intro hit hmem
      rcases List.mem_append.mp hmem with hold | hnew
      · exact .inl hold
      · obtain rfl := List.mem_singleton.mp hnew
        obtain ⟨comp, hcomp, hcscope, hclimit, hcresults, hwrites⟩ := hr.computed
        refine .inr ⟨Nat.lt_succ_of_lt hq.started, comp, hcomp, hcscope.trans hscope,
          hclimit ▸ hlimit, by rw [hcresults], ?_⟩
        intro w hmem' ht hdone
        have hcovered := (hq.covers w hmem' ht).mp hdone
        exact hwrites w hmem' (ht.trans (by rw [hscope])) (Nat.le_trans hcovered hver)
    · exact fun w hmem => .inl hmem
  | missed q => exact h.goOnTo i (.hotSearched q) hcall
  | hotSearched q => exact h.computed hcall found i
  | warmSearched q results =>
    obtain ⟨hq, hcomputed⟩ := hcall
    have hl : Later s { s.advance E i found (.warmSearched q results) with now := s.now + 1 } :=
      later_of_eq rfl rfl (fun _ hmem => hmem) rfl
    refine h.later hl ?_ ?_ ?_ ?_ ?_
    · intro call hmem
      refine (mem_replace hmem).imp_right fun hnew => ?_
      obtain rfl := Option.mem_some_iff.mp hnew
      exact hl.searchOk hq
    · intro key' r' hget
      rcases putRecord_entries hget with ⟨rfl, rfl⟩ | hold
      · exact .inr ⟨hq.known, rfl, hq.version, hl.computed hq.version hcomputed⟩
      · exact .inl hold
    · exact fun e he => .inl he
    · exact fun hit hhit => .inl hhit
    · exact fun w hmem => .inl hmem
  | recorded q =>
    have hl : Later s { s.advance E i found (.recorded q) with now := s.now + 1 } :=
      later_of_eq rfl rfl (fun _ hmem => hmem) rfl
    refine h.later hl ?_ ?_ ?_ ?_ ?_
    · exact fun call hmem => .inl (List.mem_of_mem_eraseIdx hmem)
    · exact fun key r hget => .inl hget
    · intro e he
      rcases mem_putIndex he with rfl | hold
      · exact .inr ⟨hcall.known, rfl⟩
      · exact .inl hold
    · exact fun hit hhit => .inl hhit
    · exact fun w hmem => .inl hmem
  | written t insertedAt =>
    have hle : ∀ t', s.versions t' ≤ Function.update s.versions t (s.versions t + 1) t' := by
      intro t'
      by_cases ht : t' = t
      · subst ht
        rw [Function.update_self]
        omega
      · rw [Function.update_of_ne ht]
    have hl : Later s { s.advance E i found (.written t insertedAt) with now := s.now + 1 } := by
      refine ⟨Nat.le_succ _, hle, fun _ hmem => hmem, ?_⟩
      intro w hmem
      rcases List.mem_append.mp hmem with hold | hnew
      · exact .inl hold
      · obtain rfl := List.mem_singleton.mp hnew
        exact .inr ⟨Nat.lt_succ_self _, Nat.le_refl _⟩
    refine h.later hl ?_ ?_ ?_ ?_ ?_
    · exact fun call hmem => .inl (List.mem_of_mem_eraseIdx hmem)
    · exact fun key r hget => .inl hget
    · exact fun e he => .inl he
    · exact fun hit hhit => .inl hhit
    · intro w hmem
      rcases List.mem_append.mp hmem with hold | hnew
      · exact .inl hold
      · obtain rfl := List.mem_singleton.mp hnew
        refine .inr ⟨hcall, Nat.lt_succ_self _, ?_⟩
        show s.versions t + 1 ≤ Function.update s.versions t (s.versions t + 1) t
        rw [Function.update_self]

/-- **One step** keeps the cache fresh. -/
theorem Fresh.step (h : s.Fresh E Q) (hsha : NoCollision E Q) (a : TieredStep)
    (hQ : ∀ query scope k, a = .search query scope k → Q scope query) :
    (s.step E a).Fresh E Q := by
  cases a with
  | search query scope k =>
    refine h.quiet rfl rfl rfl rfl rfl (Shrinks.refl _) fun call hmem => ?_
    rcases List.mem_append.mp hmem with hold | hnew
    · exact .inl hold
    · obtain rfl := List.mem_singleton.mp hnew
      refine .inr ⟨hQ query scope k rfl, Nat.lt_succ_self _, Nat.le_refl _, ?_⟩
      intro w hw ht
      -- every write so far is complete and below the version just read
      have hdone : w.completedAt < s.now := (h.writes w hw).completed
      have hver : w.version ≤ s.versions scope.tenantId := ht ▸ (h.writes w hw).version
      exact ⟨fun _ => hver, fun _ => hdone⟩
  | indexBatch t =>
    refine h.quiet rfl rfl rfl rfl rfl (Shrinks.refl _) fun call hmem => ?_
    rcases List.mem_append.mp hmem with hold | hnew
    · exact .inl hold
    · obtain rfl := List.mem_singleton.mp hnew
      exact .inr (Nat.lt_succ_self s.now)
  | deleteChunk t c =>
    refine h.quiet rfl rfl rfl rfl rfl (shrinks_dropKeys _ _) fun call hmem => ?_
    rcases List.mem_append.mp hmem with hold | hnew
    · exact .inl hold
    · obtain rfl := List.mem_singleton.mp hnew
      exact .inr (Nat.lt_succ_self s.now)
  | next i found =>
    cases hi : s.calls[i]? with
    | none =>
      have hact : s.act E (.next i found) = s := by simp only [act, hi]
      rw [TieredSystem.step, hact]
      exact h.quiet rfl rfl rfl rfl rfl (Shrinks.refl _) fun call hmem => .inl hmem
    | some call =>
      have hact : s.act E (.next i found) = s.advance E i found call := by simp only [act, hi]
      rw [TieredSystem.step, hact]
      exact h.advance hsha (h.calls call (List.mem_of_getElem? hi))
  | abort i =>
    exact h.quiet rfl rfl rfl rfl rfl (Shrinks.refl _)
      fun call hmem => .inl (List.mem_of_mem_eraseIdx hmem)
  | evict key =>
    exact h.quiet rfl rfl rfl rfl rfl (shrinks_evict _ _) fun call hmem => .inl hmem
  | invalidate cs =>
    exact h.quiet rfl rfl rfl rfl rfl (shrinks_dropKeys _ _) fun call hmem => .inl hmem
  | prune =>
    exact h.quiet rfl rfl rfl rfl rfl (shrinks_pruneIndex _) fun call hmem => .inl hmem

/-! ## Runs -/

/-- The queries of a run. -/
def Asked (steps : List TieredStep) (scope : CacheScope) (query : Embedding) : Prop :=
  ∃ k, .search query scope k ∈ steps

/-- The empty system is fresh. -/
theorem fresh_new : Fresh E Q {} := by
  constructor <;> simp

/-- **Every run keeps the invariant** while no two keys collide. -/
theorem fresh_run (hsha : NoCollision E Q) {steps : List TieredStep}
    (hQ : ∀ query scope k, .search query scope k ∈ steps → Q scope query) :
    (run E steps).Fresh E Q := by
  induction steps using List.reverseRecOn with
  | nil => exact fresh_new
  | append_singleton steps a ih =>
    have hlast : run E (steps ++ [a]) = (run E steps).step E a := by simp [run]
    rw [hlast]
    refine Fresh.step (ih fun query scope k hmem => hQ query scope k (by simp [hmem])) hsha a ?_
    rintro query scope k rfl
    exact hQ query scope k (by simp)

/-- **No stale hit**: in every run, whatever the calls and however they interleave, a hit
returned to a search gives results of a computation of the same tenant and project, made for at
least as many results, whose search of the warm tier came behind the dense insert of every
write of the tenant that was complete when the search started. -/
theorem no_stale_hit (E : CacheExternals) (steps : List TieredStep)
    (hsha : NoCollision E (Asked steps)) :
    ∀ h ∈ (run E steps).hits, ∃ comp ∈ (run E steps).computations,
      comp.scope = h.search.scope ∧ h.search.k ≤ comp.limit ∧
      h.results = comp.results.take h.search.k ∧
      ∀ w ∈ (run E steps).writes, w.tenantId = h.search.scope.tenantId →
        w.completedAt < h.search.startedAt → w.insertedAt < comp.warmAt := by
  intro h hh
  have hfresh : (run E steps).Fresh E (Asked steps) :=
    fresh_run hsha fun query scope k hmem => ⟨k, hmem⟩
  exact (hfresh.hits h hh).2

/-- A scope without a project. -/
def sampleScope (t : TenantId) (h : (utf8Bytes t).length < 2 ^ 64) : CacheScope :=
  ⟨t, none, h, by simp⟩

/-- The scope of one tenant. -/
def sampleT : CacheScope := sampleScope "t" (by decide)

/-- The scope of another. -/
def sampleU : CacheScope := sampleScope "u" (by decide)

/-- The digests of the two keys of the sample run, and the similarity of its only vector with
itself. -/
def sampleTiers : CacheExternals where
  sha256 bytes :=
    if bytes = keyBytes sampleT [0x3F800000] then
      [184, 99, 242, 196, 195, 36, 223, 122, 47, 231, 40, 77, 11, 145, 112, 166,
       64, 87, 207, 120, 97, 212, 134, 178, 43, 133, 208, 116, 218, 208, 145, 20]
    else if bytes = keyBytes sampleU [0x3F800000] then
      [35, 78, 211, 247, 33, 135, 64, 184, 55, 170, 78, 43, 248, 39, 64, 155,
       104, 195, 173, 156, 170, 129, 201, 4, 38, 130, 154, 165, 101, 241, 84, 95]
    else []
  similarity a b := if a = b then 0x3F800000 else 0
  similar x := x == 0x3F800000
  closer x y := decide (y.toNat < x.toNat)

/-- A search of each of two tenants is cached; a batch of the first tenant is indexed; its next
search is told by the version to search again, and the one behind that is a hit. -/
def sampleSteps : List TieredStep :=
  [.search [0x3F800000] sampleT 2, .search [0x3F800000] sampleU 2]
    ++ [0, 0, 0, 0, 0].map (.next · [⟨5, 0⟩]) ++ [0, 0, 0, 0, 0].map (.next · [⟨7, 0⟩])
    ++ [.indexBatch "t", .next 0 [], .search [0x3F800000] sampleT 2]
    ++ [0, 0, 0, 0, 0, 0].map (.next · [⟨5, 0⟩, ⟨6, 0⟩])
    ++ [.search [0x3F800000] sampleT 1, .next 0 [], .next 0 [], .next 0 []]

/-- A write, two searches and a hit. -/
theorem no_stale_hit_sampleSteps :
    NoCollision sampleTiers (Asked sampleSteps) ∧
      (run sampleTiers sampleSteps).hits.map (·.results) = [[⟨5, 0⟩]] ∧
      (run sampleTiers sampleSteps).writes.map (·.version) = [2] ∧
      ∀ h ∈ (run sampleTiers sampleSteps).hits, ∃ comp ∈ (run sampleTiers sampleSteps).computations,
        comp.scope = h.search.scope ∧ h.search.k ≤ comp.limit ∧
        h.results = comp.results.take h.search.k ∧
        ∀ w ∈ (run sampleTiers sampleSteps).writes, w.tenantId = h.search.scope.tenantId →
          w.completedAt < h.search.startedAt → w.insertedAt < comp.warmAt := by
  have hasked : ∀ a e, Asked sampleSteps a e → (a = sampleT ∨ a = sampleU) ∧ e = [0x3F800000] := by
    rintro a e ⟨k, hk⟩
    simp only [sampleSteps, List.mem_append, List.mem_cons, List.mem_map, List.not_mem_nil,
      or_false, reduceCtorEq, and_false, exists_false, TieredStep.search.injEq] at hk
    tauto
  have hsha : NoCollision sampleTiers (Asked sampleSteps) := by
    intro a e b e' hask hask' hkey
    obtain ⟨hscope, rfl⟩ := hasked a e hask
    obtain ⟨hscope', rfl⟩ := hasked b e' hask'
    rcases hscope with rfl | rfl <;> rcases hscope' with rfl | rfl
    · rfl
    · exact absurd hkey (by decide)
    · exact absurd hkey (by decide)
    · rfl
  exact ⟨hsha, by decide, by decide, no_stale_hit sampleTiers sampleSteps hsha⟩

end TieredSystem
