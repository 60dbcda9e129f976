/-
# The dense index on disk

`HnswIndex::save_to` writes two files that have to fit each other, `embeddings.bin` and
`mapping.bin`, one rename behind the other; `load` compares the number of slots of the one
with the next id of the other and throws the embeddings away when they differ.

* `EmbeddingCache.toBytes`, `loadFrom` — the format of `embeddings.bin`, with its round trip;
* `WarmDir` — the directory; `saveOps` — the file operations of a save, in order;
* `withPersistence` — what an open makes of a directory;
* `save_safe_iff` — in every reachable state, when a save keeps the embeddings, wherever the
  process stops: the cache has a slot for every mapped id, and so it has for the mapping that
  is already on disk.

The checksum is a parameter.  A file behind a rename is written atomically, and `bincode` gives
back the mapping it was given.  `config.json` is written and never read by `load`; a graph dump
only saves the rebuild of the graph.
-/
import Memd.ByteCodec
import Memd.DenseIndex

open ByteCodec

/-! ## embeddings.bin -/

namespace EmbeddingCache

/-- `MAGIC`: "MEMB". -/
def cacheMagic : List UInt8 := [0x4D, 0x45, 0x4D, 0x42]

/-- `VERSION`. -/
def cacheVersion : ℕ := 1

/-- The bytes the header checksum is over; the sizes are cast to `u32`. -/
def headerBytes (version dimension count nextId : ℕ) : List UInt8 :=
  cacheMagic ++ leBytes 4 version ++ leBytes 4 dimension ++ leBytes 4 count ++ leBytes 4 nextId

/-- How a flag is written. -/
def flagByte (valid : Bool) : UInt8 := if valid then 1 else 0

/-- The bytes the data checksum is over. -/
def dataBytes (validIds : List Bool) (embeddings : List F32) : List UInt8 :=
  validIds.map flagByte ++ embeddings.flatMap fun x => leBytes 4 x.toNat

/-- `EmbeddingCache::save_to`. -/
def toBytes (crc32 : List UInt8 → UInt32) (cache : EmbeddingCache) : List UInt8 :=
  headerBytes cacheVersion cache.dimension cache.count cache.nextId
    ++ leBytes 4 (crc32 (headerBytes cacheVersion cache.dimension cache.count cache.nextId)).toNat
    ++ dataBytes cache.validIds cache.embeddings
    ++ leBytes 4 (crc32 (dataBytes cache.validIds cache.embeddings)).toNat

/-- Why a file is not accepted. -/
inductive CacheFileError
  | truncated
  | invalidMagic
  | unsupportedVersion (version : ℕ)
  | headerCrc
  | countMismatch (header actual : ℕ)
  | dataCrc
  deriving DecidableEq, Repr

/-- `read_exact`. -/
def readBytes (n : ℕ) (d : List UInt8) : Except CacheFileError (List UInt8 × List UInt8) :=
  if n ≤ d.length then .ok (d.take n, d.drop n) else .error .truncated

/-- `read_u32`. -/
def readWord (d : List UInt8) : Except CacheFileError (ℕ × List UInt8) :=
  match readLe 4 d with
  | some r => .ok r
  | none => .error .truncated

/-- The loop over the flags. -/
def readFlags : ℕ → List UInt8 → Except CacheFileError (List Bool × List UInt8)
  | 0, d => .ok ([], d)
  | _ + 1, [] => .error .truncated
  | n + 1, b :: d => do
    let (flags, d) ← readFlags n d
    pure ((b != 0) :: flags, d)

/-- The loop over the floats. -/
def readFloats : ℕ → List UInt8 → Except CacheFileError (List F32 × List UInt8)
  | 0, d => .ok ([], d)
  | n + 1, d => do
    let (x, d) ← readWord d
    let (xs, d) ← readFloats n d
    pure (BitVec.ofNat 32 x :: xs, d)

/-- A check of the loader. -/
def demand (ok : Bool) (err : CacheFileError) : Except CacheFileError Unit :=
  if ok then .ok () else .error err

/-- What has been read, as a cache; the loops have read as many floats as the flags ask for. -/
def assemble (dimension count : ℕ) (validIds : List Bool) (embeddings : List F32) :
    Except CacheFileError EmbeddingCache :=
  if h : embeddings.length = validIds.length * dimension ∧ count = validIds.count true then
    .ok ⟨embeddings, dimension, count, validIds, h.1, h.2⟩
  else .error .truncated

/-- `EmbeddingCache::load_from`. -/
def loadFrom (crc32 : List UInt8 → UInt32) (d : List UInt8) :
    Except CacheFileError EmbeddingCache := do
  let (magic, d) ← readBytes 4 d
  demand (magic == cacheMagic) .invalidMagic
  let (version, d) ← readWord d
  demand (version == cacheVersion) (.unsupportedVersion version)
  let (dimension, d) ← readWord d
  let (count, d) ← readWord d
  let (nextId, d) ← readWord d
  let (headerCrc, d) ← readWord d
  demand (headerCrc == (crc32 (headerBytes version dimension count nextId)).toNat) .headerCrc
  let (validIds, d) ← readFlags nextId d
  demand (validIds.count true == count) (.countMismatch count (validIds.count true))
  let (embeddings, d) ← readFloats (nextId * dimension) d
  let (dataCrc, _) ← readWord d
  demand (dataCrc == (crc32 (dataBytes validIds embeddings)).toNat) .dataCrc
  assemble dimension count validIds embeddings

/-- A word is read back. -/
theorem readWord_append {n : ℕ} (h : n < 2 ^ 32) (y : List UInt8) :
    readWord (leBytes 4 n ++ y) = .ok (n, y) := by
  unfold readWord
  rw [readLe_append (by omega)]

/-- So are flags. -/
theorem readFlags_append (flags : List Bool) (y : List UInt8) :
    readFlags flags.length (flags.map flagByte ++ y) = .ok (flags, y) := by
  induction flags with
  | nil => rfl
  | cons flag flags ih =>
    rw [List.map_cons, List.cons_append, List.length_cons, readFlags, ih]
    cases flag <;> rfl

/-- So are floats. -/
theorem readFloats_append (xs : List F32) (y : List UInt8) :
    readFloats xs.length ((xs.flatMap fun x => leBytes 4 x.toNat) ++ y) = .ok (xs, y) := by
  induction xs with
  | nil => rfl
  | cons x xs ih =>
    rw [List.flatMap_cons, List.append_assoc, List.length_cons, readFloats,
      readWord_append x.isLt]
    show (readFloats xs.length _ >>= _ : Except CacheFileError _) = _
    rw [ih]
    simp [pure, Except.pure, bind, Except.bind]

/-- The sizes of the cache fit the header. -/
structure Fits (cache : EmbeddingCache) : Prop where
  dimension : cache.dimension < 2 ^ 32
  nextId : cache.nextId < 2 ^ 32

/-- **The format of `embeddings.bin`**: what was saved is loaded. -/
theorem loadFrom_toBytes {crc32 : List UInt8 → UInt32} {cache : EmbeddingCache} (h : cache.Fits) :
    loadFrom crc32 (cache.toBytes crc32) = .ok cache := by
  have hcount : cache.count < 2 ^ 32 := by
    have hle : cache.validIds.count true ≤ cache.validIds.length := List.count_le_length
    rw [cache.count_eq]
    exact Nat.lt_of_le_of_lt hle h.nextId
  have hmagic : ∀ y, readBytes 4 (cacheMagic ++ y) = .ok (cacheMagic, y) := by
    intro y
    simp [readBytes, cacheMagic]
  have hfloats := readFloats_append cache.embeddings
  rw [cache.embeddings_length] at hfloats
  unfold loadFrom toBytes headerBytes dataBytes
  simp only [List.append_assoc]
  rw [hmagic]
  simp only [bind, Except.bind, demand, beq_self_eq_true, if_true]
  rw [readWord_append (by decide)]
  simp only [beq_self_eq_true, if_true]
  rw [readWord_append h.dimension]
  simp only []
  rw [readWord_append hcount]
  simp only []
  rw [readWord_append h.nextId]
  simp only []
  rw [readWord_append (UInt32.toNat_lt _)]
  simp only [beq_self_eq_true, if_true]
  rw [show cache.nextId = cache.validIds.length from rfl, readFlags_append]
  simp only [← cache.count_eq, beq_self_eq_true, if_true]
  rw [hfloats]
  simp only []
  have hword := readWord_append (n := (crc32 (dataBytes cache.validIds cache.embeddings)).toNat)
    (UInt32.toNat_lt _) []
  rw [List.append_nil] at hword
  unfold dataBytes at hword
  rw [hword]
  simp only [beq_self_eq_true, if_true]
  unfold assemble
  rw [dif_pos ⟨cache.embeddings_length, cache.count_eq⟩]

end EmbeddingCache

/-! ## The directory -/

/-- The parts of `HnswConfig` that opens and saves use. -/
structure HnswConfig where
  dimension : ℕ
  persistGraphDump : Bool := true
  backfillHnswOnStartup : Bool := false

/-- The files `load` reads; temporary files are not among them. -/
structure WarmDir where
  embeddings : Option (List UInt8) := none
  mapping : Option IndexMapping := none
  /-- `mapping.json` of older versions -/
  legacyMapping : Option IndexMapping := none
  graphDump : Option (List Point) := none

/-- The store was built with another model. -/
inductive LoadError
  | denseIndexModelMismatch (storeDim modelDim : ℕ)
  deriving DecidableEq, Repr

namespace HnswIndex

variable (crc32 : List UInt8 → UInt32)

/-- The mapping file `load` prefers. -/
def loadMapping (dir : WarmDir) : Option IndexMapping :=
  dir.mapping.or dir.legacyMapping

/-- `EmbeddingCache::validate_consistency`. -/
def validateConsistency (cache : EmbeddingCache) (expectedDimension expectedNextId : ℕ) : Bool :=
  cache.dimension == expectedDimension && cache.nextId == expectedNextId

/-- The cache of `load_with_mode`, and the directory behind it: a cache that cannot be used is
deleted. -/
def loadCache (cfg : HnswConfig) (mapping : IndexMapping) (dir : WarmDir) :
    Except LoadError (EmbeddingCache × WarmDir) :=
  let discarded := (EmbeddingCache.new cfg.dimension, { dir with embeddings := none })
  match dir.embeddings with
  | none => .ok (.new cfg.dimension, dir)
  | some bytes =>
    match EmbeddingCache.loadFrom crc32 bytes with
    | .error _ => .ok discarded
    | .ok cache =>
      if cache.dimension ≠ cfg.dimension then
        if cfg.backfillHnswOnStartup then .ok discarded
        else .error (.denseIndexModelMismatch cache.dimension cfg.dimension)
      else if !validateConsistency cache cfg.dimension mapping.nextId then .ok discarded
      else .ok (cache, dir)

/-- The dumped graph if it has as many points as the cache, else a graph built from the
cache. -/
def loadGraph (cfg : HnswConfig) (cache : EmbeddingCache) (dir : WarmDir) : List Point :=
  match dir.graphDump with
  | some graph =>
    if cfg.persistGraphDump && cache.count != 0 && graph.length == cache.count then graph
    else cache.iterValid
  | none => cache.iterValid

/-- `with_persistence`: a directory without a mapping is opened as an empty index. -/
def withPersistence (cfg : HnswConfig) (dir : WarmDir) : Except LoadError (HnswIndex × WarmDir) :=
  match loadMapping dir with
  | none => .ok (.new cfg.dimension, dir)
  | some mapping => do
    let (cache, dir) ← loadCache crc32 cfg mapping dir
    pure ({ dimension := cfg.dimension, mapping := mapping, cache := cache,
            graph := loadGraph cfg cache dir }, dir)

/-- The file operations of `save_to`, in order: the two renames, the removal of the legacy
mapping, the configuration, the purge of the old dump and the new dump. -/
def saveOps (cfg : HnswConfig) (ix : HnswIndex) : List (WarmDir → WarmDir) :=
  [fun dir => { dir with embeddings := some (ix.cache.toBytes crc32) },
   fun dir => { dir with mapping := some ix.mapping },
   fun dir => { dir with legacyMapping := none },
   id,
   fun dir => { dir with graphDump := none },
   fun dir => if cfg.persistGraphDump then { dir with graphDump := some ix.graph } else dir]

/-- The directory when the save is stopped behind `n` operations. -/
def saveUpTo (cfg : HnswConfig) (ix : HnswIndex) (n : ℕ) (dir : WarmDir) : WarmDir :=
  ((saveOps crc32 cfg ix).take n).foldl (fun dir op => op dir) dir

/-- `save_to`. -/
def saveTo (cfg : HnswConfig) (ix : HnswIndex) (dir : WarmDir) : WarmDir :=
  saveUpTo crc32 cfg ix (saveOps crc32 cfg ix).length dir

/-- The valid embeddings an open finds. -/
def loaded (cfg : HnswConfig) (dir : WarmDir) : ℕ → Option Embedding :=
  match withPersistence crc32 cfg dir with
  | .ok r => r.1.cache.get
  | .error _ => fun _ => none

/-- A call with nobody else around. -/
def callAlone (ix : HnswIndex) (req : IndexRequest) : HnswIndex :=
  ([.start req, .next 0, .next 0, .next 0].foldl DenseSystem.step ⟨ix, [], []⟩).index

end HnswIndex

/-! ## Runs -/

/-- The index of the running process, if any, and its directory. -/
structure DenseStore where
  index : Option HnswIndex := none
  dir : WarmDir := {}

/-- What happens to an index and its directory. -/
inductive PersistOp
  /-- an insert, a batch (also of chunks that are mapped already), or a rebuild -/
  | request (req : IndexRequest)
  | save
  /-- the process stops while it saves, behind `n` file operations -/
  | stopInSave (n : ℕ)
  | stop
  /-- `embeddings.bin` is lost -/
  | loseEmbeddings
  | openIndex

namespace DenseStore

variable (crc32 : List UInt8 → UInt32)

/-- What it does to them. -/
def step (cfg : HnswConfig) (s : DenseStore) : PersistOp → DenseStore
  | .request req => { s with index := s.index.map (·.callAlone req) }
  | .save =>
    match s.index with
    | none => s
    | some ix => { s with dir := ix.saveTo crc32 cfg s.dir }
  | .stopInSave n =>
    match s.index with
    | none => s
    | some ix => ⟨none, ix.saveUpTo crc32 cfg n s.dir⟩
  | .stop => { s with index := none }
  | .loseEmbeddings => { s with dir := { s.dir with embeddings := none } }
  | .openIndex =>
    match s.index, HnswIndex.withPersistence crc32 cfg s.dir with
    | none, .ok (ix, dir) => ⟨some ix, dir⟩
    | _, _ => s

/-- A run from an empty directory. -/
def run (cfg : HnswConfig) (ops : List PersistOp) : DenseStore :=
  ops.foldl (step crc32 cfg) {}

end DenseStore

/-! ## The dimension never changes -/

namespace HnswIndex

/-- Index and cache are of the configured dimension. -/
structure OfDimension (ix : HnswIndex) (dimension : ℕ) : Prop where
  index : ix.dimension = dimension
  cache : ix.cache.dimension = dimension

variable {crc32 : List UInt8 → UInt32} {ix : HnswIndex} {dimension : ℕ}

/-- An insert keeps the dimension of the cache. -/
theorem dimension_insert {cache cache' : EmbeddingCache} {id : ℕ} {e : Embedding}
    (h : cache.insert id e = .ok cache') : cache'.dimension = cache.dimension := by
  unfold EmbeddingCache.insert at h
  split at h
  · rw [← Except.ok.inj h]
    rfl
  · exact absurd h (by simp)

/-- So does the loop of a batch. -/
theorem dimension_batchLoop (d : ℕ) (items : List (ChunkId × Embedding)) (m : IndexMapping)
    (cache : EmbeddingCache) (toInsert : List Point) :
    (batchLoop d items m cache toInsert).2.1.dimension = cache.dimension := by
  induction items generalizing m cache toInsert with
  | nil => rfl
  | cons item items ih =>
    obtain ⟨c, e⟩ := item
    rw [batchLoop]
    split
    · rfl
    · cases hinsert : cache.insert (m.insert c).1 e with
      | error err => rfl
      | ok cache' => exact (ih _ cache' _).trans (dimension_insert hinsert)

/-- A call that starts keeps the dimension. -/
theorem OfDimension.start (h : ix.OfDimension dimension) (req : IndexRequest) :
    (ix.start req).index.OfDimension dimension := by
  cases req with
  | insert c e =>
    unfold HnswIndex.start
    dsimp only
    split
    · exact h
    · exact ⟨h.index, h.cache⟩
  | insertBatch items =>
    have hloop := dimension_batchLoop ix.dimension items ix.mapping ix.cache []
    unfold HnswIndex.start
    dsimp only
    split
    · rename_i heq
      rw [heq] at hloop
      exact ⟨h.index, hloop.trans h.cache⟩
    · rename_i heq
      rw [heq] at hloop
      exact ⟨h.index, hloop.trans h.cache⟩
  | rebuild deleted => exact h

/-- So does every step of a call. -/
theorem OfDimension.advance (h : ix.OfDimension dimension) (call : IndexCall) :
    (ix.advance call).index.OfDimension dimension := by
  cases call with
  | insertMapped c id e =>
    unfold HnswIndex.advance
    dsimp only
    cases hinsert : ix.cache.insert id e with
    | error err => exact h
    | ok cache' => exact ⟨h.index, (dimension_insert hinsert).trans h.cache⟩
  | insertCached c id e => exact ⟨h.index, h.cache⟩
  | batchCached cs toInsert => exact ⟨h.index, h.cache⟩
  | rebuildCollected cs ids => exact h
  | rebuildBuilt cs ids graph => exact ⟨h.index, h.cache⟩
  | rebuildSwapped cs ids =>
    exact ⟨h.index, (ix.cache.dimension_markAllInvalid ids).trans h.cache⟩

/-- So does the system. -/
theorem OfDimension.step {s : DenseSystem} (h : s.index.OfDimension dimension) (a : DenseStep) :
    (s.step a).index.OfDimension dimension := by
  cases a with
  | start req => exact h.start req
  | next k =>
    unfold DenseSystem.step
    dsimp only
    cases s.calls[k]? with
    | none => exact h
    | some call =>
      dsimp only
      cases (s.index.advance call).call with
      | none => exact h.advance call
      | some call' => exact h.advance call

/-- So does a call with nobody else around. -/
theorem OfDimension.callAlone (h : ix.OfDimension dimension) (req : IndexRequest) :
    (ix.callAlone req).OfDimension dimension :=
  (((OfDimension.step (s := ⟨ix, [], []⟩) h (.start req)).step (.next 0)).step (.next 0)).step
    (.next 0)

/-- A loaded cache has the configured dimension. -/
theorem loadCache_dimension {cfg : HnswConfig} {mapping : IndexMapping} {dir : WarmDir}
    {r : EmbeddingCache × WarmDir} (h : loadCache crc32 cfg mapping dir = .ok r) :
    r.1.dimension = cfg.dimension := by
  unfold loadCache at h
  dsimp only at h
  split at h
  · rw [← Except.ok.inj h]
    rfl
  · split at h
    · rw [← Except.ok.inj h]
      rfl
    · split_ifs at h with hdim hbackfill hvalid
      · rw [← Except.ok.inj h]
        rfl
      · rw [← Except.ok.inj h]
        rfl
      · rw [← Except.ok.inj h]
        exact not_not.mp hdim

/-- So has an opened index. -/
theorem withPersistence_dimension {cfg : HnswConfig} {dir : WarmDir} {r : HnswIndex × WarmDir}
    (h : withPersistence crc32 cfg dir = .ok r) : r.1.OfDimension cfg.dimension := by
  unfold withPersistence at h
  cases hm : loadMapping dir with
  | none =>
    rw [hm] at h
    rw [← Except.ok.inj h]
    exact ⟨rfl, rfl⟩
  | some mapping =>
    rw [hm] at h
    cases hcache : loadCache crc32 cfg mapping dir with
    | error err =>
      simp only [hcache, bind, Except.bind] at h
      exact absurd h (by simp)
    | ok r' =>
      simp only [hcache, bind, Except.bind, pure, Except.pure] at h
      rw [← Except.ok.inj h]
      exact ⟨rfl, loadCache_dimension hcache⟩

end HnswIndex

open HnswIndex

/-- **The dimension never changes**, over any run. -/
theorem DenseStore.ofDimension_run (crc32 : List UInt8 → UInt32) (cfg : HnswConfig)
    (ops : List PersistOp) :
    ∀ ix ∈ (run crc32 cfg ops).index, ix.OfDimension cfg.dimension := by
  unfold run
  have hinit : ∀ ix ∈ ({} : DenseStore).index, ix.OfDimension cfg.dimension := by simp
  generalize ({} : DenseStore) = s at hinit
  induction ops generalizing s with
  | nil => exact hinit
  | cons op ops ih =>
    refine ih (s.step crc32 cfg op) ?_
    cases op with
    | request req =>
      intro ix hix
      obtain ⟨ix₀, hix₀, rfl⟩ := Option.map_eq_some_iff.mp hix
      exact (hinit ix₀ hix₀).callAlone req
    | save =>
      unfold step
      dsimp only
      cases hs : s.index with
      | none =>
        intro ix hix
        exact hinit ix hix
      | some ix₀ =>
        rw [hs] at hinit
        intro ix hix
        exact hinit ix hix
    | stopInSave n =>
      unfold step
      dsimp only
      cases hs : s.index with
      | none =>
        intro ix hix
        exact hinit ix hix
      | some ix₀ =>
        intro ix hix
        exact absurd hix (by simp)
    | stop =>
      intro ix hix
      exact absurd hix (by simp [step])
    | loseEmbeddings => exact hinit
    | openIndex =>
      unfold step
      dsimp only
      split
      · rename_i hopen
        intro ix hix
        obtain rfl := Option.mem_some_iff.mp hix
        exact withPersistence_dimension hopen
      · exact hinit

/-! ## What an open finds -/

section Load

variable {crc32 : List UInt8 → UInt32} {cfg : HnswConfig} {ix : HnswIndex} {dir : WarmDir}

/-- An open of a directory with this cache: the mapping decides whether it is used. -/
theorem withPersistence_of_files {mapping : IndexMapping} (hdim : ix.cache.dimension = cfg.dimension)
    (hfits : ix.cache.Fits) (hcache : dir.embeddings = some (ix.cache.toBytes crc32))
    (hmapping : loadMapping dir = some mapping) :
    ∃ r : HnswIndex × WarmDir, withPersistence crc32 cfg dir = .ok r ∧ r.1.mapping = mapping ∧
      r.1.cache = if ix.cache.nextId = mapping.nextId then ix.cache else .new cfg.dimension := by
  have hload : loadCache crc32 cfg mapping dir =
      .ok (if ix.cache.nextId = mapping.nextId then (ix.cache, dir)
        else (.new cfg.dimension, { dir with embeddings := none })) := by
    unfold loadCache
    simp only [hcache, EmbeddingCache.loadFrom_toBytes hfits, hdim, ne_eq, not_true_eq_false,
      if_false, validateConsistency, beq_self_eq_true, Bool.true_and]
    by_cases heq : ix.cache.nextId = mapping.nextId
    · simp [heq]
    · simp [heq]
  unfold withPersistence
  simp only [hmapping, hload, bind, Except.bind, pure, Except.pure]
  refine ⟨_, rfl, rfl, ?_⟩
  split
  · rfl
  · rfl

/-- An empty cache has no embedding. -/
theorem get_new (d : ℕ) : (EmbeddingCache.new d).get = fun _ => none := by
  funext id
  rfl

/-- What an open finds, told from the files. -/
theorem loaded_of_files {mapping : IndexMapping} (hdim : ix.cache.dimension = cfg.dimension)
    (hfits : ix.cache.Fits) (hcache : dir.embeddings = some (ix.cache.toBytes crc32))
    (hmapping : loadMapping dir = some mapping) :
    loaded crc32 cfg dir =
      if ix.cache.nextId = mapping.nextId then ix.cache.get else fun _ => none := by
  obtain ⟨r, hopen, _, hget⟩ := withPersistence_of_files hdim hfits hcache hmapping
  unfold loaded
  rw [hopen]
  show r.1.cache.get = _
  rw [hget]
  split
  · rfl
  · exact get_new _

/-- Without a mapping it finds nothing. -/
theorem loaded_of_no_mapping (h : loadMapping dir = none) : loaded crc32 cfg dir = fun _ => none := by
  unfold loaded withPersistence
  rw [h]
  exact get_new _

/-- Behind the second rename both files are the new ones. -/
theorem saveUpTo_files (n : ℕ) :
    (ix.saveUpTo crc32 cfg (n + 2) dir).embeddings = some (ix.cache.toBytes crc32) ∧
      loadMapping (ix.saveUpTo crc32 cfg (n + 2) dir) = some ix.mapping := by
  have hkeep : ∀ (ops : List (WarmDir → WarmDir)) (d : WarmDir),
      (∀ op ∈ ops, ∀ d, (op d).embeddings = d.embeddings ∧ (op d).mapping = d.mapping) →
      (ops.foldl (fun d op => op d) d).embeddings = d.embeddings ∧
        (ops.foldl (fun d op => op d) d).mapping = d.mapping := by
    intro ops
    induction ops with
    | nil => exact fun d _ => ⟨rfl, rfl⟩
    | cons op ops ih =>
      intro d hops
      obtain ⟨hemb, hmap⟩ := ih (op d) fun op' hop' => hops op' (by simp [hop'])
      obtain ⟨hemb', hmap'⟩ := hops op (by simp) d
      exact ⟨hemb.trans hemb', hmap.trans hmap'⟩
  -- the operations behind the second rename touch neither file
  have hrest : ∀ op ∈ ((saveOps crc32 cfg ix).drop 2).take n, ∀ d : WarmDir,
      (op d).embeddings = d.embeddings ∧ (op d).mapping = d.mapping := by
    intro op hop d
    have hmem : op ∈ (saveOps crc32 cfg ix).drop 2 := List.mem_of_mem_take hop
    simp only [saveOps, List.drop_succ_cons, List.drop_zero, List.mem_cons, List.not_mem_nil,
      or_false] at hmem
    rcases hmem with rfl | rfl | rfl | rfl
    · exact ⟨rfl, rfl⟩
    · exact ⟨rfl, rfl⟩
    · exact ⟨rfl, rfl⟩
    · split
      · exact ⟨rfl, rfl⟩
      · exact ⟨rfl, rfl⟩
  obtain ⟨hemb, hmap⟩ := hkeep _
    { dir with embeddings := some (ix.cache.toBytes crc32), mapping := some ix.mapping } hrest
  constructor
  · exact hemb
  · show Option.or (ix.saveUpTo crc32 cfg (n + 2) dir).mapping _ = _
    have hmap' : (ix.saveUpTo crc32 cfg (n + 2) dir).mapping = some ix.mapping := hmap
    rw [hmap']
    rfl

end Load

/-! ## When a save keeps the embeddings -/

/-- A load behind a save gives back the mapping and the valid embeddings, and a load behind a
save that was stopped finds those of before or those of the save, and all that are in both. -/
structure SaveSafe (crc32 : List UInt8 → UInt32) (cfg : HnswConfig) (ix : HnswIndex)
    (dir : WarmDir) : Prop where
  restores : ∃ r, withPersistence crc32 cfg (ix.saveTo crc32 cfg dir) = .ok r ∧
    r.1.mapping = ix.mapping ∧ ∀ id, r.1.cache.get id = ix.cache.get id
  eitherSave : ∀ n, loaded crc32 cfg (ix.saveUpTo crc32 cfg n dir) = loaded crc32 cfg dir ∨
    loaded crc32 cfg (ix.saveUpTo crc32 cfg n dir) = ix.cache.get
  keeps : ∀ n id e, loaded crc32 cfg dir id = some e → ix.cache.get id = some e →
    loaded crc32 cfg (ix.saveUpTo crc32 cfg n dir) id = some e

/-- The cache has a slot for every id of the mapping, and so it has for the mapping on disk
unless there is nothing to lose. -/
def SlotsMatch (crc32 : List UInt8 → UInt32) (cfg : HnswConfig) (ix : HnswIndex) (dir : WarmDir) :
    Prop :=
  ix.cache.get = (fun _ => none) ∨
    ix.cache.nextId = ix.mapping.nextId ∧
      ((∀ m ∈ loadMapping dir, ix.cache.nextId = m.nextId) ∨ loaded crc32 cfg dir = fun _ => none)

section Save

variable {crc32 : List UInt8 → UInt32} {cfg : HnswConfig} {ix : HnswIndex} {dir : WarmDir}

/-- Behind both renames it finds the cache if its slots fit the mapping. -/
theorem loaded_full (hdim : ix.cache.dimension = cfg.dimension) (hfits : ix.cache.Fits) (n : ℕ) :
    loaded crc32 cfg (ix.saveUpTo crc32 cfg (n + 2) dir) =
      if ix.cache.nextId = ix.mapping.nextId then ix.cache.get else fun _ => none :=
  loaded_of_files hdim hfits (saveUpTo_files n).1 (saveUpTo_files n).2

/-- **A complete save** can be loaded if its slots fit, or nothing is valid. -/
theorem saveTo_restores (hdim : ix.cache.dimension = cfg.dimension) (hfits : ix.cache.Fits) :
    (∃ r, withPersistence crc32 cfg (ix.saveTo crc32 cfg dir) = .ok r ∧ r.1.mapping = ix.mapping ∧
      ∀ id, r.1.cache.get id = ix.cache.get id) ↔
    ix.cache.get = (fun _ => none) ∨ ix.cache.nextId = ix.mapping.nextId := by
  have hfiles : (ix.saveUpTo crc32 cfg 6 dir).embeddings = some (ix.cache.toBytes crc32) ∧
      loadMapping (ix.saveUpTo crc32 cfg 6 dir) = some ix.mapping := saveUpTo_files 4
  obtain ⟨r, hopen, hmapping, hcache⟩ := withPersistence_of_files hdim hfits hfiles.1 hfiles.2
  have hopen' : withPersistence crc32 cfg (ix.saveTo crc32 cfg dir) = .ok r := hopen
  constructor
  · rintro ⟨r', hr', _, hget⟩
    obtain rfl : r = r' := Except.ok.inj (hopen'.symm.trans hr')
    by_cases heq : ix.cache.nextId = ix.mapping.nextId
    · exact .inr heq
    · rw [hcache, if_neg heq, get_new] at hget
      exact .inl (funext fun id => (hget id).symm)
  · intro h
    refine ⟨r, hopen', hmapping, ?_⟩
    intro id
    rw [hcache]
    split
    · rfl
    · rename_i hne
      rcases h with hnone | heq
      · rw [hnone, get_new]
      · exact absurd heq hne

/-- The one moment in which the files of two saves lie side by side. -/
theorem loaded_between (hdim : ix.cache.dimension = cfg.dimension) (hfits : ix.cache.Fits) :
    loaded crc32 cfg (ix.saveUpTo crc32 cfg 1 dir) =
      match loadMapping dir with
      | none => fun _ => none
      | some m => if ix.cache.nextId = m.nextId then ix.cache.get else fun _ => none := by
  cases hm : loadMapping dir with
  | none => exact loaded_of_no_mapping hm
  | some m =>
    have hcache : (ix.saveUpTo crc32 cfg 1 dir).embeddings = some (ix.cache.toBytes crc32) := rfl
    exact loaded_of_files hdim hfits hcache hm

/-- Wherever the save stops, an open finds one of three things. -/
theorem loaded_saveUpTo (hdim : ix.cache.dimension = cfg.dimension) (hfits : ix.cache.Fits)
    (h : SlotsMatch crc32 cfg ix dir) (n : ℕ) :
    loaded crc32 cfg (ix.saveUpTo crc32 cfg n dir) = ix.cache.get ∨
      loaded crc32 cfg (ix.saveUpTo crc32 cfg n dir) = loaded crc32 cfg dir ∨
      ix.cache.get = (fun _ => none) ∧
        loaded crc32 cfg (ix.saveUpTo crc32 cfg n dir) = fun _ => none := by
  match n with
  | 0 => exact .inr (.inl rfl)
  | 1 =>
    rw [loaded_between hdim hfits]
    cases hm : loadMapping dir with
    | none => exact .inr (.inl (loaded_of_no_mapping hm).symm)
    | some m =>
      by_cases heq : ix.cache.nextId = m.nextId
      · exact .inl (if_pos heq)
      · dsimp only
        rw [if_neg heq]
        rcases h with hnone | ⟨_, hslots | hempty⟩
        · exact .inr (.inr ⟨hnone, rfl⟩)
        · exact absurd (hslots m hm) heq
        · exact .inr (.inl hempty.symm)
  | n + 2 =>
    rw [loaded_full hdim hfits]
    by_cases heq : ix.cache.nextId = ix.mapping.nextId
    · exact .inl (if_pos heq)
    · rw [if_neg heq]
      rcases h with hnone | ⟨hslots, _⟩
      · exact .inr (.inr ⟨hnone, rfl⟩)
      · exact absurd hslots heq

/-- Slots that fit make every stop of a save safe. -/
theorem saveSafe_of_slotsMatch (hdim : ix.cache.dimension = cfg.dimension) (hfits : ix.cache.Fits)
    (h : SlotsMatch crc32 cfg ix dir) : SaveSafe crc32 cfg ix dir where
  restores := (saveTo_restores hdim hfits).mpr (h.imp_right (·.1))
  eitherSave := by
    intro n
    rcases loaded_saveUpTo hdim hfits h n with hnew | hold | ⟨hnone, hempty⟩
    · exact .inr hnew
    · exact .inl hold
    · exact .inr (hempty.trans hnone.symm)
  keeps := by
    intro n id e hdisk hmem
    rcases loaded_saveUpTo hdim hfits h n with hnew | hold | ⟨hnone, _⟩
    · rw [hnew]
      exact hmem
    · rw [hold]
      exact hdisk
    · rw [hnone] at hmem
      exact absurd hmem (by simp)

/-- And they have to fit. -/
theorem slotsMatch_of_saveSafe (hdim : ix.cache.dimension = cfg.dimension) (hfits : ix.cache.Fits)
    (h : SaveSafe crc32 cfg ix dir) : SlotsMatch crc32 cfg ix dir := by
  rcases (saveTo_restores hdim hfits).mp h.restores with hnone | heq
  · exact .inl hnone
  by_cases hnone : ix.cache.get = fun _ => none
  · exact .inl hnone
  refine .inr ⟨heq, ?_⟩
  by_cases hslots : ∀ m ∈ loadMapping dir, ix.cache.nextId = m.nextId
  · exact .inl hslots
  · -- the save is stopped between the two renames
    push Not at hslots
    obtain ⟨m, hm, hne⟩ := hslots
    have hbetween : loaded crc32 cfg (ix.saveUpTo crc32 cfg 1 dir) = fun _ => none := by
      rw [loaded_between hdim hfits, Option.mem_def.mp hm]
      exact if_neg hne
    rcases h.eitherSave 1 with hold | hnew
    · exact .inr (hold.symm.trans hbetween)
    · exact absurd (hnew.symm.trans hbetween) hnone

end Save

namespace DenseStore

/-- **Saving and loading** in every state of every run: a save can be loaded again and can be
stopped anywhere exactly when the cache has a slot for every mapped id, in the mapping of the
index and in the one on disk, or when there is nothing to lose. -/
theorem save_safe_iff (crc32 : List UInt8 → UInt32) (cfg : HnswConfig) (ops : List PersistOp)
    (ix : HnswIndex) (hrun : (run crc32 cfg ops).index = some ix) (hfits : ix.cache.Fits) :
    SaveSafe crc32 cfg ix (run crc32 cfg ops).dir ↔
      SlotsMatch crc32 cfg ix (run crc32 cfg ops).dir := by
  have hdim := (ofDimension_run crc32 cfg ops ix hrun).cache
  exact ⟨slotsMatch_of_saveSafe hdim hfits, saveSafe_of_slotsMatch hdim hfits⟩

/-- One dimension, with the graph dumped. -/
def sampleConfig : HnswConfig := ⟨1, true, false⟩

/-- The index of a run that ends with a process running. -/
def sampleIndex (ops : List PersistOp) : HnswIndex :=
  (run crc32 sampleConfig ops).index.getD (.new 1)

/-- The index of a run. -/
theorem index_eq_sampleIndex {ops : List PersistOp}
    (h : (run crc32 sampleConfig ops).index.isSome = true) :
    (run crc32 sampleConfig ops).index = some (sampleIndex ops) := by
  obtain ⟨ix, hix⟩ := Option.isSome_iff_exists.mp h
  rw [sampleIndex, hix]
  rfl

/-- A chunk is embedded and saved, and embedded again behind a restart. -/
def sampleResave : List PersistOp :=
  [.openIndex, .request (.insert 5 [0]), .save, .stop, .openIndex, .request (.insert 5 [1])]

/-- An embedding that is replaced, and saved again. -/
theorem save_safe_iff_sampleResave :
    (run crc32 sampleConfig sampleResave).index = some (sampleIndex sampleResave) ∧
      (sampleIndex sampleResave).cache.get 0 = some [1] ∧
      loaded crc32 sampleConfig (run crc32 sampleConfig sampleResave).dir 0 = some [0] ∧
      SaveSafe crc32 sampleConfig (sampleIndex sampleResave)
        (run crc32 sampleConfig sampleResave).dir := by
  have hsome : (run crc32 sampleConfig sampleResave).index.isSome = true := by decide +kernel
  have hrun := index_eq_sampleIndex hsome
  refine ⟨hrun, by decide +kernel, by decide +kernel, ?_⟩
  have hslots : SlotsMatch crc32 sampleConfig (sampleIndex sampleResave)
      (run crc32 sampleConfig sampleResave).dir :=
    .inr ⟨by decide +kernel, .inl (by decide +kernel)⟩
  exact (save_safe_iff _ _ _ _ hrun ⟨by decide +kernel, by decide +kernel⟩).mpr hslots

/-- A chunk is embedded and saved, then a second one is embedded. -/
def sampleGrown : List PersistOp :=
  [.openIndex, .request (.insert 5 [0]), .save, .request (.insert 6 [1])]

/-- Two chunks are embedded and saved, the embeddings are lost, and the first chunk is embedded
again. -/
def sampleLost : List PersistOp :=
  [.openIndex, .request (.insertBatch [(5, [0]), (6, [1])]), .save, .stop, .loseEmbeddings,
   .openIndex, .request (.insert 5 [0])]

/-- Stopped between the two renames, the next save loses the embedding that was on disk and is
still valid; and behind a partial re-embedding a save that completes cannot be loaded. -/
theorem save_discards_embeddings :
    ((run crc32 sampleConfig sampleGrown).index = some (sampleIndex sampleGrown) ∧
      loaded crc32 sampleConfig (run crc32 sampleConfig sampleGrown).dir 0 = some [0] ∧
      (sampleIndex sampleGrown).cache.get 0 = some [0] ∧
      loaded crc32 sampleConfig ((sampleIndex sampleGrown).saveUpTo crc32 sampleConfig 1
        (run crc32 sampleConfig sampleGrown).dir) 0 = none) ∧
    (run crc32 sampleConfig sampleLost).index = some (sampleIndex sampleLost) ∧
      (sampleIndex sampleLost).cache.get 0 = some [0] ∧
      loaded crc32 sampleConfig ((sampleIndex sampleLost).saveTo crc32 sampleConfig
        (run crc32 sampleConfig sampleLost).dir) 0 = none := by
  refine ⟨⟨index_eq_sampleIndex (by decide), ?_, ?_, ?_⟩,
    index_eq_sampleIndex (by decide), ?_, ?_⟩
  all_goals decide +kernel

end DenseStore
