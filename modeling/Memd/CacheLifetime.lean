/-
# The lifetime of cached results

`tiered/semantic_cache.rs` with its clock and its counters, one call after the other.  The record
store drops a record `ttl_seconds` after it was last put there, and may drop it earlier; the index
of the cached queries is not told.

* `Inv` — where the records come from, when they were put in, and what was counted;
* `cacheLaw` — for every run: what a hit returns, the keys of the index, and the counters.

A hit puts its record back and so starts its time anew; `sampleVisits` is a run with a hit on
results that are older than `ttl_seconds`.  A lookup without a similar query, or whose record is
gone, is counted as a lookup and neither as a hit nor as a miss.
-/
import Memd.TieredCache

namespace TimedCache

open SemanticCache (embeddingHash bestMatch putIndex)

/-! ## The cache -/

/-- What the cache reads of its configuration. -/
structure CacheConfig where
  ttlSeconds : ℕ
  /-- `(confidence + confidence_boost_on_hit).min(1.0)` -/
  boosted : F32 → F32

/-- `CacheEntry`. -/
structure CacheEntry where
  queryEmbedding : Embedding
  results : List CachedResult
  scope : CacheScope
  memoryVersion : ℕ
  createdAt : ℤ
  lastHit : ℤ
  hitCount : ℕ
  confidence : F32
  deriving DecidableEq

/-- A record of the store: an entry and the limit it was retrieved with. -/
structure Record where
  entry : CacheEntry
  retrievalLimit : ℕ
  deriving DecidableEq

/-- A record of the store and when it was put there. -/
structure Stored where
  record : Record
  insertedAt : ℤ
  deriving DecidableEq

/-- `CacheStats`. -/
structure CacheStats where
  totalLookups : ℕ := 0
  cacheHits : ℕ := 0
  cacheMisses : ℕ := 0
  versionInvalidations : ℕ := 0
  ttlExpirations : ℕ := 0
  deriving DecidableEq, Repr

/-- The store of records, the query index and the statistics. -/
structure Cache where
  entries : List UInt8 → Option Stored := fun _ => none
  queryIndex : List QueryIndexEntry := []
  stats : CacheStats := {}

/-- `CacheHit`: what a lookup returns. -/
structure CacheHit where
  results : List CachedResult
  similarity : F32
  confidence : F32
  ageMs : ℕ
  cacheKey : List UInt8
  deriving DecidableEq

variable (E : CacheExternals) (cfg : CacheConfig)

/-- The time to live in milliseconds. -/
def CacheConfig.ttlMs : ℤ := cfg.ttlSeconds * 1000

namespace Cache

/-- `entries.get`: nothing once the time to live is over. -/
def get (c : Cache) (now : ℤ) (key : List UInt8) : Option Record :=
  (c.entries key).bind fun s => if now < s.insertedAt + cfg.ttlMs then some s.record else none

/-- `entries.insert`. -/
def put (c : Cache) (now : ℤ) (key : List UInt8) (r : Record) : Cache :=
  { c with entries := Function.update c.entries key (some ⟨r, now⟩) }

/-- The record as a hit writes it back. -/
def touched (now : ℤ) (r : Record) : Record :=
  { r with entry := { r.entry with
    lastHit := now
    hitCount := r.entry.hitCount + 1
    confidence := cfg.boosted r.entry.confidence } }

/-- `lookup_with_limit`. -/
def lookupWithLimit (c : Cache) (now : ℤ) (query : Embedding) (scope : CacheScope)
    (currentVersion requestedLimit : ℕ) : Option CacheHit × Cache :=
  let stats := { c.stats with totalLookups := c.stats.totalLookups + 1 }
  let missed := { stats with cacheMisses := stats.cacheMisses + 1 }
  match bestMatch E query scope c.queryIndex with
  -- the source counts neither a miss nor a hit where nothing similar is found
  | none => (none, { c with stats := stats })
  | some (cacheKey, similarity) =>
    match c.get cfg now cacheKey with
    -- nor where the record is gone from the store
    | none => (none, { c with stats := stats })
    | some record =>
      -- a record older than the tenant's version is refused, and counted
      if record.entry.memoryVersion < currentVersion then
        (none, { c with stats := { missed with
          versionInvalidations := missed.versionInvalidations + 1 } })
      -- so is one that was retrieved with a smaller limit
      else if record.retrievalLimit < requestedLimit then (none, { c with stats := missed })
      else
        -- the hit is written back, which starts its time to live again
        let record := touched cfg now record
        (some ⟨record.entry.results, similarity, record.entry.confidence,
            (now - record.entry.createdAt).toNat, cacheKey⟩,
          { c.put now cacheKey record with
            stats := { stats with cacheHits := stats.cacheHits + 1 } })

/-- `insert_with_limit`. -/
def insertWithLimit (c : Cache) (now : ℤ) (query : Embedding) (scope : CacheScope)
    (results : List CachedResult) (memoryVersion retrievalLimit : ℕ) : Cache :=
  let cacheKey := embeddingHash E scope query
  -- 0.5 as `f32`
  let entry : CacheEntry := ⟨query, results, scope, memoryVersion, now, now, 0, 0x3F000000⟩
  { c.put now cacheKey ⟨entry, retrievalLimit⟩ with
    queryIndex := putIndex ⟨cacheKey, query, scope⟩ c.queryIndex }

/-- Entries and index entries of the keys are dropped. -/
def dropKeys (c : Cache) (keys : List (List UInt8)) : Cache :=
  { c with
    entries := fun key => if keys.contains key then none else c.entries key
    queryIndex := c.queryIndex.filter fun e => !keys.contains e.cacheKey }

/-- `invalidate_tenant`. -/
def invalidateTenant (c : Cache) (t : TenantId) : Cache :=
  let keys := (c.queryIndex.filter fun e => e.scope.tenantId = t).map (·.cacheKey)
  { c with
    entries := fun key => if keys.contains key then none else c.entries key
    queryIndex := c.queryIndex.filter fun e => e.scope.tenantId ≠ t }

/-- `invalidate_by_version`. -/
def invalidateByVersion (c : Cache) (now : ℤ) (t : TenantId) (minVersion : ℕ) : Cache :=
  let keys := (c.queryIndex.filter fun e => e.scope.tenantId = t &&
    (c.get cfg now e.cacheKey).any fun r => r.entry.memoryVersion < minVersion).map (·.cacheKey)
  { c.dropKeys keys with stats := { c.stats with
    versionInvalidations := c.stats.versionInvalidations + keys.length } }

/-- `invalidate_chunks`. -/
def invalidateChunks (c : Cache) (now : ℤ) (cs : List ChunkId) : Cache :=
  c.dropKeys ((c.queryIndex.filter fun e => (c.get cfg now e.cacheKey).any fun r =>
    r.entry.results.any fun x => cs.contains x.chunkId).map (·.cacheKey))

/-- `prune_index`. -/
def pruneIndex (c : Cache) (now : ℤ) : Cache :=
  let kept := c.queryIndex.filter fun e => (c.get cfg now e.cacheKey).isSome
  { c with
    queryIndex := kept
    stats := { c.stats with
      ttlExpirations := c.stats.ttlExpirations + (c.queryIndex.length - kept.length) } }

/-- The store drops a record that is still alive: there is no room. -/
def evict (c : Cache) (key : List UInt8) : Cache :=
  { c with entries := Function.update c.entries key none }

end Cache

/-! ## Runs -/

/-- The calls of the cache, and the store's own evictions. -/
inductive CacheCall
  | lookup (query : Embedding) (scope : CacheScope) (currentVersion requestedLimit : ℕ)
  | insert (query : Embedding) (scope : CacheScope) (results : List CachedResult)
      (memoryVersion retrievalLimit : ℕ)
  | invalidateTenant (t : TenantId)
  | invalidateByVersion (t : TenantId) (minVersion : ℕ)
  | invalidateChunks (cs : List ChunkId)
  | pruneIndex
  | evict (key : List UInt8)

/-- A call and when it is made. -/
structure CacheStep where
  now : ℤ
  call : CacheCall

/-- What a call returns and the cache behind it. -/
def CacheStep.exec (c : Cache) (step : CacheStep) : Option CacheHit × Cache :=
  match step.call with
  | .lookup query scope version limit => c.lookupWithLimit E cfg step.now query scope version limit
  | .insert query scope results version limit =>
    (none, c.insertWithLimit E step.now query scope results version limit)
  | .invalidateTenant t => (none, c.invalidateTenant t)
  | .invalidateByVersion t version => (none, c.invalidateByVersion cfg step.now t version)
  | .invalidateChunks cs => (none, c.invalidateChunks cfg step.now cs)
  | .pruneIndex => (none, c.pruneIndex cfg step.now)
  | .evict key => (none, c.evict key)

/-- A run from an empty cache. -/
def run (steps : List CacheStep) : Cache :=
  steps.foldl (fun c step => (step.exec E cfg c).2) {}

/-- The cache after one more step. -/
theorem run_concat (steps : List CacheStep) (step : CacheStep) :
    run E cfg (steps ++ [step]) = (step.exec E cfg (run E cfg steps)).2 := by
  rw [run, run, List.foldl_append]
  rfl

/-! ### What a lookup finds -/

/-- How a lookup ends. -/
inductive LookupOutcome
  /-- no query of the index is similar, or its record is gone -/
  | notFound
  /-- the record is of an older version or of a smaller search -/
  | refused
  | hit
  deriving DecidableEq, Repr

/-- The record of the most similar query. -/
def found (c : Cache) (now : ℤ) (query : Embedding) (scope : CacheScope) : Option Record :=
  (bestMatch E query scope c.queryIndex).bind fun b => c.get cfg now b.1

/-- What a lookup comes to; nothing for another call. -/
def CacheStep.outcome (c : Cache) (step : CacheStep) : Option LookupOutcome :=
  match step.call with
  | .lookup query scope version limit =>
    match found E cfg c step.now query scope with
    | none => some .notFound
    | some r =>
      if r.entry.memoryVersion < version ∨ r.retrievalLimit < limit then some .refused
      else some .hit
  | _ => none

/-- The outcomes of the lookups of a run that goes on from `c`. -/
def outcomes (c : Cache) : List CacheStep → List LookupOutcome
  | [] => []
  | step :: steps =>
    (step.outcome E cfg c).toList ++ outcomes (step.exec E cfg c).2 steps

/-- The outcomes of one more step. -/
theorem outcomes_concat (c : Cache) (steps : List CacheStep) (step : CacheStep) :
    outcomes E cfg c (steps ++ [step]) = outcomes E cfg c steps ++
      (step.outcome E cfg (steps.foldl (fun c step => (step.exec E cfg c).2) c)).toList := by
  induction steps generalizing c with
  | nil => simp [outcomes]
  | cons s steps ih => simp [outcomes, ih]

/-! ## What a step does -/

section Steps

variable {E cfg}
variable {c c' : Cache}

/-- The counters of lookups. -/
def CacheStats.lookups (s : CacheStats) : ℕ × ℕ × ℕ :=
  (s.totalLookups, s.cacheHits, s.cacheMisses)

/-- Nothing is put in, and no lookup is counted. -/
structure Drops (c c' : Cache) : Prop where
  entries : ∀ key s, c'.entries key = some s → c.entries key = some s
  index : c'.queryIndex.Sublist c.queryIndex
  lookups : c'.stats.lookups = c.stats.lookups

/-- Dropping keys only drops. -/
theorem drops_dropKeys (c : Cache) (keys : List (List UInt8)) (stats : CacheStats)
    (h : stats.lookups = c.stats.lookups) : Drops c { c.dropKeys keys with stats := stats } := by
  refine ⟨fun key s hs => ?_, List.filter_sublist, h⟩
  have hget : (if keys.contains key then none else c.entries key) = some s := hs
  split_ifs at hget
  exact hget

/-- What is in the store behind an insertion. -/
theorem put_entries {now : ℤ} {key key' : List UInt8} {r : Record} {s : Stored}
    (h : (c.put now key r).entries key' = some s) :
    key' = key ∧ s = ⟨r, now⟩ ∨ c.entries key' = some s := by
  by_cases hkey : key' = key
  · subst hkey
    have hself : (c.put now key' r).entries key' = some ⟨r, now⟩ := Function.update_self ..
    exact Or.inl ⟨rfl, (Option.some.inj (hself.symm.trans h)).symm⟩
  · have hother : (c.put now key r).entries key' = c.entries key' := Function.update_of_ne hkey ..
    exact Or.inr (hother.symm.trans h)

/-- An eviction only drops. -/
theorem drops_evict (c : Cache) (key : List UInt8) : Drops c (c.evict key) := by
  refine ⟨fun key' s hs => ?_, List.Sublist.refl _, rfl⟩
  by_cases hkey : key' = key
  · subst hkey
    have hnone : (c.evict key').entries key' = none := Function.update_self ..
    exact absurd hs (by simp [hnone])
  · have hother : (c.evict key).entries key' = c.entries key' := Function.update_of_ne hkey ..
    exact hother.symm.trans hs

variable (E cfg) in
/-- A call that neither looks up nor inserts only drops. -/
theorem drops_exec (c : Cache) (step : CacheStep)
    (hlookup : ∀ query scope version limit, step.call ≠ .lookup query scope version limit)
    (hinsert : ∀ query scope results version limit,
      step.call ≠ .insert query scope results version limit) :
    (step.exec E cfg c).1 = none ∧ Drops c (step.exec E cfg c).2 ∧ step.outcome E cfg c = none := by
  obtain ⟨now, call⟩ := step
  cases call with
  | lookup query scope version limit => exact absurd rfl (hlookup query scope version limit)
  | insert query scope results version limit =>
    exact absurd rfl (hinsert query scope results version limit)
  | invalidateTenant t =>
    refine ⟨rfl, ⟨fun key s hs => ?_, List.filter_sublist, rfl⟩, rfl⟩
    exact (drops_dropKeys c _ c.stats rfl).entries key s hs
  | invalidateByVersion t version => exact ⟨rfl, drops_dropKeys c _ _ rfl, rfl⟩
  | invalidateChunks cs => exact ⟨rfl, drops_dropKeys c _ _ rfl, rfl⟩
  | pruneIndex => exact ⟨rfl, ⟨fun _ _ hs => hs, List.filter_sublist, rfl⟩, rfl⟩
  | evict key => exact ⟨rfl, drops_evict c key, rfl⟩

variable (E cfg) in
/-- What a lookup does, by its outcome. -/
theorem lookup_cases (c : Cache) (now : ℤ) (query : Embedding) (scope : CacheScope)
    (version limit : ℕ) :
    let step : CacheStep := ⟨now, .lookup query scope version limit⟩
    (step.outcome E cfg c = some .hit ∧ ∃ r key similarity stats,
        c.get cfg now key = some r ∧
        step.exec E cfg c = (some ⟨r.entry.results, similarity, cfg.boosted r.entry.confidence,
          (now - r.entry.createdAt).toNat, key⟩,
          { c.put now key (Cache.touched cfg now r) with stats := stats }) ∧
        stats.lookups = (c.stats.totalLookups + 1, c.stats.cacheHits + 1, c.stats.cacheMisses)) ∨
      ∃ outcome, step.outcome E cfg c = some outcome ∧ outcome ≠ .hit ∧ ∃ stats,
        step.exec E cfg c = (none, { c with stats := stats }) ∧
        stats.lookups = (c.stats.totalLookups + 1, c.stats.cacheHits,
          c.stats.cacheMisses + if outcome = .refused then 1 else 0) := by
  intro step
  have hexec : step.exec E cfg c = c.lookupWithLimit E cfg now query scope version limit := rfl
  rw [hexec, Cache.lookupWithLimit, CacheStep.outcome]
  cases hbest : bestMatch E query scope c.queryIndex with
  | none =>
    have hfound : found E cfg c now query scope = none := by rw [found, hbest]; rfl
    exact Or.inr ⟨.notFound, by simp only [step, hfound], by decide, _, rfl, rfl⟩
  | some b =>
    obtain ⟨key, similarity⟩ := b
    cases hget : c.get cfg now key with
    | none =>
      have hfound : found E cfg c now query scope = none := by rw [found, hbest]; exact hget
      refine Or.inr ⟨.notFound, by simp only [step, hfound], by decide, ?_⟩
      simp only [hget]
      exact ⟨_, rfl, rfl⟩
    | some r =>
      have hfound : found E cfg c now query scope = some r := by rw [found, hbest]; exact hget
      by_cases hversion : r.entry.memoryVersion < version
      · refine Or.inr ⟨.refused, by simp only [step, hfound, hversion, true_or, if_true], by decide, ?_⟩
        simp only [hget, if_pos hversion]
        exact ⟨_, rfl, rfl⟩
      · by_cases hlimit : r.retrievalLimit < limit
        · refine Or.inr ⟨.refused, by simp only [step, hfound, hlimit, or_true, if_true], by decide, ?_⟩
          simp only [hget, if_neg hversion, if_pos hlimit]
          exact ⟨_, rfl, rfl⟩
        · refine Or.inl ⟨by simp only [step, hfound, hversion, hlimit, or_self, if_false], r, key,
            similarity, ?_⟩
          simp only [hget, if_neg hversion, if_neg hlimit]
          exact ⟨_, trivial, rfl, rfl⟩

end Steps

/-! ## What every run keeps -/

/-- The record was put in by this insert; as long as it is not hit it stays as it was put in. -/
structure InsertedBy (key : List UInt8) (s : Stored) (step : CacheStep) : Prop where
  call : ∃ query scope version limit,
    step.call = .insert query scope s.record.entry.results version limit ∧
      key = embeddingHash E scope query
  created : s.record.entry.createdAt = step.now
  unhit : s.record.entry.hitCount = 0 → s.insertedAt = step.now

/-- The invariant: records come from inserts, no key is twice in the index, and every lookup is
counted by its outcome. -/
structure Inv (steps : List CacheStep) : Prop where
  inserted : ∀ key s, (run E cfg steps).entries key = some s → ∃ step ∈ steps, InsertedBy E key s step
  keys : ((run E cfg steps).queryIndex.map (·.cacheKey)).Nodup
  counted : (run E cfg steps).stats.lookups = ((outcomes E cfg {} steps).length,
    (outcomes E cfg {} steps).count .hit, (outcomes E cfg {} steps).count .refused)

section Run

variable {E cfg}
variable {steps : List CacheStep}

/-- The keys of the index after an entry is put. -/
theorem keys_putIndex (e : QueryIndexEntry) (index : List QueryIndexEntry) :
    (putIndex e index).map (·.cacheKey) =
      if e.cacheKey ∈ index.map (·.cacheKey) then index.map (·.cacheKey)
      else index.map (·.cacheKey) ++ [e.cacheKey] := by
  induction index with
  | nil => rfl
  | cons e' index ih =>
    rw [putIndex]
    by_cases hkey : e'.cacheKey = e.cacheKey
    · simp [hkey]
    · have hne : e.cacheKey ≠ e'.cacheKey := fun h => hkey h.symm
      simp only [if_neg hkey, List.map_cons, ih, List.mem_cons, hne, false_or]
      split_ifs <;> rfl

/-- What was inserted by one of the steps was so by one of more steps. -/
theorem InsertedBy.mono {key : List UInt8} {s : Stored} {step : CacheStep}
    (h : ∃ i ∈ steps, InsertedBy E key s i) : ∃ i ∈ steps ++ [step], InsertedBy E key s i := by
  obtain ⟨i, hi, hins⟩ := h
  exact ⟨i, List.mem_append_left _ hi, hins⟩

/-- What a record found at `now` is: put in by an insert, and alive. -/
theorem Inv.get (h : Inv E cfg steps) {now : ℤ} {key : List UInt8} {r : Record}
    (hget : (run E cfg steps).get cfg now key = some r) :
    ∃ s, (run E cfg steps).entries key = some s ∧ s.record = r ∧ now < s.insertedAt + cfg.ttlMs ∧
      ∃ i ∈ steps, InsertedBy E key s i := by
  obtain ⟨s, hs, hif⟩ := Option.bind_eq_some_iff.mp hget
  split_ifs at hif with halive
  exact ⟨s, hs, Option.some.inj hif, halive, h.inserted key s hs⟩

/-- The invariant holds before the first step. -/
theorem inv_nil : Inv E cfg [] :=
  ⟨fun _ _ h => absurd h (by simp [run]), List.nodup_nil, rfl⟩

/-- A step that only drops keeps the invariant. -/
theorem Inv.drops (h : Inv E cfg steps) (step : CacheStep) (hnone : step.outcome E cfg (run E cfg steps) = none)
    (hdrops : Drops (run E cfg steps) (step.exec E cfg (run E cfg steps)).2) :
    Inv E cfg (steps ++ [step]) := by
  constructor
  · intro key s hs
    rw [run_concat] at hs
    exact InsertedBy.mono (h.inserted key s (hdrops.entries key s hs))
  · rw [run_concat]
    exact h.keys.sublist (hdrops.index.map _)
  · have houtcomes := outcomes_concat E cfg {} steps step
    rw [← run, hnone, Option.toList_none, List.append_nil] at houtcomes
    rw [run_concat, hdrops.lookups, houtcomes, h.counted]

/-- An insertion keeps the invariant. -/
theorem Inv.insert (h : Inv E cfg steps) (now : ℤ) (query : Embedding) (scope : CacheScope)
    (results : List CachedResult) (version limit : ℕ) :
    Inv E cfg (steps ++ [⟨now, .insert query scope results version limit⟩]) := by
  constructor
  · intro key s hs
    rw [run_concat] at hs
    rcases put_entries hs with ⟨rfl, rfl⟩ | hother
    · exact ⟨_, List.mem_append_right _ (List.mem_singleton.mpr rfl),
        ⟨query, scope, version, limit, rfl, rfl⟩, rfl, fun _ => rfl⟩
    · exact InsertedBy.mono (h.inserted key s hother)
  · rw [run_concat]
    show ((putIndex _ (run E cfg steps).queryIndex).map (·.cacheKey)).Nodup
    rw [keys_putIndex]
    split_ifs with hmem
    · exact h.keys
    · exact List.nodup_append.mpr ⟨h.keys, List.nodup_singleton _, fun a ha b hb hab =>
        hmem (List.mem_singleton.mp hb ▸ hab ▸ ha)⟩
  · rw [run_concat, outcomes_concat]
    show (run E cfg steps).stats.lookups = _
    rw [h.counted]
    simp [CacheStep.outcome]

/-- A lookup keeps the invariant, also where its hit writes the record back. -/
theorem Inv.lookup (h : Inv E cfg steps) (now : ℤ) (query : Embedding) (scope : CacheScope)
    (version limit : ℕ) : Inv E cfg (steps ++ [⟨now, .lookup query scope version limit⟩]) := by
  obtain ⟨htotal, hhits, hmisses⟩ : (run E cfg steps).stats.totalLookups = (outcomes E cfg {} steps).length ∧
      (run E cfg steps).stats.cacheHits = (outcomes E cfg {} steps).count .hit ∧
      (run E cfg steps).stats.cacheMisses = (outcomes E cfg {} steps).count .refused := by
    simpa [CacheStats.lookups] using h.counted
  have houtcomes := outcomes_concat E cfg {} steps ⟨now, .lookup query scope version limit⟩
  rw [← run] at houtcomes
  rcases lookup_cases E cfg (run E cfg steps) now query scope version limit with
    ⟨hhit, r, key, similarity, stats, hget, hexec, hstats⟩ | ⟨outcome, hout, hne, stats, hexec, hstats⟩
  · obtain ⟨s, hs, rfl, halive, i, hi, hins⟩ := h.get hget
    constructor
    · intro key' s' hs'
      rw [run_concat, hexec] at hs'
      -- the record is written back: who put it in is the same, and now it has been hit
      rcases put_entries hs' with ⟨rfl, rfl⟩ | hother
      · exact InsertedBy.mono ⟨i, hi, hins.call, hins.created,
          fun hzero => absurd hzero (Nat.succ_ne_zero _)⟩
      · exact InsertedBy.mono (h.inserted key' s' hother)
    · rw [run_concat, hexec]
      exact h.keys
    · rw [run_concat, hexec, houtcomes, hhit]
      show stats.lookups = _
      rw [hstats, htotal, hhits, hmisses]
      simp
  · constructor
    · intro key' s' hs'
      rw [run_concat, hexec] at hs'
      exact InsertedBy.mono (h.inserted key' s' hs')
    · rw [run_concat, hexec]
      exact h.keys
    · rw [run_concat, hexec, houtcomes, hout]
      show stats.lookups = _
      rw [hstats, htotal, hhits, hmisses]
      cases outcome <;> simp_all

/-- **One step** keeps the invariant. -/
theorem Inv.step (h : Inv E cfg steps) (step : CacheStep) : Inv E cfg (steps ++ [step]) := by
  obtain ⟨now, call⟩ := step
  have hrest : (∀ query scope version limit, call ≠ .lookup query scope version limit) →
      (∀ query scope results version limit, call ≠ .insert query scope results version limit) →
      Inv E cfg (steps ++ [⟨now, call⟩]) := by
    intro hlookup hinsert
    obtain ⟨-, hdrops, hnone⟩ := drops_exec E cfg (run E cfg steps) ⟨now, call⟩
      hlookup hinsert
    exact h.drops _ hnone hdrops
  cases call with
  | lookup query scope version limit => exact h.lookup now query scope version limit
  | insert query scope results version limit => exact h.insert now query scope results version limit
  | invalidateTenant t => exact hrest (by simp) (by simp)
  | invalidateByVersion t version => exact hrest (by simp) (by simp)
  | invalidateChunks cs => exact hrest (by simp) (by simp)
  | pruneIndex => exact hrest (by simp) (by simp)
  | evict key => exact hrest (by simp) (by simp)

variable (E cfg) in
/-- **Every run** keeps the invariant. -/
theorem inv_run (steps : List CacheStep) : Inv E cfg steps := by
  induction steps using List.reverseRecOn with
  | nil => exact inv_nil
  | append_singleton steps step ih => exact ih.step step

end Run

/-! ## Lifetime and accounting -/

/-- What holds of every run.  A hit returns what an insert has put in under its key, and when the
record was not hit since, that was within the time to live. -/
structure CacheLaw (steps : List CacheStep) : Prop where
  lifetime : ∀ before step after hit, steps = before ++ step :: after →
    (step.exec E cfg (run E cfg before)).1 = some hit →
    ∃ r, (run E cfg before).get cfg step.now hit.cacheKey = some r ∧ hit.results = r.entry.results ∧
      ∃ inserted ∈ before, (∃ query scope version limit,
          inserted.call = .insert query scope hit.results version limit ∧
          hit.cacheKey = embeddingHash E scope query) ∧
        r.entry.createdAt = inserted.now ∧
        (r.entry.hitCount = 0 → step.now ≤ inserted.now + cfg.ttlMs)
  keys : ((run E cfg steps).queryIndex.map (·.cacheKey)).Nodup
  hits : (run E cfg steps).stats.cacheHits = (outcomes E cfg {} steps).count .hit
  misses : (run E cfg steps).stats.cacheMisses = (outcomes E cfg {} steps).count .refused
  total : (run E cfg steps).stats.totalLookups = (run E cfg steps).stats.cacheHits +
    (run E cfg steps).stats.cacheMisses + (outcomes E cfg {} steps).count .notFound

/-- Every outcome is a hit, a refusal or nothing found. -/
theorem length_eq_counts (l : List LookupOutcome) :
    l.length = l.count .hit + l.count .refused + l.count .notFound := by
  induction l with
  | nil => rfl
  | cons o l ih => cases o <;> simp [ih] <;> omega

/-- **Lifetime and accounting** of the semantic cache, for every run. -/
theorem cacheLaw (steps : List CacheStep) : CacheLaw E cfg steps := by
  obtain ⟨-, hkeys, hcounted⟩ := inv_run E cfg steps
  obtain ⟨htotal, hhits, hmisses⟩ : (run E cfg steps).stats.totalLookups = (outcomes E cfg {} steps).length ∧
      (run E cfg steps).stats.cacheHits = (outcomes E cfg {} steps).count .hit ∧
      (run E cfg steps).stats.cacheMisses = (outcomes E cfg {} steps).count .refused := by
    simpa [CacheStats.lookups] using hcounted
  refine ⟨?_, hkeys, hhits, hmisses, by rw [htotal, hhits, hmisses, length_eq_counts]⟩
  rintro before ⟨now, call⟩ after hit - hexec
  cases call with
  | lookup query scope version limit =>
    rcases lookup_cases E cfg (run E cfg before) now query scope version limit with
      ⟨-, r, key, similarity, stats, hget, heq, -⟩ | ⟨-, -, -, stats, heq, -⟩
    · obtain rfl : _ = hit := Option.some.inj ((congrArg Prod.fst heq).symm.trans hexec)
      obtain ⟨s, -, rfl, halive, i, hi, hins⟩ := (inv_run E cfg before).get hget
      refine ⟨s.record, hget, rfl, i, hi, hins.call, hins.created, fun hzero => ?_⟩
      rw [hins.unhit hzero] at halive
      exact Int.le_of_lt halive
    · rw [heq] at hexec
      exact absurd hexec (by simp)
  | _ => exact absurd hexec (by simp [CacheStep.exec])

/-! ### A query that is asked again -/

/-- One second to live. -/
def oneSecond : CacheConfig := ⟨1, fun x => x⟩

/-- Results are cached at 0 and asked for at 600 and at 1200; a query that is like no other is
asked last. -/
def sampleVisits : List CacheStep :=
  [⟨0, .insert [0x3F800000] TieredSystem.sampleT [⟨5, 0⟩] 1 1⟩,
    ⟨600, .lookup [0x3F800000] TieredSystem.sampleT 1 1⟩,
    ⟨1200, .lookup [0x3F800000] TieredSystem.sampleT 1 1⟩,
    ⟨1200, .lookup [0x40000000] TieredSystem.sampleT 1 1⟩]

/-- The hit at 1200 returns what was put in at 0, for one second; and of three lookups two are
counted. -/
theorem hit_outlives_ttl :
    (∃ hit, (CacheStep.exec TieredSystem.sampleTiers oneSecond
        (run TieredSystem.sampleTiers oneSecond (sampleVisits.take 2))
        ⟨1200, .lookup [0x3F800000] TieredSystem.sampleT 1 1⟩).1 = some hit ∧
      hit.results = [⟨5, 0⟩] ∧ hit.ageMs = 1200) ∧
    (∀ step ∈ sampleVisits, ∀ query scope results version limit,
      step.call = .insert query scope results version limit → step.now + oneSecond.ttlMs < 1200) ∧
    (run TieredSystem.sampleTiers oneSecond sampleVisits).stats = ⟨3, 2, 0, 0, 0⟩ := by
  refine ⟨⟨⟨[⟨5, 0⟩], 0x3F800000, 0x3F000000, 1200,
    embeddingHash TieredSystem.sampleTiers TieredSystem.sampleT [0x3F800000]⟩, by decide, rfl, rfl⟩,
    ?_, by decide⟩
  intro step hstep query scope results version limit hcall
  simp only [sampleVisits, List.mem_cons, List.not_mem_nil, or_false] at hstep
  rcases hstep with rfl | rfl | rfl | rfl
  · show (0 : ℤ) + oneSecond.ttlMs < 1200
    decide
  · exact absurd hcall (by simp)
  · exact absurd hcall (by simp)
  · exact absurd hcall (by simp)

end TimedCache
