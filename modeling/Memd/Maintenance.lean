/-
# Maintenance: expiry, history promotion and purge

The background jobs of `compaction/expiry_sweep.rs` and `compaction/history_promotion.rs`,
`hard_delete_chunks`, and `run_purge` of `cli/purge.rs` with `--apply`: it collects the
purge candidates, archives them, deletes those that are not deleted yet, compacts, drops
the rows and rewrites the segments.  The outcome of writing the archive is an input.
-/
import Memd.PersistentStore

namespace Db

/-- The overlay clock of a row: `COALESCE(NULLIF(lifecycle_updated_at_ms, 0),
timestamp_created)`. -/
def retentionClock (r : ChunkRow) : ℤ :=
  if r.lifecycle.lifecycleUpdatedAtMs = 0 then r.timestampCreated
  else r.lifecycle.lifecycleUpdatedAtMs

/-- Does a row belong to the project, if one is given? -/
def inProject (project : Option String) (r : ChunkRow) : Bool :=
  project.isNone || r.projectId == project

/-- `list_hard_purge_candidates`. -/
def listHardPurgeCandidates (db : Db) (t : TenantId) (project : Option String) (cutoff : ℤ)
    (limit : ℕ) : List ChunkMetadata :=
  ((((db.chunks.filter fun r => r.tenantId == t && inProject project r &&
        (((r.status == .deleted || r.status == .superseded || r.status == .expired
            || r.status == .error) && decide (retentionClock r ≤ cutoff))
          || (r.lifecycle.tier == .history
            && r.lifecycle.expiresAtMs.any fun e => decide (e ≤ cutoff)))).mergeSort
      fun a b => decide (retentionClock a ≤ retentionClock b)).take limit).map
    (·.toChunkMetadata))

/-- The rows `list_unreadable_active_candidates` probes, in the order of
`list_for_project`. -/
def listActive (db : Db) (t : TenantId) (project : Option String) : List ChunkMetadata :=
  ((db.chunks.filter fun r => r.tenantId == t && inProject project r
      && (r.status == .final || r.status == .draft) && r.lifecycle.tier != .history).mergeSort
    fun a b => decide (b.timestampCreated < a.timestampCreated ∨
      (b.timestampCreated = a.timestampCreated ∧ a.chunkId ≤ b.chunkId))).map
    (·.toChunkMetadata)

end Db

namespace PersistentStore

open Store TenantStore

/-! ## Sweeps -/

/-- `ExpirySweep::run`. -/
def expirySweep (t : TenantId) (now : ℤ) : StoreProg Unit := do
  let ids ← .read .metadataRead (·.db.listExpiredBefore t now)
  ids.forM fun c => .modify .metadataWrite (withDb (·.markExpiredIfFinal t c now))

/-- `HistoryPromotion::run`. -/
def historyPromotion (t : TenantId) (ageThresholdMs now : ℤ) : StoreProg Unit := do
  let cutoff := now - ageThresholdMs
  let ids ← .read .metadataRead (·.db.listStaleSuperseded t cutoff)
  ids.forM fun c => .modify .metadataWrite (withDb (·.promoteToHistoryIfStale t c cutoff now))

/-- The compaction settings that touch rows. -/
structure CompactionConfig where
  expirySweepEnabled : Bool
  historyPromotionEnabled : Bool
  historyPromotionAgeMs : ℤ
  deriving DecidableEq, Repr

/-- A job that runs only where it is enabled. -/
def whenEnabled (enabled : Bool) (job : StoreProg Unit) : StoreProg Unit :=
  if enabled then job else pure ()

/-- `run_compaction`: what it does to the rows. -/
def runCompaction (t : TenantId) (cfg : Option CompactionConfig) (now : ℤ) : StoreProg Unit :=
  match cfg with
  | none => .fail (.storageError "compaction disabled")
  | some cfg => do
    whenEnabled cfg.expirySweepEnabled (expirySweep t now)
    whenEnabled cfg.historyPromotionEnabled (historyPromotion t cfg.historyPromotionAgeMs now)

/-! ## Purge -/

/-- `get_chunk_for_retrieval`: a payload that cannot be read is skipped. -/
def getChunkForRetrieval (t : TenantId) (c : ChunkId) : StoreProg (Option MemoryChunk) := do
  let existing ← .read .metadataRead (·.db.get t c)
  match existing with
  | none => pure none
  | some m =>
    if m.status = .candidate ∨ m.status = .error then pure none
    else
      let outcome ← (getChunk t c).attempt
      match outcome with
      | .ok chunk => pure chunk
      | .error (.storageError _) => pure none
      | .error e => .fail e

/-- `hard_delete_chunks`: the number of rows dropped. -/
def hardDeleteChunks (t : TenantId) (ids : List ChunkId) : StoreProg ℕ :=
  .perform (.hardDeleteChunks ids) fun s =>
    (.ok (s.db.chunks.length - (s.db.hardDeleteChunks t ids).chunks.length),
     withDb (·.hardDeleteChunks t ids) s)

/-- `PurgeOptions`. -/
structure PurgeOptions where
  projectId : Option String
  olderThanDays : ℕ
  limit : ℕ
  includeUnreadableActive : Bool
  /-- `--archive`, with the error that writing or inspecting it reported -/
  archive : Option (Option MemdError)
  rewriteSegments : Bool
  compaction : Option CompactionConfig
  deriving DecidableEq, Repr

/-- What a purge reports. -/
structure PurgeReport where
  candidateIds : List ChunkId
  hardDeletedMetadataRows : ℕ
  /-- the segment rewrite ran and reported no error -/
  segmentsRewritten : Bool
  deriving DecidableEq, Repr

/-- One row of `list_unreadable_active_candidates`. -/
def probeUnreadable (t : TenantId) (limit : ℕ) (found : List ChunkMetadata) (m : ChunkMetadata) :
    StoreProg (List ChunkMetadata) :=
  if limit ≤ found.length then pure found
  else do
    let chunk ← getChunkForRetrieval t m.chunkId
    pure (if chunk.isNone then found ++ [m] else found)

/-- `list_unreadable_active_candidates`. -/
def listUnreadableActiveCandidates (t : TenantId) (project : Option String) (limit : ℕ) :
    StoreProg (List ChunkMetadata) := do
  let rows ← .read .metadataRead (·.db.listActive t project)
  rows.foldlM (probeUnreadable t limit) []

/-- The unreadable candidates a purge adds to its `found` hidden ones. -/
def unreadableCandidates (t : TenantId) (o : PurgeOptions) (limit found : ℕ) :
    StoreProg (List ChunkMetadata) :=
  if o.includeUnreadableActive ∧ found < limit then
    listUnreadableActiveCandidates t o.projectId (limit - found)
  else pure []

/-- One record of `build_archive_records`: the payload of a candidate that is not
deleted is read. -/
def buildArchiveRecord (t : TenantId) (m : ChunkMetadata) : StoreProg Unit :=
  if m.status = .deleted then pure ()
  else do
    let _ ← getChunkForRetrieval t m.chunkId
    pure ()

/-- The soft delete of one candidate. -/
def deleteCandidate (t : TenantId) (m : ChunkMetadata) : StoreProg Unit :=
  if m.status = .deleted then pure ()
  else do
    let _ ← deleteChunk t m.chunkId
    pure ()

/-- The archive must be written before anything is deleted. -/
def archiveCandidates (o : PurgeOptions) (candidates : List ChunkMetadata) : StoreProg Unit :=
  if candidates = [] then pure ()
  else match o.archive with
    | none => .fail (.validationError
        "purge --apply requires --archive so hidden rows are exported before deletion")
    | some (some e) => .fail e
    | some none => pure ()

/-- The segment rewrite of a purge: did it run without an error? -/
def rewriteAfterPurge (t : TenantId) (o : PurgeOptions) (hardDeleted : ℕ) : StoreProg Bool :=
  if o.rewriteSegments ∧ 0 < hardDeleted then do
    let outcome ← (rewriteFinalizedSegments t).attempt
    pure outcome.isOk
  else pure false

/-- `run_purge` with `--apply`. -/
def runPurge (t : TenantId) (o : PurgeOptions) (now : ℤ) : StoreProg PurgeReport := do
  -- at least a day, and at most ten thousand rows
  let cutoff := now - max o.olderThanDays 1 * 86400000
  let limit := min (max o.limit 1) 10000
  let hidden ← .read .metadataRead (·.db.listHardPurgeCandidates t o.projectId cutoff limit)
  let unreadable ← unreadableCandidates t o limit hidden.length
  let candidates := hidden ++ unreadable
  -- the archive is written before anything is deleted
  candidates.forM (buildArchiveRecord t)
  archiveCandidates o candidates
  candidates.forM (deleteCandidate t)
  let _ ← (runCompaction t o.compaction now).attempt
  let ids := candidates.map (·.chunkId)
  -- the rows go last, and with them the payloads of the segments
  let hardDeleted ← hardDeleteChunks t ids
  let rewritten ← rewriteAfterPurge t o hardDeleted
  pure { candidateIds := ids, hardDeletedMetadataRows := hardDeleted,
         segmentsRewritten := rewritten }

end PersistentStore
