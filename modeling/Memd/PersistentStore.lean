/-
# The operations of the persistent store

The write path of `store/persistent/write.rs` (`addChunks`, `addTaskArtifact`,
`checkpointAfterBatch`), `deleteChunk`, `getChunk`, and `rewriteFinalizedSegments`, as
programs on the store of one tenant.  The batch index call is an input: `indexError`
is what it reported.  `now` is the clock reading of the call.
-/
import Memd.TenantStore

namespace PersistentStore

open Store TenantStore

/-! ## Preparing a batch -/

/-- `ChunkId::new`. -/
def newChunkId : StoreProg ChunkId :=
  .perform .newChunkId fun s => (.ok s.nextId, { s with nextId := s.nextId + 1 })

/-- The id a chunk is stored under: its own when it was allocated beforehand, else a
new one. -/
def pendingId (chunk : MemoryChunk) (preserveChunkIds : Bool) : StoreProg ChunkId :=
  if preserveChunkIds then do
    let existing ← .read .metadataRead (·.db.get chunk.tenantId chunk.chunkId)
    if existing.isSome then
      .fail (.validationError s!"preallocated chunk id {chunk.chunkId} already exists")
    else pure chunk.chunkId
  else newChunkId

/-- One chunk of `prepare_pending_chunks`. -/
def preparePendingChunk (ext : Externals) (preserveChunkIds : Bool) (pending : List MemoryChunk)
    (chunk : MemoryChunk) : StoreProg (List MemoryChunk) := do
  let id ← pendingId chunk preserveChunkIds
  pure (pending ++ [{ chunk with chunkId := id, hash := ext.sha256Hex chunk.text }])

/-- `prepare_pending_chunks`: ids and hashes. -/
def preparePendingChunks (ext : Externals) (chunks : List MemoryChunk) (preserveChunkIds : Bool) :
    StoreProg (List MemoryChunk) :=
  chunks.foldlM (preparePendingChunk ext preserveChunkIds) []

/-- `expand_chunks_for_add`: the physical chunks, and where each written chunk's first
one stands among them. -/
def expandChunksForAdd (ext : Externals) (chunks : List MemoryChunk) :
    List MemoryChunk × List ℕ :=
  chunks.foldl (fun acc chunk =>
    (acc.1 ++ splitForAdd ext chunk, acc.2 ++ [acc.1.length])) ([], [])

/-! ## Storing a batch -/

/-- Append one prepared payload; its row is remembered for the metadata insert. -/
def storePending (ext : Externals) (rows : List ChunkMetadata) (chunk : MemoryChunk) :
    StoreProg (List ChunkMetadata) := do
  let (segmentId, ordinal) ← storePayload "no active segment" chunk
  pure (rows ++ [metadataRow ext chunk segmentId ordinal])

/-- The segment appends of a batch, the flush, the metadata transaction and the index
state that announces the batch to the indexer. -/
def storeBatch (ext : Externals) (t : TenantId) (pending : List MemoryChunk) (now : ℤ) :
    StoreProg Unit := do
  let rows ← pending.foldlM (storePending ext) []
  .modify .flushPayload flushActive
  .modify (.insertRows rows) (withDb (·.insertMany rows))
  .modify (.markIndexPending (rows.map (·.chunkId)))
    (withDb (·.markIndexPending t (rows.map (·.chunkId)) now))

/-- The outcome of the index call: every chunk of the batch is marked. -/
def recordIndexOutcome (t : TenantId) (ids : List ChunkId) (indexError : Option String) (now : ℤ) :
    StoreProg Unit :=
  match indexError with
  | none => .modify (.markIndexed ids) (withDb (·.markIndexed t ids now))
  | some e => ids.forM fun c => .modify .metadataWrite (withDb (·.markIndexFailed t c e now))

/-- The counter of `checkpoint_after_batch`: how many checkpoints are due. -/
def countWrites (writes interval : ℕ) (s : Store) : Except MemdError ℕ × Store :=
  let count := s.handle.writesSinceCheckpoint + writes
  (.ok (count / interval),
   { s with handle := { s.handle with writesSinceCheckpoint := count % interval } })

/-- `checkpoint_after_batch`. -/
def checkpointAfterBatch (writes : ℕ) : StoreProg Unit := do
  let interval ← .read .countWrites (·.handle.config.walCheckpointInterval)
  if interval = 0 ∨ writes = 0 then pure ()
  else
    let checkpoints ← .perform .countWrites (countWrites writes interval)
    if checkpoints = 0 then pure ()
    else
      finalizeActiveSegment .finalizeForCheckpoint
      (List.replicate checkpoints ()).forM fun _ =>
        .modify .walCheckpoint (logAppend [.checkpoint])

/-! ## Adding -/

/-- `AddChunksOutcome`: the ids answered to the caller and all ids stored. -/
structure AddChunksOutcome where
  primaryIds : List ChunkId := []
  storedIds : List ChunkId := []
  deriving DecidableEq, Repr

/-- The ids at the given positions. -/
def idsAt (ids : List ChunkId) (msg : String) : List ℕ → Except MemdError (List ChunkId)
  | [] => .ok []
  | pos :: positions =>
    match ids[pos]? with
    | none => .error (.storageError msg)
    | some c => (idsAt ids msg positions).map (c :: ·)

/-- `add_chunks_internal_with_details_and_hook` for chunks of one tenant. -/
def addChunks (ext : Externals) (t : TenantId) (chunks : List MemoryChunk)
    (preserveChunkIds : Bool) (indexError : Option String) (now : ℤ) :
    StoreProg AddChunksOutcome :=
  if chunks = [] then pure {}
  else do
    let (expanded, positions) :=
      if preserveChunkIds then (chunks, List.range chunks.length)
      else expandChunksForAdd ext chunks
    let pending ← preparePendingChunks ext expanded preserveChunkIds
    .modify (.walAppend (pending.map .add)) (logAppend (pending.map .add))
    storeBatch ext t pending now
    let ids := pending.map (·.chunkId)
    recordIndexOutcome t ids indexError now
    checkpointAfterBatch pending.length
    let primaryIds ← .ofExcept (idsAt ids "missing primary chunk id" positions)
    pure { primaryIds := primaryIds, storedIds := ids }

/-- A retrieval projection of a task artifact. -/
structure TaskProjection where
  kind : String
  chunk : MemoryChunk
  deriving DecidableEq, Repr

/-- `add_task_artifact_internal`; it returns the projection chunk ids. -/
def addTaskArtifact (ext : Externals) (artifact : TaskArtifact) (projections : List TaskProjection)
    (indexError : Option String) (now : ℤ) : StoreProg (List ChunkId) := do
  let safe ← .read .metadataRead (·.db.ensureTaskArtifactWriteSafe artifact)
  .ofExcept safe
  if projections = [] then
    .fail (.storageError "task artifact requires at least one projection")
  else if projections.any (·.chunk.tenantId ≠ artifact.tenantId) then
    .fail (.storageError "task projections must belong to the same tenant as the artifact")
  else
    let t := artifact.tenantId
    let (expanded, positions) := expandChunksForAdd ext (projections.map (·.chunk))
    let pending ← preparePendingChunks ext expanded false
    let ids := pending.map (·.chunkId)
    let projectionIds ← .ofExcept (idsAt ids "missing primary projection chunk id" positions)
    let payload : TaskArtifactWalPayload := ⟨artifact, projectionIds, projections.map (·.kind)⟩
    let records := pending.map .add ++ [.taskArtifact payload]
    .modify (.walAppend records) (logAppend records)
    storeBatch ext t pending now
    insertTaskArtifactBundle payload
    recordIndexOutcome t ids indexError now
    checkpointAfterBatch (pending.length + 1)
    pure projectionIds

/-! ## Deleting and reading -/

/-- `delete_chunk`. -/
def deleteChunk (t : TenantId) (c : ChunkId) : StoreProg Bool := do
  let existing ← .read .metadataRead (·.db.get t c)
  match existing with
  | none => pure false
  | some m => do
    .modify (.walAppend [.delete c]) (logAppend [.delete c])
    .modify .metadataWrite (withDb (·.markDeleted t c))
    .modify .markTombstone (tombstone m.segmentId m.ordinal)
    pure true

/-- `SegmentReader::open` on demand, keeping the reader. -/
def openOnDemand (segmentId ordinal : ℕ) (s : Store) :
    Except MemdError (Option MemoryChunk) × Store :=
  match (s.dir segmentId).filter (·.finalized) with
  | none => (.error (.storageError
      s!"segment {segmentId} missing from cache; on-demand open failed: not finalized"), s)
  | some d => (.ok (d.readChunk ordinal),
      if s.handle.segments.contains segmentId then s else s.load segmentId)

/-- `get_chunk`: the payload the row points at, with the row's status. -/
def getChunk (t : TenantId) (c : ChunkId) : StoreProg (Option MemoryChunk) := do
  let existing ← .read .metadataRead (·.db.get t c)
  match existing with
  | none => pure none
  | some m =>
    let cached ← .read .segmentRead (·.readPayloadFallback m.segmentId m.ordinal)
    match cached with
    | some chunk => pure (some { chunk with status := m.status })
    | none =>
      let payload ← .perform .segmentRead (openOnDemand m.segmentId m.ordinal)
      pure (payload.map fun chunk => { chunk with status := m.status })

/-! ## Rewriting segments -/

/-- The rewrite plan of one segment: nothing to do, drop it, or move its live rows. -/
inductive RewritePlan
  | keep
  | drop
  | move (payloads : List (ChunkId × MemoryChunk))
  deriving DecidableEq, Repr

/-- What `rewrite_finalized_segments` reads of one segment. -/
def planRewrite (t : TenantId) (segmentId : ℕ) (s : Store) : Except MemdError RewritePlan :=
  let liveRows := (s.db.getBySegment t segmentId).filter (·.status ≠ .deleted)
  match s.reader segmentId with
  | none => .ok .keep
  | some d =>
    let activeCount := d.payload.length - d.tombstones.dedup.length
    if liveRows.length = d.payload.length ∧ activeCount = d.payload.length then .ok .keep
    else if liveRows = [] then .ok .drop
    else do
      let payloads ← liveRows.mapM fun row =>
        match d.readChunk row.ordinal with
        | some p => .ok (row.chunkId, p)
        | none => .error (.storageError s!"live metadata row {row.chunkId} points at missing/tombstoned segment {segmentId} ordinal {row.ordinal}")
      pure (.move payloads)

/-- Forget a segment's reader. -/
def unload (segmentId : ℕ) (s : Store) : Store :=
  { s with handle := { s.handle with segments := s.handle.segments.filter (· ≠ segmentId) } }

/-- `remove_dir_all` of a segment; an error is only a warning. -/
def removeDir (segmentId : ℕ) (s : Store) : Store :=
  if s.handle.config.removeFails.contains segmentId then s
  else { s with segmentDirs := Table.deleteWhere (·.id == segmentId) s.segmentDirs }

/-- `SegmentWriter::create` for the replacement segment. -/
def createDir (segmentId : ℕ) (s : Store) : Store :=
  { s with segmentDirs := s.segmentDirs ++ [{ id := segmentId }] }

/-- Fill the replacement segment and finalize it. -/
def finalizeDir (segmentId : ℕ) (payload : List MemoryChunk) (s : Store) :
    Except MemdError Unit × Store :=
  if s.handle.config.finalizeFails.contains segmentId then
    (.error (.storageError s!"failed to finalize segment {segmentId}"), s)
  else
    (.ok (), s.updateDir segmentId fun d => { d with payload := payload, finalized := true })

/-- Rewrite one finalized segment; `next` is the next free segment id. -/
def rewriteSegment (t : TenantId) (next segmentId : ℕ) : StoreProg ℕ := do
  let plan ← .read .segmentRead (planRewrite t segmentId)
  let plan ← .ofExcept plan
  match plan with
  -- every payload is live and none is marked: the segment stays as it is
  | .keep => pure next
  -- none is live: the segment goes
  | .drop => do
    .modify .segmentRead (unload segmentId)
    .modify .segmentRead (removeDir segmentId)
    pure next
  -- some are live: they are copied to a new segment, and the rows follow
  | .move payloads => do
    .modify .createSegment (createDir next)
    .perform .finalizeSegment (finalizeDir next (payloads.map (·.2)))
    let relocations := payloads.mapIdx fun i p => (p.1, next, i)
    let moved ← (transactDb .metadataWrite (·.updateChunkLocations t relocations)).attempt
    -- the rows did not move: the copy is thrown away
    match moved with
    | .error e => do
      .modify .segmentRead (removeDir next)
      .fail e
    | .ok _ => do
      -- from here on the rows point at the copy, so the old segment can go
      .modify .segmentRead fun s => (unload segmentId s).load next
      .modify .segmentRead (removeDir segmentId)
      pure (next + 1)

/-- `rewrite_finalized_segments`. -/
def rewriteFinalizedSegments (t : TenantId) : StoreProg Unit := do
  finalizeActiveSegment .finalizeSegment
  let next ← .read .segmentRead nextSegmentId
  let ids ← .read .segmentRead fun s => s.handle.segments.mergeSort (fun a b => decide (a ≤ b))
  let _ ← ids.foldlM (rewriteSegment t) next
  pure ()

/-! ### Rewrites that hit I/O errors -/

/-- A statement that may hit an I/O error before it has any effect. -/
def withFault {α : Type} (fault : Option String) (p : StoreProg α) : StoreProg α :=
  match fault with
  | some e => .fail (.storageError e)
  | none => p

@[simp] theorem withFault_none {α : Type} (p : StoreProg α) : withFault none p = p := rfl

/-- The I/O errors of the rewrite of one segment. -/
structure SegmentFaults where
  /-- reading its rows, its size or a payload -/
  plan : Option String := none
  /-- `SegmentWriter::create` -/
  create : Option String := none
  /-- appending a payload, or `SegmentWriter::finalize` -/
  finalize : Option String := none
  /-- opening the reader of the replacement, or taking its size -/
  openReader : Option String := none
  /-- the transaction of `update_chunk_locations` -/
  relocate : Option String := none
  deriving DecidableEq, Repr

/-- `rewriteSegment` where steps may fail. -/
def rewriteSegmentWith (f : SegmentFaults) (t : TenantId) (next segmentId : ℕ) : StoreProg ℕ := do
  let plan ← withFault f.plan (.read .segmentRead (planRewrite t segmentId))
  let plan ← .ofExcept plan
  match plan with
  | .keep => pure next
  | .drop => do
    .modify .segmentRead (unload segmentId)
    .modify .segmentRead (removeDir segmentId)
    pure next
  | .move payloads => do
    withFault f.create (.modify .createSegment (createDir next))
    withFault f.finalize (.perform .finalizeSegment (finalizeDir next (payloads.map (·.2))))
    withFault f.openReader (pure ())
    let relocations := payloads.mapIdx fun i p => (p.1, next, i)
    let moved ← (withFault f.relocate
      (transactDb .metadataWrite (·.updateChunkLocations t relocations))).attempt
    match moved with
    | .error e => do
      .modify .segmentRead (removeDir next)
      .fail e
    | .ok _ => do
      .modify .segmentRead fun s => (unload segmentId s).load next
      .modify .segmentRead (removeDir segmentId)
      pure (next + 1)

/-- `finalize_active_segment` with an I/O error: the writer has left its slot. -/
def failFinalizeActive (e : String) (s : Store) : Except MemdError Unit × Store :=
  match s.handle.activeSegment with
  | none => (.ok (), s)
  | some a =>
    (if a.chunks.length > 0 then .error (.storageError e) else .ok (), s.setActive none)

/-- The I/O errors of a rewrite. -/
structure RewriteFaults where
  finalizeActive : Option String := none
  segment : ℕ → SegmentFaults := fun _ => {}
  /-- syncing the directory at the end -/
  sync : Option String := none

/-- `rewriteFinalizedSegments` where steps may fail. -/
def rewriteFinalizedSegmentsWith (f : RewriteFaults) (t : TenantId) : StoreProg Unit := do
  match f.finalizeActive with
  | none => finalizeActiveSegment .finalizeSegment
  | some e => .perform .finalizeSegment (failFinalizeActive e)
  let next ← .read .segmentRead nextSegmentId
  let ids ← .read .segmentRead fun s => s.handle.segments.mergeSort (fun a b => decide (a ≤ b))
  let _ ← ids.foldlM (fun next id => rewriteSegmentWith (f.segment id) t next id) next
  withFault f.sync (pure ())

/-- Without I/O errors it is the rewrite. -/
theorem rewriteFinalizedSegmentsWith_none (t : TenantId) :
    rewriteFinalizedSegmentsWith {} t = rewriteFinalizedSegments t := rfl

end PersistentStore
