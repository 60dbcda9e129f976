/-
# The store of one tenant

What a tenant's data lives in — the metadata database, the write-ahead log, the
segment directories on disk and the open handle in memory — and the programs of
`store/persistent/recovery.rs` on it, one atomic step per lock section, transaction or
file operation: creating, filling, rotating and finalizing the active segment, and
`recoverFromWal`, which replays the records behind the last checkpoint.

Payload bytes are represented by the chunk they serialize, and a segment directory by
its payload list, its tombstones and whether its `meta` file has been written.  A crash
forgets the handle (`Store.crash`).
-/
import Memd.LogSuffix
import Memd.Machine
import Memd.TaskStatements

/-! ## State -/

/-- What a WAL TaskArtifact record carries. -/
structure TaskArtifactWalPayload where
  artifact : TaskArtifact
  projectionChunkIds : List ChunkId
  projectionKinds : List String
  deriving DecidableEq, Repr

/-- A record of the write-ahead log. -/
inductive LogRecord
  | add (chunk : MemoryChunk)
  | delete (chunkId : ChunkId)
  | taskArtifact (payload : TaskArtifactWalPayload)
  | checkpoint
  deriving DecidableEq, Repr

/-- The record is a checkpoint. -/
def LogRecord.isCheckpoint (r : LogRecord) : Bool :=
  r == .checkpoint

/-- A directory `seg_NNNNNN`. -/
structure SegmentDir where
  id : ℕ
  payload : List MemoryChunk := []
  /-- the `meta` file exists -/
  finalized : Bool := false
  tombstones : List ℕ := []
  deriving DecidableEq, Repr

/-- The segment open for appending, with what has been appended to it. -/
structure ActiveSegment where
  id : ℕ
  chunks : List MemoryChunk := []
  deriving DecidableEq, Repr

/-- The settings of a session.  `finalizeFails` lists the segments whose finalization
hits an I/O error, `removeFails` those whose directory cannot be removed. -/
structure StoreConfig where
  segmentMaxChunks : ℕ
  minFinalizeChunks : ℕ
  walCheckpointInterval : ℕ
  finalizeFails : List ℕ := []
  removeFails : List ℕ := []
  deriving DecidableEq, Repr

/-- The open handle: it is lost in a crash.  `segments` lists the segments that have a
reader. -/
structure Handle where
  activeSegment : Option ActiveSegment := none
  segments : List ℕ := []
  writesSinceCheckpoint : ℕ := 0
  config : StoreConfig := ⟨1000, 0, 0, [], []⟩
  deriving DecidableEq, Repr

/-- **The store of a tenant**: what is on disk and what the open handle holds. -/
structure Store where
  db : Db := {}
  /-- the next chunk id to be handed out -/
  nextId : ChunkId := 0
  wal : List LogRecord := []
  segmentDirs : List SegmentDir := []
  handle : Handle := {}
  deriving DecidableEq, Repr

/-- What a step of a store program does. -/
inductive StoreStep
  | newChunkId
  | metadataRead
  | metadataWrite
  | insertRows (rows : List ChunkMetadata)
  | replayInsert (row : ChunkMetadata)
  | markIndexPending (ids : List ChunkId)
  | markIndexed (ids : List ChunkId)
  | hardDeleteChunks (ids : List ChunkId)
  | atomicSupersede (old new : ChunkId)
  | walAppend (records : List LogRecord)
  | walCheckpoint
  | walTruncate
  | countWrites
  | rotateSegment
  | createSegment
  | appendChunk (chunk : MemoryChunk)
  | flushPayload
  | finalizeSegment
  | finalizeForCheckpoint
  | segmentRead
  | markTombstone
  | openHandle
  deriving DecidableEq, Repr

/-- A program on the store. -/
abbrev StoreProg (α : Type) := Proc StoreStep Store MemdError α

/-! ## Reading segments and the log -/

/-- `SegmentReader::read_chunk`: nothing past the end and nothing tombstoned. -/
def SegmentDir.readChunk (d : SegmentDir) (ordinal : ℕ) : Option MemoryChunk :=
  if d.tombstones.contains ordinal then none else d.payload[ordinal]?

namespace Store

/-- `WalReader::records_for_recovery`: what follows the last checkpoint. -/
def recordsForRecovery (s : Store) : List LogRecord :=
  LogSuffix.afterLast LogRecord.isCheckpoint s.wal

/-- The segment's directory. -/
def dir (s : Store) (id : ℕ) : Option SegmentDir :=
  s.segmentDirs.find? (·.id == id)

/-- The reader the handle has for a segment. -/
def reader (s : Store) (id : ℕ) : Option SegmentDir :=
  if s.handle.segments.contains id then s.dir id else none

/-- `next_segment_id`: one past every segment loaded or on disk. -/
def nextSegmentId (s : Store) : ℕ :=
  ((s.segmentDirs.map (·.id)) ++ s.handle.segments).foldl max 0 + 1

/-- `read_payload_fallback` of a writable store. -/
def readPayloadFallback (s : Store) (segmentId ordinal : ℕ) : Option MemoryChunk :=
  let active := s.handle.activeSegment.bind fun a =>
    if a.id = segmentId then a.chunks[ordinal]? else none
  active.or ((s.reader segmentId).bind (·.readChunk ordinal))

/-- What a crash leaves. -/
def crash (s : Store) : Store :=
  { s with handle := {} }

/-! ## Steps on segments -/

/-- The handle with another active segment. -/
def setActive (s : Store) (a : Option ActiveSegment) : Store :=
  { s with handle := { s.handle with activeSegment := a } }

/-- Rewrite the files of one segment. -/
def updateDir (s : Store) (id : ℕ) (f : SegmentDir → SegmentDir) : Store :=
  { s with segmentDirs := Table.updateWhere (·.id == id) f s.segmentDirs }

/-- Give the handle a reader for a segment. -/
def load (s : Store) (id : ℕ) : Store :=
  { s with handle := { s.handle with segments := s.handle.segments ++ [id] } }

/-- Take the active segment out of its slot, finalize it and load its reader.  A
failing finalize leaves the slot empty and the directory without `meta`. -/
def sealActive (s : Store) (a : ActiveSegment) : Except MemdError Unit × Store :=
  if s.handle.config.finalizeFails.contains a.id then
    (.error (.storageError s!"failed to finalize segment {a.id}"), s.setActive none)
  else
    (.ok (), ((s.setActive none).updateDir a.id fun d =>
      { d with payload := a.chunks, finalized := true }).load a.id)

/-- First half of `get_or_create_active_segment`: a full segment is rotated out. -/
def rotateIfFull (maxChunks : ℕ) (s : Store) : Except MemdError Unit × Store :=
  match s.handle.activeSegment with
  | some a => if a.chunks.length < maxChunks then (.ok (), s) else s.sealActive a
  | none => (.ok (), s)

/-- Second half of `get_or_create_active_segment`. -/
def createIfNone (s : Store) : Store :=
  match s.handle.activeSegment with
  | some _ => s
  | none =>
    { s with
      segmentDirs := s.segmentDirs ++ [{ id := s.nextSegmentId }]
      handle := { s.handle with activeSegment := some { id := s.nextSegmentId } } }

/-- `append_chunk` on the active segment: the location of the new payload. -/
def appendToActive (msg : String) (chunk : MemoryChunk) (s : Store) :
    Except MemdError (ℕ × ℕ) × Store :=
  match s.handle.activeSegment with
  | none => (.error (.storageError msg), s)
  | some a =>
    (.ok (a.id, a.chunks.length), s.setActive (some { a with chunks := a.chunks ++ [chunk] }))

/-- `flush_active_segment_payload`. -/
def flushActive (s : Store) : Store :=
  match s.handle.activeSegment with
  | none => s
  | some a => s.updateDir a.id fun d => { d with payload := a.chunks }

/-- `finalize_active_segment`: an empty segment is dropped, any other is sealed. -/
def finalizeActive (s : Store) : Except MemdError Unit × Store :=
  match s.handle.activeSegment with
  | none => (.ok (), s)
  | some a => if a.chunks.length > 0 then s.sealActive a else (.ok (), s.setActive none)

/-- `SegmentReader::mark_deleted` on the segment's reader, if there is one. -/
def tombstone (segmentId ordinal : ℕ) (s : Store) : Store :=
  if s.handle.segments.contains segmentId then
    s.updateDir segmentId fun d => { d with tombstones := ordinal :: d.tombstones }
  else s

/-- Append records to the log. -/
def logAppend (records : List LogRecord) (s : Store) : Store :=
  { s with wal := s.wal ++ records }

/-- Run a statement on the database. -/
def withDb (f : Db → Db) (s : Store) : Store :=
  { s with db := f s.db }

/-- The row of a chunk freshly stored at a location. -/
def metadataRow (ext : Externals) (chunk : MemoryChunk) (segmentId ordinal : ℕ) :
    ChunkMetadata where
  chunkId := chunk.chunkId
  tenantId := chunk.tenantId
  projectId := chunk.projectId
  segmentId := segmentId
  ordinal := ordinal
  chunkType := chunk.chunkType
  status := chunk.status
  timestampCreated := chunk.timestampCreated
  hash := chunk.hash
  sourceUri := chunk.source.uri
  lifecycle := {}
  canonicalText := some (canonicalizeForType ext chunk.text chunk.chunkType)
  ingestionMode := chunk.ingestionMode

end Store

/-! ## Programs -/

namespace TenantStore

open Store

/-- `get_or_create_active_segment`. -/
def getOrCreateActiveSegment (maxChunks : ℕ) : StoreProg Unit := do
  .perform .rotateSegment (rotateIfFull maxChunks)
  .modify .createSegment createIfNone

/-- Make room in the active segment and append a payload to it. -/
def storePayload (msg : String) (chunk : MemoryChunk) : StoreProg (ℕ × ℕ) := do
  let maxChunks ← .read .segmentRead (·.handle.config.segmentMaxChunks)
  getOrCreateActiveSegment maxChunks
  .perform (.appendChunk chunk) (appendToActive msg chunk)

/-- `finalize_active_segment`, under the label of its caller. -/
def finalizeActiveSegment (l : StoreStep) : StoreProg Unit :=
  .perform l finalizeActive

/-- `finalize_active_segment_if_above_threshold`: the shutdown and drop path. -/
def finalizeActiveSegmentIfAboveThreshold : StoreProg Unit := do
  let cfg ← .read .segmentRead (·.handle.config)
  if cfg.walCheckpointInterval > 0 then finalizeActiveSegment .finalizeSegment
  else
    let activeChunks ← .read .segmentRead fun s =>
      (s.handle.activeSegment.map (·.chunks.length)).getD 0
    if activeChunks < cfg.minFinalizeChunks then pure ()
    else finalizeActiveSegment .finalizeSegment

/-- The row replay writes: the chunk's own row at the new location, or a new row. -/
def replayedRow (ext : Externals) (chunk : MemoryChunk) (existing : Option ChunkMetadata)
    (segmentId ordinal : ℕ) : ChunkMetadata :=
  match existing with
  | some current => { current with segmentId := segmentId, ordinal := ordinal }
  | none => metadataRow ext chunk segmentId ordinal

/-- Replay of an Add record: whether the payload had to be written again.  A chunk
whose row resolves in a loaded segment is left alone; otherwise the payload goes to
the active segment and the row is pointed at it, keeping the row's own fields. -/
def replayAdd (ext : Externals) (chunk : MemoryChunk) : StoreProg Bool := do
  let existing ← .read .metadataRead (·.db.get chunk.tenantId chunk.chunkId)
  let readable ← .read .segmentRead fun s => existing.any fun m =>
    ((s.reader m.segmentId).bind (·.readChunk m.ordinal)).isSome
  if readable then pure false
  else
    let (segmentId, ordinal) ← storePayload "no active segment during recovery" chunk
    let row := replayedRow ext chunk existing segmentId ordinal
    .modify (.replayInsert row) (withDb (·.insert row))
    pure true

/-- Replay of a Delete record. -/
def replayDelete (t : TenantId) (c : ChunkId) : StoreProg Unit := do
  let existing ← .read .metadataRead (·.db.get t c)
  match existing with
  | none => pure ()
  | some m =>
    .modify .metadataWrite (withDb (·.markDeleted t c))
    .modify .markTombstone (tombstone m.segmentId m.ordinal)

/-- Run a fallible transaction on the database. -/
def transactDb (l : StoreStep) (f : Db → Except MemdError (Unit × Db)) : StoreProg Unit :=
  .transact l fun s => (f s.db).map fun r => (r.1, { s with db := r.2 })

/-- `insert_task_artifact_bundle` as a step. -/
def insertTaskArtifactBundle (p : TaskArtifactWalPayload) : StoreProg Unit :=
  transactDb .metadataWrite fun db =>
    db.insertTaskArtifactBundle p.artifact p.projectionChunkIds p.projectionKinds

/-- Replay of one record; `adds` counts the payloads written again. -/
def replayRecord (ext : Externals) (t : TenantId) (adds : ℕ) : LogRecord → StoreProg ℕ
  | .add chunk => do
    let rewritten ← replayAdd ext chunk
    pure (if rewritten then adds + 1 else adds)
  | .delete c => do
    replayDelete t c
    pure adds
  | .taskArtifact p => do
    insertTaskArtifactBundle p
    pure adds
  | .checkpoint => pure adds

/-- `recover_from_wal`. -/
def recoverFromWal (ext : Externals) (t : TenantId) : StoreProg Unit := do
  let records ← .read .segmentRead recordsForRecovery
  if records = [] then pure ()
  else
    let adds ← records.foldlM (replayRecord ext t) 0
    if adds > 0 then finalizeActiveSegment .finalizeSegment
    .modify .walTruncate fun s => { s with wal := [] }

/-- A fresh handle with a reader for every finalized segment: `TenantStore::open` up to
and including `load_segments`. -/
def loadSegments (cfg : StoreConfig) (s : Store) : Store :=
  { s with handle := { config := cfg, segments := (s.segmentDirs.filter (·.finalized)).map (·.id) } }

/-- `TenantStore::open`.  When recovery fails the handle is dropped. -/
def openTenant (ext : Externals) (t : TenantId) (cfg : StoreConfig) : StoreProg Unit := do
  .modify .openHandle (loadSegments cfg)
  let outcome ← (recoverFromWal ext t).attempt
  match outcome with
  | .ok _ => pure ()
  | .error e => do
    let _ ← (finalizeActiveSegmentIfAboveThreshold).attempt
    .fail e

end TenantStore
