/-
# Lifecycle operations

`store/persistent/lifecycle.rs`: partial updates of the lifecycle overlay, adding a
chunk together with its overlay, and superseding a chunk — a preflight on the old
chunk, a walk along its successors, an ordinary add of the replacement, the link in one
transaction, and compensating deletes when the link fails.

An I/O error of a metadata statement is an input: `MetadataFaults` says which steps of a
supersede fail, and with what.
-/
import Memd.Maintenance

namespace PersistentStore

open Store TenantStore

/-! ## Overlay updates -/

/-- `update_lifecycle_counted` as a step. -/
def updateLifecycleCounted (t : TenantId) (c : ChunkId) (delta : LifecycleDelta) : StoreProg ℕ :=
  .perform .metadataWrite fun s =>
    (.ok (s.db.updateLifecycleCounted t c delta).1,
     withDb (fun db => (db.updateLifecycleCounted t c delta).2) s)

/-- `update_lifecycle_if_exists`. -/
def updateLifecycleIfExists (t : TenantId) (c : ChunkId) (delta : LifecycleDelta) :
    StoreProg Bool := do
  let rows ← updateLifecycleCounted t c delta
  pure (decide (rows > 0))

/-! ## Adding with an overlay -/

/-- `add_chunk_with_stored_ids`. -/
def addChunkWithStoredIds (ext : Externals) (t : TenantId) (chunk : MemoryChunk)
    (indexError : Option String) (now : ℤ) : StoreProg (ChunkId × List ChunkId) := do
  let outcome ← addChunks ext t [chunk] false indexError now
  match outcome.primaryIds with
  | [] => .fail (.storageError "no primary chunk id produced for add")
  | primaryId :: _ => pure (primaryId, outcome.storedIds)

/-- The overlay update of one stored part; `faults` lists the errors of the parts. -/
def updatePart (t : TenantId) (delta : LifecycleDelta) (faults : List (Option String))
    (part : ChunkId × ℕ) : StoreProg Unit :=
  withFault (faults.getD part.2 none) do
    let _ ← updateLifecycleCounted t part.1 delta
    pure ()

/-- The initial overlay of the stored parts: nothing for an empty delta. -/
def applyInitialDelta (t : TenantId) (ids : List ChunkId) (initial : LifecycleDelta)
    (faults : List (Option String)) (now : ℤ) : StoreProg Unit :=
  if initial.isEmpty then pure ()
  else ids.zipIdx.forM (updatePart t
    { initial with lifecycleUpdatedAtMs := some (initial.lifecycleUpdatedAtMs.getD now) } faults)

/-- `add_chunk_with_lifecycle_and_stored_ids`. -/
def addChunkWithLifecycleAndStoredIds (ext : Externals) (t : TenantId) (chunk : MemoryChunk)
    (initial : LifecycleDelta) (faults : List (Option String)) (indexError : Option String)
    (now : ℤ) : StoreProg (ChunkId × List ChunkId) := do
  let (chunkId, storedIds) ← addChunkWithStoredIds ext t chunk indexError now
  applyInitialDelta t storedIds initial faults now
  pure (chunkId, storedIds)

/-! ## Superseding -/

/-- The metadata steps of a supersede that hit an I/O error. -/
structure MetadataFaults where
  preflight : Option String := none
  walk : Option String := none
  /-- the overlay updates of the parts, by position -/
  parts : List (Option String) := []
  link : Option String := none
  deriving DecidableEq, Repr

/-- The loop of `detect_supersession_cycle`: read the successor of `current`, fail on one
that was visited.  `fuel` bounds the number of reads. -/
def walkSuccessors (t : TenantId) (start : ChunkId) : ℕ → List ChunkId → ChunkId → StoreProg Unit
  | 0, _, _ => .fail .walkCutOff
  | fuel + 1, visited, current => do
    let row ← .read .metadataRead (·.db.get t current)
    match row.bind (·.lifecycle.supersededBy) with
    | none => pure ()
    | some next =>
      if visited.contains next then
        .fail (.validationError
          s!"supersession cycle detected: revisited {next} while walking from {start}")
      else walkSuccessors t start fuel (next :: visited) next

/-- `detect_supersession_cycle`. -/
def detectSupersessionCycle (t : TenantId) (start : ChunkId) (fuel : ℕ) : StoreProg Unit :=
  walkSuccessors t start fuel [start] start

/-- Steps 0 to 2a of a supersede. -/
def supersedePreflight (t : TenantId) (old : ChunkId) (fuel : ℕ) (faults : MetadataFaults) :
    StoreProg Unit := do
  let row ← withFault faults.preflight (.read .metadataRead (·.db.get t old))
  -- a row that is not there, or is deleted, cannot be superseded
  match row with
  | none => .fail (.validationError
      s!"supersede_chunk: old chunk {old} not found in tenant {t}")
  | some m =>
    if m.status = .deleted then .fail (.validationError
      s!"supersede_chunk: old chunk {old} is deleted in tenant {t}")
    else
      -- the walk along the successors comes before the look at the row's own
      withFault faults.walk (detectSupersessionCycle t old fuel)
      match m.lifecycle.supersededBy with
      | some head => .fail (.validationError
          s!"supersede_chunk: old chunk {old} is not current head (already superseded by {head}) in tenant {t}")
      | none => pure ()

/-- `atomic_supersede` as a step. -/
def atomicSupersede (t : TenantId) (old new : ChunkId) (now : ℤ) : StoreProg Unit :=
  transactDb (.atomicSupersede old new) (·.atomicSupersede t old new now)

/-- Compensating durable delete of one stored part; an error is only a warning. -/
def compensate (t : TenantId) (c : ChunkId) : StoreProg Unit := do
  let _ ← (deleteChunk t c).attempt
  pure ()

/-- Steps 4 and 4a of a supersede. -/
def linkOrCompensate (t : TenantId) (old new : ChunkId) (storedIds : List ChunkId)
    (fault : Option String) (now : ℤ) : StoreProg Unit := do
  let linked ← (withFault fault (atomicSupersede t old new now)).attempt
  match linked with
  | .ok _ => pure ()
  | .error e => do
    storedIds.forM (compensate t)
    .fail e

/-- `supersede_chunk_with_lifecycle_and_stored_ids`. -/
def supersedeChunk (ext : Externals) (t : TenantId) (old : ChunkId) (newChunk : MemoryChunk)
    (lifecycle : LifecycleDelta) (fuel : ℕ) (faults : MetadataFaults)
    (indexError : Option String) (now : ℤ) (linkNow : ℤ) : StoreProg (ChunkId × List ChunkId) :=
  if newChunk.tenantId ≠ t then .fail (.validationError
    s!"supersede_chunk: new_chunk.tenant_id {newChunk.tenantId} does not match tenant_id {t}")
  else do
    supersedePreflight t old fuel faults
    let (newId, storedIds) ← addChunkWithLifecycleAndStoredIds ext t newChunk lifecycle faults.parts
      indexError now
    linkOrCompensate t old newId storedIds faults.link linkNow
    pure (newId, storedIds)

end PersistentStore
