/-
# Steps that leave the database alone

The segment programs of the store take steps on files and on the open handle only.
`DbQuiet` says so of one step, and the lemmas below of whole programs; a property of
programs that such steps satisfy follows by `Proc.All.mono`.  They leave the log alone too.
-/
import Memd.PersistentStore

open Store TenantStore PersistentStore

/-- Does the step insert chunk rows or announce the state of their index? -/
def StoreStep.isIndexing : StoreStep → Bool
  | .insertRows _ | .replayInsert _ | .markIndexPending _ | .markIndexed _ => true
  | _ => false

/-- A step that does not write the database. -/
structure DbQuiet (l : StoreStep) (upd : Store → Store) : Prop where
  label : l.isIndexing = false
  db : ∀ s, (upd s).db = s.db

/-- A step that does nothing leaves the tables alone. -/
theorem dbQuiet_id {l : StoreStep} (h : l.isIndexing = false) : DbQuiet l id :=
  ⟨h, fun _ => rfl⟩

/-! ## Steps -/

/-- Rotating the segment leaves the tables alone; so do the next steps on the segments. -/
theorem rotateIfFull_db (maxChunks : ℕ) (s : Store) : (rotateIfFull maxChunks s).2.db = s.db := by
  unfold rotateIfFull sealActive
  split
  · split
    · rfl
    · split <;> rfl
  · rfl

theorem createIfNone_db (s : Store) : (createIfNone s).db = s.db := by
  unfold createIfNone
  split <;> rfl

theorem appendToActive_db (msg : String) (chunk : MemoryChunk) (s : Store) :
    (appendToActive msg chunk s).2.db = s.db := by
  unfold appendToActive
  split <;> rfl

theorem flushActive_db (s : Store) : (flushActive s).db = s.db := by
  unfold flushActive
  split <;> rfl

theorem finalizeActive_db (s : Store) : (finalizeActive s).2.db = s.db := by
  unfold finalizeActive sealActive
  split
  · rfl
  · split
    · split <;> rfl
    · rfl

theorem tombstone_db (segmentId ordinal : ℕ) (s : Store) :
    (tombstone segmentId ordinal s).db = s.db := by
  unfold tombstone
  split <;> rfl

theorem openOnDemand_db (segmentId ordinal : ℕ) (s : Store) :
    (openOnDemand segmentId ordinal s).2.db = s.db := by
  unfold openOnDemand
  split
  · rfl
  · dsimp only
    split <;> rfl

/-! None of them writes the log. -/

/-- Rotating the segment leaves the log alone; so do the next steps on the segments. -/
theorem rotateIfFull_wal (maxChunks : ℕ) (s : Store) :
    (rotateIfFull maxChunks s).2.wal = s.wal := by
  unfold rotateIfFull sealActive
  split
  · split
    · rfl
    · split <;> rfl
  · rfl

theorem createIfNone_wal (s : Store) : (createIfNone s).wal = s.wal := by
  unfold createIfNone
  split <;> rfl

theorem appendToActive_wal (msg : String) (chunk : MemoryChunk) (s : Store) :
    (appendToActive msg chunk s).2.wal = s.wal := by
  unfold appendToActive
  split <;> rfl

theorem flushActive_wal (s : Store) : (flushActive s).wal = s.wal := by
  unfold flushActive
  split <;> rfl

theorem finalizeActive_wal (s : Store) : (finalizeActive s).2.wal = s.wal := by
  unfold finalizeActive sealActive
  split
  · rfl
  · split
    · split <;> rfl
    · rfl

theorem tombstone_wal (segmentId ordinal : ℕ) (s : Store) :
    (tombstone segmentId ordinal s).wal = s.wal := by
  unfold tombstone
  split <;> rfl

/-! ## Programs -/

/-- Storing a payload leaves the tables alone. -/
theorem quiet_storePayload (msg : String) (chunk : MemoryChunk) :
    (storePayload msg chunk).All DbQuiet := by
  refine Proc.All.bind (Proc.All.read _ (dbQuiet_id rfl)) fun maxChunks => ?_
  refine Proc.All.bind ?_ fun _ => Proc.All.perform ⟨rfl, appendToActive_db msg chunk⟩
  refine Proc.All.bind (Proc.All.perform ⟨rfl, rotateIfFull_db maxChunks⟩) fun _ => ?_
  exact Proc.All.modify ⟨rfl, createIfNone_db⟩

/-- Closing the active segment leaves the tables alone. -/
theorem quiet_finalizeActiveSegment {l : StoreStep} (h : l.isIndexing = false) :
    (finalizeActiveSegment l).All DbQuiet :=
  Proc.All.perform ⟨h, finalizeActive_db⟩

/-- Closing a full segment leaves the tables alone. -/
theorem quiet_finalizeActiveSegmentIfAboveThreshold :
    finalizeActiveSegmentIfAboveThreshold.All DbQuiet := by
  refine Proc.All.bind (Proc.All.read _ (dbQuiet_id rfl)) fun cfg => ?_
  split
  · exact quiet_finalizeActiveSegment rfl
  · refine Proc.All.bind (Proc.All.read _ (dbQuiet_id rfl)) fun activeChunks => ?_
    split
    · trivial
    · exact quiet_finalizeActiveSegment rfl

/-- Storing the payloads of a batch leaves the tables alone. -/
theorem quiet_storePending (ext : Externals) (pending : List MemoryChunk)
    (rows : List ChunkMetadata) : (pending.foldlM (storePending ext) rows).All DbQuiet := by
  refine Proc.All.foldlM ?_ pending rows
  intro rows p
  exact Proc.All.bind (quiet_storePayload _ p) fun _ => trivial

/-- Preparing a batch leaves the tables alone. -/
theorem quiet_preparePendingChunks (ext : Externals) (chunks : List MemoryChunk)
    (preserveChunkIds : Bool) : (preparePendingChunks ext chunks preserveChunkIds).All DbQuiet := by
  refine Proc.All.foldlM ?_ chunks []
  intro pending chunk
  refine Proc.All.bind ?_ fun _ => trivial
  unfold pendingId
  split
  · refine Proc.All.bind (Proc.All.read _ (dbQuiet_id rfl)) fun existing => ?_
    split <;> trivial
  · exact Proc.All.perform ⟨rfl, fun _ => rfl⟩

/-- The checkpoint after a batch leaves the tables alone. -/
theorem quiet_checkpointAfterBatch (writes : ℕ) : (checkpointAfterBatch writes).All DbQuiet := by
  refine Proc.All.bind (Proc.All.read _ (dbQuiet_id rfl)) fun interval => ?_
  split
  · trivial
  refine Proc.All.bind (Proc.All.perform ⟨rfl, fun _ => rfl⟩) fun checkpoints => ?_
  split
  · trivial
  refine Proc.All.bind (quiet_finalizeActiveSegment rfl) fun _ => ?_
  exact Proc.All.forM (fun _ => Proc.All.modify ⟨rfl, fun _ => rfl⟩) _

/-- A retrieval leaves the tables alone. -/
theorem quiet_getChunk (t : TenantId) (c : ChunkId) : (getChunk t c).All DbQuiet := by
  refine Proc.All.bind (Proc.All.read _ (dbQuiet_id rfl)) fun existing => ?_
  cases existing with
  | none => trivial
  | some m =>
    refine Proc.All.bind (Proc.All.read _ (dbQuiet_id rfl)) fun cached => ?_
    cases cached with
    | some chunk => trivial
    | none =>
      refine Proc.All.bind (Proc.All.perform ⟨rfl, ?_⟩) fun _ => trivial
      exact openOnDemand_db m.segmentId m.ordinal
