/-
# What the index state of a row says

The `index_state` column is written by `mark_index_pending`, `mark_indexed` and
`mark_index_failed`; an `INSERT OR REPLACE` that does not name it gives it its default,
`'indexed'`.  The system here runs adds with a synchronous or a queued index job, sweeps
of pending rows and promotions, overlapping in any way, with crashes and recoveries
anywhere, and remembers for which chunks an index job has finished (`Watched.finished`).

* `Watched` — the store and the chunks whose index job has finished;
* `indexing` — the system;
* `indexed_only_after_job` — which runs keep the column honest;
* `replay_forgets_failure` — a run in which recovery turns a failed row into an indexed one.
-/
import Memd.ConsolidationService
import Memd.Session
import Memd.StoreSteps
import Memd.WriteSafety

open Store TenantStore PersistentStore Consolidation

/-! ## Index jobs -/

/-- How an index job ends: a queued job may also be lost with the worker. -/
inductive IndexOutcome
  | indexed
  | failed (error : String)
  | lost
  deriving DecidableEq, Repr

namespace PersistentStore

/-- The metadata writes of `run_async_index_job`. -/
def runIndexJob (t : TenantId) (ids : List ChunkId) (outcome : IndexOutcome) (now : ℤ) :
    StoreProg Unit :=
  match outcome with
  | .indexed => recordIndexOutcome t ids none now
  | .failed e => recordIndexOutcome t ids (some e) now
  | .lost => pure ()

/-- `add_chunks_internal_with_details_and_hook` around what happens to the index. -/
def addChunksWith (ext : Externals) (t : TenantId) (chunks : List MemoryChunk)
    (preserveChunkIds : Bool) (index : List ChunkId → StoreProg Unit) (now : ℤ) :
    StoreProg AddChunksOutcome :=
  if chunks = [] then pure {}
  else do
    let (expanded, positions) :=
      if preserveChunkIds then (chunks, List.range chunks.length)
      else expandChunksForAdd ext chunks
    let pending ← preparePendingChunks ext expanded preserveChunkIds
    .modify (.walAppend (pending.map .add)) (logAppend (pending.map .add))
    storeBatch ext t pending now
    let ids := pending.map (·.chunkId)
    index ids
    checkpointAfterBatch pending.length
    let primaryIds ← .ofExcept (idsAt ids "missing primary chunk id" positions)
    pure { primaryIds := primaryIds, storedIds := ids }

/-- `addChunks` is the add with the index outcome it was given. -/
theorem addChunks_eq (ext : Externals) (t : TenantId) (chunks : List MemoryChunk)
    (preserveChunkIds : Bool) (indexError : Option String) (now : ℤ) :
    addChunks ext t chunks preserveChunkIds indexError now =
      addChunksWith ext t chunks preserveChunkIds
        (fun ids => recordIndexOutcome t ids indexError now) now :=
  rfl

/-- An add that queues its index job and waits for the worker. -/
def addChunksAsync (ext : Externals) (t : TenantId) (chunks : List MemoryChunk)
    (preserveChunkIds : Bool) (outcome : IndexOutcome) (now : ℤ) : StoreProg AddChunksOutcome :=
  addChunksWith ext t chunks preserveChunkIds (fun ids => runIndexJob t ids outcome now) now

/-- `list_pending_index_chunk_ids`. -/
def listPendingIndexChunkIds (t : TenantId) (limit : ℕ) (db : Db) : List ChunkId :=
  (((db.chunks.filter fun r => r.tenantId == t && r.status != .candidate && r.status != .deleted
      && r.status != .error && r.indexState == .pending).mergeSort
    fun a b => decide (a.timestampCreated ≤ b.timestampCreated)).take limit).map (·.chunkId)

/-- `load_chunk_text_for_index`: whether there is a text to index. -/
def loadChunkTextForIndex (t : TenantId) (c : ChunkId) : StoreProg (Option String) := do
  let existing ← .read .metadataRead (·.db.get t c)
  match existing with
  | none => pure none
  | some m =>
    if m.status = .candidate ∨ m.status = .deleted ∨ m.status = .error then pure none
    else
      let payload ← .read .segmentRead (·.readPayloadFallback m.segmentId m.ordinal)
      pure (payload.map (·.text))

/-- One pending row of a sweep: its text is loaded, or it is marked as failed. -/
def collectPending (t : TenantId) (now : ℤ) (acc : List ChunkId) (c : ChunkId) :
    StoreProg (List ChunkId) := do
  let text ← loadChunkTextForIndex t c
  match text with
  | some _ => pure (acc ++ [c])
  | none => do
    .modify .metadataWrite
      (withDb (·.markIndexFailed t c "pending chunk not found during index sweep" now))
    pure acc

/-- `sweep_pending_index_jobs` of one tenant. -/
def sweepPendingIndexJobs (t : TenantId) (batchSize : ℕ) (outcome : IndexOutcome) (now : ℤ) :
    StoreProg Unit := do
  let pendingIds ← .read .metadataRead fun s => listPendingIndexChunkIds t batchSize s.db
  let ids ← pendingIds.foldlM (collectPending t now) []
  if ids = [] then pure () else runIndexJob t ids outcome now

/-- The queued arm of `refresh_promoted_chunks`. -/
def refreshPromotedChunksAsync (t : TenantId) (ids : List ChunkId) (outcome : IndexOutcome)
    (now : ℤ) : StoreProg Unit := do
  ids.forM (refreshPromoted t)
  .modify .metadataWrite (withDb (·.markIndexPending t ids now))
  runIndexJob t ids outcome now

end PersistentStore

/-! ## The system -/

/-- The calls of a run. -/
inductive IndexOp
  | add (chunks : List MemoryChunk) (preserveChunkIds : Bool) (indexError : Option String) (now : ℤ)
  | addAsync (chunks : List MemoryChunk) (preserveChunkIds : Bool) (outcome : IndexOutcome) (now : ℤ)
  | sweep (batchSize : ℕ) (outcome : IndexOutcome) (now : ℤ)
  | promote (surroundings : Surroundings) (run : ConsolidationRun)
  | refreshAsync (ids : List ChunkId) (outcome : IndexOutcome) (now : ℤ)
  deriving DecidableEq, Repr

namespace IndexOp

/-- The program of a call. -/
def prog (ext : Externals) (t : TenantId) : IndexOp → StoreProg Unit
  | .add chunks preserveChunkIds indexError now => do
    let _ ← addChunks ext t chunks preserveChunkIds indexError now
    pure ()
  | .addAsync chunks preserveChunkIds outcome now => do
    let _ ← addChunksAsync ext t chunks preserveChunkIds outcome now
    pure ()
  | .sweep batchSize outcome now => sweepPendingIndexJobs t batchSize outcome now
  | .promote w run => do
    let _ ← promoteValidatedRun w run
    pure ()
  | .refreshAsync ids outcome now => refreshPromotedChunksAsync t ids outcome now

/-- Is the call about the tenant? -/
def isFor (t : TenantId) : IndexOp → Bool
  | .add chunks _ _ _ | .addAsync chunks _ _ _ => chunks.all (·.tenantId == t)
  | .promote _ run => run.tenantId == t
  | _ => true

end IndexOp

/-- The store of a tenant and the chunks for which an index job has finished while they had
a row. -/
structure Watched where
  store : Store := {}
  finished : List ChunkId := []
  deriving DecidableEq, Repr

namespace Watched

/-- The chunks a step finishes the index job of. -/
def finishedBy (t : TenantId) : StoreStep → Store → List ChunkId
  | .markIndexed ids, s => ids.filter fun c => s.db.chunks.any (ChunkRow.isRow t c)
  | _, _ => []

/-- A step of the store, watched. -/
def step (t : TenantId) (l : StoreStep) (upd : Store → Store) (w : Watched) : Watched :=
  { store := upd w.store, finished := w.finished ++ finishedBy t l w.store }

/-- Every indexed row had an index job that finished. -/
def Honest (w : Watched) : Prop :=
  ∀ r ∈ w.store.db.chunks, r.indexState = .indexed → r.chunkId ∈ w.finished

end Watched

/-- Adds, sweeps and promotions of one tenant, overlapping in any way. -/
def indexing (ext : Externals) (t : TenantId) :
    System StoreStep Watched MemdError IndexOp Unit StoreConfig where
  prog op := (op.prog ext t).onPart Watched.store (Watched.step t)
  boot cfg := (openTenant ext t cfg).onPart Watched.store (Watched.step t)
  crash w := { w with store := w.store.crash }
  admits _ op := op.isFor t

/-- A configuration of the index machine. -/
abbrev IndexConfig := Config StoreStep Watched MemdError IndexOp Unit

/-- A call in flight has inserted the row and is about to announce it as pending. -/
def InWindow (c : IndexConfig) (id : ChunkId) : Prop :=
  ∃ pool x ids, c.mode = .up pool ∧ x ∈ pool ∧ x.2.label = some (.markIndexPending ids) ∧ id ∈ ids

/-- The choices that keep the column honest: a replay only inserts rows of chunks whose index
job has finished, and no crash falls between the insert of a batch and its announcement. -/
def KeepsHonest (c : IndexConfig) (ch : Choice IndexOp StoreConfig) : Prop :=
  (∀ row, System.nextLabel c ch = some (.replayInsert row) → row.chunkId ∈ c.store.finished) ∧
  (ch = .crash → ∀ id, ¬ InWindow c id)

/-! ## Statements that leave the index state alone -/

namespace Db

/-- Every indexed row after the statement was an indexed row before it. -/
def KeepsIndex (db db' : Db) : Prop :=
  ∀ r' ∈ db'.chunks, r'.indexState = .indexed →
    ∃ r ∈ db.chunks, r.chunkId = r'.chunkId ∧ r.tenantId = r'.tenantId ∧ r.indexState = .indexed

section KeepsIndex

variable {db db' db'' : Db}

theorem KeepsIndex.refl (db : Db) : KeepsIndex db db :=
  fun r hr hi => ⟨r, hr, rfl, rfl, hi⟩

/-- A step that leaves the chunk rows alone keeps their index states. -/
theorem KeepsIndex.of_chunks_eq (h : db'.chunks = db.chunks) : KeepsIndex db db' :=
  fun r hr hi => ⟨r, h ▸ hr, rfl, rfl, hi⟩

/-- Steps that keep index states compose. -/
theorem KeepsIndex.trans (h : KeepsIndex db db') (h' : KeepsIndex db' db'') :
    KeepsIndex db db'' := by
  intro r'' hr'' hi''
  obtain ⟨r', hr', hc', ht', hi'⟩ := h' r'' hr'' hi''
  obtain ⟨r, hr, hc, ht, hi⟩ := h r' hr' hi'
  exact ⟨r, hr, hc.trans hc', ht.trans ht', hi⟩

/-- An update keeps index states if it makes no row `indexed`. -/
theorem KeepsIndex.updateChunks (db : Db) {p : ChunkRow → Bool} {f : ChunkRow → ChunkRow}
    (hc : ∀ r, (f r).chunkId = r.chunkId) (ht : ∀ r, (f r).tenantId = r.tenantId)
    (hi : ∀ r, (f r).indexState = .indexed → r.indexState = .indexed) :
    KeepsIndex db (db.updateChunks p f) := by
  intro r' hr' hi'
  obtain ⟨r, hr, rfl⟩ := mem_updateChunks.mp hr'
  by_cases hp : p r
  · rw [if_pos hp] at hi' ⊢
    exact ⟨r, hr, (hc r).symm, (ht r).symm, hi r hi'⟩
  · rw [if_neg hp] at hi' ⊢
    exact ⟨r, hr, rfl, rfl, hi'⟩

/-- A loop keeps index states if each of its steps does. -/
theorem KeepsIndex.foldl {α : Type} {step : Db → α → Db} (h : ∀ db x, KeepsIndex db (step db x))
    (l : List α) (db : Db) : KeepsIndex db (l.foldl step db) := by
  induction l generalizing db with
  | nil => exact .refl db
  | cons x l ih => exact (h db x).trans (ih _)

/-- So does a loop whose steps may fail. -/
theorem KeepsIndex.foldlM {α : Type} {step : Db → α → Except MemdError Db}
    (h : ∀ db x db', step db x = .ok db' → KeepsIndex db db') {l : List α}
    (hok : l.foldlM step db = .ok db') : KeepsIndex db db' := by
  induction l generalizing db with
  | nil =>
    obtain rfl : db = db' := Except.ok.inj hok
    exact .refl db
  | cons x l ih =>
    rw [List.foldlM_cons] at hok
    cases hx : step db x with
    | error e =>
      rw [hx] at hok
      exact absurd hok (by simp [bind, Except.bind])
    | ok db₁ =>
      rw [hx] at hok
      exact (h db x db₁ hx).trans (ih hok)

/-- An update of exactly one row keeps index states. -/
theorem keepsIndex_updateOne {p : ChunkRow → Bool} {f : ChunkRow → ChunkRow} {msg : String}
    (hc : ∀ r, (f r).chunkId = r.chunkId) (ht : ∀ r, (f r).tenantId = r.tenantId)
    (hi : ∀ r, (f r).indexState = r.indexState) (hok : db.updateOne p f msg = .ok db') :
    KeepsIndex db db' := by
  unfold updateOne at hok
  split at hok
  · exact absurd hok (by simp)
  · obtain rfl : db.updateChunks p f = db' := Except.ok.inj hok
    exact .updateChunks db hc ht fun r h => (hi r).symm.trans h

/-- Announcing a job makes no row `indexed`. -/
theorem keepsIndex_markIndexPending (db : Db) (t : TenantId) (ids : List ChunkId) (now : ℤ) :
    KeepsIndex db (db.markIndexPending t ids now) := by
  apply KeepsIndex.foldl
  intro db c
  exact .updateChunks db (fun _ => rfl) (fun _ => rfl) fun _ h => absurd h (by simp)

/-- A failed job makes no row `indexed`. -/
theorem keepsIndex_markIndexFailed (db : Db) (t : TenantId) (c : ChunkId) (e : String) (now : ℤ) :
    KeepsIndex db (db.markIndexFailed t c e now) :=
  .updateChunks db (fun _ => rfl) (fun _ => rfl) fun _ h => absurd h (by simp)

/-- A delete makes no row `indexed`. -/
theorem keepsIndex_markDeleted (db : Db) (t : TenantId) (c : ChunkId) :
    KeepsIndex db (db.markDeleted t c) :=
  .updateChunks db (fun _ => rfl) (fun _ => rfl) fun _ h => h

/-- The statements of an artifact bundle make no row `indexed`. -/
theorem keepsIndex_applyBundle (db : Db) (a : TaskArtifact) (projections : List ChunkId)
    (kinds : List String) : KeepsIndex db (db.applyBundle a projections kinds) := by
  have hrows : KeepsIndex db (db.writeTaskRows a) := .of_chunks_eq rfl
  have hlinks : ∀ d : Db, KeepsIndex d (d.linkProjections a projections kinds) :=
    fun _ => .of_chunks_eq rfl
  have hold : ∀ d : Db, KeepsIndex d (d.retireOldProjections a projections) := by
    intro d
    apply KeepsIndex.foldl
    exact fun d c => .updateChunks d (fun _ => rfl) (fun _ => rfl) fun _ h => h
  have hdup : ∀ d : Db, KeepsIndex d (d.retireDuplicates a projections) := by
    intro d
    apply KeepsIndex.foldl
    exact fun d c => .updateChunks d (fun _ => rfl) (fun _ => rfl) fun _ h => h
  by_cases hk : a.artifactKind = .digest
  · simp only [applyBundle, hk, if_true]
    exact ((hrows.trans (hold _)).trans (hlinks _)).trans (hdup _)
  · simp only [applyBundle, hk, if_false]
    exact hrows.trans (hlinks _)

/-- Nor does the bundle as a transaction. -/
theorem keepsIndex_insertBundle {a : TaskArtifact} {projections : List ChunkId}
    {kinds : List String} {r : Unit × Db}
    (hok : db.insertTaskArtifactBundle a projections kinds = .ok r) : KeepsIndex db r.2 := by
  unfold Db.insertTaskArtifactBundle at hok
  split at hok
  · exact absurd hok (by simp)
  · obtain rfl := Except.ok.inj hok
    exact keepsIndex_applyBundle db a projections kinds

/-- The statements of a promotion make no row `indexed`. -/
theorem keepsIndex_applyPromotion {run : ConsolidationRun} {entries : List ConsolidationEntryRecord}
    {relation : LineageRelation} {lineage : List MemoryLineage} {candidates : List ChunkId} {now : ℤ}
    (hok : db.applyPromotion run entries relation lineage candidates now = .ok db') :
    KeepsIndex db db' := by
  unfold applyPromotion at hok
  cases h₁ : candidates.foldlM (promoteCandidate run now) db with
  | error e => simp [h₁, bind, Except.bind] at hok
  | ok db₁ =>
    cases h₂ : (if relation = .supersedes then lineage else []).foldlM
        (supersedeSource run now) db₁ with
    | error e => simp [h₁, h₂, bind, Except.bind] at hok
    | ok db₂ =>
      have hpromoted : KeepsIndex db db₁ := by
        refine KeepsIndex.foldlM ?_ h₁
        intro d c d' h
        rw [promoteCandidate] at h
        refine keepsIndex_updateOne ?_ ?_ ?_ h <;> exact fun _ => rfl
      have hsuperseded : KeepsIndex db₁ db₂ := by
        refine KeepsIndex.foldlM ?_ h₂
        intro d e d' h
        rw [supersedeSource] at h
        refine keepsIndex_updateOne ?_ ?_ ?_ h <;> exact fun _ => rfl
      refine (hpromoted.trans hsuperseded).trans (.of_chunks_eq ?_)
      simp only [h₁, h₂, bind, Except.bind] at hok
      split at hok
      · exact absurd hok (by simp)
      · split at hok
        · exact absurd hok (by simp)
        · obtain rfl := Except.ok.inj hok
          rfl

/-- Nor does the promotion as a transaction. -/
theorem keepsIndex_atomicPromote {id : ConsolidationRunId} {now : ℤ} {outcome : PromotionOutcome}
    (hok : db.atomicPromoteConsolidationRun id now = .ok (outcome, db')) : KeepsIndex db db' := by
  unfold atomicPromoteConsolidationRun at hok
  split at hok
  · exact absurd hok (by simp)
  split at hok
  · obtain ⟨_, rfl⟩ := Prod.mk.inj (Except.ok.inj hok)
    exact .refl _
  split at hok
  · exact absurd hok (by simp)
  split at hok
  · exact absurd hok (by simp)
  dsimp only at hok
  split at hok
  · exact absurd hok (by simp)
  -- the checks read only; what is written is the promotion
  split at hok
  · exact absurd hok (by simp [bind, Except.bind, throw, throwThe, MonadExceptOf.throw])
  obtain ⟨_, _, hok⟩ := Proc.except_bind_eq_ok.mp hok
  obtain ⟨_, _, hok⟩ := Proc.except_bind_eq_ok.mp hok
  obtain ⟨_, _, hok⟩ := Proc.except_bind_eq_ok.mp hok
  obtain ⟨db₁, hpromotion, hok⟩ := Proc.except_bind_eq_ok.mp hok
  obtain ⟨_, rfl⟩ := Prod.mk.inj (Except.ok.inj hok)
  exact keepsIndex_applyPromotion hpromotion

end KeepsIndex

end Db

/-! ## What the steps of the programs do to the index state -/

open Db

variable {t : TenantId}

/-- A step does what its label says: only the four labelled ones write the index state, and
the insert of a batch is followed by its announcement. -/
def IndexStep (t : TenantId) (l : StoreStep) (upd : Store → Store) (after : Option StoreStep) :
    Prop :=
  match l with
  | .insertRows rows => (∀ s, (upd s).db = s.db.insertMany rows) ∧ (∀ m ∈ rows, m.tenantId = t) ∧
      after = some (.markIndexPending (rows.map (·.chunkId)))
  | .replayInsert row => ∀ s, (upd s).db = s.db.insert row
  | .markIndexPending ids => ∃ now, ∀ s, (upd s).db = s.db.markIndexPending t ids now
  | .markIndexed ids => ∃ now, ∀ s, (upd s).db = s.db.markIndexed t ids now
  | _ => ∀ s, KeepsIndex s.db (upd s).db

/-- A step that leaves the index state alone. -/
structure IndexQuiet (l : StoreStep) (upd : Store → Store) : Prop where
  label : l.isIndexing = false
  keeps : ∀ s, KeepsIndex s.db (upd s).db

/-- A quiet step is a legal index step. -/
theorem IndexQuiet.indexStep {l : StoreStep} {upd : Store → Store} (h : IndexQuiet l upd)
    (after : Option StoreStep) : IndexStep t l upd after := by
  obtain ⟨hl, hk⟩ := h
  cases l <;> first | exact hk | exact absurd hl (by simp [StoreStep.isIndexing])

/-- A step that leaves the database alone is quiet. -/
theorem DbQuiet.indexQuiet {l : StoreStep} {upd : Store → Store} (h : DbQuiet l upd) :
    IndexQuiet l upd :=
  ⟨h.label, fun s => .of_chunks_eq (by rw [h.db])⟩

/-- A transaction of statements that leave the index state alone. -/
theorem indexQuiet_transact {α : Type} {l : StoreStep} {f : Db → Except MemdError (α × Db)}
    (hl : l.isIndexing = false) (h : ∀ db r, f db = .ok r → KeepsIndex db r.2) :
    (.transact l fun s => (f s.db).map fun r => (r.1, { s with db := r.2 }) : StoreProg α).All
      IndexQuiet := by
  refine Proc.All.perform ⟨hl, fun s => ?_⟩
  dsimp only
  cases hf : f s.db with
  | error e => exact .refl _
  | ok r => exact h s.db r hf

/-- A legal last step is legal before any other. -/
theorem indexStep_none (l : StoreStep) (upd : Store → Store) (after : Option StoreStep)
    (h : IndexStep t l upd none) : IndexStep t l upd after := by
  cases l with
  | insertRows rows => exact absurd h.2.2 (by simp)
  | _ => exact h

/-- A program whose steps do what their labels say. -/
def Indexes {α : Type} (t : TenantId) (Q : α → Prop) (p : StoreProg α) : Prop :=
  p.Follows (IndexStep t) Q

section Indexes

variable {α β : Type} {Q : α → Prop} {R : β → Prop}

/-- The bind rule: the second program starts with what the first returns. -/
theorem Indexes.bind {p : StoreProg α} {f : α → StoreProg β} (hp : Indexes t Q p)
    (hf : ∀ a, Q a → Indexes t R (f a)) : Indexes t R (p.bind f) :=
  Proc.Follows.bind indexStep_none hp hf

/-- A program of quiet steps takes legal index steps only. -/
theorem indexes_of_quiet {p : StoreProg α} (hp : p.All IndexQuiet) :
    Indexes t (fun _ => True) p :=
  Proc.Follows.of_all (fun _ _ after h => h.indexStep after) hp fun _ => trivial

/-- So does one that leaves the database alone. -/
theorem indexes_of_dbQuiet {p : StoreProg α} (hp : p.All DbQuiet) : Indexes t (fun _ => True) p :=
  indexes_of_quiet (hp.mono fun _ _ h => h.indexQuiet)

/-- A read is a legal index step. -/
theorem indexes_read {l : StoreStep} (f : Store → α) (h : l.isIndexing = false) :
    Indexes t (fun _ => True) (.read l f : StoreProg α) :=
  indexes_of_dbQuiet (Proc.All.read f (dbQuiet_id h))

end Indexes

/-! ### Adding -/

/-- The chunks an add prepares belong to its tenant. -/
theorem indexes_preparePendingChunks (ext : Externals) (preserveChunkIds : Bool)
    {chunks : List MemoryChunk} (ht : ∀ c ∈ chunks, c.tenantId = t) :
    Indexes t (fun pending => ∀ p ∈ pending, p.tenantId = t)
      (preparePendingChunks ext chunks preserveChunkIds) := by
  refine Proc.Follows.foldlM indexStep_none chunks ?_ [] (by simp)
  intro pending chunk hc hpending
  have hid : Indexes t (fun _ => True) (pendingId chunk preserveChunkIds) := by
    apply indexes_of_dbQuiet
    unfold pendingId
    split
    · refine Proc.All.bind (Proc.All.read _ (dbQuiet_id rfl)) fun existing => ?_
      split <;> trivial
    · exact Proc.All.perform ⟨rfl, fun _ => rfl⟩
  refine hid.bind fun id _ => ?_
  intro p hp
  rcases List.mem_append.mp hp with hp | hp
  · exact hpending p hp
  · obtain rfl := List.mem_singleton.mp hp
    exact ht chunk hc

/-- The rows of stored payloads belong to the tenant. -/
theorem indexes_storePending (ext : Externals) {pending : List MemoryChunk}
    (ht : ∀ p ∈ pending, p.tenantId = t) :
    Indexes t (fun rows => ∀ m ∈ rows, m.tenantId = t) (pending.foldlM (storePending ext) []) := by
  refine Proc.Follows.foldlM indexStep_none pending ?_ [] (by simp)
  intro rows p hp hrows
  refine Indexes.bind (indexes_of_dbQuiet (quiet_storePayload _ p)) fun loc _ => ?_
  intro m hm
  rcases List.mem_append.mp hm with hm | hm
  · exact hrows m hm
  · obtain rfl := List.mem_singleton.mp hm
    exact ht p hp

/-- Storing a batch announces its job behind the rows. -/
theorem indexes_storeBatch (ext : Externals) {pending : List MemoryChunk}
    (ht : ∀ p ∈ pending, p.tenantId = t) (now : ℤ) :
    Indexes t (fun _ => True) (storeBatch ext t pending now) := by
  refine Indexes.bind (indexes_storePending ext ht) fun rows hrows => ?_
  refine Indexes.bind (indexes_of_dbQuiet (Proc.All.modify ⟨rfl, flushActive_db⟩)) fun _ _ => ?_
  -- the insert and the announcement right behind it
  refine fun s => ⟨⟨fun s => rfl, hrows, rfl⟩, ?_⟩
  exact fun s => ⟨⟨now, fun s => rfl⟩, trivial⟩

/-- Recording an index outcome takes legal steps only. -/
theorem indexes_recordIndexOutcome (ids : List ChunkId) (indexError : Option String) (now : ℤ) :
    Indexes t (fun _ => True) (recordIndexOutcome t ids indexError now) := by
  cases indexError with
  | none => exact fun s => ⟨⟨now, fun s => rfl⟩, trivial⟩
  | some e =>
    refine indexes_of_quiet (Proc.All.forM (fun c => Proc.All.modify ⟨rfl, fun s => ?_⟩) ids)
    exact keepsIndex_markIndexFailed s.db t c e now

/-- An index job finishes only what it has announced. -/
theorem indexes_runIndexJob (ids : List ChunkId) (outcome : IndexOutcome) (now : ℤ) :
    Indexes t (fun _ => True) (runIndexJob t ids outcome now) := by
  cases outcome with
  | indexed => exact indexes_recordIndexOutcome ids none now
  | failed e => exact indexes_recordIndexOutcome ids (some e) now
  | lost => trivial

/-- An add takes legal steps if its indexing does. -/
theorem indexes_addChunksWith (ext : Externals) {chunks : List MemoryChunk}
    (ht : ∀ c ∈ chunks, c.tenantId = t) (preserveChunkIds : Bool)
    {index : List ChunkId → StoreProg Unit} (hindex : ∀ ids, Indexes t (fun _ => True) (index ids))
    (now : ℤ) :
    Indexes t (fun _ => True) (addChunksWith ext t chunks preserveChunkIds index now) := by
  unfold addChunksWith
  split
  · trivial
  generalize hexp : (if preserveChunkIds = true then (chunks, List.range chunks.length)
    else expandChunksForAdd ext chunks) = expansion
  obtain ⟨expanded, positions⟩ := expansion
  have hexpanded : ∀ c ∈ expanded, c.tenantId = t := by
    intro c hc
    cases preserveChunkIds with
    | true =>
      obtain ⟨rfl, _⟩ := Prod.mk.inj hexp
      exact ht c hc
    | false =>
      have hmem : c ∈ (expandChunksForAdd ext chunks).1 := by
        rw [show expandChunksForAdd ext chunks = (expanded, positions) from hexp]
        exact hc
      obtain ⟨chunk, hchunk, heq⟩ := mem_expandChunksForAdd hmem
      exact heq.trans (ht chunk hchunk)
  refine Indexes.bind (indexes_preparePendingChunks ext preserveChunkIds hexpanded)
    fun pending hpending => ?_
  refine Indexes.bind (indexes_of_dbQuiet (Proc.All.modify ⟨rfl, fun _ => rfl⟩)) fun _ _ => ?_
  refine Indexes.bind (indexes_storeBatch ext hpending now) fun _ _ => ?_
  refine Indexes.bind (hindex _) fun _ _ => ?_
  refine Indexes.bind (indexes_of_dbQuiet (quiet_checkpointAfterBatch _)) fun _ _ => ?_
  exact Indexes.bind (Proc.Follows.ofExcept (Q := fun _ => True) fun _ _ => trivial)
    fun _ _ => trivial

/-! ### Sweeps and promotions -/

/-- A sweep over pending jobs takes legal steps only. -/
theorem indexes_sweep (batchSize : ℕ) (outcome : IndexOutcome) (now : ℤ) :
    Indexes t (fun _ => True) (sweepPendingIndexJobs t batchSize outcome now) := by
  refine Indexes.bind (indexes_read _ rfl) fun pendingIds _ => ?_
  refine Indexes.bind (Q := fun _ => True) ?_ fun ids _ => ?_
  · refine Proc.Follows.foldlM indexStep_none pendingIds ?_ [] trivial
    intro acc c _ _
    refine Indexes.bind (Q := fun _ => True) ?_ fun text _ => ?_
    · refine Indexes.bind (indexes_read _ rfl) fun existing _ => ?_
      cases existing with
      | none => trivial
      | some m =>
        dsimp only
        split
        · trivial
        · exact Indexes.bind (indexes_read _ rfl) fun _ _ => trivial
    · cases text with
      | some _ => trivial
      | none =>
        refine Indexes.bind (indexes_of_quiet (Proc.All.modify ⟨rfl, fun s => ?_⟩)) fun _ _ => trivial
        exact keepsIndex_markIndexFailed s.db t c _ now
  · split
    · trivial
    · exact indexes_runIndexJob ids outcome now

/-- The refresh of a promoted chunk takes legal steps only. -/
theorem indexes_refreshPromoted (c : ChunkId) :
    Indexes t (fun _ => True) (refreshPromoted t c) := by
  refine Indexes.bind (indexes_read _ rfl) fun metadata _ => ?_
  cases metadata with
  | none => trivial
  | some m =>
    dsimp only
    split
    · trivial
    · refine Indexes.bind (indexes_of_dbQuiet (quiet_getChunk t c)) fun payload _ => ?_
      cases payload <;> trivial

/-- Announcing jobs for some chunks is a legal step. -/
theorem indexes_announceAll (ids : List ChunkId) (now : ℤ) :
    Indexes t (fun _ => True)
      (.modify .metadataWrite (withDb (·.markIndexPending t ids now)) : StoreProg Unit) :=
  indexes_of_quiet (Proc.All.modify ⟨rfl, fun s => keepsIndex_markIndexPending s.db t ids now⟩)

/-- A promotion takes legal steps only. -/
theorem indexes_promote (w : Surroundings) {run : ConsolidationRun} (ht : run.tenantId = t) :
    Indexes t (fun _ => True) (promoteValidatedRun w run) := by
  refine Indexes.bind (Q := fun _ => True) ?_ fun _ _ => ?_
  · unfold Surroundings.auditCheck
    split <;> trivial
  refine Indexes.bind (Q := fun _ => True) ?_ fun outcome _ => ?_
  · exact indexes_of_quiet (indexQuiet_transact rfl fun db r h => keepsIndex_atomicPromote h)
  refine Indexes.bind (indexes_read _ rfl) fun candidates _ => ?_
  refine Indexes.bind (Q := fun _ => True) (Proc.Follows.attempt ?_) fun _ _ => trivial
  rw [ht]
  refine Indexes.bind (Proc.Follows.forM indexStep_none candidates
    fun c _ => indexes_refreshPromoted c) fun _ _ => ?_
  exact Indexes.bind (indexes_announceAll candidates _) fun _ _ =>
    indexes_recordIndexOutcome candidates _ _

/-- The programs of all calls. -/
theorem indexes_prog (ext : Externals) {op : IndexOp} (hop : op.isFor t = true) :
    Indexes t (fun _ => True) (op.prog ext t) := by
  cases op with
  | add chunks preserveChunkIds indexError now =>
    have ht : ∀ c ∈ chunks, c.tenantId = t := by simpa [IndexOp.isFor] using hop
    refine Indexes.bind (Q := fun _ => True) ?_ fun _ _ => trivial
    rw [addChunks_eq]
    exact indexes_addChunksWith ext ht preserveChunkIds
      (fun ids => indexes_recordIndexOutcome ids indexError now) now
  | addAsync chunks preserveChunkIds outcome now =>
    have ht : ∀ c ∈ chunks, c.tenantId = t := by simpa [IndexOp.isFor] using hop
    refine Indexes.bind (Q := fun _ => True) ?_ fun _ _ => trivial
    exact indexes_addChunksWith ext ht preserveChunkIds
      (fun ids => indexes_runIndexJob ids outcome now) now
  | sweep batchSize outcome now => exact indexes_sweep batchSize outcome now
  | promote w run =>
    have ht : run.tenantId = t := by simpa [IndexOp.isFor] using hop
    exact Indexes.bind (indexes_promote w ht) fun _ _ => trivial
  | refreshAsync ids outcome now =>
    refine Indexes.bind (Proc.Follows.forM indexStep_none ids
      fun c _ => indexes_refreshPromoted c) fun _ _ => ?_
    exact Indexes.bind (indexes_announceAll ids now) fun _ _ => indexes_runIndexJob ids outcome now

/-! ### Recovery -/

/-- A step of a replay: no batch is inserted by it. -/
def ReplayStep (t : TenantId) (l : StoreStep) (upd : Store → Store) : Prop :=
  IndexStep t l upd none

/-- A step that leaves the database alone is a legal step of a replay. -/
theorem DbQuiet.replayStep {l : StoreStep} {upd : Store → Store} (h : DbQuiet l upd) :
    ReplayStep t l upd :=
  h.indexQuiet.indexStep none

/-- A program of quiet steps is a legal replay. -/
theorem replays_of_quiet {α : Type} {p : StoreProg α} (hp : p.All IndexQuiet) :
    p.All (ReplayStep t) :=
  hp.mono fun _ _ h => h.indexStep none

/-- So is one that leaves the database alone. -/
theorem replays_of_dbQuiet {α : Type} {p : StoreProg α} (hp : p.All DbQuiet) :
    p.All (ReplayStep t) :=
  hp.mono fun _ _ h => h.replayStep

/-- Replaying a record takes legal steps only. -/
theorem replays_replayRecord (ext : Externals) (adds : ℕ) (r : LogRecord) :
    (replayRecord ext t adds r).All (ReplayStep t) := by
  have hread : ∀ {α : Type} {l : StoreStep} (f : Store → α), l.isIndexing = false →
      (.read l f : StoreProg α).All (ReplayStep t) :=
    fun f h => Proc.All.read f (dbQuiet_id h).replayStep
  cases r with
  | add chunk =>
    refine Proc.All.bind ?_ fun _ => trivial
    refine Proc.All.bind (hread _ rfl) fun existing => ?_
    refine Proc.All.bind (hread _ rfl) fun readable => ?_
    split
    · trivial
    refine Proc.All.bind (replays_of_dbQuiet (quiet_storePayload _ chunk)) fun loc => ?_
    refine Proc.All.bind (Proc.All.modify ?_) fun _ => trivial
    exact fun s => rfl
  | delete c =>
    refine Proc.All.bind ?_ fun _ => trivial
    refine Proc.All.bind (hread _ rfl) fun existing => ?_
    cases existing with
    | none => trivial
    | some m =>
      refine Proc.All.bind (replays_of_quiet (Proc.All.modify ⟨rfl, fun s => ?_⟩)) fun _ => ?_
      · exact keepsIndex_markDeleted s.db t c
      · exact replays_of_dbQuiet (Proc.All.modify ⟨rfl, tombstone_db m.segmentId m.ordinal⟩)
  | taskArtifact p =>
    refine Proc.All.bind ?_ fun _ => trivial
    exact replays_of_quiet (indexQuiet_transact rfl fun db r h => keepsIndex_insertBundle h)
  | checkpoint => trivial

/-- So does replaying a log. -/
theorem replays_recoverFromWal (ext : Externals) :
    (recoverFromWal ext t).All (ReplayStep t) := by
  refine Proc.All.bind (Proc.All.read _ (dbQuiet_id rfl).replayStep) fun records => ?_
  split
  · trivial
  refine Proc.All.bind (Proc.All.foldlM (replays_replayRecord ext) records 0) fun adds => ?_
  have htruncate : (.modify .walTruncate (fun s => { s with wal := [] }) : StoreProg Unit).All
      (ReplayStep t) :=
    replays_of_dbQuiet (Proc.All.modify ⟨rfl, fun _ => rfl⟩)
  dsimp only
  split
  · exact Proc.All.bind (replays_of_dbQuiet (quiet_finalizeActiveSegment rfl)) fun _ => htruncate
  · exact htruncate

/-- And so does opening a tenant. -/
theorem replays_openTenant (ext : Externals) (cfg : StoreConfig) :
    (openTenant ext t cfg).All (ReplayStep t) := by
  refine Proc.All.bind (replays_of_dbQuiet (Proc.All.modify ⟨rfl, fun _ => rfl⟩)) fun _ => ?_
  refine Proc.All.bind (Proc.All.attempt (replays_recoverFromWal ext)) fun outcome => ?_
  cases outcome with
  | ok _ => trivial
  | error e =>
    refine Proc.All.bind (Proc.All.attempt ?_) fun _ => trivial
    exact replays_of_dbQuiet quiet_finalizeActiveSegmentIfAboveThreshold

/-! ## One step -/

namespace Db

variable {db : Db} {r' : ChunkRow}

/-- A row behind an insert is an old one or one of the new ones with the defaults. -/
theorem mem_insertMany {rows : List ChunkMetadata} (h : r' ∈ (db.insertMany rows).chunks) :
    r' ∈ db.chunks ∨ ∃ m ∈ rows, r' = { toChunkMetadata := m } := by
  induction rows generalizing db with
  | nil => exact .inl h
  | cons m rows ih =>
    rcases ih h with hold | ⟨n, hn, rfl⟩
    · rcases mem_insert.mp hold with ⟨hold, _⟩ | rfl
      · exact .inl hold
      · exact .inr ⟨m, List.mem_cons_self, rfl⟩
    · exact .inr ⟨n, List.mem_cons_of_mem m hn, rfl⟩

/-- After the announcement none of the announced rows is indexed. -/
theorem not_announced_of_indexed {ids : List ChunkId} {now : ℤ}
    (h : r' ∈ (db.markIndexPending t ids now).chunks) (hi : r'.indexState = .indexed)
    (ht : r'.tenantId = t) : r'.chunkId ∉ ids := by
  induction ids generalizing db with
  | nil => simp
  | cons c ids ih =>
    rw [List.mem_cons, not_or]
    refine ⟨?_, ih h⟩
    rintro rfl
    -- what is left of the loop only takes rows out of the indexed ones
    obtain ⟨r₁, hr₁, hc₁, ht₁, hi₁⟩ := keepsIndex_markIndexPending _ t ids now r' h hi
    obtain ⟨r, _, rfl⟩ := mem_updateChunks.mp hr₁
    by_cases hrow : ChunkRow.isRow t r'.chunkId r = true
    · rw [if_pos hrow] at hi₁
      exact absurd hi₁ (by simp)
    · rw [if_neg hrow] at hc₁ ht₁
      exact hrow (by simp [ChunkRow.isRow, hc₁, ht₁, ht])

/-- An indexed row after `mark_indexed` was indexed before or is one of the chunks named. -/
theorem indexed_of_markIndexed {ids : List ChunkId} {now : ℤ}
    (h : r' ∈ (db.markIndexed t ids now).chunks) (hi : r'.indexState = .indexed) :
    ∃ r ∈ db.chunks, r.chunkId = r'.chunkId ∧ r.tenantId = r'.tenantId ∧
      (r.indexState = .indexed ∨ r'.tenantId = t ∧ r'.chunkId ∈ ids) := by
  induction ids generalizing db with
  | nil => exact ⟨r', h, rfl, rfl, .inl hi⟩
  | cons c ids ih =>
    obtain ⟨r₁, hr₁, hc₁, ht₁, hi₁⟩ := ih h
    obtain ⟨r, hr, rfl⟩ := mem_updateChunks.mp hr₁
    by_cases hrow : ChunkRow.isRow t c r = true
    · rw [if_pos hrow] at hc₁ ht₁
      obtain ⟨htc, hcc⟩ : r.tenantId = t ∧ r.chunkId = c := by simpa [ChunkRow.isRow] using hrow
      exact ⟨r, hr, hc₁, ht₁, .inr ⟨ht₁.symm.trans htc, by simp [← hc₁, hcc]⟩⟩
    · rw [if_neg hrow] at hc₁ ht₁ hi₁
      refine ⟨r, hr, hc₁, ht₁, hi₁.imp_right fun h => ⟨h.1, List.mem_cons_of_mem c h.2⟩⟩

end Db

/-- Where an indexed row comes from after one step. -/
inductive IndexedFrom (t : TenantId) (l : StoreStep) (s : Store) (after : Option StoreStep)
    (r' : ChunkRow) : Prop
  | old (r : ChunkRow) (hr : r ∈ s.db.chunks) (hc : r.chunkId = r'.chunkId)
      (ht : r.tenantId = r'.tenantId) (hi : r.indexState = .indexed)
      (hpending : ∀ ids, l = .markIndexPending ids → r'.tenantId = t → r'.chunkId ∉ ids)
  | finished (h : r'.chunkId ∈ Watched.finishedBy t l s)
  | inserted (ids : List ChunkId) (h : after = some (.markIndexPending ids)) (hc : r'.chunkId ∈ ids)
      (ht : r'.tenantId = t)
  | replayed (row : ChunkMetadata) (h : l = .replayInsert row) (hc : row.chunkId = r'.chunkId)

/-- An indexed row behind a step that keeps index states was one before. -/
theorem indexedFrom_of_keepsIndex {l : StoreStep} {s s' : Store} {after : Option StoreStep}
    {r' : ChunkRow} (hk : KeepsIndex s.db s'.db) (hl : ∀ ids, l ≠ .markIndexPending ids)
    (hr' : r' ∈ s'.db.chunks) (hi' : r'.indexState = .indexed) : IndexedFrom t l s after r' := by
  obtain ⟨r, hr, hc, ht, hi⟩ := hk r' hr' hi'
  exact .old r hr hc ht hi fun ids h => absurd h (hl ids)

/-- Where an indexed row behind a legal step comes from. -/
theorem IndexStep.indexedFrom {l : StoreStep} {upd : Store → Store} {after : Option StoreStep}
    (h : IndexStep t l upd after) {s : Store} {r' : ChunkRow} (hr' : r' ∈ (upd s).db.chunks)
    (hi' : r'.indexState = .indexed) : IndexedFrom t l s after r' := by
  cases l with
  | insertRows rows =>
    obtain ⟨hdb, htenant, hafter⟩ := h
    rw [hdb] at hr'
    rcases mem_insertMany hr' with hold | ⟨m, hm, rfl⟩
    · exact .old r' hold rfl rfl hi' (by simp)
    · exact .inserted _ hafter (List.mem_map_of_mem hm) (htenant m hm)
  | replayInsert row =>
    rw [h] at hr'
    rcases mem_insert.mp hr' with ⟨hold, _⟩ | rfl
    · exact .old r' hold rfl rfl hi' (by simp)
    · exact .replayed row rfl rfl
  | markIndexPending ids =>
    obtain ⟨now, hdb⟩ := h
    rw [hdb] at hr'
    obtain ⟨r, hr, hc, ht, hi⟩ := keepsIndex_markIndexPending _ t ids now r' hr' hi'
    refine .old r hr hc ht hi ?_
    rintro _ ⟨⟩ htenant
    exact not_announced_of_indexed hr' hi' htenant
  | markIndexed ids =>
    obtain ⟨now, hdb⟩ := h
    rw [hdb] at hr'
    obtain ⟨r, hr, hc, ht, hi | ⟨htenant, hmem⟩⟩ := indexed_of_markIndexed hr' hi'
    · exact .old r hr hc ht hi (by simp)
    · refine .finished (List.mem_filter.mpr ⟨hmem, ?_⟩)
      rw [List.any_eq_true]
      exact ⟨r, hr, by simp [ChunkRow.isRow, hc, ht, htenant]⟩
  | _ => exact indexedFrom_of_keepsIndex (h s) (by simp) hr' hi'

/-! ## Whole runs -/

/-- A program of the watched system whose steps do what their labels say. -/
def Watching {α : Type} (t : TenantId) (p : Proc StoreStep Watched MemdError α) : Prop :=
  ∃ q : StoreProg α, Indexes t (fun _ => True) q ∧ p = q.onPart Watched.store (Watched.step t)

/-- The first step of a watched program. -/
theorem Watching.act {α : Type} {l : StoreStep} {upd : Watched → Watched}
    {next : Watched → Proc StoreStep Watched MemdError α} (h : Watching t (.act l upd next)) :
    ∃ f : Store → Store, (∀ w, upd w = Watched.step t l f w) ∧
      ∀ w, IndexStep t l f (next w).label ∧ Watching t (next w) := by
  obtain ⟨q, hq, heq⟩ := h
  cases q with
  | ret a => exact absurd heq (by simp [Proc.onPart])
  | fail e => exact absurd heq (by simp [Proc.onPart])
  | act l' f g =>
    simp only [Proc.onPart, Proc.act.injEq] at heq
    obtain ⟨rfl, rfl, rfl⟩ := heq
    refine ⟨f, fun w => rfl, fun w => ?_⟩
    obtain ⟨hstep, hnext⟩ := hq w.store
    exact ⟨by rw [Proc.label_onPart]; exact hstep, g w.store, hnext, rfl⟩

/-- A restart of the watched system. -/
def Replaying {α : Type} (t : TenantId) (p : Proc StoreStep Watched MemdError α) : Prop :=
  ∃ q : StoreProg α, q.All (ReplayStep t) ∧ p = q.onPart Watched.store (Watched.step t)

/-- The first step of a watched replay. -/
theorem Replaying.act {α : Type} {l : StoreStep} {upd : Watched → Watched}
    {next : Watched → Proc StoreStep Watched MemdError α} (h : Replaying t (.act l upd next)) :
    ∃ f : Store → Store, (∀ w, upd w = Watched.step t l f w) ∧ ReplayStep t l f ∧
      ∀ w, Replaying t (next w) := by
  obtain ⟨q, hq, heq⟩ := h
  cases q with
  | ret a => exact absurd heq (by simp [Proc.onPart])
  | fail e => exact absurd heq (by simp [Proc.onPart])
  | act l' f g =>
    simp only [Proc.onPart, Proc.act.injEq] at heq
    obtain ⟨rfl, rfl, rfl⟩ := heq
    exact ⟨f, fun w => rfl, hq.1, fun w => ⟨g w.store, hq.2 w.store, rfl⟩⟩

/-- A row is accounted for: its index job has finished, or the call that inserted it is about
to announce it. -/
def Accounted (t : TenantId) (c : IndexConfig) (r : ChunkRow) : Prop :=
  r.chunkId ∈ c.store.finished ∨ r.tenantId = t ∧ InWindow c r.chunkId

/-- What holds along a run. -/
structure IndexInv (t : TenantId) (c : IndexConfig) : Prop where
  calls : ∀ pool, c.mode = .up pool → ∀ x ∈ pool, Watching t x.2
  boot : ∀ p, c.mode = .booting p → Replaying t p
  rows : ∀ r ∈ c.store.store.db.chunks, r.indexState = .indexed → Accounted t c r

/-- While no call is in flight an accounted row has a finished index job. -/
theorem Accounted.finished {c : IndexConfig} {r : ChunkRow} (h : Accounted t c r)
    (hdown : ∀ pool, c.mode ≠ .up pool) : r.chunkId ∈ c.store.finished := by
  rcases h with h | ⟨_, pool, _, _, hup, _⟩
  · exact h
  · exact absurd hup (hdown pool)

/-- The next step of the call at `i` in a pool. -/
theorem inWindow_set {c c' : IndexConfig} {pool : List (IndexOp × Proc StoreStep Watched MemdError Unit)}
    {i : ℕ} {x y : IndexOp × Proc StoreStep Watched MemdError Unit} {id : ChunkId}
    (hup : c.mode = .up pool) (hup' : c'.mode = .up (pool.set i y)) (hget : pool[i]? = some x)
    (h : InWindow c id) :
    InWindow c' id ∨ ∃ ids, x.2.label = some (.markIndexPending ids) ∧ id ∈ ids := by
  obtain ⟨pool₁, z, ids, hup₁, hz, hlabel, hid⟩ := h
  obtain rfl : pool = pool₁ := by simpa [hup] using hup₁
  obtain ⟨j, hj⟩ := List.getElem?_of_mem hz
  by_cases hij : i = j
  · subst hij
    obtain rfl : x = z := by simpa [hget] using hj
    exact .inr ⟨ids, hlabel, hid⟩
  · refine .inl ⟨pool.set i y, z, ids, hup', ?_, hlabel, hid⟩
    exact List.mem_of_getElem? ((List.getElem?_set_ne hij).trans hj)

/-- A returning call was not about to announce anything. -/
theorem inWindow_erase {c c' : IndexConfig}
    {pool : List (IndexOp × Proc StoreStep Watched MemdError Unit)} {i : ℕ}
    {x : IndexOp × Proc StoreStep Watched MemdError Unit} {id : ChunkId} (hup : c.mode = .up pool)
    (hup' : c'.mode = .up (pool.eraseIdx i)) (hget : pool[i]? = some x) (hx : x.2.label = none)
    (h : InWindow c id) : InWindow c' id := by
  obtain ⟨pool₁, z, ids, hup₁, hz, hlabel, hid⟩ := h
  obtain rfl : pool = pool₁ := by simpa [hup] using hup₁
  refine ⟨pool.eraseIdx i, z, ids, hup', ?_, hlabel, hid⟩
  obtain ⟨j, hj⟩ := List.getElem?_of_mem hz
  refine List.mem_eraseIdx_iff_getElem?.mpr ⟨j, ?_, hj⟩
  rintro rfl
  obtain rfl : x = z := by simpa [hget] using hj
  exact absurd hlabel (by simp [hx])

/-- A step of a call keeps the invariant. -/
theorem indexInv_act {c : IndexConfig} {i : ℕ}
    {pool : List (IndexOp × Proc StoreStep Watched MemdError Unit)} {op : IndexOp} {l : StoreStep}
    {upd : Watched → Watched} {next : Watched → Proc StoreStep Watched MemdError Unit}
    (hc : IndexInv t c) (hok : KeepsHonest c (.run i)) (hup : c.mode = .up pool)
    (hget : pool[i]? = some (op, .act l upd next)) :
    IndexInv t { c with store := upd c.store, mode := .up (pool.set i (op, next c.store)) } := by
  have hmem : (op, Proc.act l upd next) ∈ pool := List.mem_of_getElem? hget
  obtain ⟨f, hupd, hnext⟩ := Watching.act (hc.calls pool hup _ hmem)
  obtain ⟨hstep, hwatch⟩ := hnext c.store
  have hi : i < pool.length := (List.getElem?_eq_some_iff.mp hget).1
  refine ⟨?_, by simp, ?_⟩
  · rintro _ ⟨⟩ y hy
    rcases List.mem_or_eq_of_mem_set hy with hy | rfl
    · exact hc.calls pool hup y hy
    · exact hwatch
  intro r' hr' hi'
  dsimp only at hr'
  rw [hupd] at hr'
  have hlabel : System.nextLabel c (.run i : Choice IndexOp StoreConfig) = some l := by
    simp [System.nextLabel, hup, hget, Proc.label]
  unfold Accounted
  dsimp only
  rw [hupd]
  cases hstep.indexedFrom hr' hi' with
  | finished h => exact .inl (List.mem_append_right _ h)
  | replayed row h hrow =>
    subst h
    exact .inl (List.mem_append_left _ (hrow ▸ hok.1 row hlabel))
  | inserted ids h hid ht =>
    refine .inr ⟨ht, _, (op, next c.store), ids, rfl, ?_, h, hid⟩
    exact List.mem_set hi _
  | old r hr hrid ht hindexed hpending =>
    rcases hc.rows r hr hindexed with hfin | ⟨htenant, hwindow⟩
    · exact .inl (List.mem_append_left _ (hrid ▸ hfin))
    · rw [hrid] at hwindow
      rw [ht] at htenant
      let c' : IndexConfig :=
        ⟨Watched.step t l f c.store, .up (pool.set i (op, next c.store)), c.log⟩
      have hup' : c'.mode = .up (pool.set i (op, next c.store)) := rfl
      rcases inWindow_set hup hup' hget hwindow with h | ⟨ids, h, hid⟩
      · exact .inr ⟨htenant, h⟩
      · obtain rfl : l = .markIndexPending ids := by simpa [Proc.label] using h
        exact absurd hid (hpending ids rfl htenant)

/-- A step of a start keeps the invariant. -/
theorem indexInv_bootAct {c : IndexConfig} {l : StoreStep} {upd : Watched → Watched}
    {next : Watched → Proc StoreStep Watched MemdError Unit} (hc : IndexInv t c)
    (hok : KeepsHonest c .bootRun) (hboot : c.mode = .booting (.act l upd next)) :
    IndexInv t { c with store := upd c.store, mode := .booting (next c.store) } := by
  obtain ⟨f, hupd, hstep, hnext⟩ := Replaying.act (hc.boot _ hboot)
  refine ⟨by simp, ?_, ?_⟩
  · rintro _ ⟨⟩
    exact hnext c.store
  intro r' hr' hi'
  dsimp only at hr'
  rw [hupd] at hr'
  have hlabel : System.nextLabel c (.bootRun : Choice IndexOp StoreConfig) = some l := by
    simp [System.nextLabel, hboot, Proc.label]
  refine .inl ?_
  dsimp only
  rw [hupd]
  cases IndexStep.indexedFrom hstep hr' hi' with
  | finished h => exact List.mem_append_right _ h
  | replayed row h hrow =>
    subst h
    exact List.mem_append_left _ (hrow ▸ hok.1 row hlabel)
  | inserted ids h hid ht => exact absurd h (by simp)
  | old r hr hrid ht hindexed hpending =>
    refine List.mem_append_left _ ?_
    rw [← hrid]
    exact (hc.rows r hr hindexed).finished (by simp [hboot])

/-- A crash outside every window leaves rows with finished index jobs only. -/
theorem indexInv_down {c : IndexConfig} {log : List (Event IndexOp Unit MemdError)}
    (hc : IndexInv t c) (hout : ∀ id, ¬ InWindow c id) :
    IndexInv t ⟨{ c.store with store := c.store.store.crash }, .down, log⟩ := by
  refine ⟨by simp, by simp, ?_⟩
  intro r hr hi
  rcases hc.rows r hr hi with h | ⟨_, h⟩
  · exact .inl h
  · exact absurd h (hout r.chunkId)

/-- Every choice that keeps the index honest keeps the invariant. -/
theorem indexInv_stepped (ext : Externals) (c : IndexConfig) (ch : Choice IndexOp StoreConfig)
    (c' : IndexConfig) (hc : IndexInv t c) (hok : KeepsHonest c ch)
    (h : (indexing ext t).Stepped c ch c') : IndexInv t c' := by
  cases h with
  | @call op pool hup hadm =>
    refine ⟨?_, by simp, ?_⟩
    · rintro _ ⟨⟩ x hx
      rcases List.mem_append.mp hx with hx | hx
      · exact hc.calls pool hup x hx
      · obtain rfl := List.mem_singleton.mp hx
        exact ⟨op.prog ext t, indexes_prog ext hadm, rfl⟩
    · intro r hr hi
      refine (hc.rows r hr hi).imp_right fun ⟨ht, pool₁, x, ids, hup₁, hx, hlabel, hid⟩ => ?_
      obtain rfl : pool = pool₁ := by simpa [hup] using hup₁
      exact ⟨ht, _, x, ids, rfl, List.mem_append_left _ hx, hlabel, hid⟩
  | act hup hget => exact indexInv_act hc hok hup hget
  | ret hup hget =>
    refine ⟨?_, by simp, ?_⟩
    · rintro _ ⟨⟩ x hx
      exact hc.calls _ hup x (List.mem_of_mem_eraseIdx hx)
    · intro r hr hi
      exact (hc.rows r hr hi).imp_right (And.imp_right (inWindow_erase hup rfl hget rfl))
  | fail hup hget =>
    refine ⟨?_, by simp, ?_⟩
    · rintro _ ⟨⟩ x hx
      exact hc.calls _ hup x (List.mem_of_mem_eraseIdx hx)
    · intro r hr hi
      exact (hc.rows r hr hi).imp_right (And.imp_right (inWindow_erase hup rfl hget rfl))
  | crash => exact indexInv_down hc (hok.2 rfl)
  | @boot cfg hdown =>
    refine ⟨by simp, ?_, ?_⟩
    · rintro _ ⟨⟩
      exact ⟨openTenant ext t cfg, replays_openTenant ext cfg, rfl⟩
    · exact fun r hr hi => .inl ((hc.rows r hr hi).finished (by simp [hdown]))
  | bootAct hboot => exact indexInv_bootAct hc hok hboot
  | bootRet hboot =>
    refine ⟨?_, by simp, ?_⟩
    · rintro _ ⟨⟩ x hx
      exact absurd hx (by simp)
    · exact fun r hr hi => .inl ((hc.rows r hr hi).finished (by simp [hboot]))
  | bootFail hboot =>
    refine indexInv_down hc fun id h => ?_
    obtain ⟨_, _, _, hup, _⟩ := h
    exact absurd hup (by simp [hboot])

/-- In every run of adds, sweeps and promotions of a tenant, overlapping in any way and with
crashes and recoveries anywhere, whose replays insert rows of finished chunks only and whose
crashes do not fall between the insert of a batch and its announcement, an indexed row has a
finished index job or its announcement is the next step of a call in flight. -/
theorem indexed_only_after_job (ext : Externals) (t : TenantId) {c : IndexConfig}
    (hrun : (indexing ext t).Runs KeepsHonest (System.start {}) c) :
    ∀ r ∈ c.store.store.db.chunks, r.indexState = .indexed →
      r.chunkId ∈ c.store.finished ∨ InWindow c r.chunkId := by
  have hinv : IndexInv t c := by
    refine System.Runs.invariant (indexInv_stepped ext) ⟨?_, ?_, ?_⟩ hrun
    · simp [System.start]
    · simp [System.start]
    · simp [System.start]
  exact fun r hr hi => (hinv.rows r hr hi).imp_right And.right

namespace IndexConfig

/-- What `KeepsHonest` asks of a step. -/
def replaysFinished : StoreStep → Watched → Bool
  | .replayInsert row, w => w.finished.contains row.chunkId
  | _, _ => true

/-- A step that only writes finished rows again keeps the index honest. -/
theorem keepsHonest_of_replaysFinished {c : IndexConfig} {ch : Choice IndexOp StoreConfig}
    (hch : ch ≠ .crash)
    (h : ((System.nextLabel c ch).all fun l => replaysFinished l c.store) = true) :
    KeepsHonest c ch := by
  refine ⟨fun row hl => ?_, fun hcrash => absurd hcrash hch⟩
  rw [hl] at h
  simpa [replaysFinished] using h

/-- A run of the sample system: an add whose index call succeeds. -/
def sampleAdd : IndexConfig :=
  (indexing sampleExternals "t").script replaysFinished
    [(.boot ⟨10, 0, 0, [], []⟩, 99), (.call (.add [sampleChunk "a"] false none 0), 99)]
    (System.start {})

/-- The run above, then a crash and a recovery that stores the chunk again. -/
def sampleRecovered : IndexConfig :=
  (indexing sampleExternals "t").script replaysFinished [(.boot ⟨10, 0, 0, [], []⟩, 99)]
    (((indexing sampleExternals "t").step sampleAdd .crash).getD sampleAdd)

end IndexConfig

/-- A chunk that was indexed, replayed after a crash. -/
theorem indexed_only_after_job_sampleRecovered :
    (indexing sampleExternals "t").Runs KeepsHonest (System.start {}) IndexConfig.sampleRecovered ∧
    (IndexConfig.sampleRecovered.store.store.db.chunks.map fun r => (r.chunkId, r.indexState)) =
      [(0, .indexed)] ∧
    (0 ∈ IndexConfig.sampleRecovered.store.finished ∨ InWindow IndexConfig.sampleRecovered 0) := by
  have hmay : ∀ (c : IndexConfig) (ch : Choice IndexOp StoreConfig), ch ≠ .crash →
      ((System.nextLabel c ch).all fun l => IndexConfig.replaysFinished l c.store) = true →
      KeepsHonest c ch := fun c ch => IndexConfig.keepsHonest_of_replaysFinished
  have hadd : (indexing sampleExternals "t").Runs KeepsHonest (System.start {})
      IndexConfig.sampleAdd := System.Runs.script hmay (by simp) (by simp) (by simp) .refl
  have hidle : IndexConfig.sampleAdd.mode = .up [] :=
    System.mode_eq_of_isIdle (by decide)
  have hout : KeepsHonest IndexConfig.sampleAdd .crash := by
    refine ⟨by simp [System.nextLabel], ?_⟩
    rintro _ id ⟨pool, x, ids, hup, hx, _⟩
    obtain rfl : [] = pool := by simpa [hidle] using hup
    exact absurd hx (by simp)
  have hrun : (indexing sampleExternals "t").Runs KeepsHonest (System.start {})
      IndexConfig.sampleRecovered :=
    System.Runs.script hmay (by simp) (by simp) (by simp) (.step hadd hout rfl)
  refine ⟨hrun, by decide, ?_⟩
  have hrow : ∃ r ∈ IndexConfig.sampleRecovered.store.store.db.chunks,
      r.indexState = .indexed ∧ r.chunkId = 0 := by decide
  obtain ⟨r, hr, hi, hid⟩ := hrow
  rw [← hid]
  exact indexed_only_after_job sampleExternals "t" hrun r hr hi

/-- A chunk whose index call failed, a crash and a recovery: the Add record is replayed, the
row is inserted again without its index columns, and stands as indexed.  Nothing is left for
a sweep to find. -/
def replayedFailure : IndexConfig :=
  (indexing sampleExternals "t").script (fun _ _ => true)
    [(.boot ⟨10, 0, 0, [], []⟩, 99),
     (.call (.add [sampleChunk "a"] false (some "index unavailable") 0), 99), (.crash, 0),
     (.boot ⟨10, 0, 0, [], []⟩, 99)] (System.start {})

/-- A failed job is forgotten by the replay of its chunk. -/
theorem replay_forgets_failure :
    ¬ ∀ (ext : Externals) (t : TenantId) (c : IndexConfig),
      (indexing ext t).Runs (fun _ _ => True) (System.start {}) c → c.store.Honest := by
  intro h
  have hrun : (indexing sampleExternals "t").Runs (fun _ _ => True) (System.start {})
      replayedFailure :=
    System.Runs.script (fun _ _ (_ : True) _ => trivial) trivial trivial
      (fun _ _ => trivial) .refl
  have hrow : ∃ r ∈ replayedFailure.store.store.db.chunks, r.indexState = .indexed ∧
      r.chunkId ∉ replayedFailure.store.finished := by decide
  obtain ⟨r, hr, hi, hnot⟩ := hrow
  exact hnot (h sampleExternals "t" replayedFailure hrun r hr hi)
