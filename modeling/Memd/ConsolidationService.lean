/-
# The consolidation service

`consolidate/service.rs`: one execution plans a run in the journal, stores its
candidates, validates and promotes them, and every step is guarded by the state the
journal is expected to be in; duplicate executions settle on the run that exists;
`recoverConsolidationRunsBefore` drives the runs a crash left behind; a reviewer accepts or
rejects a staged run.

Inputs that come from outside the metadata database are parameters of a call: `clock`
gives its clock readings in order, `audit` what the check of a run's raw-response file
reported, `sparseClean` whether the sparse index could be cleaned, `prepared` what
`prepare_write` made of an entry.
-/
import Memd.ConsolidationStatements
import Memd.Lifecycle

namespace Consolidation

open Store TenantStore PersistentStore

/-- What lies outside the database during a call. -/
structure Surroundings where
  /-- clock readings of the call, in order -/
  clock : List ℤ := []
  /-- the runs whose raw-response audit fails its check, with the error -/
  audit : List (ConsolidationRunId × MemdError) := []
  /-- the sparse index could be cleaned -/
  sparseClean : Bool := true
  /-- a sparse index exists on disk that this store has not opened -/
  sparseMissing : Bool := false
  /-- what indexing promoted candidates reported -/
  indexError : Option String := none
  deriving DecidableEq, Repr

namespace Surroundings

/-- The `k`-th clock reading. -/
def now (w : Surroundings) (k : ℕ) : ℤ :=
  w.clock.getD k 0

/-- The surroundings `k` clock readings later. -/
def later (w : Surroundings) (k : ℕ) : Surroundings :=
  { w with clock := w.clock.drop k }

/-- `validate_raw_response_audit`. -/
def auditCheck (w : Surroundings) (id : ConsolidationRunId) : StoreProg Unit :=
  match w.audit.lookup id with
  | some e => .fail e
  | none => pure ()

end Surroundings

/-! ## Steps on the journal -/

/-- A transaction on the journal. -/
def journal {α : Type} (f : Db → Except MemdError (α × Db)) : StoreProg α :=
  .transact .metadataWrite fun s => (f s.db).map fun r => (r.1, { s with db := r.2 })

/-- The run, which must be there. -/
def expectRun (id : ConsolidationRunId) (e : MemdError) : StoreProg ConsolidationRun := do
  let run ← .read .metadataRead (·.db.getConsolidationRun id)
  match run with
  | some run => pure run
  | none => .fail e

/-- The error for a run that is not in the tables. -/
def missingRun (id : ConsolidationRunId) : MemdError :=
  .storageError s!"missing consolidation run {id}"

/-- `ConsolidationExecution`. -/
structure ConsolidationExecution where
  runId : ConsolidationRunId
  state : ConsolidationState
  candidateChunkIds : List ChunkId
  sourceCount : ℕ
  reusedExistingRun : Bool
  deriving DecidableEq, Repr

/-- `execution_from_journal`. -/
def executionFromJournal (id : ConsolidationRunId) (sourceCount : ℕ) (reused : Bool) :
    StoreProg ConsolidationExecution := do
  let run ← expectRun id (missingRun id)
  let candidates ← .read .metadataRead (·.db.candidates id)
  pure ⟨id, run.state, candidates, sourceCount, reused⟩

/-! ## Validation -/

/-- One source of `validate_sources`. -/
def validateSource (t : TenantId) (project : Option String) (relation : LineageRelation)
    (now : ℤ) (c : ChunkId) : StoreProg Unit := do
  let source ← .read .metadataRead (·.db.get t c)
  match source with
  | none => .fail (.validationError s!"source {c} is missing")
  | some m =>
    if !Db.isVisibleHead now { toChunkMetadata := m } then
      .fail (.validationError s!"source {c} is no longer a visible final head")
    else if relation = .supersedes ∧ m.projectId ≠ project then
      .fail (.validationError s!"source {c} escaped project consolidation scope")
    else pure ()

/-- `validate_sources`. -/
def validateSources (t : TenantId) (project : Option String) (relation : LineageRelation)
    (now : ℤ) (sources : List ChunkId) : StoreProg Unit :=
  sources.forM (validateSource t project relation now)

/-- One entry of `validate_candidate_run`. -/
def validateEntry (run : ConsolidationRun) (e : ConsolidationEntryRecord) : StoreProg Unit :=
  match e.candidateChunkId with
  | none => .fail (.validationError "consolidation entry has no candidate id")
  | some c => do
    let metadata ← .read .metadataRead (·.db.get run.tenantId c)
    match metadata with
    | none => .fail (.validationError s!"candidate {c} metadata is missing")
    | some m =>
      if m.status ≠ .candidate ∨ m.projectId ≠ run.projectId then
        .fail (.validationError s!"candidate {c} metadata escaped its journal scope")
      else
        let payload ← getChunk run.tenantId c
        match payload with
        | none => .fail (.validationError s!"candidate {c} payload is missing")
        | some _ => pure ()

/-- `validate_candidate_run`. -/
def validateCandidateRun (w : Surroundings) (run : ConsolidationRun) : StoreProg Unit := do
  w.auditCheck run.runId
  let entries ← .read .metadataRead (·.db.getConsolidationEntries run.runId)
  if entries = [] then .fail (.validationError "consolidation run has no candidate entries")
  else
    entries.forM (validateEntry run)
    let lineage ← .read .metadataRead (·.db.getMemoryLineage run.runId)
    match lineage with
    | [] => .fail (.validationError "consolidation run has no lineage")
    | first :: _ =>
      let sources := (lineage.map (·.sourceChunkId)).dedup
      validateSources run.tenantId run.projectId first.relation (w.now 0) sources

/-! ## Promotion -/

/-- One candidate of `refresh_promoted_chunks`. -/
def refreshPromoted (t : TenantId) (c : ChunkId) : StoreProg Unit := do
  let metadata ← .read .metadataRead (·.db.get t c)
  match metadata with
  | none => .fail (.storageError s!"promoted chunk {c} is missing")
  | some m =>
    if m.status ≠ .final then
      .fail (.storageError s!"promoted chunk {c} has status {m.status.asStr}")
    else
      let payload ← getChunk t c
      match payload with
      | none => .fail (.storageError s!"promoted chunk {c} payload is missing")
      | some _ => pure ()

/-- `refresh_promoted_chunks`. -/
def refreshPromotedChunks (w : Surroundings) (t : TenantId) (ids : List ChunkId) :
    StoreProg Unit := do
  ids.forM (refreshPromoted t)
  .modify .metadataWrite (withDb (·.markIndexPending t ids (w.now 0)))
  recordIndexOutcome t ids w.indexError (w.now 1)

/-- `promote_validated_run`: a failing refresh is only a warning. -/
def promoteValidatedRun (w : Surroundings) (run : ConsolidationRun) :
    StoreProg Db.PromotionOutcome := do
  w.auditCheck run.runId
  let outcome ← journal (·.atomicPromoteConsolidationRun run.runId (w.now 0))
  let candidates ← .read .metadataRead (·.db.candidates run.runId)
  let _ ← (refreshPromotedChunks (w.later 1) run.tenantId candidates).attempt
  pure outcome

/-- The error text that `classify_promotion_failure` journals. -/
def promotionFailureDetail (promotionError : MemdError) : Except MemdError Unit → String
  | .ok _ => promotionError.display
  | .error e =>
    s!"promotion failed: {promotionError.display}; validation retry failed: {e.display}"

/-- `classify_promotion_failure`. -/
def classifyPromotionFailure (w : Surroundings) (run : ConsolidationRun)
    (promotionError : MemdError) : StoreProg Unit := do
  let validation ← (validateCandidateRun w run).attempt
  match validation with
  | .error (.validationError reason) => do
    let _ ← journal (·.terminateConsolidationRun run.runId .validated .rejected (w.now 1)
      s!"promotion rejected after source/candidate drift: {reason}")
    pure ()
  | other => do
    let _ ← journal (·.transitionConsolidationRun run.runId .validated .failedRecoverable (w.now 1)
      none (some (promotionFailureDetail promotionError other)))
    pure ()

/-- `cleanup_superseded_sparse_rows`: whether nothing is left to clean. -/
def cleanupSupersededSparseRows (w : Surroundings) (relation : LineageRelation) : Bool :=
  relation != .supersedes || (!w.sparseMissing && w.sparseClean)

/-- `finish_sparse_cleanup_for_run`. -/
def finishSparseCleanupForRun (w : Surroundings) (id : ConsolidationRunId)
    (relation : LineageRelation) : StoreProg Unit :=
  if cleanupSupersededSparseRows w relation then
    .modify .metadataWrite (withDb (·.markConsolidationSparseCleanupDone id (w.now 0)))
  else pure ()

/-- The cleanup of one pending run; a run without lineage is only a warning. -/
def finishPendingRun (w : Surroundings) (run : ConsolidationRun) : StoreProg Unit := do
  let lineage ← .read .metadataRead (·.db.getMemoryLineage run.runId)
  match lineage with
  | [] => pure ()
  | first :: _ => finishSparseCleanupForRun w run.runId first.relation

/-- `finish_pending_sparse_cleanup`. -/
def finishPendingSparseCleanup (w : Surroundings) (limit : ℕ) : StoreProg Unit :=
  if w.sparseMissing then pure ()
  else do
    let runs ← .read .metadataRead (·.db.listConsolidationRunsPendingSparseCleanup limit)
    runs.forM (finishPendingRun w)

/-! ## Recovering one run -/

/-- Is the candidate of an entry there, row and payload? -/
def candidatePresent (t : TenantId) (e : ConsolidationEntryRecord) : StoreProg Bool :=
  match e.candidateChunkId with
  | none => pure false
  | some c => do
    let metadata ← .read .metadataRead (·.db.get t c)
    match metadata with
    | none => pure false
    | some _ =>
      let payload ← getChunk t c
      pure payload.isSome

/-- One more of the entries' candidates is present. -/
def countPresent (t : TenantId) (n : ℕ) (e : ConsolidationEntryRecord) : StoreProg ℕ := do
  let present ← candidatePresent t e
  pure (if present then n + 1 else n)

/-- How far `recover_one_run` has come: the state it goes on from and the run it has
read, or nothing when it is done. -/
abbrev Progress := Option (ConsolidationState × ConsolidationRun)

/-- The run has been moved to a state, or another call was faster. -/
def reread (id : ConsolidationRunId) (moved : Bool) (state : ConsolidationState) :
    StoreProg Progress :=
  if moved then do
    let run ← expectRun id (missingRun id)
    pure (some (state, run))
  else pure none

/-- The Planned branch of `recover_one_run`. -/
def recoverPlanned (w : Surroundings) (run current : ConsolidationRun) : StoreProg Progress := do
  let entries ← .read .metadataRead (·.db.getConsolidationEntries run.runId)
  let present ← entries.foldlM (countPresent run.tenantId) 0
  if present ≠ entries.length then
    let _ ← journal (·.terminateConsolidationRun run.runId .planned .rolledBack (w.now 0)
      "recovery found an incomplete candidate payload set")
    pure none
  else
    let moved ← journal (·.transitionConsolidationRun run.runId .planned .candidateWritten (w.now 0)
      none none)
    pure (if moved then some (.candidateWritten, current) else none)

/-- The CandidateWritten branch of `recover_one_run`. -/
def recoverCandidateWritten (w : Surroundings) (run : ConsolidationRun) : StoreProg Progress := do
  let validation ← (validateCandidateRun w run).attempt
  match validation with
  | .error (.validationError reason) => do
    let _ ← journal (·.terminateConsolidationRun run.runId .candidateWritten .rejected (w.now 1)
      (MemdError.validationError reason).display)
    pure none
  | .error e => .fail e
  | .ok _ => do
    let moved ← journal (·.transitionConsolidationRun run.runId .candidateWritten .validated
      (w.now 1) (some "accepted during recovery") none)
    reread run.runId moved .validated

/-- The FailedRecoverable branch of `recover_one_run`. -/
def recoverFailed (w : Surroundings) (run : ConsolidationRun) : StoreProg Progress := do
  let moved ← journal (·.transitionConsolidationRun run.runId .failedRecoverable .validated
    (w.now 0) (some "retrying promotion") none)
  reread run.runId moved .validated

/-- The Validated branch of `recover_one_run`. -/
def recoverValidated (w : Surroundings) (run current : ConsolidationRun) : StoreProg Unit :=
  if current.promotionRequested = false then pure ()
  else do
    let outcome ← (promoteValidatedRun w current).attempt
    match outcome with
    | .ok _ => do
      let lineage ← .read .metadataRead (·.db.getMemoryLineage run.runId)
      match lineage with
      | [] => .fail (.storageError s!"consolidation run {run.runId} has no lineage")
      | first :: _ => finishSparseCleanupForRun (w.later 3) run.runId first.relation
    | .error e => classifyPromotionFailure (w.later 3) current e

/-- Run a branch of `recover_one_run` where the run is in its state. -/
def recoverFrom (state : ConsolidationState) (branch : ConsolidationRun → StoreProg Progress)
    (progress : Progress) : StoreProg Progress :=
  match progress with
  | none => pure none
  | some (s, current) => if s = state then branch current else pure (some (s, current))

/-- `recover_one_run`. -/
def recoverOneRun (w : Surroundings) (run : ConsolidationRun) : StoreProg Unit := do
  let current ← expectRun run.runId (missingRun run.runId)
  let p₁ ← recoverFrom .planned (recoverPlanned w run) (some (current.state, current))
  let p₂ ← recoverFrom .candidateWritten (fun _ => recoverCandidateWritten (w.later 1) run) p₁
  let p₃ ← recoverFrom .failedRecoverable (fun _ => recoverFailed (w.later 3) run) p₂
  match p₃ with
  | some (.validated, current) => recoverValidated (w.later 4) run current
  | _ => pure ()

/-! ## Waiting for an existing run -/

/-- Grace period before a recovery may claim a run. -/
def recoveryMinAgeMs : ℤ := 30000

/-- `ACTIVE_RUN_WAIT_ATTEMPTS`. -/
def activeRunWaitAttempts : ℕ := 100

/-- The loop of `settle_existing_run`. -/
def settleLoop (w : Surroundings) : ℕ → ConsolidationRun → StoreProg Unit
  | 0, _ => pure ()
  | n + 1, run =>
    if run.state.isTerminal = true then pure ()
    else if run.state = .validated then
      if run.promotionRequested = true then recoverOneRun (w.later 1) run else pure ()
    else if run.updatedAtMs ≤ w.now 0 - recoveryMinAgeMs then recoverOneRun (w.later 1) run
    else do
      let run' ← expectRun run.runId
        (.storageError s!"consolidation run {run.runId} disappeared while waiting")
      settleLoop (w.later 1) n run'

/-- `settle_existing_run`. -/
def settleExistingRun (w : Surroundings) (run : ConsolidationRun) (sourceCount : ℕ) :
    StoreProg ConsolidationExecution := do
  settleLoop w activeRunWaitAttempts run
  executionFromJournal run.runId sourceCount true

/-! ## Executing -/

/-- An entry of a consolidation: its text and sources, and what `prepare_write` made of
it — the candidate payload, or the reason it is rejected. -/
structure ConsolidatedEntry where
  text : String
  supersedes : List ChunkId
  prepared : Except MemdError MemoryChunk
  deriving DecidableEq

/-- The sources of one entry of `parse_unique_sources`; `ownership` says which entry
claims which source. -/
def claimSources (entryIndex : ℕ) : List (ChunkId × ℕ) → List ChunkId →
    Except MemdError (List (ChunkId × ℕ))
  | ownership, [] => .ok ownership
  | ownership, c :: rest =>
    match ownership.lookup c with
    | some previous => .error (.validationError
        s!"source {c} is claimed by entries {previous} and {entryIndex}")
    | none => claimSources entryIndex (ownership ++ [(c, entryIndex)]) rest

/-- One entry of `parse_unique_sources`. -/
def claimEntry (ownership : List (ChunkId × ℕ)) (entry : ConsolidatedEntry × ℕ) :
    Except MemdError (List (ChunkId × ℕ)) :=
  if Db.isBlank entry.1.text || entry.1.supersedes.isEmpty then
    .error (.validationError "consolidation entries require text and source lineage")
  else claimSources entry.2 ownership entry.1.supersedes

/-- `parse_unique_sources`: the sources in order, each claimed by one entry. -/
def parseUniqueSources (entries : List ConsolidatedEntry) : Except MemdError (List ChunkId) :=
  (entries.zipIdx.foldlM claimEntry []).map fun ownership =>
    (ownership.map Prod.fst).mergeSort fun a b => decide (a ≤ b)

/-- `hash_field`: the field behind its length. -/
def hashField (field : String) : String :=
  s!"{field.utf8ByteSize}:{field}"

/-- `consolidation_input_hash`. -/
def consolidationInputHash (ext : Externals) (t : TenantId) (project : Option String)
    (relation : LineageRelation) (sources : List ChunkId) : String :=
  ext.sha256Hex ("memd-consolidation-input-v1" ++ hashField t ++ hashField (project.getD "")
    ++ hashField relation.asStr ++ String.join (sources.map fun c => hashField s!"{c}"))

/-- `source_set_hash`. -/
def sourceSetHash (ext : Externals) (sources : List ChunkId) : String :=
  ext.sha256Hex ("memd-consolidation-source-set-v1" ++ String.join
    ((sources.mergeSort fun a b => decide (a ≤ b)).map fun c => hashField s!"{c}"))

/-- The plan of a run: its candidates, entries and lineage so far. -/
structure Plan where
  chunks : List MemoryChunk := []
  entries : List ConsolidationEntryRecord := []
  lineage : List MemoryLineage := []

/-- Plan one entry under a new candidate id. -/
def planEntry (ext : Externals) (run : ConsolidationRun) (relation : LineageRelation)
    (plan : Plan) (entry : ConsolidatedEntry) : StoreProg Plan :=
  match entry.prepared with
  | .error e => .fail e
  | .ok prepared => do
    -- the candidate's id is drawn when it is planned, so that a repetition finds it
    let id ← newChunkId
    let chunk := { prepared with
      chunkId := id, tenantId := run.tenantId, status := .candidate, projectId := run.projectId }
    pure
      { chunks := plan.chunks ++ [chunk]
        entries := plan.entries ++ [{
          runId := run.runId, entryIndex := plan.entries.length, candidateChunkId := some id,
          sourceSetHash := sourceSetHash ext entry.supersedes, state := .planned,
          createdAtMs := run.createdAtMs, updatedAtMs := run.createdAtMs }]
        lineage := plan.lineage ++ entry.supersedes.map fun c => {
          runId := run.runId, tenantId := run.tenantId, projectId := run.projectId,
          sourceChunkId := c, resultChunkId := id, relation := relation,
          createdAtMs := run.createdAtMs } }

/-- `add_consolidation_candidate`. -/
def addConsolidationCandidate (ext : Externals) (t : TenantId) (indexError : Option String)
    (now : ℤ) (chunk : MemoryChunk) : StoreProg Unit :=
  if chunk.status ≠ .candidate then
    .fail (.validationError "consolidation candidates must use status=candidate")
  else do
    let outcome ← addChunks ext t [chunk] true indexError now
    match outcome.primaryIds with
    | [] => .fail (.storageError "no consolidation candidate id produced")
    | id :: _ =>
      if id ≠ chunk.chunkId then
        .fail (.storageError "consolidation candidate id changed during persistence")
      else pure ()

/-- The candidates could not be recorded: a terminal run's candidates are hidden. -/
def lostPlannedGuard (w : Surroundings) (id : ConsolidationRunId) :
    StoreProg ConsolidationExecution := do
  let current ← .read .metadataRead (·.db.getConsolidationRun id)
  if current.any (·.state.isTerminal) then
    .modify .metadataWrite (withDb (·.hideConsolidationCandidates id (w.now 0)))
    .fail (.storageError s!"consolidation run {id} lost its planned-state guard")
  else .fail (.storageError s!"consolidation run {id} lost its planned-state guard")

/-- The candidates of the run are stored: validate it, and promote it if that was asked. -/
def validateAndPromote (w : Surroundings) (run : ConsolidationRun) (relation : LineageRelation)
    (sourceCount : ℕ) : StoreProg ConsolidationExecution := do
  let validation ← (validateCandidateRun w run).attempt
  match validation with
  | .error e => do
    match e with
    -- only a validation error rejects the run; after any other it stays where it is
    | .validationError reason => do
      let _ ← journal (·.terminateConsolidationRun run.runId .candidateWritten .rejected (w.now 1)
        (MemdError.validationError reason).display)
      .fail e
    | _ => .fail e
  | .ok _ => do
    let moved ← journal (·.transitionConsolidationRun run.runId .candidateWritten .validated
      (w.now 1) (some "accepted") none)
    -- the transition is guarded by the state: another worker may have moved the run on
    if moved = false then
      .fail (.storageError s!"consolidation run {run.runId} lost its candidate-written guard")
    else if run.promotionRequested = false then executionFromJournal run.runId sourceCount false
    else
      let outcome ← (promoteValidatedRun (w.later 2) run).attempt
      -- a promotion that fails is classified in the journal, and the error returned
      match outcome with
      | .error e => do
        classifyPromotionFailure (w.later 5) run e
        .fail e
      | .ok _ => do
        finishSparseCleanupForRun (w.later 5) run.runId relation
        executionFromJournal run.runId sourceCount false

/-- Store the candidates of a planned run and drive it on. -/
def runPlan (ext : Externals) (w : Surroundings) (run : ConsolidationRun)
    (relation : LineageRelation) (chunks : List MemoryChunk) (sourceCount : ℕ) :
    StoreProg ConsolidationExecution := do
  chunks.forM (addConsolidationCandidate ext run.tenantId w.indexError (w.now 0))
  let moved ← journal (·.transitionConsolidationRun run.runId .planned .candidateWritten (w.now 1)
    none none)
  if moved = false then lostPlannedGuard (w.later 2) run.runId
  else validateAndPromote (w.later 2) run relation sourceCount

/-- An existing run stands for the input: ask it to promote, if that was asked, and
settle on it. -/
def reuseExistingRun (w : Surroundings) (existing : ConsolidationRun) (promotionRequested : Bool)
    (sourceCount : ℕ) : StoreProg ConsolidationExecution :=
  if promotionRequested = true ∧ existing.promotionRequested = false then do
    let _ ← .perform .metadataWrite fun s =>
      (.ok (s.db.requestConsolidationPromotion existing.runId (w.now 0)).1,
       withDb (fun db => (db.requestConsolidationPromotion existing.runId (w.now 0)).2) s)
    let run ← expectRun existing.runId
      (.storageError "consolidation run disappeared after promotion request")
    settleExistingRun (w.later 1) run sourceCount
  else settleExistingRun w existing sourceCount

/-- `execute_consolidation_with_identity_and_hook`; `auditError` is what writing the
raw-response file reported. -/
def executeConsolidation (ext : Externals) (w : Surroundings) (t : TenantId)
    (projectId : Option String) (entries : List ConsolidatedEntry) (relation : LineageRelation)
    (provenance : String) (promotionRequested : Bool) (auditError : Option MemdError) :
    StoreProg ConsolidationExecution := do
  let project := projectId.filter (· ≠ "")
  finishPendingSparseCleanup w 100
  if entries = [] then
    .fail (.validationError "consolidation requires at least one validated entry")
  else
    let now := w.now 1
    let sources ← .ofExcept (parseUniqueSources entries)
    let runId ← newChunkId
    let inputHash := consolidationInputHash ext t project relation sources
    let existing ← .read .metadataRead (·.db.findConsolidationRunByInput t project inputHash)
    -- the same input again is the run that is there
    match existing with
    | some existing => reuseExistingRun (w.later 2) existing promotionRequested sources.length
    -- the sources are checked before anything is written
    | none => do
      validateSources t project relation now sources
      match auditError with
      | some e => .fail e
      | none => do
        let run : ConsolidationRun :=
          { runId := runId, tenantId := t, projectId := project, inputHash := inputHash,
            state := .planned, provenance := provenance, promotionRequested := promotionRequested,
            createdAtMs := now, updatedAtMs := now }
        let plan ← entries.foldlM (planEntry ext run relation) {}
        let durable ← journal (·.beginConsolidationRun run plan.entries plan.lineage)
        -- another call journaled the same input in between
        if durable.runId ≠ runId then settleExistingRun (w.later 2) durable sources.length
        else runPlan ext (w.later 2) run relation plan.chunks sources.length

/-! ## Recovery and review -/

/-- One run of a recovery pass: an error is recorded and the pass goes on. -/
def recoverListedRun (w : Surroundings) (run : ConsolidationRun) : StoreProg Unit := do
  let outcome ← (recoverOneRun w run).attempt
  match outcome with
  | .ok _ => pure ()
  | .error e => do
    let current ← .read .metadataRead (·.db.getConsolidationRun run.runId)
    if current.any (·.state.isTerminal) then pure ()
    else
      let record := (Db.recordConsolidationRecoveryError · run.runId (w.now 12) e.display)
      .modify .metadataWrite (withDb record)

/-- `recover_consolidation_runs_before`. -/
def recoverConsolidationRunsBefore (w : Surroundings) (limit : ℕ) (updatedBefore : ℤ) :
    StoreProg Unit := do
  .modify .metadataWrite (withDb (·.hideTerminalConsolidationCandidates (w.now 0)))
  finishPendingSparseCleanup (w.later 1) limit
  let runs ← .read .metadataRead (·.db.listRecoverableConsolidationRunsBefore limit updatedBefore)
  runs.zipIdx.forM fun run => recoverListedRun (w.later (2 + 13 * run.2)) run.1

/-- `ConsolidationReviewDecision`. -/
inductive ConsolidationReviewDecision
  | accept | reject
  deriving DecidableEq, Repr

/-- What follows a promotion request of a reviewer that matched no run. -/
def recheckRequest (id : ConsolidationRunId) (requested : Bool) : StoreProg Bool :=
  if requested = true then pure true
  else do
    let current ← expectRun id (missingRun id)
    if current.state = .committed then pure false
    else if current.state ≠ .validated ∨ current.promotionRequested = false then
      .fail (.validationError
        s!"concurrent review prevented accepting run {id}; current state is {current.state.asStr}")
    else pure true

/-- The Accept branch of `review_consolidation_run`. -/
def acceptRun (w : Surroundings) (run : ConsolidationRun) (sourceCount : ℕ) :
    StoreProg ConsolidationExecution :=
  -- accepted already: the call is a repetition
  if run.state = .committed then executionFromJournal run.runId sourceCount true
  else if run.state ≠ .validated then
    .fail (.validationError
      s!"consolidation run {run.runId} cannot be accepted from state {run.state.asStr}")
  else do
    let requested ← .perform .metadataWrite fun s =>
      (.ok (s.db.requestConsolidationPromotion run.runId (w.now 0)).1,
       withDb (fun db => (db.requestConsolidationPromotion run.runId (w.now 0)).2) s)
    let proceed ← recheckRequest run.runId requested
    if proceed = false then executionFromJournal run.runId sourceCount true
    else
      -- accepting drives the run to its end as a recovery does
      let current ← expectRun run.runId (missingRun run.runId)
      recoverOneRun (w.later 1) current
      let execution ← executionFromJournal run.runId sourceCount false
      if execution.state ≠ .committed then
        let current ← expectRun run.runId (missingRun run.runId)
        let detail := (current.error.map fun e => s!": {e}").getD ""
        .fail (.validationError
          s!"accepting consolidation run {run.runId} failed; current state is {execution.state.asStr}{detail}")
      else pure execution

/-- The Reject branch of `review_consolidation_run`. -/
def rejectRun (w : Surroundings) (run : ConsolidationRun) (sourceCount : ℕ) :
    StoreProg ConsolidationExecution :=
  if run.state = .rejected then executionFromJournal run.runId sourceCount true
  else if run.state ≠ .validated then
    .fail (.validationError
      s!"consolidation run {run.runId} cannot be rejected from state {run.state.asStr}")
  else do
    -- the transition is guarded by the state the run was seen in
    let rejected ← journal (·.terminateConsolidationRun run.runId .validated .rejected (w.now 0)
      "rejected by explicit review")
    if rejected = true then executionFromJournal run.runId sourceCount false
    else
      -- someone else has reviewed the run
      let current ← expectRun run.runId (missingRun run.runId)
      if current.state = .rejected then executionFromJournal run.runId sourceCount true
      else .fail (.validationError
        s!"concurrent review prevented rejecting run {run.runId}; current state is {current.state.asStr}")

/-- `review_consolidation_run`. -/
def reviewConsolidationRun (w : Surroundings) (id : ConsolidationRunId)
    (decision : ConsolidationReviewDecision) : StoreProg ConsolidationExecution := do
  let run ← expectRun id (.validationError s!"unknown consolidation run {id}")
  let lineage ← .read .metadataRead (·.db.getMemoryLineage id)
  let sourceCount := (lineage.map (·.sourceChunkId)).dedup.length
  match decision with
  | .accept => acceptRun w run sourceCount
  | .reject => rejectRun w run sourceCount

/-- `request_consolidation_promotion` as a call of its own. -/
def requestPromotion (w : Surroundings) (id : ConsolidationRunId) : StoreProg Bool :=
  .perform .metadataWrite fun s =>
    (.ok (s.db.requestConsolidationPromotion id (w.now 0)).1,
     withDb (fun db => (db.requestConsolidationPromotion id (w.now 0)).2) s)

end Consolidation
