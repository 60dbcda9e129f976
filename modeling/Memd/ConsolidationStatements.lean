/-
# Statements on the consolidation journal

The transactions of `store/metadata/sqlite/consolidation.rs`: a run, its entries and
its lineage are created together (`beginConsolidationRun`), moved together through
guarded states (`transitionConsolidationRun`, `terminateConsolidationRun`) and promoted
together with the chunk rows they name (`atomicPromoteConsolidationRun`).  A transaction
that fails returns no database: its caller keeps the old one.
-/
import Memd.ChunkStatements

namespace Db

open ChunkRow

/-! ## Reading the journal -/

/-- The active run of an input in its tenant and project. -/
def isInput (t : TenantId) (project : Option String) (inputHash : String)
    (r : ConsolidationRun) : Bool :=
  r.tenantId == t && r.projectId == project && r.inputHash == inputHash
    && r.state.isActive

/-- `get_consolidation_run`. -/
def getConsolidationRun (db : Db) (id : ConsolidationRunId) : Option ConsolidationRun :=
  db.consolidationRuns.find? (·.runId == id)

/-- `find_consolidation_run_by_input`. -/
def findConsolidationRunByInput (db : Db) (t : TenantId) (project : Option String)
    (inputHash : String) : Option ConsolidationRun :=
  db.consolidationRuns.find? (isInput t project inputHash)

/-- `get_consolidation_entries`: by entry index. -/
def getConsolidationEntries (db : Db) (id : ConsolidationRunId) : List ConsolidationEntryRecord :=
  (db.consolidationEntries.filter (·.runId == id)).mergeSort
    fun a b => decide (a.entryIndex ≤ b.entryIndex)

/-- `get_memory_lineage`: by result, then by source. -/
def getMemoryLineage (db : Db) (id : ConsolidationRunId) : List MemoryLineage :=
  (db.memoryLineage.filter (·.runId == id)).mergeSort fun a b =>
    decide (a.resultChunkId < b.resultChunkId ∨
      a.resultChunkId = b.resultChunkId ∧ a.sourceChunkId ≤ b.sourceChunkId)

/-- The candidates a run names. -/
def candidates (db : Db) (id : ConsolidationRunId) : List ChunkId :=
  (db.getConsolidationEntries id).filterMap (·.candidateChunkId)

/-- `list_recoverable_consolidation_runs_before`: oldest update first. -/
def listRecoverableConsolidationRunsBefore (db : Db) (limit : ℕ) (updatedBefore : ℤ) :
    List ConsolidationRun :=
  ((db.consolidationRuns.filter fun r =>
      (r.state == .planned || r.state == .candidateWritten || r.state == .failedRecoverable
        || (r.state == .validated && r.promotionRequested))
      && decide (r.updatedAtMs ≤ updatedBefore)).mergeSort
    fun a b => decide (a.updatedAtMs < b.updatedAtMs ∨
      a.updatedAtMs = b.updatedAtMs ∧ a.runId ≤ b.runId)).take limit

/-- `list_consolidation_runs_pending_sparse_cleanup`. -/
def listConsolidationRunsPendingSparseCleanup (db : Db) (limit : ℕ) : List ConsolidationRun :=
  ((db.consolidationRuns.filter fun r => r.state == .committed && !r.sparseCleanupDone).mergeSort
    fun a b => decide (a.updatedAtMs < b.updatedAtMs ∨
      a.updatedAtMs = b.updatedAtMs ∧ a.runId ≤ b.runId)).take limit

/-! ## Creating a run -/

/-- A text that is empty once trimmed. -/
def isBlank (s : String) : Bool :=
  s.toList.all isWhitespace

/-- The entries of a plan that are not a unique planned one, in order of appearance;
`indexes` and `seen` are what came before. -/
def checkPlanEntries (run : ConsolidationRun) (indexes : List ℕ) (seen : List ChunkId) :
    List ConsolidationEntryRecord → Except MemdError (List ChunkId)
  | [] => .ok seen
  | e :: rest =>
    match e.candidateChunkId with
    | none => .error (.validationError "planned entries require candidate chunk ids")
    | some c =>
      if e.runId ≠ run.runId ∨ e.state ≠ .planned ∨ isBlank e.sourceSetHash = true
          ∨ e.entryIndex ∈ indexes ∨ c ∈ seen then
        .error (.validationError "consolidation entries do not form a unique planned run")
      else checkPlanEntries run (e.entryIndex :: indexes) (c :: seen) rest

/-- The lineage of a plan against its run; `sources` are those that came before. -/
def checkPlanLineage (run : ConsolidationRun) (relation : LineageRelation)
    (candidates sources : List ChunkId) : List MemoryLineage → Except MemdError Unit
  | [] => .ok ()
  | e :: rest =>
    if e.runId ≠ run.runId ∨ e.tenantId ≠ run.tenantId ∨ e.projectId ≠ run.projectId
        ∨ e.relation ≠ relation ∨ e.resultChunkId ∉ candidates
        ∨ e.sourceChunkId = e.resultChunkId ∨ e.sourceChunkId ∈ sources then
      .error (.validationError "consolidation lineage does not match its run scope")
    else checkPlanLineage run relation candidates (e.sourceChunkId :: sources) rest

/-- `validate_consolidation_plan`. -/
def validateConsolidationPlan (run : ConsolidationRun) (entries : List ConsolidationEntryRecord)
    (lineage : List MemoryLineage) : Except MemdError Unit := do
  if run.state ≠ .planned ∨ run.sparseCleanupDone = true then
    throw (.validationError "new consolidation runs must start in planned state")
  match lineage with
  | [] => throw (.validationError
      "a consolidation plan requires an input hash, entries, and lineage")
  | first :: _ =>
    if isBlank run.inputHash = true ∨ entries = [] then
      throw (.validationError "a consolidation plan requires an input hash, entries, and lineage")
    let candidates ← checkPlanEntries run [] [] entries
    checkPlanLineage run first.relation candidates [] lineage
    if candidates.any fun c => !lineage.any (·.resultChunkId == c) then
      throw (.validationError "every consolidation candidate requires lineage")

/-- `INSERT OR IGNORE` ignores a run whose id exists or whose input is active. -/
def ignoresRun (db : Db) (run : ConsolidationRun) : Bool :=
  db.consolidationRuns.any fun r => r.runId == run.runId
    || (r.tenantId == run.tenantId && r.projectId.getD "" == run.projectId.getD ""
        && r.inputHash == run.inputHash && r.state.isActive)

/-- `PRIMARY KEY(run_id, entry_index)` and `UNIQUE(candidate_chunk_id)`. -/
def entryConflicts (db : Db) (e : ConsolidationEntryRecord) : Bool :=
  db.consolidationEntries.any fun x => (x.runId == e.runId && x.entryIndex == e.entryIndex)
    || (x.candidateChunkId.isSome && x.candidateChunkId == e.candidateChunkId)

/-- `PRIMARY KEY(run_id, source_chunk_id, result_chunk_id, relation)`. -/
def lineageConflicts (db : Db) (e : MemoryLineage) : Bool :=
  db.memoryLineage.any fun x => x.runId == e.runId && x.sourceChunkId == e.sourceChunkId
    && x.resultChunkId == e.resultChunkId && x.relation == e.relation

/-- The insertion of an entry, which a unique key can refuse. -/
def insertEntry (db : Db) (e : ConsolidationEntryRecord) : Except MemdError Db :=
  if db.entryConflicts e then
    .error (.storageError "UNIQUE constraint failed: consolidation_entries")
  else .ok { db with consolidationEntries := db.consolidationEntries ++ [e] }

/-- The insertion of a lineage edge, which a unique key can refuse. -/
def insertLineage (db : Db) (e : MemoryLineage) : Except MemdError Db :=
  if db.lineageConflicts e then
    .error (.storageError "UNIQUE constraint failed: memory_lineage")
  else .ok { db with memoryLineage := db.memoryLineage ++ [e] }

/-- `begin_consolidation_run`: the run that stands for the input, new or existing. -/
def beginConsolidationRun (db : Db) (run : ConsolidationRun)
    (entries : List ConsolidationEntryRecord) (lineage : List MemoryLineage) :
    Except MemdError (ConsolidationRun × Db) :=
  match validateConsolidationPlan run entries lineage with
  | .error e => .error e
  | .ok _ =>
    if db.ignoresRun run then
      match db.findConsolidationRunByInput run.tenantId run.projectId run.inputHash with
      | none => .error (.storageError "Query returned no rows")
      | some existing => .ok (existing, db)
    else
      match entries.foldlM insertEntry { db with consolidationRuns := db.consolidationRuns ++ [run] } with
      | .error e => .error e
      | .ok db₁ =>
        match lineage.foldlM insertLineage db₁ with
        | .error e => .error e
        | .ok db₂ => .ok (run, db₂)

/-! ## Bookkeeping -/

/-- `UPDATE consolidation_runs SET f WHERE p`. -/
def updateRuns (db : Db) (p : ConsolidationRun → Bool) (f : ConsolidationRun → ConsolidationRun) :
    Db :=
  { db with consolidationRuns := Table.updateWhere p f db.consolidationRuns }

/-- `UPDATE consolidation_entries SET f WHERE p`. -/
def updateEntries (db : Db) (p : ConsolidationEntryRecord → Bool)
    (f : ConsolidationEntryRecord → ConsolidationEntryRecord) : Db :=
  { db with consolidationEntries := Table.updateWhere p f db.consolidationEntries }

/-- `mark_consolidation_sparse_cleanup_done`. -/
def markConsolidationSparseCleanupDone (db : Db) (id : ConsolidationRunId) (now : ℤ) : Db :=
  db.updateRuns (fun r => r.runId == id && r.state == .committed && !r.sparseCleanupDone)
    fun r => { r with sparseCleanupDone := true, updatedAtMs := now }

/-- `record_consolidation_recovery_error`. -/
def recordConsolidationRecoveryError (db : Db) (id : ConsolidationRunId) (now : ℤ)
    (error : String) : Db :=
  db.updateRuns (fun r => r.runId == id && !r.state.isTerminal)
    fun r => { r with error := some error, updatedAtMs := now }

/-- A run that may still be asked to promote. -/
def requestable (id : ConsolidationRunId) (r : ConsolidationRun) : Bool :=
  r.runId == id && (r.state == .planned || r.state == .candidateWritten || r.state == .validated
    || r.state == .failedRecoverable)

/-- `request_consolidation_promotion`: whether a run matched. -/
def requestConsolidationPromotion (db : Db) (id : ConsolidationRunId) (now : ℤ) : Bool × Db :=
  ((db.consolidationRuns.filter (requestable id)).length == 1,
   db.updateRuns (requestable id) fun r => { r with promotionRequested := true, updatedAtMs := now })

/-- `SET status = 'error' WHERE status = 'candidate'` on the given chunks. -/
def hideCandidates (db : Db) (ids : List ChunkId) (now : ℤ) : Db :=
  db.updateChunks (fun r => r.status == .candidate && ids.contains r.chunkId) fun r =>
    { r with status := .error, lifecycle := { r.lifecycle with lifecycleUpdatedAtMs := now } }

/-- `hide_consolidation_candidates`. -/
def hideConsolidationCandidates (db : Db) (id : ConsolidationRunId) (now : ℤ) : Db :=
  db.hideCandidates (db.candidates id) now

/-- `hide_terminal_consolidation_candidates`. -/
def hideTerminalConsolidationCandidates (db : Db) (now : ℤ) : Db :=
  db.hideCandidates
    ((db.consolidationEntries.filter fun e =>
        db.consolidationRuns.any fun r => r.runId == e.runId && r.state.isTerminal).filterMap
      (·.candidateChunkId)) now

/-! ## Guarded state changes -/

/-- The run of the guard `run_id = ? AND state = ?`. -/
def runIn (id : ConsolidationRunId) (s : ConsolidationState) (r : ConsolidationRun) : Bool :=
  r.runId == id && r.state == s

/-- The entry is of the run and in the state. -/
def entryIn (id : ConsolidationRunId) (s : ConsolidationState) (e : ConsolidationEntryRecord) :
    Bool :=
  e.runId == id && e.state == s

/-- The two `UPDATE`s that move a run and its entries, and the check before the commit;
`none` when no run is in the expected state. -/
def moveRun (db : Db) (id : ConsolidationRunId) (expected next : ConsolidationState) (now : ℤ)
    (validationResult error : Option String) : Except MemdError (Option Db) :=
  if (db.consolidationRuns.filter (runIn id expected)).length = 0 then .ok none
  else if (db.consolidationEntries.filter (entryIn id expected)).length
      ≠ (db.consolidationEntries.filter (·.runId == id)).length then
    .error (.storageError s!"consolidation run {id} has entries outside expected state {expected.asStr}")
  else .ok (some ((db.updateRuns (runIn id expected) fun r =>
      { r with state := next, validationResult := validationResult.or r.validationResult,
               error := error, updatedAtMs := now }).updateEntries (entryIn id expected)
    fun e => { e with state := next, validationError := error, updatedAtMs := now }))

/-- `transition_consolidation_run`: whether the run was in the expected state. -/
def transitionConsolidationRun (db : Db) (id : ConsolidationRunId)
    (expected next : ConsolidationState) (now : ℤ) (validationResult error : Option String) :
    Except MemdError (Bool × Db) :=
  match db.moveRun id expected next now validationResult error with
  | .error e => .error e
  | .ok none => .ok (false, db)
  | .ok (some db') => .ok (true, db')

/-- `terminate_consolidation_run`: the candidates are hidden in the same transaction. -/
def terminateConsolidationRun (db : Db) (id : ConsolidationRunId)
    (expected terminal : ConsolidationState) (now : ℤ) (error : String) :
    Except MemdError (Bool × Db) :=
  if terminal ≠ .rejected ∧ terminal ≠ .rolledBack then
    .error (.validationError "consolidation termination requires rejected or rolled_back state")
  else
    match db.moveRun id expected terminal now none (some error) with
    | .error e => .error e
    | .ok none => .ok (false, db)
    | .ok (some db') => .ok (true, db'.hideConsolidationCandidates id now)

/-! ## Promotion -/

/-- `PromotionOutcome`. -/
inductive PromotionOutcome
  | committed | alreadyCommitted
  deriving DecidableEq, Repr

/-- The candidates of a run that is to be promoted. -/
def validatedCandidates : List ConsolidationEntryRecord → Except MemdError (List ChunkId)
  | [] => .ok []
  | e :: rest =>
    if e.state ≠ .validated then
      .error (.storageError s!"consolidation entry {e.entryIndex} is not validated")
    else
      match e.candidateChunkId with
      | none => .error (.storageError s!"consolidation entry {e.entryIndex} has no candidate chunk")
      | some c => (validatedCandidates rest).map (c :: ·)

/-- A candidate must still be one, in the project of its run and with lineage. -/
def checkCandidate (db : Db) (run : ConsolidationRun) (lineage : List MemoryLineage) (c : ChunkId) :
    Except MemdError Unit :=
  match db.row run.tenantId c with
  | none => .error (.storageError "Query returned no rows")
  | some r =>
    if r.status ≠ .candidate ∨ r.projectId ≠ run.projectId then
      .error (.storageError s!"candidate {c} drifted outside run {run.runId}")
    else if !lineage.any (·.resultChunkId == c) then
      .error (.storageError s!"candidate {c} has no lineage in run {run.runId}")
    else .ok ()

/-- A visible final head at the given time. -/
def isVisibleHead (now : ℤ) (r : ChunkRow) : Bool :=
  r.status == .final && r.lifecycle.supersededBy.isNone && r.lifecycle.tier != .history
    && !(r.lifecycle.expiresAtMs.any fun e => decide (e ≤ now))

/-- An edge must be in the scope of its run and its source a visible head. -/
def checkEdge (db : Db) (run : ConsolidationRun) (relation : LineageRelation)
    (candidates : List ChunkId) (now : ℤ) (e : MemoryLineage) : Except MemdError Unit :=
  if e.tenantId ≠ run.tenantId ∨ e.projectId ≠ run.projectId ∨ e.resultChunkId ∉ candidates then
    .error (.storageError s!"lineage edge escaped consolidation run {run.runId} scope")
  else if e.relation ≠ relation then
    .error (.storageError s!"lineage relation {e.relation.asStr} is invalid for run {run.runId} scope")
  else
    match db.row run.tenantId e.sourceChunkId with
    | none => .error (.storageError "Query returned no rows")
    | some r =>
      if !isVisibleHead now r then
        .error (.storageError s!"source {e.sourceChunkId} is no longer a visible final head for run {run.runId}")
      else if relation = .supersedes ∧ r.projectId ≠ run.projectId then
        .error (.storageError s!"source {e.sourceChunkId} escaped project scope for run {run.runId}")
      else .ok ()

/-- `UPDATE chunks SET f WHERE p` that must match exactly one row. -/
def updateOne (db : Db) (p : ChunkRow → Bool) (f : ChunkRow → ChunkRow) (msg : String) :
    Except MemdError Db :=
  if (db.chunks.filter p).length ≠ 1 then .error (.storageError msg) else .ok (db.updateChunks p f)

/-- The candidate becomes final. -/
def promoteCandidate (run : ConsolidationRun) (now : ℤ) (db : Db) (c : ChunkId) :
    Except MemdError Db :=
  db.updateOne (fun r => isRow run.tenantId c r && r.status == .candidate)
    (fun r => { r with status := .final,
                       lifecycle := { r.lifecycle with lifecycleUpdatedAtMs := now } })
    s!"candidate {c} could not be promoted for run {run.runId}"

/-- The source is superseded by its result. -/
def supersedeSource (run : ConsolidationRun) (now : ℤ) (db : Db) (e : MemoryLineage) :
    Except MemdError Db :=
  db.updateOne (fun r => isRow run.tenantId e.sourceChunkId r && isVisibleHead now r
      && r.projectId == run.projectId)
    (fun r => { r with status := .superseded,
                       lifecycle := { r.lifecycle with supersededBy := some e.resultChunkId,
                                                       lifecycleUpdatedAtMs := now } })
    s!"source {e.sourceChunkId} could not be superseded for run {run.runId}"

/-- The writes of a promotion that has passed its checks. -/
def applyPromotion (db : Db) (run : ConsolidationRun) (entries : List ConsolidationEntryRecord)
    (relation : LineageRelation) (lineage : List MemoryLineage) (candidates : List ChunkId)
    (now : ℤ) : Except MemdError Db := do
  let db₁ ← candidates.foldlM (promoteCandidate run now) db
  let db₂ ← (if relation = .supersedes then lineage else []).foldlM (supersedeSource run now) db₁
  if (db₂.consolidationEntries.filter (entryIn run.runId .validated)).length ≠ entries.length then
    throw (.storageError s!"not all entries committed for run {run.runId}")
  if (db₂.consolidationRuns.filter (runIn run.runId .validated)).length ≠ 1 then
    throw (.storageError s!"run {run.runId} lost its validated promotion guard")
  pure ((db₂.updateEntries (entryIn run.runId .validated) fun e =>
      { e with state := .committed, updatedAtMs := now }).updateRuns (runIn run.runId .validated)
    fun r => { r with state := .committed, error := none, updatedAtMs := now })

/-- `atomic_promote_consolidation_run`. -/
def atomicPromoteConsolidationRun (db : Db) (id : ConsolidationRunId) (now : ℤ) :
    Except MemdError (PromotionOutcome × Db) :=
  match db.getConsolidationRun id with
  | none => .error (.storageError "Query returned no rows")
  | some run =>
    -- a promotion that has happened is no error
    if run.state = .committed then .ok (.alreadyCommitted, db)
    else if run.state ≠ .validated then
      .error (.storageError s!"consolidation run {id} cannot promote from state {run.state.asStr}")
    else if run.promotionRequested = false then
      .error (.validationError s!"consolidation run {id} has no durable promotion request")
    else
      let entries := db.getConsolidationEntries id
      match db.getMemoryLineage id with
      | [] => .error (.storageError s!"consolidation run {id} has no entries or lineage")
      | first :: rest => do
        let lineage := first :: rest
        if entries = [] then
          throw (.storageError s!"consolidation run {id} has no entries or lineage")
        -- every candidate and every edge is checked before anything is written
        let candidates := (← validatedCandidates entries).dedup
        candidates.forM (db.checkCandidate run lineage)
        lineage.forM (db.checkEdge run first.relation candidates now)
        let db' ← db.applyPromotion run entries first.relation lineage candidates now
        pure (.committed, db')

end Db
