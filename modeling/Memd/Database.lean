/-
# The tables of the metadata database

The SQLite tables that the modelled statements read or write (`schema.rs`), each as a
list of rows.  A `task_artifacts` row stores the artifact as canonical JSON next to
columns that are all read off the artifact, so the row is the artifact itself; the
tables that only ever receive `INSERT OR REPLACE` of rows read off an artifact share
one list of tagged rows (`ArtifactSideRow`).
-/
import Memd.Chunk
import Memd.Table

/-! ## Task artifacts -/

/-- `ArtifactKind`. -/
inductive ArtifactKind
  | taskStart | taskProgress | runStart | runFinish | evidence | review | revision
  | verification | decision | digest | taskFinish | wikiPage
  deriving DecidableEq, Repr

/-- `DatasetRef`. -/
structure DatasetRef where
  name : String
  version : Option String := none
  description : Option String := none
  deriving DecidableEq, Repr

/-- `EntityRef`. -/
structure EntityRef where
  name : String
  entityType : String
  role : Option String := none
  deriving DecidableEq, Repr

/-- `ContributorRef`. -/
structure ContributorRef where
  contributorId : String
  displayName : Option String := none
  role : Option String := none
  contribution : Option String := none
  deriving DecidableEq, Repr

/-- Optional provenance of an artifact.  `execution` is the JSON text of the execution
context. -/
structure TaskProvenance where
  uri : Option String := none
  repo : Option String := none
  commit : Option String := none
  path : Option String := none
  toolName : Option String := none
  toolVersion : Option String := none
  toolCallId : Option String := none
  execution : Option String := none
  deriving DecidableEq, Repr

/-- The canonical task artifact envelope.  JSON values are kept as their text. -/
structure TaskArtifact where
  artifactId : String
  artifactKind : ArtifactKind
  taskId : String
  parentTaskId : Option String := none
  tenantId : TenantId
  projectId : Option String := none
  agentId : Option String := none
  sessionId : Option String := none
  status : Option String := none
  artifactRole : Option String := none
  challengeId : Option String := none
  threadId : Option String := none
  replyToArtifactId : Option String := none
  relationKind : Option String := none
  goal : Option String := none
  motivation : Option String := none
  hypothesis : Option String := none
  scientificQuestion : Option String := none
  methodSummary : Option String := none
  summary : Option String := none
  content : Option String := none
  evidenceKind : Option String := none
  supportsClaim : Option Bool := none
  blockers : List String := []
  whatWorked : List String := []
  whatFailed : List String := []
  validation : List String := []
  uncertainty : List String := []
  followups : List String := []
  expectedOutputs : List String := []
  relatedArtifactIds : List String := []
  contributors : List ContributorRef := []
  datasetRefs : List DatasetRef := []
  entityRefs : List EntityRef := []
  toolName : Option String := none
  toolVersion : Option String := none
  command : Option String := none
  parameters : Option String := none
  inputs : List String := []
  outputs : List String := []
  metrics : Option String := none
  whyChosen : Option String := none
  confidence : Option F32 := none
  requestedAction : Option String := none
  verificationStatus : Option String := none
  computeBudget : Option String := none
  costActual : Option String := none
  dataAccessLevel : Option String := none
  policyTags : List String := []
  allowedTools : List String := []
  approvalState : Option String := none
  promotionState : PromotionState := .raw
  digestKey : Option String := none
  sourceUpdatedAtMs : Option ℤ := none
  experience : Option String := none
  provenance : TaskProvenance := {}
  timestampCreated : ℤ
  timestampObserved : Option ℤ := none
  deriving DecidableEq, Repr

/-- A row of `tasks`. -/
structure TaskRow where
  taskId : String
  tenantId : TenantId
  projectId : Option String
  parentTaskId : Option String
  agentId : Option String
  sessionId : Option String
  status : Option String
  goal : Option String
  scientificQuestion : Option String
  hypothesis : Option String
  lastArtifactId : String
  startedAtMs : Option ℤ
  finishedAtMs : Option ℤ
  updatedAtMs : ℤ
  deriving DecidableEq, Repr

/-- A row of `challenges`. -/
structure ChallengeRow where
  challengeId : String
  tenantId : TenantId
  projectId : Option String
  summary : Option String
  status : Option String
  updatedAtMs : ℤ
  deriving DecidableEq, Repr

/-- The kind of a link between an artifact and a chunk. -/
inductive LinkKind
  | retrievalProjection
  deriving DecidableEq, Repr

/-- A row of `artifact_links`. -/
structure ArtifactLink where
  artifactId : String
  chunkId : ChunkId
  linkKind : LinkKind
  projectionKind : Option String
  deriving DecidableEq, Repr

/-- A row of one of the tables that only receive `INSERT OR REPLACE` of data read off
an artifact. -/
inductive ArtifactSideRow
  | taskEvent (artifactId tenantId taskId : String) (kind : ArtifactKind)
      (status summary : Option String) (created : ℤ) (observed : Option ℤ)
  | dataset (key name : String) (version description : Option String)
  | taskDataset (artifactId tenantId taskId key name : String) (version : Option String)
  | entity (key name entityType : String) (role : Option String)
  | taskEntity (artifactId tenantId taskId key name entityType : String)
  | relation (artifactId tenantId relatedArtifactId relationKind : String)
  | contributor (artifactId tenantId contributorId : String)
      (displayName role contribution : Option String)
  | run (artifactId tenantId taskId : String) (toolName status command metrics : Option String)
      (created : ℤ)
  | evidence (artifactId tenantId taskId : String) (summary : Option String)
      (supportsClaim : Option Bool) (metrics : Option String) (created : ℤ)
  deriving DecidableEq, Repr

/-- The primary key of such a row, with its table. -/
def ArtifactSideRow.key : ArtifactSideRow → String × List String
  | .taskEvent a _ _ _ _ _ _ _ => ("task_events", [a])
  | .dataset k _ _ _ => ("datasets", [k])
  | .taskDataset a _ _ k _ _ => ("task_datasets", [a, k])
  | .entity k _ _ _ => ("entities", [k])
  | .taskEntity a _ _ k _ _ => ("task_entities", [a, k])
  | .relation a _ r k => ("artifact_relations", [a, r, k])
  | .contributor a _ c _ _ _ => ("artifact_contributors", [a, c])
  | .run a _ _ _ _ _ _ _ => ("runs", [a])
  | .evidence a _ _ _ _ _ _ => ("evidence", [a])

/-! ## The consolidation journal -/

/-- A `ConsolidationRunId`: like a chunk id, the rank of its creation. -/
abbrev ConsolidationRunId := ℕ

/-- `ConsolidationState`. -/
inductive ConsolidationState
  | planned | candidateWritten | validated | committed | rejected | rolledBack | failedRecoverable
  deriving DecidableEq, Repr

namespace ConsolidationState

/-- `ConsolidationState::as_str`. -/
def asStr : ConsolidationState → String
  | .planned => "planned"
  | .candidateWritten => "candidate_written"
  | .validated => "validated"
  | .committed => "committed"
  | .rejected => "rejected"
  | .rolledBack => "rolled_back"
  | .failedRecoverable => "failed_recoverable"

/-- `ConsolidationState::is_terminal`. -/
def isTerminal : ConsolidationState → Bool
  | .committed | .rejected | .rolledBack => true
  | _ => false

/-- `state NOT IN ('rejected', 'rolled_back')`. -/
def isActive (s : ConsolidationState) : Bool :=
  s != .rejected && s != .rolledBack

end ConsolidationState

/-- `LineageRelation`. -/
inductive LineageRelation
  | supersedes | derivesFrom
  deriving DecidableEq, Repr

/-- `LineageRelation::as_str`. -/
def LineageRelation.asStr : LineageRelation → String
  | .supersedes => "supersedes"
  | .derivesFrom => "derives_from"

/-- A row of `consolidation_runs`.  `provenance` stands for the columns that are only
stored and handed to the audit check: consolidator, prompt and response hashes, audit path. -/
structure ConsolidationRun where
  runId : ConsolidationRunId
  tenantId : TenantId
  projectId : Option String
  inputHash : String
  state : ConsolidationState
  provenance : String := ""
  validationResult : Option String := none
  error : Option String := none
  sparseCleanupDone : Bool := false
  promotionRequested : Bool
  createdAtMs : ℤ
  updatedAtMs : ℤ
  deriving DecidableEq, Repr

/-- A row of `consolidation_entries`. -/
structure ConsolidationEntryRecord where
  runId : ConsolidationRunId
  entryIndex : ℕ
  candidateChunkId : Option ChunkId
  sourceSetHash : String
  state : ConsolidationState
  validationError : Option String := none
  createdAtMs : ℤ
  updatedAtMs : ℤ
  deriving DecidableEq, Repr

/-- A row of `memory_lineage`. -/
structure MemoryLineage where
  runId : ConsolidationRunId
  tenantId : TenantId
  projectId : Option String
  sourceChunkId : ChunkId
  resultChunkId : ChunkId
  relation : LineageRelation
  createdAtMs : ℤ
  deriving DecidableEq, Repr

/-! ## The database -/

/-- The tables of a tenant's metadata database. -/
structure Db where
  chunks : List ChunkRow := []
  taskArtifacts : List TaskArtifact := []
  tasks : List TaskRow := []
  challenges : List ChallengeRow := []
  artifactLinks : List ArtifactLink := []
  artifactSide : List ArtifactSideRow := []
  consolidationRuns : List ConsolidationRun := []
  consolidationEntries : List ConsolidationEntryRecord := []
  memoryLineage : List MemoryLineage := []
  deriving DecidableEq, Repr
