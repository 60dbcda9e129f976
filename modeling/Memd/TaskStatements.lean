/-
# Statements on the task tables

`insert_task_artifact_bundle` (`tasks.rs`) as one transaction: the guards against
overwriting an experience artifact and against a task of another tenant, the upserts
of the task and challenge rows, the rows read off the artifact, the projection links,
and — for a digest — the two statements that supersede chunks: the projections the
digest had before, and every other chunk of the project with the canonical text of a
new projection.
-/
import Memd.ChunkStatements

namespace TaskArtifact

/-- A text that is there and not blank. -/
def nonBlank (s : Option String) : Option String :=
  s.filter fun s => s.toList.any fun c => !isWhitespace c

/-- `event_summary`. -/
def eventSummary (a : TaskArtifact) : Option String :=
  (nonBlank a.summary).orElse fun _ =>
  (nonBlank a.goal).orElse fun _ =>
  if a.whatWorked ≠ [] then some ("; ".intercalate a.whatWorked)
  else if a.whatFailed ≠ [] then some ("; ".intercalate a.whatFailed)
  else nonBlank a.command

end TaskArtifact

/-- One step of `sanitize_tag_value`: letters and digits are lower-cased, a run of
anything else is one underscore. -/
def sanitizeChar (out : List Char) (c : Char) : List Char :=
  if c.isAlphanum then out ++ [c.toLower]
  else if out.getLast? = some '_' then out
  else out ++ ['_']

/-- `sanitize_tag_value`. -/
def sanitizeTagValue (value : String) : String :=
  let out := value.toList.foldl sanitizeChar []
  String.ofList ((out.dropWhile (· == '_')).reverse.dropWhile (· == '_')).reverse

/-- The key a dataset is tagged with. -/
def DatasetRef.key (d : DatasetRef) : String :=
  sanitizeTagValue d.name ++ "::" ++ sanitizeTagValue (d.version.getD "")

/-- The key an entity is tagged with. -/
def EntityRef.key (e : EntityRef) : String :=
  sanitizeTagValue e.name ++ "::" ++ sanitizeTagValue e.entityType

/-- `stable_digest_identity`: the artifact id, the task id and the digest key. -/
def stableDigestIdentity (role scopeKey : String) : String × String × String :=
  let digestKey := sanitizeTagValue role ++ "::" ++ sanitizeTagValue scopeKey
  ("digest_artifact_" ++ digestKey, "digest_task_" ++ digestKey, digestKey)

namespace Db

open ChunkRow

/-! ## Queries -/

/-- `get_task_artifact`. -/
def getTaskArtifact (db : Db) (t : TenantId) (artifactId : String) : Option TaskArtifact :=
  db.taskArtifacts.find? fun a => a.tenantId == t && a.artifactId == artifactId

/-- `list_task_artifacts`, ordered by creation time and id. -/
def listTaskArtifacts (db : Db) (t : TenantId) (taskId : String) : List TaskArtifact :=
  (db.taskArtifacts.filter fun a => a.tenantId == t && a.taskId == taskId).mergeSort fun a b =>
    decide (a.timestampCreated < b.timestampCreated) ||
      (a.timestampCreated == b.timestampCreated && decide (a.artifactId ≤ b.artifactId))

/-- `list_tasks`, the last updated first. -/
def listTasks (db : Db) (t : TenantId) (projectId : Option String) (limit : ℕ) : List TaskRow :=
  ((db.tasks.filter fun r =>
      r.tenantId == t && projectId.all (fun p => r.projectId == some p)).mergeSort
    fun a b => decide (b.updatedAtMs ≤ a.updatedAtMs)).take limit

/-! ## Guards -/

/-- `reject_experience_artifact_overwrite`. -/
def rejectExperienceArtifactOverwrite (existing : Option TaskArtifact) (incoming : TaskArtifact) :
    Except MemdError Unit :=
  match existing with
  | none => .ok ()
  | some existing =>
    if existing = incoming then .ok ()
    else if existing.experience.isSome || incoming.experience.isSome then
      .error (.validationError s!"artifact_id collision for '{incoming.artifactId}': experience artifacts cannot be overwritten")
    else .ok ()

/-- `reject_cross_tenant_task_write`. -/
def rejectCrossTenantTaskWrite (existingTenant : Option TenantId) (incoming : TaskArtifact) :
    Except MemdError Unit :=
  if existingTenant.any (· ≠ incoming.tenantId) then
    .error (.validationError s!"task_id collision for '{incoming.taskId}': existing tenant differs from '{incoming.tenantId}'")
  else .ok ()

/-- `ensure_task_artifact_write_safe`. -/
def ensureTaskArtifactWriteSafe (db : Db) (a : TaskArtifact) : Except MemdError Unit := do
  rejectExperienceArtifactOverwrite (db.taskArtifacts.find? (·.artifactId == a.artifactId)) a
  if a.artifactKind ≠ .digest then
    rejectCrossTenantTaskWrite ((db.tasks.find? (·.taskId == a.taskId)).map (·.tenantId)) a

/-! ## The rows of an artifact -/

/-- The row `INSERT INTO tasks` offers. -/
def taskRowOf (a : TaskArtifact) : TaskRow where
  taskId := a.taskId
  tenantId := a.tenantId
  projectId := a.projectId
  parentTaskId := a.parentTaskId
  agentId := a.agentId
  sessionId := a.sessionId
  status := a.status
  goal := a.goal
  scientificQuestion := a.scientificQuestion
  hypothesis := a.hypothesis
  lastArtifactId := a.artifactId
  startedAtMs := if a.artifactKind = .taskStart then some a.timestampCreated else none
  finishedAtMs := if a.artifactKind = .taskFinish then some a.timestampCreated else none
  updatedAtMs := a.timestampCreated

/-- `ON CONFLICT(task_id) DO UPDATE`: a value that is there wins over none, and the
first start time is kept. -/
def mergeTask (current excluded : TaskRow) : TaskRow :=
  { current with
    projectId := excluded.projectId.or current.projectId
    parentTaskId := excluded.parentTaskId.or current.parentTaskId
    agentId := excluded.agentId.or current.agentId
    sessionId := excluded.sessionId.or current.sessionId
    status := excluded.status.or current.status
    goal := excluded.goal.or current.goal
    scientificQuestion := excluded.scientificQuestion.or current.scientificQuestion
    hypothesis := excluded.hypothesis.or current.hypothesis
    lastArtifactId := excluded.lastArtifactId
    startedAtMs := current.startedAtMs.or excluded.startedAtMs
    finishedAtMs := excluded.finishedAtMs.or current.finishedAtMs
    updatedAtMs := excluded.updatedAtMs }

/-- The upsert into `tasks`. -/
def upsertTask (tasks : List TaskRow) (new : TaskRow) : List TaskRow :=
  if tasks.any (·.taskId == new.taskId) then
    Table.updateWhere (·.taskId == new.taskId) (mergeTask · new) tasks
  else tasks ++ [new]

/-- The upsert into `challenges`. -/
def upsertChallenge (challenges : List ChallengeRow) (new : ChallengeRow) : List ChallengeRow :=
  if challenges.any (·.challengeId == new.challengeId) then
    Table.updateWhere (·.challengeId == new.challengeId) (fun current =>
      { current with
        projectId := new.projectId.or current.projectId
        summary := new.summary.or current.summary
        status := new.status.or current.status
        updatedAtMs := new.updatedAtMs }) challenges
  else challenges ++ [new]

/-- The rows an artifact puts into the tables that only receive replacing inserts, in
the order of the statements. -/
def artifactSideRows (a : TaskArtifact) : List ArtifactSideRow :=
  let summary := a.eventSummary
  (if a.artifactKind ≠ .digest then
    [.taskEvent a.artifactId a.tenantId a.taskId a.artifactKind a.status summary
      a.timestampCreated a.timestampObserved] else [])
  ++ a.datasetRefs.flatMap (fun d => [.dataset d.key d.name d.version d.description,
      .taskDataset a.artifactId a.tenantId a.taskId d.key d.name d.version])
  ++ a.entityRefs.flatMap (fun e => [.entity e.key e.name e.entityType e.role,
      .taskEntity a.artifactId a.tenantId a.taskId e.key e.name e.entityType])
  ++ a.replyToArtifactId.toList.map (fun r =>
      .relation a.artifactId a.tenantId r (a.relationKind.getD "reply_to"))
  ++ a.relatedArtifactIds.map (fun r =>
      .relation a.artifactId a.tenantId r (a.relationKind.getD "related"))
  ++ a.contributors.map (fun c => .contributor a.artifactId a.tenantId c.contributorId
      c.displayName c.role c.contribution)
  ++ (match a.artifactKind with
    | .runStart | .runFinish =>
      [.run a.artifactId a.tenantId a.taskId a.toolName a.status a.command a.metrics
        a.timestampCreated]
    | .evidence =>
      [.evidence a.artifactId a.tenantId a.taskId summary a.supportsClaim a.metrics
        a.timestampCreated]
    | _ => [])

/-! ## Projections -/

/-- The chunks an artifact is linked to as retrieval projections. -/
def projectionLinks (db : Db) (artifactId : String) : List ChunkId :=
  (db.artifactLinks.filter fun l =>
    l.artifactId == artifactId && l.linkKind == .retrievalProjection).map (·.chunkId)

/-- `status NOT IN ('candidate', 'deleted')`. -/
def supersedable (r : ChunkRow) : Bool :=
  r.status != .candidate && r.status != .deleted

/-- `SET status = 'superseded', tier = 'history', lifecycle_updated_at_ms = now`. -/
def retire (now : ℤ) (r : ChunkRow) : ChunkRow :=
  { r with
    status := .superseded
    lifecycle := { r.lifecycle with tier := .history, lifecycleUpdatedAtMs := now } }

/-- Retire the projections a digest had before and has no longer. -/
def retireOldProjections (db : Db) (a : TaskArtifact) (projections : List ChunkId) : Db :=
  ((db.projectionLinks a.artifactId).filter fun c => !projections.contains c).foldl
    (fun db old => db.updateChunks (fun r => isRow a.tenantId old r && supersedable r)
      (retire a.timestampCreated)) db

/-- `INSERT OR REPLACE INTO artifact_links`. -/
def insertLink (links : List ArtifactLink) (l : ArtifactLink) : List ArtifactLink :=
  Table.insertOrReplace (fun x y => x.artifactId == y.artifactId && x.chunkId == y.chunkId
    && x.linkKind == y.linkKind) l links

/-- The links of the current projections; a digest first drops the ones it had. -/
def linkProjections (db : Db) (a : TaskArtifact) (projections : List ChunkId)
    (kinds : List String) : Db :=
  let links := if a.artifactKind = .digest then
      Table.deleteWhere (fun l => l.artifactId == a.artifactId
        && l.linkKind == .retrievalProjection) db.artifactLinks
    else db.artifactLinks
  { db with
    artifactLinks := (projections.mapIdx fun i c =>
      (⟨a.artifactId, c, .retrievalProjection, kinds[i]?⟩ : ArtifactLink)).foldl insertLink links }

/-- The canonical text the chunk with this id has in the tenant. -/
def canonicalTextOf (db : Db) (t : TenantId) (c : ChunkId) : Option String :=
  (db.row t c).bind (·.canonicalText)

/-- Retire every other chunk of the project that has the canonical text of a
projection and is not itself a projection of the artifact. -/
def retireDuplicates (db : Db) (a : TaskArtifact) (projections : List ChunkId) : Db :=
  projections.foldl (fun db c =>
    db.updateChunks (fun r => r.tenantId == a.tenantId && r.chunkId != c
      && !(db.projectionLinks a.artifactId).contains r.chunkId
      && supersedable r
      && r.projectId == a.projectId
      && r.canonicalText.isSome
      && r.canonicalText == db.canonicalTextOf a.tenantId c)
      (retire a.timestampCreated)) db

/-! ## The bundle -/

/-- The statements of the bundle that write the task tables. -/
def writeTaskRows (db : Db) (a : TaskArtifact) : Db :=
  { db with
    taskArtifacts := Table.insertOrReplace (fun x y => x.artifactId == y.artifactId) a
      db.taskArtifacts
    tasks := if a.artifactKind ≠ .digest then upsertTask db.tasks (taskRowOf a) else db.tasks
    challenges := match a.challengeId with
      | some challengeId => upsertChallenge db.challenges ⟨challengeId, a.tenantId, a.projectId,
          a.eventSummary.or a.goal, a.status, a.timestampCreated⟩
      | none => db.challenges
    artifactSide := (artifactSideRows a).foldl
      (fun rows r => Table.insertOrReplace (fun x y => x.key == y.key) r rows) db.artifactSide }

/-- The statements of the bundle, in order. -/
def applyBundle (db : Db) (a : TaskArtifact) (projections : List ChunkId) (kinds : List String) :
    Db :=
  let db₁ := db.writeTaskRows a
  let db₂ := if a.artifactKind = .digest then db₁.retireOldProjections a projections else db₁
  let db₃ := db₂.linkProjections a projections kinds
  if a.artifactKind = .digest then db₃.retireDuplicates a projections else db₃

/-- `insert_task_artifact_bundle`: its two guards are those of
`ensure_task_artifact_write_safe`, checked again inside the transaction. -/
def insertTaskArtifactBundle (db : Db) (a : TaskArtifact) (projections : List ChunkId)
    (kinds : List String) : Except MemdError (Unit × Db) :=
  match db.ensureTaskArtifactWriteSafe a with
  | .error e => .error e
  | .ok _ => .ok ((), db.applyBundle a projections kinds)

/-! ## The bundle only touches the overlay of chunk rows -/

/-- Retiring a row that is neither a candidate nor deleted is an overlay. -/
theorem overlayRow_retire {now : ℤ} {r : ChunkRow} (h : supersedable r = true) :
    OverlayRow r (retire now r) := by
  refine ⟨rfl, rfl, rfl, rfl, ?_⟩
  have : r.status ≠ .deleted := by
    rw [supersedable, Bool.and_eq_true] at h
    simpa using h.2
  simp [retire, this]

theorem overlay_retireOldProjections (db : Db) (a : TaskArtifact) (projections : List ChunkId) :
    Overlay db (db.retireOldProjections a projections) := by
  apply Overlay.foldl
  intro db old
  apply Overlay.updateChunks
  intro r hr
  rw [Bool.and_eq_true] at hr
  exact overlayRow_retire hr.2

theorem overlay_retireDuplicates (db : Db) (a : TaskArtifact) (projections : List ChunkId) :
    Overlay db (db.retireDuplicates a projections) := by
  apply Overlay.foldl
  intro db c
  apply Overlay.updateChunks
  intro r hr
  simp only [Bool.and_eq_true] at hr
  exact overlayRow_retire hr.1.1.1.2

theorem overlay_applyBundle (db : Db) (a : TaskArtifact) (projections : List ChunkId)
    (kinds : List String) : Overlay db (db.applyBundle a projections kinds) := by
  have hrows : Overlay db (db.writeTaskRows a) := .of_chunks_eq rfl
  have hlinks : ∀ d : Db, Overlay d (d.linkProjections a projections kinds) :=
    fun _ => .of_chunks_eq rfl
  by_cases hk : a.artifactKind = .digest
  · simp only [applyBundle, hk, if_true]
    exact ((hrows.trans (overlay_retireOldProjections _ a projections)).trans (hlinks _)).trans
      (overlay_retireDuplicates _ a projections)
  · simp only [applyBundle, hk, if_false]
    exact hrows.trans (hlinks _)

end Db
