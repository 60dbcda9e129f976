/-
# Recording experience

The recording calls of `experience/mod.rs` over the artifact tables of a store.  Every call runs
under the mutation lock, so it is one step; a call that fails writes nothing.

The tables are those `insert_task_artifact_bundle` writes: artifacts, tasks and the links to
projection chunks.  A call draws an artifact id, a UUID for a task, the time, and the ids of the
projection chunks (`Draw`).
-/
import Memd.ExperienceCase
import Memd.TaskStatements

namespace Experience

open ExperienceArtifact

/-! ## The artifact tables -/

/-- The rows of `task_artifacts` and `tasks`, and which artifact `artifact_links` links to which
projection chunk. -/
structure ExperienceStore where
  artifacts : List ExperienceArtifact := []
  tasks : List TaskRow := []
  links : List (String × ChunkId) := []
  deriving DecidableEq, Repr

/-- What a call draws. -/
structure Draw extends Stamp where
  projectionIds : List ChunkId := []
  deriving DecidableEq, Repr

namespace ExperienceStore

/-- `get_task_artifact`. -/
def getTaskArtifact (s : ExperienceStore) (t : TenantId) (artifactId : String) :
    Option ExperienceArtifact :=
  s.artifacts.find? fun a => a.tenantId == t && a.artifactId == artifactId

/-- `get_task_artifact_global`. -/
def getTaskArtifactGlobal (s : ExperienceStore) (artifactId : String) :
    Option ExperienceArtifact :=
  s.artifacts.find? (·.artifactId == artifactId)

/-- `get_task_global`: the tenant of the task. -/
def getTaskGlobal (s : ExperienceStore) (taskId : String) : Option TenantId :=
  (s.tasks.find? (·.taskId == taskId)).map (·.tenantId)

/-- `list_task_artifacts`, ordered by creation time and id. -/
def listTaskArtifacts (s : ExperienceStore) (t : TenantId) (taskId : String) :
    List ExperienceArtifact :=
  (s.artifacts.filter fun a => a.tenantId == t && a.taskId == taskId).insertionSort fun a b =>
    toLex (a.timestampCreated, a.artifactId) ≤ toLex (b.timestampCreated, b.artifactId)

/-- `reject_experience_artifact_overwrite`. -/
def rejectExperienceArtifactOverwrite (existing : Option ExperienceArtifact)
    (incoming : ExperienceArtifact) : Except MemdError Unit :=
  match existing with
  | none => .ok ()
  | some existing =>
    demand (existing == incoming || (existing.event.isNone && incoming.event.isNone))
      s!"artifact_id collision for '{incoming.artifactId}': experience artifacts cannot be overwritten"

/-- `ensure_task_artifact_write_safe`. -/
def ensureTaskArtifactWriteSafe (s : ExperienceStore) (a : ExperienceArtifact) :
    Except MemdError Unit := do
  rejectExperienceArtifactOverwrite (s.getTaskArtifactGlobal a.artifactId) a
  if a.artifactKind ≠ .digest then
    Db.rejectCrossTenantTaskWrite (s.getTaskGlobal a.taskId) a.toTaskArtifact

/-- The rows after `insert_task_artifact_bundle`. -/
def insertArtifact (s : ExperienceStore) (a : ExperienceArtifact) (projectionIds : List ChunkId) :
    ExperienceStore where
  artifacts := Table.insertOrReplace (fun x y => x.artifactId == y.artifactId) a s.artifacts
  tasks := if a.artifactKind ≠ .digest then Db.upsertTask s.tasks (Db.taskRowOf a.toTaskArtifact)
    else s.tasks
  links := projectionIds.foldl (fun links c =>
      Table.insertOrReplace (· == ·) (a.artifactId, c) links)
    -- a digest first drops the links it had
    (if a.artifactKind = .digest then Table.deleteWhere (·.1 == a.artifactId) s.links else s.links)

/-- `add_task_artifact`. -/
def addTaskArtifact (s : ExperienceStore) (a : ExperienceArtifact) (projectionIds : List ChunkId) :
    Except MemdError ExperienceStore := do
  s.ensureTaskArtifactWriteSafe a
  pure (s.insertArtifact a projectionIds)

/-- `get_experience`. -/
def getExperience (s : ExperienceStore) (t : TenantId) (artifactId : String) :
    Option ExperienceArtifact :=
  (s.getTaskArtifact t artifactId).filter (·.event.isSome)

end ExperienceStore

/-! ## Contexts -/

/-- `ExperienceContext`. -/
structure ExperienceContext where
  tenantId : TenantId
  projectId : Option String := none
  agentId : Option String := none
  sessionId : Option String := none
  observedAtMs : Option ℤ := none
  provenance : TaskProvenance := {}
  deriving DecidableEq, Repr

/-- The `Display` text of a project id. -/
def showProject (projectId : Option String) : String :=
  projectId.getD "<none>"

/-- `TaskArtifact::new` and `apply_context`. -/
def newArtifact (ctx : ExperienceContext) (draw : Draw) (kind : ArtifactKind) (taskId : String)
    (event : ExperienceEvent) : ExperienceArtifact where
  toTaskArtifact := { TaskArtifact.new draw.toStamp kind ctx.tenantId taskId with
    projectId := ctx.projectId
    agentId := ctx.agentId
    sessionId := ctx.sessionId
    provenance := ctx.provenance
    timestampObserved := ctx.observedAtMs
    promotionState := .canonical }
  event := some event

/-- `ensure_project`. -/
def ensureProject (requested actual : Option String) : Except MemdError Unit :=
  demand (requested == actual)
    s!"project scope mismatch: requested '{showProject requested}', artifact belongs to '{showProject actual}'"

/-- `ensure_causal_time`. -/
def ensureCausalTime (observedAtMs : Option ℤ) (parent : ExperienceArtifact) (eventName : String) :
    Except MemdError Unit :=
  demand (observedAtMs.all fun t => decide (parent.eventTime ≤ t))
    s!"{eventName} observed_at_ms predates causal target '{parent.artifactId}'"

/-- A value that must be there. -/
def required {α : Type} (value : Option α) (message : String) : Except MemdError α :=
  match value with
  | some a => .ok a
  | none => invalid message

/-! ## The artifacts a call writes -/

section Artifacts

variable (ctx : ExperienceContext) (draw : Draw)

/-- The artifact of a recorded problem. -/
def problemArtifact (description : String) (symptomTerms : List String) : ExperienceArtifact :=
  let a := newArtifact ctx draw .taskProgress s!"experience-{draw.taskId}"
    (.problem description symptomTerms)
  { a with
    status := some "open"
    artifactRole := some roleProblem
    summary := some description
    whatFailed := symptomTerms }

/-- The artifact of a recorded attempt. -/
def attemptArtifact (taskId problemId : String) (previousAttemptId : Option String) (ordinal : ℕ)
    (action : String) : ExperienceArtifact :=
  let a := newArtifact ctx draw .runFinish taskId
    (.attempt problemId previousAttemptId ordinal action)
  { a with
    status := some "recorded"
    artifactRole := some roleAttempt
    replyToArtifactId := some (previousAttemptId.getD problemId)
    relationKind := some "attempts_problem"
    summary := some action
    relatedArtifactIds := problemId :: previousAttemptId.toList }

/-- The artifact of a check, of a receipt or an observed one. -/
def checkArtifact (taskId attemptId status summary : String) (event : ExperienceEvent) :
    ExperienceArtifact :=
  let a := newArtifact ctx draw .verification taskId event
  { a with
    status := some status
    artifactRole := some roleCheck
    replyToArtifactId := some attemptId
    relationKind := some "checks_attempt"
    summary := some summary
    verificationStatus := some "recorded_check"
    relatedArtifactIds := [attemptId] }

/-- The artifact of a recorded lesson. -/
def lessonArtifact (taskId : String) (lesson : ConditionalLesson) : ExperienceArtifact :=
  let a := newArtifact ctx draw .decision taskId (.lesson lesson)
  { a with
    status := some "recorded"
    artifactRole := some roleLesson
    replyToArtifactId := some lesson.supportingCheckId
    relationKind := some "learned_from_check"
    summary := some lesson.guidance
    whatWorked := [lesson.guidance]
    relatedArtifactIds := lessonRelatedIds lesson }

/-- The artifact of a recorded correction. -/
def correctionArtifact (taskId problemId supersedesId : String) (replacement : ConditionalLesson) :
    ExperienceArtifact :=
  let a := newArtifact ctx draw .revision taskId (.correction problemId supersedesId replacement)
  { a with
    status := some "recorded"
    artifactRole := some roleCorrection
    replyToArtifactId := some supersedesId
    relationKind := some "supersedes_lesson"
    summary := some replacement.guidance
    whatWorked := [replacement.guidance]
    relatedArtifactIds := sortedIds (lessonRelatedIds replacement ++ [supersedesId]) }

end Artifacts

/-- The current lesson, or the side of a conflict, that a correction names. -/
def ExperienceCase.head? (c : ExperienceCase) (id : String) : Option ExperienceArtifact :=
  (c.currentLessons.find? (·.artifactId == id)).orElse fun _ =>
    if c.lessonConflicts.flatten.contains id then c.events.find? (·.artifactId == id) else none

namespace ExperienceStore

variable (s : ExperienceStore)

/-! ## Reading -/

/-- `require_problem`. -/
def requireProblem (ctx : ExperienceContext) (problemId : String) :
    Except MemdError ExperienceArtifact := do
  let problem ← required (s.getExperience ctx.tenantId problemId)
    s!"problem '{problemId}' does not exist"
  let _ ← requiredEvent problem
  demand problem.isProblem s!"artifact '{problemId}' is not an experience problem"
  ensureProject ctx.projectId problem.projectId
  pure problem

/-- The experience artifacts of a task. -/
def experienceEvents (t : TenantId) (taskId : String) : List ExperienceArtifact :=
  (s.listTaskArtifacts t taskId).filter (·.event.isSome)

/-- `resolve_case`. -/
def resolveCase (t : TenantId) (problemId : String) : Except MemdError ExperienceCase := do
  let problem ← required (s.getExperience t problemId) s!"problem '{problemId}' does not exist"
  let _ ← requiredEvent problem
  demand problem.isProblem s!"artifact '{problemId}' is not an experience problem"
  caseOf problem (s.experienceEvents t problem.taskId)

/-- `load_check_target`: the attempt that is checked. -/
def loadCheckTarget (t : TenantId) (projectId : Option String) (attemptId : String) :
    Except MemdError ExperienceArtifact := do
  let attempt ← required (s.getExperience t attemptId) s!"attempt '{attemptId}' does not exist"
  let _ ← requiredEvent attempt
  demand attempt.isAttempt s!"artifact '{attemptId}' is not an experience attempt"
  ensureProject projectId attempt.projectId
  pure attempt

/-- `validate_lesson`. -/
def validateLesson (ctx : ExperienceContext) (lesson : ConditionalLesson) :
    Except MemdError ExperienceArtifact := do
  validateEmbeddedLesson lesson
  let problem ← s.requireProblem ctx lesson.problemId
  demand (!(lesson.visibility == .project && problem.projectId.isNone))
    "project-visible lessons require an explicit project_id"
  let check ← required (s.getExperience ctx.tenantId lesson.supportingCheckId)
    s!"supporting check '{lesson.supportingCheckId}' does not exist"
  demand (check.taskId == problem.taskId && check.projectId == problem.projectId)
    "supporting check is outside the problem scope"
  validateLessonEvidence check lesson
  ensureCausalTime ctx.observedAtMs check "lesson"
  pure problem

/-- One turn of `validate_conflict_refs`; `seen` are the references so far. -/
def validateConflictRef (ctx : ExperienceContext) (problem : ExperienceArtifact)
    (seen : List String) (conflictId : String) : Except MemdError (List String) := do
  requireText "conflicts_with" conflictId
  demand (!seen.contains conflictId) s!"duplicate conflict reference '{conflictId}'"
  let target ← required (s.getExperience ctx.tenantId conflictId)
    s!"conflicting lesson '{conflictId}' does not exist"
  requireLesson target s!"conflict reference '{conflictId}' is not a lesson or correction"
  demand (target.taskId == problem.taskId && target.projectId == problem.projectId)
    s!"conflict reference '{conflictId}' is outside the problem scope"
  pure (conflictId :: seen)

/-- `validate_conflict_refs`. -/
def validateConflictRefs (ctx : ExperienceContext) (problem : ExperienceArtifact)
    (lesson : ConditionalLesson) : Except MemdError Unit := do
  let _ ← lesson.conflictsWith.foldlM (s.validateConflictRef ctx problem) []
  pure ()

/-! ## Recording -/

/-- `write_artifact`. -/
def writeArtifact (a : ExperienceArtifact) (draw : Draw) :
    Except MemdError (ExperienceArtifact × ExperienceStore) := do
  let s' ← s.addTaskArtifact a draw.projectionIds
  pure (a, s')

/-- `record_problem`. -/
def recordProblem (ctx : ExperienceContext) (draw : Draw) (description : String)
    (symptomTerms : List String) : Except MemdError (ExperienceArtifact × ExperienceStore) := do
  requireText "description" description
  validateTerms symptomTerms
  demand ctx.projectId.isSome "experience problems require an explicit project_id"
  s.writeArtifact (problemArtifact ctx draw description symptomTerms) draw

/-- The ordinal of a new attempt: one, or one more than that of the current attempt, which it
must name. -/
def nextOrdinal (ctx : ExperienceContext) (head : Option ExperienceArtifact)
    (previousAttemptId : Option String) : Except MemdError ℕ :=
  match head with
  -- the first attempt of the problem
  | none => do
    demand previousAttemptId.isNone "the first attempt must not set previous_attempt_id"
    pure 1
  -- the attempt the caller has seen last must be the current one
  | some head => do
    demand (previousAttemptId == some head.artifactId)
      s!"previous_attempt_id must target current attempt '{head.artifactId}'"
    ensureCausalTime ctx.observedAtMs head "attempt"
    let ordinal ← attemptOrdinal head
    demand (decide (ordinal < u32Max)) "attempt ordinal overflow"
    pure (ordinal + 1)

/-- `record_attempt`. -/
def recordAttempt (ctx : ExperienceContext) (draw : Draw) (problemId : String)
    (previousAttemptId : Option String) (action : String) :
    Except MemdError (ExperienceArtifact × ExperienceStore) := do
  requireText "problem_id" problemId
  requireText "action" action
  let problem ← s.requireProblem ctx problemId
  let head ← currentAttempt (s.listTaskArtifacts ctx.tenantId problem.taskId)
  let ordinal ← nextOrdinal ctx head previousAttemptId
  s.writeArtifact (attemptArtifact ctx draw problem.taskId problemId previousAttemptId ordinal action)
    draw

/-- `record_check`. -/
def recordCheck (ctx : ExperienceContext) (draw : Draw) (receipt : CheckReceipt) :
    Except MemdError (ExperienceArtifact × ExperienceStore) := do
  validateReceipt receipt
  let attempt ← s.loadCheckTarget ctx.tenantId ctx.projectId receipt.attemptId
  ensureCausalTime ctx.observedAtMs attempt "check"
  s.writeArtifact (checkArtifact ctx draw attempt.taskId receipt.attemptId receipt.status
    s!"Recorded check for attempt {receipt.attemptId}: {receipt.status}" (.check receipt)) draw

/-- `record_observed_check`. -/
def recordObservedCheck (ctx : ExperienceContext) (draw : Draw) (check : ObservedCheck) :
    Except MemdError (ExperienceArtifact × ExperienceStore) := do
  validateObservedCheck check
  let attempt ← s.loadCheckTarget ctx.tenantId ctx.projectId check.attemptId
  ensureCausalTime ctx.observedAtMs attempt "check"
  s.writeArtifact (checkArtifact ctx draw attempt.taskId check.attemptId observedCheckStatus
    s!"Observed check for attempt {check.attemptId}: {check.result}" (.observedCheck check)) draw

/-- `record_lesson`. -/
def recordLesson (ctx : ExperienceContext) (draw : Draw) (lesson : ConditionalLesson) :
    Except MemdError (ExperienceArtifact × ExperienceStore) := do
  let problem ← s.validateLesson ctx lesson
  s.validateConflictRefs ctx problem lesson
  s.writeArtifact (lessonArtifact ctx draw problem.taskId lesson) draw

/-- `record_correction`. -/
def recordCorrection (ctx : ExperienceContext) (draw : Draw) (problemId supersedesId : String)
    (replacement : ConditionalLesson) :
    Except MemdError (ExperienceArtifact × ExperienceStore) := do
  -- the replacement passes every check of a new lesson first
  requireText "supersedes_id" supersedesId
  demand (replacement.problemId == problemId)
    "correction problem_id must match replacement.problem_id"
  let problem ← s.validateLesson ctx replacement
  s.validateConflictRefs ctx problem replacement
  -- only a current lesson can be corrected
  let c ← s.resolveCase ctx.tenantId problemId
  let current ← required (ExperienceCase.head? c supersedesId)
    s!"supersedes_id '{supersedesId}' is not a current lesson head"
  ensureCausalTime ctx.observedAtMs current "correction"
  s.writeArtifact (correctionArtifact ctx draw problem.taskId problemId supersedesId replacement) draw

end ExperienceStore

/-! ## Calls -/

/-- `RecordEvent`. -/
inductive RecordEvent
  | problem (description : String) (symptomTerms : List String)
  | attempt (problemId : String) (previousAttemptId : Option String) (action : String)
  | lesson (lesson : ConditionalLesson)
  | correction (problemId supersedesId : String) (replacement : ConditionalLesson)
  deriving DecidableEq, Repr

namespace ExperienceStore

/-- `record`. -/
def record (s : ExperienceStore) (ctx : ExperienceContext) (draw : Draw) :
    RecordEvent → Except MemdError (ExperienceArtifact × ExperienceStore)
  | .problem description symptomTerms => s.recordProblem ctx draw description symptomTerms
  | .attempt problemId previousAttemptId action =>
    s.recordAttempt ctx draw problemId previousAttemptId action
  | .lesson lesson => s.recordLesson ctx draw lesson
  | .correction problemId supersedesId replacement =>
    s.recordCorrection ctx draw problemId supersedesId replacement

/-- `validate_check_target`: only the current attempt of a problem can be checked next. -/
def validateCheckTarget (s : ExperienceStore) (t : TenantId) (projectId : Option String)
    (attemptId : String) : Except MemdError ExperienceArtifact := do
  let attempt ← s.loadCheckTarget t projectId attemptId
  let head ← currentAttempt (s.listTaskArtifacts t attempt.taskId)
  let problemId := (attempt.event.bind problemIdOf).getD ""
  let current ← required head s!"problem '{problemId}' has no current attempt"
  demand (current.artifactId == attemptId)
    s!"attempt '{attemptId}' is not the current attempt; current attempt is '{current.artifactId}'"
  pure attempt

end ExperienceStore

end Experience
