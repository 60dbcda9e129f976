/-
# The handlers that write task artifacts

The six `task.*` handlers that write and `artifact.create` (`ops/task.rs`), up to the call of
`add_task_artifact`: what they check, the artifact they build from their parameters, how they
finalize and promote it, the projections they store with it and the digests they mark dirty
once it is stored.

A handler that succeeds up to there returns an `ArtifactWrite`; the store calls are in
`TrustBoundary` and `DigestRefresh`.  What a caller sends as a JSON value is its text.

* `finalizeArtifactForStorage`, `promoteIfCountersigned` — the promotion state of an artifact;
* `Countersigned` — the rules of the promotion, on the artifact and the database.
-/
import Memd.Artifacts
import Memd.SearchSources

open PersistentStore (TaskProjection)
open TaskArtifact Text

/-! ## The environment of a call -/

/-- What lies outside the modelled code: the functions of the store, `{:.3}` of an `f32`, and
the JSON text of a metric given by name and value. -/
structure OpsExternals extends Externals where
  fixed3 : F32 → String
  metricJson : String → String → String

/-- What a call finds: the configuration, the ids and the time it draws, and the error of
`ensure_tenant_dir`. -/
structure CallEnv where
  cfg : SearchConfig := {}
  stamp : Stamp
  tenantDirError : Option MemdError := none

/-- The digest families (`DIGEST_ROLE_*`). -/
inductive DigestRole
  | projectBrief | taskResume | failureLibrary | decisionLibrary | evidenceLibrary
  | highlightLibrary
  deriving DecidableEq, Repr

/-- The tag value of a digest's role. -/
def DigestRole.asStr : DigestRole → String
  | .projectBrief => "project_brief"
  | .taskResume => "task_resume"
  | .failureLibrary => "failure_library"
  | .decisionLibrary => "decision_library"
  | .evidenceLibrary => "evidence_library"
  | .highlightLibrary => "highlight_library"

/-- `DigestDirtyKey`. -/
structure DigestDirtyKey where
  tenantId : TenantId
  projectId : Option String
  role : DigestRole
  deriving DecidableEq, Repr

/-- What a handler does once its checks have passed: the artifact and the projections it
hands to `add_task_artifact`, and the keys it marks dirty when that has succeeded. -/
structure ArtifactWrite where
  artifact : TaskArtifact
  projections : List TaskProjection
  marks : List DigestDirtyKey := []
  deriving DecidableEq, Repr

/-! ## Checks -/

/-- `validate_identifier`. -/
def validateIdentifier (name value : String) : Except OperationError Unit :=
  if trim value.toList = [] then .error (.invalidParams s!"{name} must not be empty") else .ok ()

/-- `validate_confidence`: a number between 0 and 1, by the bits of both. -/
def validateConfidence (confidence : F32) : Except OperationError Unit :=
  if confidence.isNan = false ∧ F32.rank 0#32 ≤ F32.rank confidence
      ∧ F32.rank confidence ≤ F32.rank 0x3F800000#32 then .ok ()
  else .error (.invalidParams "confidence must be between 0.0 and 1.0")

/-- A check of an optional value. -/
def whenGiven {α : Type} (value : Option α) (check : α → Except OperationError Unit) :
    Except OperationError Unit :=
  match value with
  | some v => check v
  | none => .ok ()

/-- `dataset_params_to_refs`. -/
def datasetParamsToRefs (params : List DatasetRef) : Except OperationError (List DatasetRef) :=
  params.mapM fun d => do
    validateIdentifier "dataset_refs[].name" d.name
    pure d

/-- `entity_params_to_refs`. -/
def entityParamsToRefs (params : List EntityRef) : Except OperationError (List EntityRef) :=
  params.mapM fun e => do
    validateIdentifier "entity_refs[].name" e.name
    validateIdentifier "entity_refs[].entity_type" e.entityType
    pure e

/-- `contributor_params_to_refs`. -/
def contributorParamsToRefs (params : List ContributorRef) :
    Except OperationError (List ContributorRef) :=
  params.mapM fun c => do
    validateIdentifier "contributors[].contributor_id" c.contributorId
    pure c

/-- `resolved_agent_id`: the trimmed id when it is not blank. -/
def resolvedAgentId (explicit : Option String) : Option String :=
  (explicit.map fun id => String.ofList (trim id.toList)).filter (· ≠ "")

/-- `ensure_tenant_dir`. -/
def CallEnv.ensureTenantDir (env : CallEnv) : Except OperationError Unit :=
  match env.tenantDirError with
  | none => .ok ()
  | some e => tool (.error e)

/-! ## Finalizing and promoting -/

/-- `finalize_artifact_for_storage`. -/
def finalizeArtifactForStorage (a : TaskArtifact) : TaskArtifact :=
  { a with promotionState := a.deriveArtifactPromotionState }

/-- The kinds that can countersign. -/
def ArtifactKind.countersigns : ArtifactKind → Bool
  | .review | .revision | .verification | .decision => true
  | _ => false

/-- The trimmed agent id, when it is not blank. -/
def signer (a : TaskArtifact) : Option String :=
  resolvedAgentId a.agentId

/-- `promote_if_countersigned`. -/
def promoteIfCountersigned (db : Db) (a : TaskArtifact) : TaskArtifact :=
  -- rule 1: a review, a revision, a verification or a decision; rule 4: it supports the claim
  if !a.artifactKind.countersigns then a
  else if a.supportsClaim ≠ some true then a
  else
    match signer a, a.replyToArtifactId with
    | some mine, some replyTo =>
      match db.getTaskArtifact a.tenantId replyTo with
      | none => a
      | some parent =>
        -- rule 2: a digest is no anchor of trust
        if parent.artifactKind = .digest then a
        else
          match signer parent with
          -- rule 3: another writer than the one who signs now
          | some other => if other ≠ mine then { a with promotionState := .verified } else a
          | none => a
    | _, _ => a

/-- The artifact is of a countersigning kind, supports the claim, and replies to an artifact
of its tenant that is no digest; both name an agent, and not the same one. -/
def Countersigned (db : Db) (a : TaskArtifact) : Prop :=
  a.artifactKind.countersigns = true ∧ a.supportsClaim = some true ∧
    ∃ mine replyTo parent other, signer a = some mine ∧ a.replyToArtifactId = some replyTo ∧
      db.getTaskArtifact a.tenantId replyTo = some parent ∧ parent.artifactKind ≠ .digest ∧
      signer parent = some other ∧ other ≠ mine

/-- Promotion is what the rules say and changes nothing else. -/
theorem promoteIfCountersigned_of (db : Db) (a : TaskArtifact) :
    (Countersigned db a ∧ promoteIfCountersigned db a = { a with promotionState := .verified }) ∨
      (¬ Countersigned db a ∧ promoteIfCountersigned db a = a) := by
  unfold promoteIfCountersigned
  by_cases hkind : a.artifactKind.countersigns
  swap
  · exact .inr ⟨fun h => hkind h.1, by simp [hkind]⟩
  by_cases hsup : a.supportsClaim = some true
  swap
  · exact .inr ⟨fun h => hsup h.2.1, by simp [hkind, hsup]⟩
  simp only [hkind, hsup, Bool.not_true, Bool.false_eq_true, if_false, ne_eq, not_true_eq_false]
  cases hmine : signer a with
  | none => exact .inr ⟨fun ⟨_, _, _, _, _, _, h, _⟩ => by simp [hmine] at h, rfl⟩
  | some mine =>
  cases hreply : a.replyToArtifactId with
  | none => exact .inr ⟨fun ⟨_, _, _, _, _, _, _, h, _⟩ => by simp [hreply] at h, rfl⟩
  | some replyTo =>
  cases hparent : db.getTaskArtifact a.tenantId replyTo with
  | none =>
    refine .inr ⟨?_, by simp [hparent]⟩
    rintro ⟨_, _, _, replyTo', _, _, _, h, h', _⟩
    obtain rfl : replyTo = replyTo' := Option.some.inj (hreply.symm.trans h)
    simp [hparent] at h'
  | some parent =>
  by_cases hdigest : parent.artifactKind = .digest
  · refine .inr ⟨?_, by simp [hparent, hdigest]⟩
    rintro ⟨_, _, _, replyTo', _, _, _, h, h', hne, _⟩
    obtain rfl : replyTo = replyTo' := Option.some.inj (hreply.symm.trans h)
    obtain rfl := Option.some.inj (hparent.symm.trans h')
    exact hne hdigest
  cases hother : signer parent with
  | none =>
    refine .inr ⟨?_, by simp [hparent, hdigest, hother]⟩
    rintro ⟨_, _, _, replyTo', _, _, _, h, h', _, h'', _⟩
    obtain rfl : replyTo = replyTo' := Option.some.inj (hreply.symm.trans h)
    obtain rfl := Option.some.inj (hparent.symm.trans h')
    simp [hother] at h''
  | some other =>
  by_cases hsame : other = mine
  · refine .inr ⟨?_, by simp [hparent, hdigest, hother, hsame]⟩
    rintro ⟨_, _, mine', replyTo', _, _, hm, h, h', _, h'', hne⟩
    obtain rfl : replyTo = replyTo' := Option.some.inj (hreply.symm.trans h)
    obtain rfl := Option.some.inj (hparent.symm.trans h')
    obtain rfl := Option.some.inj (hother.symm.trans h'')
    obtain rfl := Option.some.inj (hmine.symm.trans hm)
    exact hne hsame
  · exact .inl ⟨⟨hkind, hsup, mine, replyTo, parent, other, hmine, hreply, hparent, hdigest,
      hother, hsame⟩, by simp [hparent, hdigest, hother, hsame]⟩

instance (db : Db) (a : TaskArtifact) : Decidable (Countersigned db a) :=
  decidable_of_iff (promoteIfCountersigned db { a with promotionState := .raw } ≠
      { a with promotionState := .raw }) <| by
    rcases promoteIfCountersigned_of db { a with promotionState := .raw } with
      ⟨hsigned, hp⟩ | ⟨hnot, hp⟩
    · rw [hp]
      exact iff_of_true (fun h => absurd (congrArg TaskArtifact.promotionState h)
        (show PromotionState.verified ≠ .raw by decide)) hsigned
    · rw [hp]
      exact iff_of_false (fun h => h rfl) hnot

/-! ## Marking digests dirty -/

/-- `mark_dirty` for several roles of one scope. -/
def markRoles (t : TenantId) (projectId : Option String) (roles : List DigestRole) :
    List DigestDirtyKey :=
  roles.map fun role => ⟨t, projectId, role⟩

/-- `mark_evidence_related_digests_dirty`. -/
def markEvidenceRelatedDigestsDirty (t : TenantId) (projectId : Option String) :=
  markRoles t projectId [.evidenceLibrary, .highlightLibrary, .projectBrief]

/-- `mark_decision_related_digests_dirty`. -/
def markDecisionRelatedDigestsDirty (t : TenantId) (projectId : Option String) :=
  markRoles t projectId [.decisionLibrary, .highlightLibrary, .projectBrief]

/-- `mark_task_finish_digests_dirty`. -/
def markTaskFinishDigestsDirty (t : TenantId) (projectId : Option String) :=
  markRoles t projectId
    [.failureLibrary, .decisionLibrary, .evidenceLibrary, .highlightLibrary, .projectBrief]

/-- What `artifact.create` marks. -/
def markCreatedDigestsDirty (a : TaskArtifact) : List DigestDirtyKey :=
  (match a.artifactKind with
    | .decision | .review | .verification =>
      markDecisionRelatedDigestsDirty a.tenantId a.projectId
    | .evidence => markEvidenceRelatedDigestsDirty a.tenantId a.projectId
    | .revision => markRoles a.tenantId a.projectId [.highlightLibrary, .projectBrief]
    | _ => [])
  ++ if a.validation ≠ [] ∧ a.artifactKind ≠ .evidence then
      markRoles a.tenantId a.projectId [.evidenceLibrary] else []

/-! ## The `task.*` handlers -/

/-- The parameters every handler takes. -/
structure CommonParams where
  tenantId : String := ""
  projectId : Option String := none
  agentId : Option String := none
  sessionId : Option String := none
  datasetRefs : List DatasetRef := []
  entityRefs : List EntityRef := []
  provenance : Option TaskProvenance := none
  deriving DecidableEq, Repr

/-- The assignments the `task.*` handlers share; `thread_id` is the task. -/
def CommonParams.fill (p : CommonParams) (datasetRefs : List DatasetRef)
    (entityRefs : List EntityRef) (a : TaskArtifact) : TaskArtifact :=
  let provenance := p.provenance.getD {}
  { a with
    threadId := some a.taskId
    projectId := p.projectId
    agentId := resolvedAgentId p.agentId
    sessionId := p.sessionId
    datasetRefs := datasetRefs
    entityRefs := entityRefs
    provenance := provenance
    toolName := provenance.toolName
    toolVersion := provenance.toolVersion }

/-- The references of the parameters, checked. -/
def CommonParams.refs (p : CommonParams) : Except OperationError (List DatasetRef × List EntityRef) :=
  do
    let datasetRefs ← datasetParamsToRefs p.datasetRefs
    let entityRefs ← entityParamsToRefs p.entityRefs
    pure (datasetRefs, entityRefs)

/-- `TaskStartParams`. -/
structure TaskStartParams extends CommonParams where
  parentTaskId : Option String := none
  goal : String
  motivation : String := ""
  hypothesis : String := ""
  scientificQuestion : String := ""
  expectedOutputs : List String := []
  deriving DecidableEq, Repr

/-- `handle_task_start`. -/
def handleTaskStart (x : OpsExternals) (env : CallEnv) (p : TaskStartParams) :
    Except OperationError ArtifactWrite := do
  let t ← resolveTenantId env.cfg p.tenantId
  validateIdentifier "goal" p.goal
  whenGiven p.parentTaskId (validateIdentifier "parent_task_id")
  env.ensureTenantDir
  let (datasetRefs, entityRefs) ← p.refs
  let a := finalizeArtifactForStorage
    { p.fill datasetRefs entityRefs (newTaskStart env.stamp t) with
      parentTaskId := p.parentTaskId
      goal := some p.goal
      motivation := some p.motivation
      hypothesis := some p.hypothesis
      scientificQuestion := some p.scientificQuestion
      expectedOutputs := p.expectedOutputs }
  pure { artifact := a, projections := buildTaskProjections x.fixed3 a }

/-- `TaskFinishParams`. -/
structure TaskFinishParams extends CommonParams where
  taskId : String
  status : Option String := none
  goal : Option String := none
  scientificQuestion : Option String := none
  whatWorked : List String := []
  whatFailed : List String := []
  validation : List String := []
  uncertainty : List String := []
  followups : List String := []
  confidence : Option F32 := none
  deriving DecidableEq, Repr

/-- `handle_task_finish`. -/
def handleTaskFinish (x : OpsExternals) (env : CallEnv) (p : TaskFinishParams) :
    Except OperationError ArtifactWrite := do
  let t ← resolveTenantId env.cfg p.tenantId
  validateIdentifier "task_id" p.taskId
  whenGiven p.confidence validateConfidence
  env.ensureTenantDir
  let (datasetRefs, entityRefs) ← p.refs
  let a := finalizeArtifactForStorage
    { p.fill datasetRefs entityRefs (newTaskFinish env.stamp t p.taskId) with
      status := some (p.status.getD "completed")
      goal := p.goal
      scientificQuestion := p.scientificQuestion
      whatWorked := p.whatWorked
      whatFailed := p.whatFailed
      validation := p.validation
      uncertainty := p.uncertainty
      followups := p.followups
      confidence := p.confidence }
  pure { artifact := a, projections := buildTaskProjections x.fixed3 a,
         marks := markTaskFinishDigestsDirty a.tenantId a.projectId }

/-- `TaskProgressParams`. -/
structure TaskProgressParams extends CommonParams where
  taskId : String
  summary : String
  blockers : List String := []
  failedAttempts : List String := []
  nextStep : String := ""
  deriving DecidableEq, Repr

/-- `handle_task_progress`. -/
def handleTaskProgress (x : OpsExternals) (env : CallEnv) (p : TaskProgressParams) :
    Except OperationError ArtifactWrite := do
  let t ← resolveTenantId env.cfg p.tenantId
  validateIdentifier "task_id" p.taskId
  validateIdentifier "summary" p.summary
  validateIdentifier "next_step" p.nextStep
  env.ensureTenantDir
  let (datasetRefs, entityRefs) ← p.refs
  let a := finalizeArtifactForStorage
    { p.fill datasetRefs entityRefs (newTaskProgress env.stamp t p.taskId) with
      summary := some p.summary
      blockers := p.blockers
      whatFailed := p.failedAttempts
      followups := [p.nextStep] }
  pure { artifact := a, projections := buildTaskProjectionsMinimal x.fixed3 a }

/-- The provenance of a run names the tool of the run where it names none. -/
def withRunTool (toolName toolVersion : Option String) (a : TaskArtifact) : TaskArtifact :=
  { a with
    toolName := toolName
    toolVersion := toolVersion
    provenance :=
      { a.provenance with
        toolName := a.provenance.toolName.or toolName
        toolVersion := a.provenance.toolVersion.or toolVersion } }

/-- `TaskRunStartParams`. -/
structure TaskRunStartParams extends CommonParams where
  taskId : String
  toolName : String
  toolVersion : Option String := none
  command : String := ""
  whyChosen : String := ""
  parameters : String := "null"
  inputs : List String := []
  summary : Option String := none
  deriving DecidableEq, Repr

/-- `handle_task_run_start`. -/
def handleTaskRunStart (x : OpsExternals) (env : CallEnv) (p : TaskRunStartParams) :
    Except OperationError ArtifactWrite := do
  let t ← resolveTenantId env.cfg p.tenantId
  validateIdentifier "task_id" p.taskId
  validateIdentifier "tool_name" p.toolName
  validateIdentifier "command" p.command
  validateIdentifier "why_chosen" p.whyChosen
  if p.inputs = [] then .error (.invalidParams "inputs must not be empty") else .ok ()
  env.ensureTenantDir
  let (datasetRefs, entityRefs) ← p.refs
  let a := finalizeArtifactForStorage (withRunTool (some p.toolName) p.toolVersion
    { p.fill datasetRefs entityRefs (newRunStart env.stamp t p.taskId) with
      summary := p.summary
      command := some p.command
      whyChosen := some p.whyChosen
      parameters := some p.parameters
      inputs := p.inputs })
  pure { artifact := a, projections := buildTaskProjections x.fixed3 a }

/-- `TaskRunFinishParams`. -/
structure TaskRunFinishParams extends CommonParams where
  taskId : String
  status : String
  toolName : Option String := none
  toolVersion : Option String := none
  command : Option String := none
  outputs : List String := []
  metrics : Option String := none
  notes : String := ""
  validation : List String := []
  deriving DecidableEq, Repr

/-- `handle_task_run_finish`. -/
def handleTaskRunFinish (x : OpsExternals) (env : CallEnv) (p : TaskRunFinishParams) :
    Except OperationError ArtifactWrite := do
  let t ← resolveTenantId env.cfg p.tenantId
  validateIdentifier "task_id" p.taskId
  validateIdentifier "status" p.status
  validateIdentifier "notes" p.notes
  env.ensureTenantDir
  let (datasetRefs, entityRefs) ← p.refs
  let a := finalizeArtifactForStorage (withRunTool p.toolName p.toolVersion
    { p.fill datasetRefs entityRefs (newRunFinish env.stamp t p.taskId) with
      status := some p.status
      command := p.command
      outputs := p.outputs
      metrics := p.metrics
      summary := some p.notes
      validation := p.validation })
  pure { artifact := a, projections := buildTaskProjections x.fixed3 a }

/-- `TaskAddEvidenceParams`. -/
structure TaskAddEvidenceParams extends CommonParams where
  taskId : String
  summary : String := ""
  evidenceKind : String
  supportsClaim : Option Bool := none
  metricName : Option String := none
  metricValue : Option String := none
  metrics : Option String := none
  deriving DecidableEq, Repr

/-- The metrics of an evidence: the given object, or one of a name and a value. -/
def TaskAddEvidenceParams.metricsOf (x : OpsExternals) (p : TaskAddEvidenceParams) :
    Option String :=
  match p.metricName, p.metricValue, p.metrics with
  | _, _, some metrics => some metrics
  | some name, some value, none => some (x.metricJson name value)
  | _, _, _ => none

/-- `handle_task_add_evidence`. -/
def handleTaskAddEvidence (x : OpsExternals) (env : CallEnv) (p : TaskAddEvidenceParams) :
    Except OperationError ArtifactWrite := do
  let t ← resolveTenantId env.cfg p.tenantId
  validateIdentifier "task_id" p.taskId
  validateIdentifier "summary" p.summary
  validateIdentifier "evidence_kind" p.evidenceKind
  env.ensureTenantDir
  let (datasetRefs, entityRefs) ← p.refs
  let a := finalizeArtifactForStorage
    { p.fill datasetRefs entityRefs (newEvidence env.stamp t p.taskId) with
      summary := if p.summary = "" then none else some p.summary
      evidenceKind := some p.evidenceKind
      supportsClaim := p.supportsClaim
      metrics := p.metricsOf x }
  pure { artifact := a, projections := buildTaskProjectionsMinimal x.fixed3 a,
         marks := markEvidenceRelatedDigestsDirty t a.projectId }

/-! ## `artifact.create` -/

/-- `ArtifactCreateParams`. -/
structure ArtifactCreateParams extends CommonParams where
  artifactKind : String
  taskId : Option String := none
  parentTaskId : Option String := none
  status : Option String := none
  artifactRole : Option String := none
  challengeId : Option String := none
  threadId : Option String := none
  replyToArtifactId : Option String := none
  relationKind : Option String := none
  goal : Option String := none
  motivation : Option String := none
  hypothesis : Option String := none
  scientificQuestion : Option String := none
  methodSummary : Option String := none
  summary : Option String := none
  content : Option String := none
  evidenceKind : Option String := none
  supportsClaim : Option Bool := none
  blockers : List String := []
  whatWorked : List String := []
  whatFailed : List String := []
  validation : List String := []
  uncertainty : List String := []
  followups : List String := []
  expectedOutputs : List String := []
  relatedArtifactIds : List String := []
  contributors : List ContributorRef := []
  toolName : Option String := none
  toolVersion : Option String := none
  command : Option String := none
  parameters : Option String := none
  inputs : List String := []
  outputs : List String := []
  metrics : Option String := none
  whyChosen : Option String := none
  confidence : Option F32 := none
  requestedAction : Option String := none
  verificationStatus : Option String := none
  computeBudget : Option String := none
  costActual : Option String := none
  dataAccessLevel : Option String := none
  policyTags : List String := []
  allowedTools : List String := []
  approvalState : Option String := none
  deriving DecidableEq, Repr

/-- `default_status_for_artifact_kind`. -/
def defaultStatusForArtifactKind : ArtifactKind → String
  | .taskStart | .taskProgress => "in_progress"
  | .runStart => "started"
  | .runFinish | .taskFinish => "completed"
  | .digest => "generated"
  | .wikiPage => "authored"
  | _ => "recorded"

/-- `WIKI_PAGE_MAX_SUMMARY_BYTES`. -/
def wikiPageMaxSummaryBytes : ℕ := 500

/-- `WIKI_PAGE_MAX_CONTENT_BYTES`. -/
def wikiPageMaxContentBytes : ℕ := 256 * 1024

/-- A text that is given must fit a limit. -/
def checkBytes (field : String) (limit : ℕ) (value : Option String) : Except OperationError Unit :=
  whenGiven value fun v =>
    if limit < v.utf8ByteSize then
      .error (.invalidParams s!"artifact.create: `wiki_page.{field}` is {v.utf8ByteSize} bytes; maximum is {limit}")
    else .ok ()

/-- `validate_wiki_page_params`. -/
def validateWikiPageParams (p : ArtifactCreateParams) : Except OperationError Unit := do
  if p.relatedArtifactIds = [] then
    .error (.invalidParams "artifact.create: `wiki_page` requires a non-empty `related_artifact_ids` (grounding refs to canonical artifacts the page cites)")
  else .ok ()
  match p.relatedArtifactIds.findIdx? fun id => trim id.toList = [] with
  | some idx =>
    .error (.invalidParams s!"artifact.create: `wiki_page.related_artifact_ids[{idx}]` must not be empty")
  | none => .ok ()
  checkBytes "summary" wikiPageMaxSummaryBytes p.summary
  match p.artifactRole with
  | some role =>
    if role = "concept" ∨ role = "entity" then .ok ()
    else .error (.invalidParams s!"artifact.create: `wiki_page.artifact_role` must be \"concept\" or \"entity\"; got {role.quote}")
  | none =>
    .error (.invalidParams "artifact.create: `wiki_page` requires `artifact_role` = \"concept\" or \"entity\"")
  checkBytes "content" wikiPageMaxContentBytes p.content

/-- The error when a kind that needs a task has none. -/
def missingTaskId : ArtifactKind → String
  | .review => "task_id is required for review artifacts"
  | .revision => "task_id is required for revision artifacts"
  | .verification => "task_id is required for verification artifacts"
  | .decision => "task_id is required for decision artifacts"
  | .wikiPage => "task_id is required for wiki_page artifacts"
  | _ => "task_id is required for non-task_start artifacts"

/-- The task of a kind that needs one. -/
def requireTaskId (kind : ArtifactKind) (taskId : Option String) : Except OperationError String :=
  match taskId with
  | some id => .ok id
  | none => .error (.invalidParams (missingTaskId kind))

/-- The constructor of a kind.  A `task_start` takes its own task id unless the caller gives
one, the other kinds the caller's or their parent's. -/
def newOfKind (stamp : Stamp) (kind : ArtifactKind) (t : TenantId) (p : ArtifactCreateParams)
    (taskId : Option String) : Except OperationError TaskArtifact :=
  match kind with
  | .taskStart => .ok { newTaskStart stamp t with taskId := p.taskId.getD stamp.taskId }
  | .taskProgress => (requireTaskId kind taskId).map (newTaskProgress stamp t)
  | .runStart => (requireTaskId kind taskId).map (newRunStart stamp t)
  | .runFinish => (requireTaskId kind taskId).map (newRunFinish stamp t)
  | .evidence => (requireTaskId kind taskId).map (newEvidence stamp t)
  | .review => (requireTaskId kind taskId).map (newReview stamp t)
  | .revision => (requireTaskId kind taskId).map (newRevision stamp t)
  | .verification => (requireTaskId kind taskId).map (newVerification stamp t)
  | .decision => (requireTaskId kind taskId).map (newDecision stamp t)
  | .taskFinish => (requireTaskId kind taskId).map (newTaskFinish stamp t)
  | .wikiPage => (requireTaskId kind taskId).map (newWikiPage stamp t)
  | .digest =>
    match p.artifactRole with
    | none => .error (.invalidParams "artifact_role is required for digest artifacts")
    | some role =>
      let identity := stableDigestIdentity role ((p.projectId.or taskId).getD "tenant")
      .ok { newDigest stamp t identity.2.1 identity.2.2 role with artifactId := identity.1 }

/-- `content` is only accepted on a `wiki_page`. -/
def checkContent (kind : ArtifactKind) (content : Option String) : Except OperationError Unit :=
  whenGiven content fun c =>
    if c ≠ "" ∧ kind ≠ .wikiPage then
      .error (.invalidParams s!"artifact.create: `content` is only accepted on `wiki_page` artifacts; got artifact_kind={kind.asStr}")
    else .ok ()

/-- The relation a reply has by default. -/
def defaultRelationKind : ArtifactKind → String
  | .review => "reviews"
  | .revision => "revises"
  | .verification => "verifies"
  | _ => "reply_to"

/-- The assignments of `artifact.create` and `apply_common_artifact_fields`: what the caller
gives, and for project, thread and challenge what the parent has. -/
def ArtifactCreateParams.fill (p : ArtifactCreateParams) (parent : Option TaskArtifact)
    (datasetRefs : List DatasetRef) (entityRefs : List EntityRef)
    (contributors : List ContributorRef) (a : TaskArtifact) : TaskArtifact :=
  let provenance := p.provenance.getD {}
  { a with
    projectId := p.projectId.or (parent.bind (·.projectId))
    parentTaskId := p.parentTaskId
    agentId := resolvedAgentId p.agentId
    sessionId := p.sessionId
    status := some (p.status.getD (defaultStatusForArtifactKind a.artifactKind))
    artifactRole := p.artifactRole
    challengeId := p.challengeId.or (parent.bind (·.challengeId))
    threadId := (p.threadId.or (parent.map (·.threadKey))).or (some a.taskId)
    replyToArtifactId := p.replyToArtifactId
    relationKind := p.relationKind.or
      (p.replyToArtifactId.map fun _ => defaultRelationKind a.artifactKind)
    goal := p.goal
    motivation := p.motivation
    hypothesis := p.hypothesis
    scientificQuestion := p.scientificQuestion
    methodSummary := p.methodSummary
    summary := p.summary
    content := p.content
    evidenceKind := p.evidenceKind
    supportsClaim := p.supportsClaim
    blockers := p.blockers
    whatWorked := p.whatWorked
    whatFailed := p.whatFailed
    validation := p.validation
    uncertainty := p.uncertainty
    followups := p.followups
    expectedOutputs := p.expectedOutputs
    relatedArtifactIds := p.relatedArtifactIds
    contributors := contributors
    datasetRefs := datasetRefs
    entityRefs := entityRefs
    toolName := provenance.toolName.or p.toolName
    toolVersion := provenance.toolVersion.or p.toolVersion
    command := p.command
    parameters := p.parameters
    inputs := p.inputs
    outputs := p.outputs
    metrics := p.metrics
    whyChosen := p.whyChosen
    confidence := p.confidence
    requestedAction := p.requestedAction
    verificationStatus := p.verificationStatus
    computeBudget := p.computeBudget
    costActual := p.costActual
    dataAccessLevel := p.dataAccessLevel
    policyTags := p.policyTags
    allowedTools := p.allowedTools
    approvalState := p.approvalState
    provenance := provenance }

/-- The digest kind is refused. -/
def rejectDigest (kind : ArtifactKind) : Except OperationError Unit :=
  if kind = .digest then
    .error (.invalidParams "artifact.create: digests are server-generated; use memory.compact to refresh digest artifacts")
  else .ok ()

/-- The artifact `artifact.create` builds, before it is finalized. -/
def buildCreated (env : CallEnv) (db : Db) (p : ArtifactCreateParams) :
    Except OperationError TaskArtifact := do
  let t ← resolveTenantId env.cfg p.tenantId
  let kind ← (ArtifactKind.fromStr p.artifactKind).mapError .invalidParams
  rejectDigest kind
  whenGiven p.confidence validateConfidence
  whenGiven p.replyToArtifactId (validateIdentifier "reply_to_artifact_id")
  env.ensureTenantDir
  let parent := p.replyToArtifactId.bind (db.getTaskArtifact t)
  whenGiven p.taskId (validateIdentifier "task_id")
  let a ← newOfKind env.stamp kind t p (p.taskId.or (parent.map (·.taskId)))
  checkContent kind p.content
  if kind = .wikiPage then validateWikiPageParams p else .ok ()
  let (datasetRefs, entityRefs) ← p.refs
  let contributors ← contributorParamsToRefs p.contributors
  pure (p.fill parent datasetRefs entityRefs contributors a)

/-- `handle_artifact_create`. -/
def handleArtifactCreate (x : OpsExternals) (env : CallEnv) (db : Db) (p : ArtifactCreateParams) :
    Except OperationError ArtifactWrite := do
  let built ← buildCreated env db p
  let a := promoteIfCountersigned db (finalizeArtifactForStorage built)
  pure { artifact := a, projections := buildTaskProjections x.fixed3 a,
         marks := markCreatedDigestsDirty a }
