/-
# Digest artifacts

The views and the digests of `task_memory/digests.rs`, and the reads of `ops/mod.rs` they are
built from: the resume of a task, the brief of a project, and the four libraries of a project
or of a whole tenant.

`generateDigest` is what `ensure_*_digest` builds before it hands it to
`persist_digest_artifact`: a function of the tables, the configuration and the `Stamp` of the
constructor.  The tenants a project reaches are those of `project_aliases`; the fallback to
all tenants is off.

A `BTreeSet` and a `BTreeMap` of strings are lists in ascending order, and the `f32` arithmetic
of `highlight_score` and `highlight_confidence` is a function of the aggregate.  Left out are the
related projects of a brief, which no digest is built from.
-/
import Memd.TaskHandlers
import Mathlib.Data.List.Sort

open TaskArtifact Text

/-! ## Small functions -/

/-- `dedupe_keep_order`: trimmed, without blanks, each text once. -/
def dedupeKeepOrder (values : List String) : List String :=
  values.foldl (fun out value =>
    let trimmed := String.ofList (trim value.toList)
    if trimmed = "" ∨ trimmed ∈ out then out else out ++ [trimmed]) []

/-- The order in which `max_promotion` compares states. -/
def PromotionState.rank : PromotionState → ℕ
  | .raw => 0
  | .summarized => 1
  | .canonical => 2
  | .verified => 3

/-- `max_promotion`. -/
def maxPromotion (promotions : List PromotionState) : PromotionState :=
  promotions.foldl (fun best p => if best.rank < p.rank then p else best) .raw

/-- `BTreeSet::insert`. -/
def setInsert (x : String) (l : List String) : List String :=
  if x ∈ l then l else l.orderedInsert (· ≤ ·) x

/-- A `BTreeSet` with the given elements. -/
def sortedSet (l : List String) : List String :=
  l.foldl (fun acc x => setInsert x acc) []

/-- The newest first, as `sort_by_key(Reverse(timestamp_created))`. -/
def newestFirst {α : Type} (time : α → ℤ) (l : List α) : List α :=
  l.insertionSort fun a b => time b ≤ time a

/-! ## The resume of a task -/

/-- `RunDigestItem`. -/
structure RunDigestItem where
  artifactId : String
  toolName : Option String
  status : Option String
  command : Option String
  timestampCreated : ℤ
  deriving DecidableEq, Repr

/-- `TaskResumeView`. -/
structure TaskResumeView where
  task : TaskRow
  latestSummary : Option String
  blockers : List String
  whatWorked : List String
  whatFailed : List String
  validation : List String
  followups : List String
  recentRuns : List RunDigestItem
  sourceArtifactIds : List String
  promotionState : PromotionState
  deriving DecidableEq, Repr

/-- The order of the artifacts in a resume: later observed, later created, greater id first. -/
def resumeBefore (a b : TaskArtifact) : Prop :=
  let ka := a.timestampObserved.getD a.timestampCreated
  let kb := b.timestampObserved.getD b.timestampCreated
  kb < ka ∨ kb = ka ∧ (b.timestampCreated < a.timestampCreated ∨
    b.timestampCreated = a.timestampCreated ∧ b.artifactId ≤ a.artifactId)

instance : DecidableRel resumeBefore := fun _ _ => inferInstanceAs (Decidable (_ ∨ _))

/-- The artifact that tells the state of a task. -/
def isStateArtifact (a : TaskArtifact) : Bool :=
  (match a.artifactKind with
    | .taskStart | .taskProgress | .taskFinish => true
    | _ => false) && a.experience.isNone

/-- `build_task_resume_view`. -/
def buildTaskResumeView (task : TaskRow) (artifacts : List TaskArtifact) : TaskResumeView :=
  let sorted := artifacts.insertionSort resumeBefore
  -- the newest artifact with a state says where the task stands
  let currentState := sorted.find? isStateArtifact
  let task := match currentState with
    | none => task
    | some state =>
      { task with
        status := state.status.or task.status
        finishedAtMs := if state.artifactKind = .taskFinish
          then some (state.timestampObserved.getD state.timestampCreated) else none }
  { task := task
    latestSummary := sorted.findSome? (·.eventSummary)
    blockers := (currentState.map fun a => dedupeKeepOrder a.blockers).getD []
    whatWorked := dedupeKeepOrder (sorted.flatMap (·.whatWorked))
    whatFailed := dedupeKeepOrder (sorted.flatMap (·.whatFailed))
    validation := dedupeKeepOrder (sorted.flatMap (·.validation))
    followups := (currentState.map fun a => dedupeKeepOrder a.followups).getD []
    -- the five newest runs
    recentRuns := ((sorted.filter fun a =>
        a.artifactKind = .runStart ∨ a.artifactKind = .runFinish).take 5).map fun a =>
      ⟨a.artifactId, a.toolName, a.status, a.command, a.timestampCreated⟩
    sourceArtifactIds := sorted.map (·.artifactId)
    promotionState := maxPromotion (sorted.map (·.promotionState)) }

/-! ## The items of the libraries -/

/-- What failure, decision and evidence items share. -/
structure ViewItem where
  artifactId : String
  taskId : String
  projectId : Option String
  summary : String
  promotionState : PromotionState
  timestampCreated : ℤ
  deriving DecidableEq, Repr

/-- `DecisionViewItem`. -/
structure DecisionViewItem extends ViewItem where
  explicit : Bool
  deriving DecidableEq, Repr

/-- `EvidenceViewItem`. -/
structure EvidenceViewItem extends ViewItem where
  supportsClaim : Option Bool
  deriving DecidableEq, Repr

/-- The item of an artifact with a summary. -/
def viewItem (a : TaskArtifact) (summary : String) : ViewItem :=
  ⟨a.artifactId, a.taskId, a.projectId, summary, a.promotionState, a.timestampCreated⟩

/-- The failure an artifact reports. -/
def failureOf (a : TaskArtifact) : Option ViewItem :=
  let summary := "; ".intercalate (dedupeKeepOrder (a.whatFailed ++ a.blockers))
  if summary = "" then none else some (viewItem a summary)

/-- `infer_failure_items`. -/
def inferFailureItems (artifacts : List TaskArtifact) : List ViewItem :=
  newestFirst (·.timestampCreated) (artifacts.filterMap failureOf)

/-- A labelled text for a list that is not empty. -/
def labelled (label : String) (items : List String) : List String :=
  if items = [] then [] else [label ++ "; ".intercalate items]

/-- The decision an artifact records or implies. -/
def decisionOf (a : TaskArtifact) : Option DecisionViewItem :=
  match a.artifactKind with
  | .decision =>
    some { viewItem a (a.eventSummary.getD "Decision recorded") with explicit := true }
  | .taskFinish | .verification | .review =>
    let pieces := a.summary.toList ++ labelled "Worked: " a.whatWorked
      ++ labelled "Validation: " a.validation
    if pieces = [] then none
    else some { viewItem a (" ".intercalate pieces) with explicit := false }
  | _ => none

/-- Explicit decisions first, then the newest. -/
def decisionBefore (a b : DecisionViewItem) : Prop :=
  a.explicit = true ∧ b.explicit = false ∨
    a.explicit = b.explicit ∧ b.timestampCreated ≤ a.timestampCreated

instance : DecidableRel decisionBefore := fun _ _ => inferInstanceAs (Decidable (_ ∨ _))

/-- `infer_decision_items`. -/
def inferDecisionItems (artifacts : List TaskArtifact) : List DecisionViewItem :=
  (artifacts.filterMap decisionOf).insertionSort decisionBefore

/-- The evidence an artifact gives. -/
def evidenceOf (a : TaskArtifact) : Option EvidenceViewItem :=
  if a.artifactKind = .evidence then
    some { viewItem a ((a.summary.or a.eventSummary).getD "Evidence recorded") with
      supportsClaim := a.supportsClaim }
  else if a.validation ≠ [] then
    some { viewItem a ("; ".intercalate a.validation) with supportsClaim := none }
  else none

/-- `infer_evidence_items`. -/
def inferEvidenceItems (artifacts : List TaskArtifact) : List EvidenceViewItem :=
  newestFirst (·.timestampCreated) (artifacts.filterMap evidenceOf)

/-! ## Highlights -/

/-- The categories of highlights. -/
inductive HighlightCategory
  | decision | tactic | warning
  deriving DecidableEq, Repr

/-- The name of a category. -/
def HighlightCategory.asStr : HighlightCategory → String
  | .decision => "decision"
  | .tactic => "tactic"
  | .warning => "warning"

/-- `HighlightAggregate`. -/
structure HighlightAggregate where
  artifactId : String
  taskId : String
  projectId : Option String
  summary : String
  category : HighlightCategory
  supportingArtifactIds : List String := []
  taskIds : List String := []
  projectIds : List String := []
  validatedCount : ℕ := 0
  promotionState : PromotionState
  timestampCreated : ℤ
  deriving DecidableEq, Repr

/-- The functions outside the modelled code, with the `f32` arithmetic of `highlight_score` and
`highlight_confidence`. -/
structure DigestExternals extends OpsExternals where
  highlightScore : HighlightAggregate → F32
  highlightConfidence : HighlightAggregate → F32 → F32

/-- `HighlightViewItem`. -/
structure HighlightViewItem where
  artifactId : String
  taskId : String
  projectId : Option String
  summary : String
  category : HighlightCategory
  rationale : String
  confidence : F32
  score : F32
  supportCount : ℕ
  supportingArtifactIds : List String
  promotionState : PromotionState
  timestampCreated : ℤ
  deriving DecidableEq, Repr

/-- A text an artifact offers as a highlight. -/
structure HighlightCandidate where
  summary : String
  category : HighlightCategory
  validated : Bool
  deriving DecidableEq, Repr

/-- One more artifact in support of an aggregate. -/
def HighlightAggregate.support (agg : HighlightAggregate) (a : TaskArtifact) (validated : Bool) :
    HighlightAggregate :=
  let newer := agg.timestampCreated ≤ a.timestampCreated
  { agg with
    artifactId := if newer then a.artifactId else agg.artifactId
    taskId := if newer then a.taskId else agg.taskId
    projectId := if newer then a.projectId else agg.projectId
    timestampCreated := if newer then a.timestampCreated else agg.timestampCreated
    supportingArtifactIds := setInsert a.artifactId agg.supportingArtifactIds
    taskIds := setInsert a.taskId agg.taskIds
    projectIds := match a.projectId with
      | some p => setInsert p agg.projectIds
      | none => agg.projectIds
    validatedCount := if validated then agg.validatedCount + 1 else agg.validatedCount
    promotionState := maxPromotion [agg.promotionState, a.promotionState] }

/-- The aggregates by their keys, which ascend. -/
abbrev Aggregates := List (String × HighlightAggregate)

/-- `BTreeMap::entry` with an update of the value. -/
def Aggregates.upsert (key : String) (fresh : HighlightAggregate)
    (f : HighlightAggregate → HighlightAggregate) : Aggregates → Aggregates
  | [] => [(key, f fresh)]
  | (k, agg) :: rest =>
    if k = key then (k, f agg) :: rest
    else if key < k then (key, f fresh) :: (k, agg) :: rest
    else (k, agg) :: upsert key fresh f rest

/-- `record_highlight_candidate`. -/
def recordHighlightCandidate (a : TaskArtifact) (aggregates : Aggregates) (c : HighlightCandidate) :
    Aggregates :=
  let trimmed := String.ofList (trim c.summary.toList)
  if trimmed = "" then aggregates
  else
    let key := sanitizeTagValue c.category.asStr ++ "::" ++ sanitizeTagValue trimmed
    aggregates.upsert key
      { artifactId := a.artifactId, taskId := a.taskId, projectId := a.projectId
        summary := trimmed, category := c.category, promotionState := a.promotionState
        timestampCreated := a.timestampCreated }
      (·.support a c.validated)

/-- The candidates of an artifact, in the order in which they are recorded. -/
def highlightCandidates (a : TaskArtifact) : List HighlightCandidate :=
  let validated := a.validation ≠ [] ∨ a.promotionState = .verified
    ∨ a.artifactKind = .verification
  a.whatWorked.map (⟨·, .tactic, validated⟩)
  ++ (if a.artifactKind = .decision then a.eventSummary.toList.map (⟨·, .decision, true⟩) else [])
  ++ (if a.artifactKind = .verification ∨ a.artifactKind = .review
    then a.validation.map (⟨·, .decision, true⟩) else [])
  ++ a.whatFailed.map (⟨·, .warning, validated⟩)

/-- The aggregates of the artifacts. -/
def highlightAggregates (artifacts : List TaskArtifact) : Aggregates :=
  artifacts.foldl (fun aggregates a =>
    (highlightCandidates a).foldl (recordHighlightCandidate a) aggregates) []

/-- `tactic_has_recurrence`. -/
def tacticHasRecurrence (agg : HighlightAggregate) : Bool :=
  1 < agg.supportingArtifactIds.length || 1 < agg.taskIds.length || 1 < agg.projectIds.length

/-- `highlight_rationale`. -/
def highlightRationale (agg : HighlightAggregate) : String :=
  let projects := if agg.projectIds = [] then []
    else [s!"seen in {agg.projectIds.length} project(s)"]
  let validated := if 0 < agg.validatedCount then [s!"validated in {agg.validatedCount} artifact(s)"]
    else []
  "; ".intercalate ([s!"Backed by {agg.supportingArtifactIds.length} artifact(s) across {agg.taskIds.length} task(s)"]
    ++ projects ++ validated)

/-- `keep_highlight`; 3.5 and 3.2 by their bits. -/
def keepHighlight (agg : HighlightAggregate) (score : F32) : Bool :=
  match agg.category with
  | .decision => F32.rank 0x40600000#32 ≤ F32.rank score
  | .tactic => tacticHasRecurrence agg && F32.rank 0x404CCCCD#32 ≤ F32.rank score
  | .warning => 1 < agg.supportingArtifactIds.length || 0 < agg.validatedCount

/-- `MAX_HIGHLIGHTS_PER_TASK`. -/
def maxHighlightsPerTask : ℕ := 2

/-- `MAX_HIGHLIGHTS_PER_PROJECT`. -/
def maxHighlightsPerProject : ℕ := 4

/-- `diversify_highlights`. -/
def diversifyHighlights (items : List HighlightViewItem) : List HighlightViewItem :=
  let multiProject := 1 < (sortedSet (items.filterMap (·.projectId))).length
  items.foldl (fun out item =>
    if maxHighlightsPerTask ≤ out.countP (·.taskId = item.taskId) then out
    else if multiProject ∧ item.projectId.isSome
        ∧ maxHighlightsPerProject ≤ out.countP (·.projectId = item.projectId) then out
    else out ++ [item]) []

/-- Two queues in turn. -/
def interleave {α : Type} : List α → List α → List α
  | [], ys => ys
  | x :: xs, [] => x :: xs
  | x :: xs, y :: ys => x :: y :: interleave xs ys

/-- `rebalance_highlights_by_category`. -/
def rebalanceHighlightsByCategory (items : List HighlightViewItem) : List HighlightViewItem :=
  interleave (items.filter (·.category ≠ .warning)) (items.filter (·.category = .warning))

/-- Higher scores first, then the newest. -/
def highlightBefore (a b : HighlightViewItem) : Prop :=
  F32.rank b.score < F32.rank a.score ∨
    F32.rank b.score = F32.rank a.score ∧ b.timestampCreated ≤ a.timestampCreated

instance : DecidableRel highlightBefore := fun _ _ => inferInstanceAs (Decidable (_ ∨ _))

/-- The item of an aggregate that is kept. -/
def highlightItem (x : DigestExternals) (agg : HighlightAggregate) : Option HighlightViewItem :=
  let score := x.highlightScore agg
  if keepHighlight agg score then
    some
      { artifactId := agg.artifactId
        taskId := agg.taskId
        projectId := agg.projectId
        summary := agg.summary
        category := agg.category
        rationale := highlightRationale agg
        confidence := x.highlightConfidence agg score
        score := score
        supportCount := agg.supportingArtifactIds.length
        supportingArtifactIds := agg.supportingArtifactIds
        promotionState := agg.promotionState
        timestampCreated := agg.timestampCreated }
  else none

/-- `infer_highlight_items`. -/
def inferHighlightItems (x : DigestExternals) (artifacts : List TaskArtifact) :
    List HighlightViewItem :=
  rebalanceHighlightsByCategory (diversifyHighlights
    (((highlightAggregates artifacts).filterMap fun p => highlightItem x p.2).insertionSort
      highlightBefore))

/-! ## Loading the sources -/

namespace Db

/-- `tenant_has_project`: a task of the project, or a chunk of it that `list` returns. -/
def tenantHasProject (db : Db) (t : TenantId) (project : String) : Bool :=
  db.listTasks t (some project) 1 ≠ []
    || db.chunks.any fun r => r.tenantId == t && r.status != .candidate && r.status != .deleted
      && r.projectId == some project

/-- The tables as `project_scopes_for_project` asks them. -/
def scopeBackend (db : Db) : SearchBackend where
  rows := []
  rows_nodup := List.nodup_nil
  hasTasks t project := .ok (db.tenantHasProject t project)
  searchWithScores _ _ _ _ := .ok []
  searchWithTierInfo _ _ _ _ := .ok ([], none)

/-- `scoped_tenants_for_project`. -/
def scopedTenantsForProject (cfg : SearchConfig) (db : Db) (t : TenantId)
    (project : Option String) : Except OperationError (List TenantId) :=
  (projectScopesForProject cfg db.scopeBackend t project).map fun scopes =>
    (scopes.map (·.tenantId)).eraseDups

/-- The artifacts of the tasks a scope lists, task by task. -/
def scopeArtifacts (db : Db) (project : Option String) (limit : ℕ) (tenants : List TenantId) :
    List TaskArtifact :=
  tenants.flatMap fun t =>
    (db.listTasks t project limit).flatMap fun task => db.listTaskArtifacts t task.taskId

/-- `load_project_artifacts`. -/
def loadProjectArtifacts (cfg : SearchConfig) (db : Db) (t : TenantId) (project : Option String)
    (limit : ℕ) : Except OperationError (List TaskArtifact) :=
  (db.scopedTenantsForProject cfg t project).map fun tenants =>
    newestFirst (·.timestampCreated) (db.scopeArtifacts project limit tenants)

/-- `load_task_views`. -/
def loadTaskViews (cfg : SearchConfig) (db : Db) (t : TenantId) (project : Option String)
    (limit : ℕ) : Except OperationError (List TaskResumeView) :=
  (db.scopedTenantsForProject cfg t project).map fun tenants =>
    tenants.flatMap fun t => (db.listTasks t project limit).map fun task =>
      buildTaskResumeView task (db.listTaskArtifacts t task.taskId)

end Db

/-- `digest_source_artifacts`. -/
def digestSourceArtifacts (artifacts : List TaskArtifact) : List TaskArtifact :=
  artifacts.filter (·.artifactKind ≠ .digest)

/-- `latest_source_update_ms`. -/
def latestSourceUpdateMs (artifacts : List TaskArtifact) : ℤ :=
  ((artifacts.map (·.timestampCreated)).max?).getD 0

/-! ## Digest artifacts -/

/-- The digest families, with the scope of each. -/
inductive DigestFamily
  | projectBrief (projectId : String)
  | taskResume (taskId : String)
  | failureLibrary (projectId : Option String)
  | decisionLibrary (projectId : Option String)
  | evidenceLibrary (projectId : Option String)
  | highlightLibrary (projectId : Option String)
  deriving DecidableEq, Repr

namespace DigestFamily

/-- The role of a family's digest. -/
def role : DigestFamily → DigestRole
  | projectBrief _ => .projectBrief
  | taskResume _ => .taskResume
  | failureLibrary _ => .failureLibrary
  | decisionLibrary _ => .decisionLibrary
  | evidenceLibrary _ => .evidenceLibrary
  | highlightLibrary _ => .highlightLibrary

/-- `build_scope_key`. -/
def buildScopeKey (projectId : Option String) (t : TenantId) (suffix : String) : String :=
  match projectId with
  | some p => s!"project:{p}:{suffix}"
  | none => s!"tenant:{t}:{suffix}"

/-- The scope key a digest of the family is filed under. -/
def scopeKey (t : TenantId) (family : DigestFamily) : String :=
  match family with
  | projectBrief p => p
  | taskResume taskId => taskId
  | failureLibrary p | decisionLibrary p | evidenceLibrary p | highlightLibrary p =>
    buildScopeKey p t family.role.asStr

/-- The artifact id of the family's digest. -/
def artifactId (t : TenantId) (family : DigestFamily) : String :=
  (stableDigestIdentity family.role.asStr (family.scopeKey t)).1

end DigestFamily

/-- `build_task_resume_digest_artifact`. -/
def buildTaskResumeDigestArtifact (stamp : Stamp) (view : TaskResumeView) : TaskArtifact :=
  let identity := stableDigestIdentity DigestRole.taskResume.asStr view.task.taskId
  { newDigest stamp view.task.tenantId view.task.taskId identity.2.2 DigestRole.taskResume.asStr with
    artifactId := identity.1
    projectId := view.task.projectId
    goal := view.task.goal
    scientificQuestion := view.task.scientificQuestion
    hypothesis := view.task.hypothesis
    summary := view.latestSummary.or view.task.goal
    blockers := view.blockers
    whatWorked := view.whatWorked
    whatFailed := view.whatFailed
    validation := view.validation
    followups := view.followups
    relatedArtifactIds := view.sourceArtifactIds
    sourceUpdatedAtMs := some view.task.updatedAtMs
    promotionState := .summarized }

/-- What a library digest is built from. -/
structure LibraryContent where
  summary : String
  whatFailed : List String := []
  validation : List String := []
  followups : List String := []
  relatedArtifactIds : List String
  sourceUpdatedAtMs : ℤ
  deriving DecidableEq, Repr

/-- `build_library_digest_artifact`. -/
def buildLibraryDigestArtifact (stamp : Stamp) (t : TenantId) (projectId : Option String)
    (role : DigestRole) (scopeKey : String) (content : LibraryContent) : TaskArtifact :=
  let identity := stableDigestIdentity role.asStr scopeKey
  { newDigest stamp t identity.2.1 identity.2.2 role.asStr with
    artifactId := identity.1
    projectId := projectId
    summary := some content.summary
    whatFailed := content.whatFailed
    validation := content.validation
    followups := content.followups
    relatedArtifactIds := content.relatedArtifactIds
    sourceUpdatedAtMs := some content.sourceUpdatedAtMs
    promotionState := .summarized }

/-- The lines that name the tasks a digest covers. -/
def coversTasks (taskIds : List String) : String :=
  if taskIds = [] then ""
  else "\nCovers tasks: " ++ ", ".intercalate (taskIds.map fun id => s!"task:id:{id}")

/-! ### The brief of a project -/

/-- `ProjectBriefView`. -/
structure ProjectBriefView where
  tenantId : TenantId
  projectId : String
  overview : String
  activeTasks : List TaskResumeView
  recentCompletedTasks : List TaskResumeView
  recentFailures : List ViewItem
  recentDecisions : List DecisionViewItem
  evidenceHighlights : List EvidenceViewItem
  sourceTaskIds : List String
  sourceArtifactIds : List String
  updatedAtMs : ℤ
  deriving DecidableEq, Repr

/-- A task that has ended well. -/
def isCompleted (view : TaskResumeView) : Bool :=
  view.task.status = some "completed" || view.task.status = some "success"

/-- `build_project_brief_view`. -/
def buildProjectBriefView (t : TenantId) (projectId : String) (taskViews : List TaskResumeView)
    (recentFailures : List ViewItem) (recentDecisions : List DecisionViewItem)
    (evidenceHighlights : List EvidenceViewItem) : ProjectBriefView :=
  let active := (newestFirst (·.task.updatedAtMs) (taskViews.filter (!isCompleted ·))).take 5
  let completed := (newestFirst (·.task.updatedAtMs) (taskViews.filter isCompleted)).take 5
  { tenantId := t
    projectId := projectId
    overview := s!"Project {projectId} has {active.length} active tasks, {completed.length} recent completed tasks, {recentFailures.length} recent failures, {recentDecisions.length} decisions, and {evidenceHighlights.length} evidence highlights."
    activeTasks := active
    recentCompletedTasks := completed
    recentFailures := recentFailures
    recentDecisions := recentDecisions
    evidenceHighlights := evidenceHighlights
    sourceTaskIds := dedupeKeepOrder (taskViews.map (·.task.taskId))
    sourceArtifactIds := dedupeKeepOrder (taskViews.flatMap (·.sourceArtifactIds))
    updatedAtMs := taskViews.foldl (fun latest view => max latest view.task.updatedAtMs) 0 }

/-- `build_project_brief_digest_artifact`. -/
def buildProjectBriefDigestArtifact (stamp : Stamp) (view : ProjectBriefView) : TaskArtifact :=
  buildLibraryDigestArtifact stamp view.tenantId (some view.projectId) .projectBrief view.projectId
    { summary := view.overview ++ coversTasks view.sourceTaskIds
      whatFailed := (view.recentFailures.map (·.summary)).take 8
      validation := (view.evidenceHighlights.map (·.summary)).take 8
      followups := (view.activeTasks.flatMap (·.followups)).take 10
      relatedArtifactIds := view.sourceArtifactIds
      sourceUpdatedAtMs := view.updatedAtMs }

/-! ### The libraries -/

/-- The name of a scope in a summary. -/
def scopeName (t : TenantId) (projectId : Option String) : String :=
  projectId.getD t

/-- The content of the failure library. -/
def failureContent (t : TenantId) (projectId : Option String) (sources : List TaskArtifact) :
    LibraryContent :=
  let failures := inferFailureItems sources
  { summary := s!"Failure library for {scopeName t projectId} contains {failures.length} recent failure summaries."
    whatFailed := (failures.map (·.summary)).take 12
    relatedArtifactIds := failures.map (·.artifactId)
    sourceUpdatedAtMs := latestSourceUpdateMs sources }

/-- The content of the decision library. -/
def decisionContent (t : TenantId) (projectId : Option String) (sources : List TaskArtifact) :
    LibraryContent :=
  let decisions := inferDecisionItems sources
  { summary := s!"Decision library for {scopeName t projectId} contains {decisions.length} explicit or inferred decisions."
    validation := (decisions.map (·.summary)).take 12
    relatedArtifactIds := decisions.map (·.artifactId)
    sourceUpdatedAtMs := latestSourceUpdateMs sources }

/-- The content of the evidence library. -/
def evidenceContent (t : TenantId) (projectId : Option String) (sources : List TaskArtifact) :
    LibraryContent :=
  let evidence := inferEvidenceItems sources
  { summary := s!"Evidence library for {scopeName t projectId} contains {evidence.length} evidence highlights."
    validation := (evidence.map (·.summary)).take 12
    relatedArtifactIds := evidence.map (·.artifactId)
    sourceUpdatedAtMs := latestSourceUpdateMs sources }

/-- The tasks of the artifacts that support a highlight, or its own task. -/
def coveredTaskIds (sources : List TaskArtifact) (item : HighlightViewItem) : List String :=
  let taskIds := item.supportingArtifactIds.filterMap fun id =>
    (sources.findRev? (·.artifactId = id)).map (·.taskId)
  if taskIds = [] ∧ item.taskId ≠ "" then [item.taskId] else taskIds

/-- The content of the highlight library. -/
def highlightContent (x : DigestExternals) (t : TenantId) (projectId : Option String)
    (sources : List TaskArtifact) : LibraryContent :=
  let highlights := inferHighlightItems x sources
  let covered := sortedSet ((highlights.flatMap (coveredTaskIds sources)).filter (· ≠ ""))
  { summary := s!"Highlight library for {scopeName t projectId} contains {highlights.length} ranked lessons with future-agent uplift."
      ++ coversTasks covered
    whatFailed := ((highlights.filter (·.category = .warning)).map (·.summary)).take 12
    validation := ((highlights.filter (·.category ≠ .warning)).map (·.summary)).take 12
    relatedArtifactIds := sortedSet (highlights.flatMap (·.supportingArtifactIds))
    sourceUpdatedAtMs := latestSourceUpdateMs sources }

/-- The library digest of a scope. -/
def libraryDigest (cfg : SearchConfig) (stamp : Stamp) (db : Db) (t : TenantId)
    (projectId : Option String) (role : DigestRole)
    (content : TenantId → Option String → List TaskArtifact → LibraryContent) :
    Except OperationError TaskArtifact :=
  (db.loadProjectArtifacts cfg t projectId 500).map fun artifacts =>
    buildLibraryDigestArtifact stamp t projectId role
      (DigestFamily.buildScopeKey projectId t role.asStr)
      (content t projectId (digestSourceArtifacts artifacts))

/-! ### All families -/

/-- What `ensure_*_digest` builds. -/
def generateDigest (x : DigestExternals) (cfg : SearchConfig) (stamp : Stamp) (db : Db)
    (t : TenantId) : DigestFamily → Except OperationError TaskArtifact
  -- a brief is made from all tasks of the project in scope
  | .projectBrief p => do
    let taskViews ← db.loadTaskViews cfg t (some p) 200
    let artifacts ← db.loadProjectArtifacts cfg t (some p) 200
    pure (buildProjectBriefDigestArtifact stamp (buildProjectBriefView t p taskViews
      ((inferFailureItems artifacts).take 10) ((inferDecisionItems artifacts).take 10)
      ((inferEvidenceItems artifacts).take 10)))
  -- a resume is made from one task
  | .taskResume taskId =>
    match (db.listTasks t none 500).find? (·.taskId = taskId) with
    | none => .error (.toolError "task not found")
    | some task =>
      .ok (buildTaskResumeDigestArtifact stamp
        (buildTaskResumeView task (db.listTaskArtifacts task.tenantId taskId)))
  | .failureLibrary p => libraryDigest cfg stamp db t p .failureLibrary failureContent
  | .decisionLibrary p => libraryDigest cfg stamp db t p .decisionLibrary decisionContent
  | .evidenceLibrary p => libraryDigest cfg stamp db t p .evidenceLibrary evidenceContent
  | .highlightLibrary p =>
    libraryDigest cfg stamp db t p .highlightLibrary (highlightContent x)

/-! ## Comparing and skipping -/

/-- The artifact without the times a refresh may change. -/
def untimed (a : TaskArtifact) : TaskArtifact :=
  { a with timestampCreated := 0, timestampObserved := none, sourceUpdatedAtMs := none }

/-- `digest_artifacts_equivalent`. -/
def digestArtifactsEquivalent (existing candidate : TaskArtifact) : Bool :=
  existing.artifactKind = .digest && candidate.artifactKind = .digest
    && untimed existing = untimed candidate

/-- `is_empty_generated_digest_artifact`. -/
def isEmptyGeneratedDigestArtifact (a : TaskArtifact) : Bool :=
  a.artifactKind = .digest && a.status = some "generated"
    && ([DigestRole.projectBrief, .failureLibrary, .decisionLibrary, .evidenceLibrary,
      .highlightLibrary].any fun role => a.artifactRole = some role.asStr)
    && a.blockers = [] && a.whatWorked = [] && a.whatFailed = [] && a.validation = []
    && a.uncertainty = [] && a.followups = [] && a.expectedOutputs = []
    && a.relatedArtifactIds = []
    && a.summary.any containsEmptyGeneratedDigestSummary
