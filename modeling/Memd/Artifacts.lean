/-
# Task artifacts and their projections

The artifact half of `task_memory/mod.rs`: the constructors, the states the server derives
from an artifact (`deriveArtifactPromotionState`, `deriveChunkPromotionState`), the tags of a
projection chunk and the chunks an artifact is stored with (`buildTaskProjections`).

An artifact id and a task id are UUIDv7 texts and the creation time is read from the clock: a
constructor takes them as a `Stamp`.  `{:.3}` of an `f32` is an argument.

* `exists_of_mem_buildTaskProjections` — every projection is a `buildProjectionChunk`;
* `promotionTag_mem_iff` — the one promotion state a projection chunk is tagged with: the
  derived one, whatever the artifact's own state is.
-/
import Memd.PersistentStore
import Memd.WriteAdmission

open PersistentStore (TaskProjection)

/-! ## Kinds and states -/

/-- `ArtifactKind::as_str`. -/
def ArtifactKind.asStr : ArtifactKind → String
  | .taskStart => "task_start"
  | .taskProgress => "task_progress"
  | .runStart => "run_start"
  | .runFinish => "run_finish"
  | .evidence => "evidence"
  | .review => "review"
  | .revision => "revision"
  | .verification => "verification"
  | .decision => "decision"
  | .digest => "digest"
  | .taskFinish => "task_finish"
  | .wikiPage => "wiki_page"

/-- All kinds, in the order of the source. -/
def ArtifactKind.all : List ArtifactKind :=
  [.taskStart, .taskProgress, .runStart, .runFinish, .evidence, .review, .revision,
    .verification, .decision, .digest, .taskFinish, .wikiPage]

/-- `ArtifactKind::from_str`. -/
def ArtifactKind.fromStr (value : String) : Except String ArtifactKind :=
  let name := String.ofList (Text.asciiLower (Text.trim value.toList))
  match ArtifactKind.all.find? fun k => k.asStr = name with
  | some k => .ok k
  | none => .error s!"invalid artifact_kind '{value}', must be one of: task_start, task_progress, run_start, run_finish, evidence, review, revision, verification, decision, digest, task_finish, wiki_page"

/-- `PromotionState::to_string`. -/
def PromotionState.asStr : PromotionState → String
  | .raw => "raw"
  | .summarized => "summarized"
  | .canonical => "canonical"
  | .verified => "verified"

/-- `ProjectionKind`. -/
inductive ProjectionKind
  | taskGoal | taskSummary | run | evidence | decision | digest | worked | failed | validation
  deriving DecidableEq, Repr

/-- `ProjectionKind::as_str`. -/
def ProjectionKind.asStr : ProjectionKind → String
  | .taskGoal => "task_goal"
  | .taskSummary => "task_summary"
  | .run => "run"
  | .evidence => "evidence"
  | .decision => "decision"
  | .digest => "digest"
  | .worked => "worked"
  | .failed => "failed"
  | .validation => "validation"

/-- `TrustTier`. -/
inductive TrustTier
  | semanticCandidate | canonicalRecord | compiledDigestHint | verifiedRecord
  deriving DecidableEq, Repr

/-- `DatasetRef::display_name`. -/
def DatasetRef.displayName (d : DatasetRef) : String :=
  match d.version.filter (· ≠ "") with
  | some version => s!"{d.name} ({version})"
  | none => d.name

/-- `EntityRef::display_name`. -/
def EntityRef.displayName (e : EntityRef) : String :=
  match e.role.filter (· ≠ "") with
  | some role => s!"{e.name} [{e.entityType}; role={role}]"
  | none => s!"{e.name} [{e.entityType}]"

/-! ## Constructors -/

/-- What a constructor draws: a new artifact id, a new task id and the time. -/
structure Stamp where
  artifactId : String
  taskId : String
  now : ℤ
  deriving DecidableEq, Repr

namespace TaskArtifact

/-- `TaskArtifact::new`. -/
def new (stamp : Stamp) (kind : ArtifactKind) (t : TenantId) (taskId : String) : TaskArtifact where
  artifactId := stamp.artifactId
  artifactKind := kind
  taskId := taskId
  tenantId := t
  timestampCreated := stamp.now

/-- `new` with a status. -/
def newWithStatus (stamp : Stamp) (kind : ArtifactKind) (status : String) (t : TenantId)
    (taskId : String) : TaskArtifact :=
  { new stamp kind t taskId with status := some status }

/-- `new_task_start`. -/
def newTaskStart (stamp : Stamp) (t : TenantId) : TaskArtifact :=
  newWithStatus stamp .taskStart "in_progress" t stamp.taskId

/-- `new_task_finish`. -/
def newTaskFinish (stamp : Stamp) := newWithStatus stamp .taskFinish "completed"
/-- `new_task_progress`. -/
def newTaskProgress (stamp : Stamp) := newWithStatus stamp .taskProgress "in_progress"
/-- `new_run_start`. -/
def newRunStart (stamp : Stamp) := newWithStatus stamp .runStart "started"
/-- `new_run_finish`. -/
def newRunFinish (stamp : Stamp) := newWithStatus stamp .runFinish "completed"
/-- `new_evidence`. -/
def newEvidence (stamp : Stamp) := new stamp .evidence
/-- `new_review`. -/
def newReview (stamp : Stamp) := newWithStatus stamp .review "recorded"
/-- `new_revision`. -/
def newRevision (stamp : Stamp) := newWithStatus stamp .revision "recorded"
/-- `new_verification`. -/
def newVerification (stamp : Stamp) := newWithStatus stamp .verification "recorded"
/-- `new_decision`. -/
def newDecision (stamp : Stamp) := newWithStatus stamp .decision "recorded"
/-- `new_wiki_page`. -/
def newWikiPage (stamp : Stamp) := newWithStatus stamp .wikiPage "authored"

/-- `new_digest`. -/
def newDigest (stamp : Stamp) (t : TenantId) (taskId digestKey artifactRole : String) :
    TaskArtifact :=
  { newWithStatus stamp .digest "generated" t taskId with
    artifactRole := some artifactRole
    digestKey := some digestKey }

/-- `thread_key`. -/
def threadKey (a : TaskArtifact) : String :=
  a.threadId.getD a.taskId

/-! ## What the server derives -/

/-- `derive_artifact_promotion_state`: never `verified`. -/
def deriveArtifactPromotionState (a : TaskArtifact) : PromotionState :=
  match a.artifactKind with
  | .digest => .summarized
  | _ => .canonical

/-- `derive_artifact_trust_tier`. -/
def deriveArtifactTrustTier (a : TaskArtifact) : TrustTier :=
  if a.promotionState = .verified then .verifiedRecord
  else if a.artifactKind = .digest then .compiledDigestHint
  else .canonicalRecord

/-- `derive_chunk_promotion_state`. -/
def deriveChunkPromotionState (a : TaskArtifact) (kind : ProjectionKind) : PromotionState :=
  match a.deriveArtifactPromotionState with
  | .verified =>
    match kind with
    | .validation | .evidence | .decision | .digest => .verified
    | _ => .summarized
  | .canonical =>
    match kind with
    | .taskGoal | .run | .evidence | .decision => .canonical
    | _ => .summarized
  | .summarized => .summarized
  | .raw => .raw

/-- No artifact promotes itself to verified. -/
theorem deriveArtifactPromotionState_ne_verified (a : TaskArtifact) :
    a.deriveArtifactPromotionState ≠ .verified := by
  unfold deriveArtifactPromotionState
  split <;> decide

/-! ## Tags -/

/-- The tag that names a promotion state. -/
def promotionTag (state : PromotionState) : String :=
  "task:promotion:" ++ sanitizeTagValue state.asStr

/-- The tag of an optional field that is not blank. -/
def fieldTag (label : String) (value : Option String) : List String :=
  ((nonBlank value).map fun v => label ++ sanitizeTagValue v).toList

/-- `base_projection_tags`. -/
def baseProjectionTags (a : TaskArtifact) : List String :=
  ["task:id:" ++ sanitizeTagValue a.taskId,
    "task:artifact:" ++ sanitizeTagValue a.artifactId,
    "task:kind:" ++ a.artifactKind.asStr,
    promotionTag a.deriveArtifactPromotionState]
  ++ fieldTag "task:status:" a.status
  ++ fieldTag "task:challenge:" a.challengeId
  ++ fieldTag "task:thread:" a.threadId
  ++ fieldTag "task:role:" a.artifactRole
  ++ fieldTag "task:digest:" a.digestKey
  ++ fieldTag "task:verification:" a.verificationStatus
  ++ a.datasetRefs.map (fun d => "task:dataset:" ++ d.key)
  ++ a.entityRefs.map (fun e => "task:entity:" ++ e.key)

/-! ## Projections -/

/-- The tool a chunk names when the provenance has none. -/
def defaultToolName : ArtifactKind → String
  | .taskStart => "task.start"
  | .taskFinish => "task.finish"
  | .taskProgress => "task.progress"
  | .runStart => "task.run_start"
  | .runFinish => "task.run_finish"
  | .evidence => "task.add_evidence"
  | .review | .revision | .verification | .decision | .wikiPage => "artifact.create"
  | .digest => "memory.compact"

/-- `Source::from(&TaskProvenance)`. -/
def sourceOf (p : TaskProvenance) : Source where
  uri := p.uri
  repo := p.repo
  commit := p.commit
  path := p.path
  toolName := p.toolName
  toolCallId := p.toolCallId

/-- `build_projection_chunk`.  The chunk gets its id and hash when it is stored. -/
def buildProjectionChunk (a : TaskArtifact) (kind : ProjectionKind) (chunkType : ChunkType)
    (text : String) : TaskProjection where
  kind := kind.asStr
  chunk :=
    { chunkId := 0
      tenantId := a.tenantId
      projectId := a.projectId
      agentId := a.agentId
      timestampCreated := a.timestampCreated
      timestampObserved := a.timestampObserved
      chunkType := chunkType
      promotionState := a.deriveChunkPromotionState kind
      source :=
        { sourceOf a.provenance with
          toolName := a.provenance.toolName.or (some (defaultToolName a.artifactKind)) }
      text := text
      tags := a.baseProjectionTags ++ ["task:projection:" ++ kind.asStr] }

/-- A labelled line for a field that is there. -/
def optLine (label : String) (value : Option String) : List String :=
  (value.map (label ++ ·)).toList

/-- A labelled line for a list that is not empty. -/
def listLine (label separator : String) (items : List String) : List String :=
  if items = [] then [] else [label ++ separator.intercalate items]

/-- One projection from its lines, none when there are no lines. -/
def projectLines (a : TaskArtifact) (kind : ProjectionKind) (chunkType : ChunkType)
    (lines : List String) : List TaskProjection :=
  if lines = [] then [] else [buildProjectionChunk a kind chunkType ("\n".intercalate lines)]

/-- The projection kind of the base summary. -/
def summaryKind : ArtifactKind → ProjectionKind
  | .taskStart => .taskGoal
  | .runStart | .runFinish => .run
  | .evidence => .evidence
  | .decision => .decision
  | .digest => .digest
  | .verification => .validation
  | _ => .taskSummary

/-- The chunk type of the base summary. -/
def summaryChunkType : ArtifactKind → ChunkType
  | .taskStart => .plan
  | .runStart | .runFinish => .trace
  | .evidence => .research
  | .decision => .decision
  | _ => .summary

/-- The lines of the base summary. -/
def summaryLines (a : TaskArtifact) : List String :=
  let status := match a.status with
    | some s => "status " ++ s
    | none => "recorded"
  [s!"Task {a.artifactKind.asStr} {status} for task {a.taskId}."]
  ++ optLine "Artifact role: " a.artifactRole
  ++ optLine "Challenge: " a.challengeId
  ++ optLine "Thread: " a.threadId
  ++ optLine "Reply to: " a.replyToArtifactId
  ++ optLine "Goal: " a.goal
  ++ optLine "Scientific question: " a.scientificQuestion
  ++ listLine "Datasets: " ", " (a.datasetRefs.map (·.displayName))
  ++ listLine "Entities: " ", " (a.entityRefs.map (·.displayName))
  ++ optLine "Requested action: " a.requestedAction
  ++ optLine "Verification status: " a.verificationStatus
  ++ optLine "Summary: " a.eventSummary

/-- The lines about goals. -/
def goalLines (a : TaskArtifact) : List String :=
  optLine "Goal: " a.goal ++ optLine "Motivation: " a.motivation
  ++ optLine "Hypothesis: " a.hypothesis
  ++ listLine "Expected outputs: " ", " a.expectedOutputs

/-- The lines about progress. -/
def progressLines (a : TaskArtifact) : List String :=
  listLine "Blockers: " "; " a.blockers ++ listLine "Next steps: " "; " a.followups

/-- The lines about a run. -/
def runLines (a : TaskArtifact) : List String :=
  optLine "Tool: " a.toolName ++ optLine "Tool version: " a.toolVersion
  ++ optLine "Command: " a.command ++ optLine "Why chosen: " a.whyChosen
  ++ listLine "Inputs: " ", " a.inputs ++ listLine "Outputs: " ", " a.outputs
  ++ optLine "Parameters: " a.parameters ++ optLine "Metrics: " a.metrics

/-- The lines about evidence. -/
def evidenceLines (a : TaskArtifact) : List String :=
  optLine "Evidence kind: " a.evidenceKind
  ++ optLine "Supports claim: " (a.supportsClaim.map toString)
  ++ optLine "Metrics: " a.metrics

/-- The lines about what failed. -/
def failedLines (a : TaskArtifact) : List String :=
  listLine s!"What failed for task {a.taskId}: " "; " a.whatFailed
  ++ listLine "Uncertainty: " "; " a.uncertainty

/-- The lines about validation. -/
def validationLines (fixed3 : F32 → String) (a : TaskArtifact) : List String :=
  listLine "Validation: " "; " a.validation ++ listLine "Followups: " "; " a.followups
  ++ optLine "Confidence: " (a.confidence.map fixed3)
  ++ optLine "Verification status: " a.verificationStatus
  ++ optLine "Approval state: " a.approvalState

/-- `build_task_projections`. -/
def buildTaskProjections (fixed3 : F32 → String) (a : TaskArtifact) : List TaskProjection :=
  [buildProjectionChunk a (summaryKind a.artifactKind) (summaryChunkType a.artifactKind)
    ("\n".intercalate a.summaryLines)]
  ++ (match a.artifactKind with
    | .taskStart => projectLines a .taskGoal .plan a.goalLines
    | .taskProgress | .taskFinish => projectLines a .taskSummary .summary a.progressLines
    | .runStart | .runFinish => projectLines a .run .trace a.runLines
    | .evidence => projectLines a .evidence .research a.evidenceLines
    | _ => [])
  ++ projectLines a .worked .summary
    (listLine s!"What worked for task {a.taskId}: " "; " a.whatWorked)
  ++ projectLines a .failed .research a.failedLines
  ++ (if a.validation = [] ∧ a.followups = [] then []
    else projectLines a .validation .summary (validationLines fixed3 a))

/-- `build_task_projections_minimal`. -/
def buildTaskProjectionsMinimal (fixed3 : F32 → String) (a : TaskArtifact) :
    List TaskProjection :=
  (buildTaskProjections fixed3 a).take 1

/-! ## What the projections have in common -/

/-- Every artifact has a projection. -/
theorem buildTaskProjections_ne_nil (fixed3 : F32 → String) (a : TaskArtifact) :
    buildTaskProjections fixed3 a ≠ [] := by
  simp [buildTaskProjections]

/-- What a projection of some lines is. -/
theorem mem_projectLines {a : TaskArtifact} {kind : ProjectionKind} {chunkType : ChunkType}
    {lines : List String} {p : TaskProjection} (h : p ∈ projectLines a kind chunkType lines) :
    p = buildProjectionChunk a kind chunkType ("\n".intercalate lines) := by
  unfold projectLines at h
  by_cases hl : lines = []
  · simp [hl] at h
  · simpa [hl] using h

/-- Every projection is one of some text. -/
theorem exists_of_mem_buildTaskProjections {fixed3 : F32 → String} {a : TaskArtifact}
    {p : TaskProjection} (h : p ∈ buildTaskProjections fixed3 a) :
    ∃ kind chunkType text, p = buildProjectionChunk a kind chunkType text := by
  simp only [buildTaskProjections, List.mem_append, List.mem_singleton] at h
  rcases h with (((h | h) | h) | h) | h
  · exact ⟨_, _, _, h⟩
  · split at h
    all_goals first
      | exact ⟨_, _, _, mem_projectLines h⟩
      | simp at h
  · exact ⟨_, _, _, mem_projectLines h⟩
  · exact ⟨_, _, _, mem_projectLines h⟩
  · by_cases hnone : a.validation = [] ∧ a.followups = []
    · simp [hnone] at h
    · rw [if_neg hnone] at h
      exact ⟨_, _, _, mem_projectLines h⟩

/-- A tag with another label is no promotion tag. -/
theorem append_ne_promotionTag {label value : String} {state : PromotionState}
    (hl : ¬ label.toList <+: "task:promotion:".toList)
    (hr : ¬ "task:promotion:".toList <+: label.toList) : label ++ value ≠ promotionTag state := by
  intro heq
  have h₁ : label.toList <+: (label ++ value).toList := by
    rw [String.toList_append]
    exact List.prefix_append _ _
  have h₂ : "task:promotion:".toList <+: (label ++ value).toList := by
    rw [heq, promotionTag, String.toList_append]
    exact List.prefix_append _ _
  rcases Nat.le_total label.toList.length "task:promotion:".toList.length with h | h
  · exact hl (List.prefix_of_prefix_length_le h₁ h₂ h)
  · exact hr (List.prefix_of_prefix_length_le h₂ h₁ h)

/-- No tag of a field is a promotion tag. -/
theorem promotionTag_not_mem_fieldTag {label : String} {value : Option String}
    {state : PromotionState} (hl : ¬ label.toList <+: "task:promotion:".toList)
    (hr : ¬ "task:promotion:".toList <+: label.toList) :
    promotionTag state ∉ fieldTag label value := by
  intro h
  obtain ⟨v, -, hv⟩ := Option.map_eq_some_iff.mp (Option.mem_toList.mp h)
  exact append_ne_promotionTag hl hr hv

/-- Different promotion states have different tags. -/
theorem promotionTag_injective {state state' : PromotionState}
    (h : promotionTag state = promotionTag state') : state = state' := by
  revert h
  cases state <;> cases state' <;> decide

/-- The promotion tag of a projection names the derived state and no other. -/
theorem promotionTag_mem_iff {a : TaskArtifact} {kind : ProjectionKind} {chunkType : ChunkType}
    {text : String} {state : PromotionState} :
    promotionTag state ∈ (buildProjectionChunk a kind chunkType text).chunk.tags ↔
      state = a.deriveArtifactPromotionState := by
  constructor
  · intro h
    simp only [buildProjectionChunk, baseProjectionTags, List.mem_append, List.mem_cons,
      List.not_mem_nil, or_false, List.mem_map] at h
    rcases h with ((((((((h | h) | h) | h) | h) | h) | h) | ⟨d, -, h⟩) | ⟨e, -, h⟩) | h
    · rcases h with h | h | h | h
      · exact absurd h.symm (append_ne_promotionTag (by decide) (by decide))
      · exact absurd h.symm (append_ne_promotionTag (by decide) (by decide))
      · exact absurd h.symm (append_ne_promotionTag (by decide) (by decide))
      · exact promotionTag_injective h
    all_goals first
      | exact absurd h (promotionTag_not_mem_fieldTag (by decide) (by decide))
      | exact absurd h (append_ne_promotionTag (by decide) (by decide))
      | exact absurd h.symm (append_ne_promotionTag (by decide) (by decide))
  · rintro rfl
    simp [buildProjectionChunk, baseProjectionTags]

/-- The minimal projections are among all projections. -/
theorem mem_of_mem_minimal {fixed3 : F32 → String} {a : TaskArtifact} {p : TaskProjection}
    (h : p ∈ buildTaskProjectionsMinimal fixed3 a) : p ∈ buildTaskProjections fixed3 a :=
  List.mem_of_mem_take h

end TaskArtifact
