/-
# Experience records

The typed payloads of experience artifacts and the checks on one artifact (`experience/mod.rs`,
`experience/validation.rs`): problems, attempts, check receipts, observed checks, lessons and
corrections, the status a receipt has, and the envelope an artifact must have for its payload.

A row of `task_artifacts` keeps the payload as its JSON text; here it is the value itself
(`ExperienceArtifact.event`).  The JSON of an execution context is its text.

* `validateArtifactShape_eq_ok` — an artifact passes when its payload passes its own check and
  its envelope is the one of the payload;
* `CheckReceipt.supportsLesson_iff_passed` — the status is `passed` for exactly the receipts that
  can support a lesson.
-/
import Mathlib.Data.List.Dedup
import Mathlib.Data.String.Basic
import Memd.Artifacts
import Memd.ListSelection
import Memd.Proc

open Proc (except_bind_eq_ok)
open Selection (insertionSort_eq_of_perm)

namespace Experience

/-! ## Payloads -/

/-- `LessonEvidence`. -/
inductive LessonEvidence
  | executed | observed
  deriving DecidableEq, Repr

/-- The `Debug` text of a piece of evidence. -/
def LessonEvidence.debug : LessonEvidence → String
  | .executed => "Executed"
  | .observed => "Observed"

/-- `LessonVisibility`. -/
inductive LessonVisibility
  | project | shared
  deriving DecidableEq, Repr

/-- `LessonApplicability`. -/
structure LessonApplicability where
  machine : Option String := none
  tool : Option String := none
  version : Option String := none
  deriving DecidableEq, Repr

/-- `ConditionalLesson`.  `context` is a map, in the order of its keys. -/
structure ConditionalLesson where
  problemId : String
  supportingCheckId : String
  guidance : String
  symptomTerms : List String
  applicability : LessonApplicability := {}
  visibility : LessonVisibility := .project
  evidence : LessonEvidence := .executed
  context : List (String × String) := []
  links : List String := []
  conflictsWith : List String := []
  deriving DecidableEq, Repr

/-- `SourceFingerprintCoverage`. -/
inductive SourceFingerprintCoverage
  | trackedRepository
  | explicitPaths (paths : List String)
  deriving DecidableEq, Repr

/-- `SourceFingerprint`. -/
structure SourceFingerprint where
  sha256 : String
  coverage : SourceFingerprintCoverage
  deriving DecidableEq, Repr

/-- `CheckReceipt`. -/
structure CheckReceipt where
  attemptId : String
  cwd : String
  argv : List String
  startedAtMs : ℤ
  finishedAtMs : ℤ
  timedOut : Bool
  exitCode : Option ℤ := none
  stdoutSha256 : Option String := none
  stderrSha256 : Option String := none
  sourceBefore : Option SourceFingerprint := none
  sourceAfter : Option SourceFingerprint := none
  execution : String
  deriving DecidableEq, Repr

namespace CheckReceipt

/-- `command_succeeded`. -/
def commandSucceeded (r : CheckReceipt) : Bool :=
  !r.timedOut && r.exitCode == some 0 && r.stdoutSha256.isSome && r.stderrSha256.isSome

/-- `supports_lesson`. -/
def supportsLesson (r : CheckReceipt) : Bool :=
  r.commandSucceeded &&
    match r.sourceBefore, r.sourceAfter with
    | some before, some after => before == after
    | _, _ => false

/-- `status`. -/
def status (r : CheckReceipt) : String :=
  if r.supportsLesson then "passed"
  else if r.commandSucceeded then "source_unverified"
  else if r.timedOut then "timed_out"
  else "failed"

/-- A check supports a lesson exactly if it passed. -/
theorem supportsLesson_iff_passed (r : CheckReceipt) :
    r.supportsLesson = true ↔ r.status = "passed" := by
  unfold status
  split
  · rename_i hsupports
    simp [hsupports]
  · rename_i hsupports
    split_ifs <;> simp [hsupports]

end CheckReceipt

/-- `ObservedCheck`. -/
structure ObservedCheck where
  attemptId : String
  result : String
  command : Option String := none
  deriving DecidableEq, Repr

/-- `ExperienceEvent`. -/
inductive ExperienceEvent
  | problem (description : String) (symptomTerms : List String)
  | attempt (problemId : String) (previousAttemptId : Option String) (ordinal : ℕ)
      (action : String)
  | check (receipt : CheckReceipt)
  | observedCheck (check : ObservedCheck)
  | lesson (lesson : ConditionalLesson)
  | correction (problemId supersedesId : String) (replacement : ConditionalLesson)
  deriving DecidableEq, Repr

/-- A task artifact with its experience payload. -/
structure ExperienceArtifact extends TaskArtifact where
  event : Option ExperienceEvent := none
  deriving DecidableEq, Repr

/-- `lesson_from_event`. -/
def lessonFromEvent : ExperienceEvent → Option ConditionalLesson
  | .lesson lesson => some lesson
  | .correction _ _ replacement => some replacement
  | _ => none

/-- `problem_id`. -/
def problemIdOf : ExperienceEvent → Option String
  | .attempt problemId _ _ _ => some problemId
  | .correction problemId _ _ => some problemId
  | .lesson lesson => some lesson.problemId
  | _ => none

namespace ExperienceArtifact

/-- `event_time`. -/
def eventTime (a : ExperienceArtifact) : ℤ :=
  a.timestampObserved.getD a.timestampCreated

/-- The artifact is a problem. -/
def isProblem (a : ExperienceArtifact) : Bool :=
  match a.event with
  | some (.problem ..) => true
  | _ => false

/-- The artifact is an attempt. -/
def isAttempt (a : ExperienceArtifact) : Bool :=
  match a.event with
  | some (.attempt ..) => true
  | _ => false

/-- The artifact is a check. -/
def isCheck (a : ExperienceArtifact) : Bool :=
  match a.event with
  | some (.check _) | some (.observedCheck _) => true
  | _ => false

/-- The artifact is a lesson. -/
def isLesson (a : ExperienceArtifact) : Bool :=
  match a.event with
  | some (.lesson _) => true
  | _ => false

/-- The lesson an artifact carries. -/
def lesson? (a : ExperienceArtifact) : Option ConditionalLesson :=
  a.event.bind lessonFromEvent

/-- What a correction supersedes. -/
def supersedes? (a : ExperienceArtifact) : Option String :=
  match a.event with
  | some (.correction _ supersedesId _) => some supersedesId
  | _ => none

end ExperienceArtifact

/-! ## Checks on values -/

/-- `validation`: a validation error. -/
def invalid {α : Type} (message : String) : Except MemdError α :=
  .error (.validationError message)

/-- A check that fails with a message. -/
def demand (ok : Bool) (message : String) : Except MemdError Unit :=
  if ok then .ok () else invalid message

@[simp] theorem demand_eq_ok {ok : Bool} {message : String} {u : Unit} :
    demand ok message = .ok u ↔ ok = true := by
  unfold demand invalid
  cases ok <;> simp

@[simp] theorem invalid_ne_ok {α : Type} {message : String} {a : α} :
    (invalid message : Except MemdError α) ≠ .ok a := by
  simp [invalid]

/-- `value.trim().is_empty()`. -/
def isBlank (value : String) : Bool :=
  (Text.trim value.toList).isEmpty

/-- `require_text`. -/
def requireText (field value : String) : Except MemdError Unit :=
  demand (!isBlank value) s!"{field} must not be empty"

/-- `validate_terms`. -/
def validateTerms (terms : List String) : Except MemdError Unit :=
  demand (!terms.isEmpty && !terms.any isBlank)
    "symptom_terms must contain at least one non-empty term"

/-- `validate_applicability`. -/
def validateApplicability (a : LessonApplicability) : Except MemdError Unit := do
  [("machine", a.machine), ("tool", a.tool), ("version", a.version)].forM fun x =>
    demand (!x.2.any isBlank) s!"{x.1} must not be empty"
  demand (!(a.version.isSome && a.tool.isNone)) "version applicability requires tool"

/-- `validate_observed_check`. -/
def validateObservedCheck (check : ObservedCheck) : Except MemdError Unit := do
  requireText "attempt_id" check.attemptId
  requireText "result" check.result
  match check.command with
  | some command => requireText "command" command
  | none => .ok ()

/-- `validate_hash`: 64 characters of `0-9a-f`. -/
def validateHash (field hash : String) : Except MemdError Unit :=
  demand (hash.toList.length == 64 && hash.toList.all fun c =>
      c.isDigit || ('a' ≤ c && c ≤ 'f'))
    s!"{field} must be a lowercase 64-character SHA-256 hex digest"

/-- `validate_optional_hash`. -/
def validateOptionalHash (field : String) : Option String → Except MemdError Unit
  | some hash => validateHash field hash
  | none => .ok ()

/-- The check on one source fingerprint. -/
def validateFingerprint (f : SourceFingerprint) : Except MemdError Unit := do
  validateHash "source fingerprint" f.sha256
  match f.coverage with
  | .explicitPaths paths => do
    demand (!paths.isEmpty && !paths.any isBlank)
      "explicit fingerprint coverage requires non-empty paths"
    demand (decide paths.Nodup) "explicit fingerprint coverage contains duplicate paths"
  | .trackedRepository => .ok ()

/-- `validate_receipt`. -/
def validateReceipt (r : CheckReceipt) : Except MemdError Unit := do
  requireText "attempt_id" r.attemptId
  requireText "cwd" r.cwd
  demand (!r.argv.isEmpty && !r.argv.any (·.isEmpty))
    "argv must contain a non-empty executable and arguments"
  demand (decide (r.startedAtMs ≤ r.finishedAtMs))
    "finished_at_ms must be greater than or equal to started_at_ms"
  validateOptionalHash "stdout_sha256" r.stdoutSha256
  validateOptionalHash "stderr_sha256" r.stderrSha256
  [r.sourceBefore, r.sourceAfter].reduceOption.forM validateFingerprint

/-- `validate_embedded_lesson`. -/
def validateEmbeddedLesson (lesson : ConditionalLesson) : Except MemdError Unit := do
  requireText "problem_id" lesson.problemId
  requireText "supporting_check_id" lesson.supportingCheckId
  requireText "guidance" lesson.guidance
  validateTerms lesson.symptomTerms
  validateApplicability lesson.applicability

/-! ## The envelope of a payload -/

/-- The role of problems. -/
def roleProblem : String := "experience_problem"
/-- The role of attempts. -/
def roleAttempt : String := "experience_attempt"
/-- The role of checks. -/
def roleCheck : String := "experience_check"
/-- The role of lessons. -/
def roleLesson : String := "experience_lesson"
/-- The role of corrections. -/
def roleCorrection : String := "experience_correction"
/-- The status of a check that was observed without a receipt. -/
def observedCheckStatus : String := "observed"

/-- `sort` and `dedup`: every id once, in order. -/
def sortedIds (ids : List String) : List String :=
  ids.dedup.insertionSort (· ≤ ·)

/-- Two lists of ids are the same set exactly if they are so sorted. -/
theorem sortedIds_eq_iff {ids ids' : List String} :
    sortedIds ids = sortedIds ids' ↔ ∀ id, id ∈ ids ↔ id ∈ ids' := by
  have hmem : ∀ (l : List String) (id : String), id ∈ sortedIds l ↔ id ∈ l := by
    intro l id
    rw [sortedIds, List.mem_insertionSort, List.mem_dedup]
  constructor
  · intro h id
    rw [← hmem ids, h, hmem]
  · intro h
    apply insertionSort_eq_of_perm (r := (· ≤ ·))
    · exact fun a _ b _ hab hba => le_antisymm hab hba
    · apply (List.perm_ext_iff_of_nodup (List.nodup_dedup _) (List.nodup_dedup _)).mpr
      intro id
      rw [List.mem_dedup, List.mem_dedup]
      exact h id

/-- `lesson_related_ids`. -/
def lessonRelatedIds (lesson : ConditionalLesson) : List String :=
  sortedIds ([lesson.problemId, lesson.supportingCheckId] ++ lesson.conflictsWith)

/-- What the envelope says about its payload: kind, role, status, the artifact it replies to and
how. -/
structure Envelope where
  kind : ArtifactKind
  role : String
  status : String
  replyTo : Option String
  relation : Option String
  deriving DecidableEq, Repr

namespace ExperienceEvent

/-- The first half of `validate_artifact_shape`: the payload is checked, and has an envelope. -/
def envelope : ExperienceEvent → Except MemdError Envelope
  | .problem description symptomTerms => do
    requireText "description" description
    validateTerms symptomTerms
    pure ⟨.taskProgress, roleProblem, "open", none, none⟩
  | .attempt problemId previousAttemptId ordinal action => do
    requireText "action" action
    demand (ordinal != 0) "attempt ordinal must be at least 1"
    pure ⟨.runFinish, roleAttempt, "recorded", some (previousAttemptId.getD problemId),
      some "attempts_problem"⟩
  | .check receipt => do
    validateReceipt receipt
    pure ⟨.verification, roleCheck, receipt.status, some receipt.attemptId,
      some "checks_attempt"⟩
  | .observedCheck observed => do
    validateObservedCheck observed
    pure ⟨.verification, roleCheck, observedCheckStatus, some observed.attemptId,
      some "checks_attempt"⟩
  | .lesson learned => do
    validateEmbeddedLesson learned
    pure ⟨.decision, roleLesson, "recorded", some learned.supportingCheckId,
      some "learned_from_check"⟩
  | .correction problemId supersedesId replacement => do
    demand (problemId == replacement.problemId)
      "correction problem_id must match replacement.problem_id"
    validateEmbeddedLesson replacement
    pure ⟨.revision, roleCorrection, "recorded", some supersedesId, some "supersedes_lesson"⟩

/-- The ids an artifact with this payload is related to. -/
def relatedIds : ExperienceEvent → List String
  | .problem .. => []
  | .attempt problemId previousAttemptId _ _ => problemId :: previousAttemptId.toList
  | .check receipt => [receipt.attemptId]
  | .observedCheck observed => [observed.attemptId]
  | .lesson learned => lessonRelatedIds learned
  | .correction _ supersedesId replacement => lessonRelatedIds replacement ++ [supersedesId]

/-- `causal_reference_ids`: what must be there before. -/
def causalIds : ExperienceEvent → List String
  | .problem .. => []
  | .attempt problemId previousAttemptId _ _ => problemId :: previousAttemptId.toList
  | .check receipt => [receipt.attemptId]
  | .observedCheck observed => [observed.attemptId]
  | .lesson learned => [learned.problemId, learned.supportingCheckId]
  | .correction problemId supersedesId replacement =>
    [problemId, supersedesId, replacement.supportingCheckId]

/-- A check carries the verification status `recorded_check`. -/
def verificationStatus : ExperienceEvent → Option String
  | .check _ | .observedCheck _ => some "recorded_check"
  | _ => none

end ExperienceEvent

/-- What must be there before an artifact. -/
def ExperienceArtifact.causalIds (a : ExperienceArtifact) : List String :=
  (a.event.map ExperienceEvent.causalIds).getD []

/-- `required_event`. -/
def requiredEvent (a : ExperienceArtifact) : Except MemdError ExperienceEvent :=
  match a.event with
  | some event => .ok event
  | none => invalid s!"artifact '{a.artifactId}' is not an experience record"

/-- `validate_artifact_shape`. -/
def validateArtifactShape (a : ExperienceArtifact) : Except MemdError Unit := do
  let event ← requiredEvent a
  let expected ← event.envelope
  demand (a.artifactKind == expected.kind && a.artifactRole == some expected.role
      && a.status == some expected.status && a.replyToArtifactId == expected.replyTo
      && a.relationKind == expected.relation)
    s!"artifact '{a.artifactId}' has envelope fields inconsistent with its experience event"
  demand (a.promotionState == .canonical)
    s!"artifact '{a.artifactId}' must use canonical promotion_state"
  demand (a.verificationStatus == event.verificationStatus && a.supportsClaim.isNone
      && a.approvalState.isNone)
    s!"artifact '{a.artifactId}' carries unsupported trust fields"
  demand (sortedIds a.relatedArtifactIds == sortedIds event.relatedIds)
    s!"artifact '{a.artifactId}' has related_artifact_ids inconsistent with its experience event"

@[simp] theorem requiredEvent_eq_ok {a : ExperienceArtifact} {event : ExperienceEvent} :
    requiredEvent a = .ok event ↔ a.event = some event := by
  unfold requiredEvent
  cases a.event <;> simp

/-- The fields of an artifact that agree with its payload. -/
structure Enveloped (a : ExperienceArtifact) (event : ExperienceEvent) : Prop where
  event_eq : a.event = some event
  envelope : event.envelope = .ok ⟨a.artifactKind, a.artifactRole.getD "", a.status.getD "",
    a.replyToArtifactId, a.relationKind⟩
  role : a.artifactRole.isSome = true
  status : a.status.isSome = true
  promotionState : a.promotionState = .canonical
  verificationStatus : a.verificationStatus = event.verificationStatus
  supportsClaim : a.supportsClaim = none
  approvalState : a.approvalState = none
  related : ∀ id, id ∈ a.relatedArtifactIds ↔ id ∈ event.relatedIds

/-- An artifact has the right shape exactly if it is the envelope of its event. -/
theorem validateArtifactShape_eq_ok {a : ExperienceArtifact} {u : Unit} :
    validateArtifactShape a = .ok u ↔ ∃ event, Enveloped a event := by
  unfold validateArtifactShape
  simp only [except_bind_eq_ok, requiredEvent_eq_ok, demand_eq_ok, Bool.and_eq_true, beq_iff_eq,
    Option.isNone_iff_eq_none, sortedIds_eq_iff]
  constructor
  · rintro ⟨event, hevent, env, henv, _, ⟨⟨⟨⟨hkind, hrole⟩, hstatus⟩, hreply⟩, hrelation⟩, _,
      hpromotion, _, ⟨⟨hverification, hclaim⟩, happroval⟩, hrelated⟩
    refine ⟨event, hevent, ?_, by simp [hrole], by simp [hstatus], hpromotion, hverification,
      hclaim, happroval, hrelated⟩
    rw [henv, hkind, hrole, hstatus, hreply, hrelation]
    rfl
  · rintro ⟨event, h⟩
    obtain ⟨role, hrole⟩ := Option.isSome_iff_exists.mp h.role
    obtain ⟨status, hstatus⟩ := Option.isSome_iff_exists.mp h.status
    refine ⟨event, h.event_eq, _, h.envelope, (), ⟨⟨⟨⟨rfl, ?_⟩, ?_⟩, rfl⟩, rfl⟩, (),
      h.promotionState, (), ⟨⟨h.verificationStatus, h.supportsClaim⟩, h.approvalState⟩, h.related⟩
    · rw [hrole]
      rfl
    · rw [hstatus]
      rfl

end Experience
