/-
# Experience cases

The artifacts of one problem as a whole (`experience/validation.rs`, `resolve_case` and
`shared_view` of `experience/mod.rs`): the chain of the attempts, the check of a case, the current
lessons at the ends of the chains of corrections, and the part of a case that other projects may
read.

A `HashMap` that is collected from a list keeps the last entry of a key (`byId`).  The walk along
the corrections takes the number of artifacts as its fuel: a walk that is longer meets an
artifact twice.

* `validateCase` — the check of a case: one problem, each artifact of its scope and with the shape
  of its payload, attempts that form a chain, and every reference kept;
* `currentLessonHeads`, `resolutionStateOf` — the current lessons, and how far the case has come;
* `sharedView` — the part other projects may read.
-/
import Mathlib.Data.Prod.Lex
import Memd.ExperienceEvents

open Proc (except_bind_eq_ok)

namespace Experience

open ExperienceArtifact

/-- The artifacts by their ids. -/
def byId (artifacts : List ExperienceArtifact) (id : String) : Option ExperienceArtifact :=
  artifacts.reverse.find? fun a => a.artifactId == id

/-! ## Attempts -/

/-- `u32::MAX`. -/
def u32Max : ℕ := 4294967295

/-- `attempt_ordinal`. -/
def attemptOrdinal (a : ExperienceArtifact) : Except MemdError ℕ := do
  match ← requiredEvent a with
  | .attempt _ _ ordinal _ => pure ordinal
  | _ => invalid s!"artifact '{a.artifactId}' is not an attempt"

/-- `attempt_ordinal(a).unwrap_or(0)`. -/
def ordinalOf (a : ExperienceArtifact) : ℕ :=
  match a.event with
  | some (.attempt _ _ ordinal _) => ordinal
  | _ => 0

/-- The attempt an attempt says it follows. -/
def previousOf (a : ExperienceArtifact) : Option String :=
  match a.event with
  | some (.attempt _ previous _ _) => previous
  | _ => none

/-- An attempt is the first and has no predecessor, or its ordinal follows on that of its
predecessor. -/
def checkPredecessor (attempts : List ExperienceArtifact) (a : ExperienceArtifact) :
    Except MemdError Unit :=
  match ordinalOf a, previousOf a with
  | 1, none => .ok ()
  | 1, some _ => invalid "attempt ordinal 1 cannot have a predecessor"
  | ordinal, none => invalid s!"attempt ordinal {ordinal} requires previous_attempt_id"
  | ordinal, some previousId =>
    match byId attempts previousId with
    | none => invalid s!"previous attempt '{previousId}' does not exist"
    | some previous => do
      let previousOrdinal ← attemptOrdinal previous
      demand (decide (previousOrdinal < u32Max)) "attempt ordinal overflow"
      demand (previousOrdinal + 1 == ordinal)
        s!"attempt '{a.artifactId}' does not extend ordinal {previousOrdinal}"

/-- One turn of the loop of `current_attempt`; `seen` are the ordinals so far. -/
def checkAttempt (attempts : List ExperienceArtifact) (seen : List ℕ) (a : ExperienceArtifact) :
    Except MemdError (List ℕ) := do
  demand (!seen.contains (ordinalOf a))
    s!"duplicate attempt ordinal {ordinalOf a} in task '{a.taskId}'"
  checkPredecessor attempts a
  pure (ordinalOf a :: seen)

/-- `max_by_key` with the ordinal. -/
def lastGreatest (attempts : List ExperienceArtifact) : Option ExperienceArtifact :=
  Selection.maxByKey ordinalOf attempts

/-- `current_attempt`. -/
def currentAttempt (artifacts : List ExperienceArtifact) :
    Except MemdError (Option ExperienceArtifact) :=
  let attempts := artifacts.filter isAttempt
  if attempts.isEmpty then .ok none
  else do
    let _ ← attempts.foldlM (checkAttempt attempts) []
    pure (lastGreatest attempts)

/-! ## References -/

/-- `ensure_ref`. -/
def ensureRef (artifacts : List ExperienceArtifact) (reference kind : String)
    (a : ExperienceArtifact) : Except MemdError ExperienceArtifact :=
  match byId artifacts reference with
  | some target => .ok target
  | none => invalid s!"artifact '{a.artifactId}' has missing {kind} reference '{reference}'"

/-- `validate_lesson_evidence`. -/
def validateLessonEvidence (check : ExperienceArtifact) (lesson : ConditionalLesson) :
    Except MemdError Unit := do
  let actual ← match ← requiredEvent check with
    | .check receipt => do
      demand receipt.supportsLesson "supporting check must have exit_code 0, no timeout, complete output hashes, and unchanged source evidence"
      pure LessonEvidence.executed
    | .observedCheck _ => pure LessonEvidence.observed
    | _ => invalid s!"artifact '{check.artifactId}' is not an experience check"
  demand (lesson.evidence == actual)
    s!"lesson evidence '{lesson.evidence.debug}' does not match its supporting check, which is '{actual.debug}'"

/-- A target that is a lesson or a correction. -/
def requireLesson (target : ExperienceArtifact) (message : String) : Except MemdError Unit := do
  let event ← requiredEvent target
  demand (lessonFromEvent event).isSome message

/-- `map_err`: an error is told again with what it is about. -/
def onError {α : Type} (tell : MemdError → String) : Except MemdError α → Except MemdError α
  | .ok a => .ok a
  | .error e => invalid (tell e)

/-- `validate_lesson_refs`. -/
def validateLessonRefs (artifacts : List ExperienceArtifact) (a : ExperienceArtifact)
    (lesson : ConditionalLesson) : Except MemdError Unit := do
  let _ ← ensureRef artifacts lesson.problemId "problem" a
  let check ← ensureRef artifacts lesson.supportingCheckId "supporting check" a
  let _ ← requiredEvent check
  demand check.isCheck s!"lesson '{a.artifactId}' has a non-check supporting reference"
  onError (fun e => s!"lesson '{a.artifactId}' is not supported by its check: {e.display}")
    (validateLessonEvidence check lesson)
  lesson.conflictsWith.forM fun conflict => do
    let target ← ensureRef artifacts conflict "conflicting lesson" a
    requireLesson target s!"lesson '{a.artifactId}' conflicts with a non-lesson artifact"

/-- The reference of a check. -/
def validateCheckTargetRef (artifacts : List ExperienceArtifact) (a : ExperienceArtifact)
    (attemptId : String) : Except MemdError Unit := do
  let target ← ensureRef artifacts attemptId "attempt" a
  let _ ← requiredEvent target
  demand target.isAttempt s!"check '{a.artifactId}' targets a non-attempt artifact"

/-- The second loop of `validate_case`: what an artifact refers to. -/
def checkRefs (artifacts : List ExperienceArtifact) (a : ExperienceArtifact) :
    Except MemdError Unit := do
  match ← requiredEvent a with
  | .problem .. => .ok ()
  | .attempt problemId previousAttemptId _ _ => do
    -- an attempt names its problem, and the attempt before it if there is one
    let _ ← ensureRef artifacts problemId "problem" a
    match previousAttemptId with
    | some previous => do
      let _ ← ensureRef artifacts previous "previous attempt" a
      .ok ()
    | none => .ok ()
  | .check receipt => do
    validateReceipt receipt
    validateCheckTargetRef artifacts a receipt.attemptId
  | .observedCheck check => do
    validateObservedCheck check
    validateCheckTargetRef artifacts a check.attemptId
  | .lesson lesson => do
    validateEmbeddedLesson lesson
    validateLessonRefs artifacts a lesson
  | .correction _ supersedesId replacement => do
    validateEmbeddedLesson replacement
    validateLessonRefs artifacts a replacement
    -- a correction also names the lesson it replaces
    let target ← ensureRef artifacts supersedesId "superseded lesson" a
    requireLesson target s!"correction '{a.artifactId}' supersedes a non-lesson artifact"
    demand (decide (target.eventTime ≤ a.eventTime))
      s!"correction '{a.artifactId}' predates its superseded lesson"

/-- The first loop of `validate_case`: scope, shape and problem of an artifact. -/
def checkScope (problem a : ExperienceArtifact) : Except MemdError Unit := do
  demand (a.taskId == problem.taskId && a.tenantId == problem.tenantId
      && a.projectId == problem.projectId)
    s!"artifact '{a.artifactId}' crosses its problem scope"
  validateArtifactShape a
  let event ← requiredEvent a
  demand ((problemIdOf event).all (· == problem.artifactId))
    s!"artifact '{a.artifactId}' references a different problem"

/-- `validate_case`. -/
def validateCase (artifacts : List ExperienceArtifact) : Except MemdError Unit :=
  match artifacts.filter isProblem with
  | [problem] => do
    artifacts.forM (checkScope problem)
    let _ ← currentAttempt artifacts
    artifacts.forM (checkRefs artifacts)
  | problems =>
    invalid s!"experience task must contain exactly one problem, found {problems.length}"

/-! ## Current lessons -/

/-- The corrections of an artifact, in the order of the case. -/
def childrenOf (artifacts : List ExperienceArtifact) (id : String) : List ExperienceArtifact :=
  if (byId artifacts id).isSome then artifacts.filter fun a => a.supersedes? == some id else []

/-- `collect_terminals`: the ends of the chains of corrections that start at an artifact. -/
def collectTerminals (children : String → List ExperienceArtifact) :
    ℕ → List String → ExperienceArtifact → Except MemdError (List ExperienceArtifact)
  | 0, _, _ => invalid "correction chain contains a cycle"
  | fuel + 1, visiting, a =>
    if visiting.contains a.artifactId then invalid "correction chain contains a cycle"
    else
      let next := children a.artifactId
      if next.isEmpty then .ok [a]
      else do
        let parts ← next.mapM (collectTerminals children fuel (a.artifactId :: visiting))
        pure parts.flatten

/-- The terminals of the latest time, by their ids. -/
def latest (terminals : List ExperienceArtifact) : List ExperienceArtifact :=
  (terminals.filter fun a => some a.eventTime == (terminals.map (·.eventTime)).max?).insertionSort
    fun a b => a.artifactId ≤ b.artifactId

/-- The order of `sort_artifacts`. -/
def ExperienceArtifact.sortKey (a : ExperienceArtifact) : ℤ ×ₗ ℤ ×ₗ String :=
  toLex (a.eventTime, toLex (a.timestampCreated, a.artifactId))

/-- `sort_artifacts`. -/
def sortArtifacts (artifacts : List ExperienceArtifact) : List ExperienceArtifact :=
  artifacts.insertionSort fun a b => a.sortKey ≤ b.sortKey

/-- `current_lesson_heads`: the current lessons, and the groups of those between which the time
does not decide. -/
def currentLessonHeads (artifacts : List ExperienceArtifact) :
    Except MemdError (List ExperienceArtifact × List (List String)) := do
  let groups ← (artifacts.filter isLesson).mapM fun root => do
    let terminals ← collectTerminals (childrenOf artifacts) (artifacts.length + 1) [] root
    pure (latest terminals)
  pure (sortArtifacts ((groups.filter (·.length == 1)).flatten),
    ((groups.filter (·.length != 1)).map fun g => g.map (·.artifactId)).insertionSort (· ≤ ·))

/-! ## Cases -/

/-- `ExperienceResolutionState`. -/
inductive ExperienceResolutionState
  | open | resolved | conflicted
  deriving DecidableEq, Repr

/-- `ExperienceCase`. -/
structure ExperienceCase where
  problem : ExperienceArtifact
  events : List ExperienceArtifact
  currentLessons : List ExperienceArtifact
  lessonConflicts : List (List String)
  resolutionState : ExperienceResolutionState
  deriving DecidableEq, Repr

/-- The state that conflicts and current lessons make. -/
def resolutionStateOf (conflicts : List (List String)) (current : List ExperienceArtifact) :
    ExperienceResolutionState :=
  if !conflicts.isEmpty then .conflicted
  else if current.isEmpty then .open
  else .resolved

/-- The group of a current lesson: itself and the current lessons it says it conflicts with. -/
def conflictGroup (current : List ExperienceArtifact) (a : ExperienceArtifact) : List String :=
  sortedIds (a.artifactId :: ((a.lesson?.map (·.conflictsWith)).getD []).filter fun id =>
    current.any fun c => c.artifactId == id)

/-- The groups the lessons name themselves come after those that the times leave open. -/
def addConflictGroups (current : List ExperienceArtifact) (conflicts : List (List String)) :
    List (List String) :=
  current.foldl (fun groups a =>
    let group := conflictGroup current a
    if decide (1 < group.length) && !groups.contains group then groups ++ [group] else groups)
    conflicts

/-- The end of `resolve_case`, from the experience artifacts of the task of the problem. -/
def caseOf (problem : ExperienceArtifact) (artifacts : List ExperienceArtifact) :
    Except MemdError ExperienceCase := do
  let events := sortArtifacts artifacts
  validateCase events
  let (current, conflicts) ← currentLessonHeads events
  let conflicts := (addConflictGroups current conflicts).insertionSort (· ≤ ·)
  pure ⟨problem, events, current, conflicts, resolutionStateOf conflicts current⟩

namespace ExperienceCase

/-- `is_shared`. -/
def isShared (c : ExperienceCase) : Bool :=
  (c.currentLessons.filterMap (·.lesson?)).any (·.visibility == .shared)

/-- The lessons that are for the project only. -/
def hiddenLessons (c : ExperienceCase) : List String :=
  (c.events.filter fun a => a.lesson?.any (·.visibility != .shared)).map (·.artifactId)

/-- The checks of the lessons with a visibility. -/
def supportingChecks (c : ExperienceCase) (shared : Bool) : List String :=
  (c.events.filterMap (·.lesson?)).filterMap fun lesson =>
    if (lesson.visibility == .shared) == shared then some lesson.supportingCheckId else none

/-- What other projects must not see: lessons of the project, and checks only such lessons
have. -/
def isHidden (c : ExperienceCase) (id : String) : Bool :=
  c.hiddenLessons.contains id ||
    ((c.supportingChecks false).contains id && !(c.supportingChecks true).contains id)

/-- `shared_view`. -/
def sharedView (c : ExperienceCase) : ExperienceCase :=
  let current := c.currentLessons.filter fun a => !c.isHidden a.artifactId
  let conflicts := (c.lessonConflicts.map fun group => group.filter fun id => !c.isHidden id).filter
    fun group => decide (1 < group.length)
  { problem := c.problem
    events := c.events.filter fun a => !c.isHidden a.artifactId
    currentLessons := current
    lessonConflicts := conflicts
    resolutionState := resolutionStateOf conflicts current }

end ExperienceCase

end Experience
