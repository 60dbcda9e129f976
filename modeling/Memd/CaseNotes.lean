/-
# Notes of solved problems

`record_case` of `experience/note.rs`: a case file becomes a problem, an attempt for each failed
approach and one for the fix, a check of the fix and a lesson; with a receipt, a lesson of the
problem of the receipt.  A submission that is stored already is a replay and writes nothing.

A case file is the value after its JSON is read.  The records of one note are written one after the
other under the mutation lock, each with what it draws (`draws`).
-/
import Memd.MachineInt
import Memd.ProjectionLinks
import Memd.SortedMap

open Proc (except_bind_eq_ok)

namespace Experience

open ExperienceArtifact

/-! ## Case files -/

/-- `CheckMethod`. -/
inductive CheckMethod
  | observed | executed
  deriving DecidableEq, Repr

/-- `CaseCheck`. -/
structure CaseCheck where
  method : CheckMethod
  result : String
  command : Option String := none
  receiptId : Option String := none
  deriving DecidableEq, Repr

/-- `CaseFile`. -/
structure CaseFile where
  problem : String
  symptoms : List String
  failed : List String := []
  fix : String
  check : CaseCheck
  appliesWhen : SortedMap String String := .empty
  evidence : List String := []
  visibility : LessonVisibility := .shared

/-- `text`. -/
def validateText (field value : String) (max : ℕ) : Except MemdError Unit :=
  demand (!isBlank value && decide (value.toList.length ≤ max))
    s!"{field} must be 1..{max} characters and not blank"

/-- `items`. -/
def validateItems (field : String) (values : List String) (min max each : ℕ) :
    Except MemdError Unit := do
  demand (decide (min ≤ values.length) && decide (values.length ≤ max))
    s!"{field} must hold {min}..{max} items"
  values.forM fun value => validateText s!"{field} item" value each

/-- `is_condition_key`.  Only ASCII characters pass, so the bytes are the characters. -/
def isConditionKey (key : String) : Bool :=
  match key.toList with
  | [] => false
  | c :: rest => c.isLower && decide ((c :: rest).length ≤ 32) &&
    rest.all fun c => c.isLower || c.isDigit || c == '_'

/-- `validate_shared_id`. -/
def validateSharedId (id : String) : Except MemdError Unit :=
  let valid := match id.toList with
    | [] => false
    | c :: rest => decide ((c :: rest).length ≤ 80) && c.isAlphanum &&
      rest.all fun c => c.isAlphanum || c == '.' || c == '_' || c == '-'
  demand valid "shared ID must be 1..80 characters of letters, digits, '.', '_' or '-'"

/-- One turn of the loop over `applies_when`. -/
def validateAppliesWhen (entry : String × String) : Except MemdError Unit := do
  let key := entry.1
  demand (isConditionKey key)
    s!"applies_when key '{key}' must match ^[a-z][a-z0-9_]\x7b0,31\x7d$"
  validateText s!"applies_when.{key}" entry.2 80

/-- `CaseFile::validate`. -/
def CaseFile.validate (case : CaseFile) : Except MemdError Unit := do
  validateText "problem" case.problem 300
  validateItems "symptoms" case.symptoms 1 12 80
  validateItems "failed" case.failed 0 8 300
  validateText "fix" case.fix 1000
  validateText "check.result" case.check.result 300
  case.check.command.forM fun command => validateText "check.command" command 300
  case.check.receiptId.forM fun receiptId => do
    validateText "check.receipt_id" receiptId 80
    demand (case.check.method == .executed) "check.receipt_id requires method \"executed\""
  demand (decide (case.appliesWhen.entries.length ≤ 8)) "applies_when may hold at most 8 keys"
  case.appliesWhen.entries.forM validateAppliesWhen
  demand (!((case.appliesWhen.get? "version").isSome && (case.appliesWhen.get? "tool").isNone))
    "applies_when.version requires applies_when.tool"
  validateItems "evidence" case.evidence 0 8 300

/-! ## Lessons of case files -/

/-- `lesson_from_case`. -/
def lessonFromCase (case : CaseFile) (problemId checkId : String) (evidence : LessonEvidence) :
    ConditionalLesson where
  problemId := problemId
  supportingCheckId := checkId
  guidance := case.fix
  symptomTerms := case.symptoms
  applicability :=
    { machine := case.appliesWhen.get? "machine"
      tool := case.appliesWhen.get? "tool"
      version := case.appliesWhen.get? "version" }
  visibility := case.visibility
  evidence := evidence
  context := (((case.appliesWhen.erase "machine").erase "tool").erase "version").entries
  links := case.evidence

/-- A condition that has a value is added. -/
def insertSome (key : String) (value : Option String) (conditions : List (String × String)) :
    List (String × String) :=
  match value with
  | some value => insertEntry key value conditions
  | none => conditions

/-- `applies_when_of`. -/
def appliesWhenOf (lesson : ConditionalLesson) : List (String × String) :=
  insertSome "version" lesson.applicability.version
    (insertSome "tool" lesson.applicability.tool
      (insertSome "machine" lesson.applicability.machine lesson.context))

/-- `NoteOutcome`. -/
structure NoteOutcome where
  problemId : String
  attemptIds : List String
  checkId : String
  lessonId : String
  evidence : LessonEvidence
  replay : Bool
  deriving DecidableEq, Repr

/-! ## Times -/

/-- `Clock::tick`: the time of the `n`-th record of a note; the addition wraps around. -/
def tick (start : ℤ) (n : ℕ) : ℤ :=
  IntType.i64.cast (start + n)

/-- The context of the `n`-th record. -/
def ExperienceContext.at (ctx : ExperienceContext) (start : ℤ) (n : ℕ) : ExperienceContext :=
  { ctx with observedAtMs := some (tick start n) }

namespace ExperienceStore

variable (s : ExperienceStore)

/-! ## Replays -/

/-- The last comparison of `has_same_content`. -/
def describesProblem (t : TenantId) (problemId description : String) : Bool :=
  match (s.getExperience t problemId).bind (·.event) with
  | some (.problem stored _) => stored == description
  | _ => false

/-- The comparison of the check in `has_same_content`. -/
def hasSameCheck (ctx : ExperienceContext) (case : CaseFile) (lesson : ConditionalLesson) : Bool :=
  match case.check.receiptId.filter fun _ => case.check.method == .executed with
  | some receiptId => lesson.supportingCheckId == receiptId
  | none =>
    match (s.getExperience ctx.tenantId lesson.supportingCheckId).bind (·.event) with
    | some (.observedCheck observed) =>
      observed.result == case.check.result && observed.command == case.check.command &&
        s.describesProblem ctx.tenantId lesson.problemId case.problem
    | _ => false

/-- `has_same_content`. -/
def hasSameContent (ctx : ExperienceContext) (case : CaseFile) (a : ExperienceArtifact) : Bool :=
  match a.lesson? with
  | none => false
  | some lesson =>
    lesson.guidance == case.fix && lesson.symptomTerms == case.symptoms &&
      appliesWhenOf lesson == case.appliesWhen.entries && s.hasSameCheck ctx case lesson

/-- A stored lesson is the submission: by the URI of the provenance when there is one. -/
def repeats (ctx : ExperienceContext) (case : CaseFile) (a : ExperienceArtifact) : Bool :=
  match ctx.provenance.uri with
  | some uri => a.provenance.uri == some uri
  | none => s.hasSameContent ctx case a

/-- The stored lessons of the project, by their ids. -/
def projectLessons (ctx : ExperienceContext) : List ExperienceArtifact :=
  ((s.artifactsOfRole ctx.tenantId roleLesson ctx.projectId).filter
    fun a => a.projectId == ctx.projectId).insertionSort fun a b => a.artifactId ≤ b.artifactId

/-- `find_replay`. -/
def findReplay (ctx : ExperienceContext) (case : CaseFile) : Option ExperienceArtifact :=
  (s.projectLessons ctx).find? (s.repeats ctx case)

/-- `outcome_for`. -/
def outcomeFor (ctx : ExperienceContext) (a : ExperienceArtifact) (replay : Bool) :
    Except MemdError NoteOutcome := do
  let event ← requiredEvent a
  let lesson ← required (lessonFromEvent event) "stored artifact is not a lesson"
  let stored ← s.resolveCase ctx.tenantId lesson.problemId
  pure
    { problemId := lesson.problemId
      attemptIds := (stored.events.filter isAttempt).map (·.artifactId)
      checkId := lesson.supportingCheckId
      lessonId := a.artifactId
      evidence := lesson.evidence
      replay := replay }

/-! ## Writing -/

/-- One turn of the loop over the approaches. -/
def noteAttempt (ctx : ExperienceContext) (start : ℤ) (draws : ℕ → Draw) (problemId : String)
    (acc : List String × ExperienceStore) (action : String) :
    Except MemdError (List String × ExperienceStore) := do
  let n := acc.1.length + 1
  let (attempt, s) ← acc.2.record (ctx.at start n) (draws n)
    (.attempt problemId acc.1.getLast? action)
  pure (acc.1 ++ [attempt.artifactId], s)

/-- `create_case`. -/
def createCase (ctx : ExperienceContext) (now : ℤ) (draws : ℕ → Draw) (case : CaseFile) :
    Except MemdError (NoteOutcome × ExperienceStore) := do
  -- one clock for the whole note; its writes are a tick apart
  let start := ctx.observedAtMs.getD now
  let (problem, s) ← s.record (ctx.at start 0) (draws 0) (.problem case.problem case.symptoms)
  -- the approaches that failed, and the fix behind them
  let (attemptIds, s) ← (case.failed ++ [case.fix]).foldlM
    (noteAttempt ctx start draws problem.artifactId) ([], s)
  let fixAttemptId ← required attemptIds.getLast? "the fix is an attempt"
  let n := attemptIds.length + 1
  let (check, s) ← s.recordObservedCheck (ctx.at start n) (draws n)
    ⟨fixAttemptId, case.check.result, case.check.command⟩
  let (lesson, s) ← s.record (ctx.at start (n + 1)) (draws (n + 1))
    (.lesson (lessonFromCase case problem.artifactId check.artifactId .observed))
  pure (⟨problem.artifactId, attemptIds, check.artifactId, lesson.artifactId, .observed, false⟩, s)

/-- `attach_to_receipt`. -/
def attachToReceipt (ctx : ExperienceContext) (now : ℤ) (draw : Draw) (case : CaseFile)
    (receiptId : String) : Except MemdError (NoteOutcome × ExperienceStore) := do
  let check ← required (s.getExperience ctx.tenantId receiptId)
    s!"receipt '{receiptId}' does not exist"
  -- only an executed check that supports a lesson will do
  let receipt ← match ← requiredEvent check with
    | .check receipt => pure receipt
    | _ => invalid s!"artifact '{receiptId}' is not an executed check receipt"
  demand receipt.supportsLesson
    "receipt must have exit_code 0, no timeout, complete output hashes, and unchanged source evidence"
  ensureProject ctx.projectId check.projectId
  let attempt ← required (s.getExperience ctx.tenantId receipt.attemptId)
    s!"attempt '{receipt.attemptId}' does not exist"
  -- the lesson is of the problem whose attempt was checked
  let problemId ← match ← requiredEvent attempt with
    | .attempt problemId _ _ _ => pure problemId
    | _ => invalid s!"receipt '{receiptId}' does not check an attempt"
  -- the lesson is recorded with the receipt as its evidence
  let (lesson, s) ← s.record (ctx.at (ctx.observedAtMs.getD now) 0) draw
    (.lesson (lessonFromCase case problemId receiptId .executed))
  let outcome ← s.outcomeFor ctx lesson false
  pure (outcome, s)

/-- The context of a note, which carries the shared id as its provenance. -/
def noteContext (ctx : ExperienceContext) (sharedId : Option String) : ExperienceContext :=
  match sharedId with
  | some id => { ctx with provenance := { ctx.provenance with uri := some s!"agentdash:{id}" } }
  | none => ctx

/-- `record_case`. -/
def recordCase (ctx : ExperienceContext) (now : ℤ) (draws : ℕ → Draw) (case : CaseFile)
    (sharedId : Option String) : Except MemdError (NoteOutcome × ExperienceStore) := do
  case.validate
  demand ctx.projectId.isSome "experience cases require an explicit project_id"
  sharedId.forM validateSharedId
  let ctx := noteContext ctx sharedId
  -- a case that was noted already is answered from the store
  match s.findReplay ctx case with
  | some lesson => do
    let outcome ← s.outcomeFor ctx lesson true
    pure (outcome, s)
  | none =>
    -- with the id of a receipt the lesson is attached to its check, else the whole case is written
    match case.check.receiptId.filter fun _ => case.check.method == .executed with
    | some receiptId => s.attachToReceipt ctx now (draws 0) case receiptId
    | none => s.createCase ctx now draws case

end ExperienceStore

end Experience
