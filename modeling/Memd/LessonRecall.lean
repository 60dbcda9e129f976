/-
# Recall of lessons

`retrieve_lessons` of `experience/recall.rs`: the current lessons that a query may see, whose
conditions it meets and whose symptoms share a word with it.

Which characters are words, and their lower case, come from the tables of Unicode (`WordTables`).
The maps by artifact id are walked in the order of insertion: the answer does not depend on it,
since the lessons are sorted down to their ids.  `expect` fails as an error of the same text; on a
journal it never does.
-/
import Memd.ProjectionLinks

open Proc (except_bind_eq_ok)

namespace Experience

open ExperienceArtifact

/-! ## Queries and answers -/

/-- `LessonQuery`. -/
structure LessonQuery where
  tenantId : TenantId
  projectId : Option String := none
  symptom : String
  machine : Option String := none
  tool : Option String := none
  version : Option String := none
  includeShared : Bool := false
  limit : ℕ := 5
  deriving DecidableEq, Repr

/-- `ApplicableLesson`. -/
structure ApplicableLesson where
  artifact : ExperienceArtifact
  lexicalScore : ℕ
  evidence : LessonEvidence
  deriving DecidableEq, Repr

/-- `RecallAbstention`. -/
inductive RecallAbstention
  | noMatch
  | unknownRequiredCondition (fields : List String)
  | conflict (lessonIds : List String)
  deriving DecidableEq, Repr

/-- `LessonRecall`. -/
inductive LessonRecall
  | matched (lessons : List ApplicableLesson)
  | abstain (reason : RecallAbstention)
  deriving DecidableEq, Repr

/-! ## Words -/

/-- `char::is_alphanumeric` and `str::to_lowercase`. -/
structure WordTables where
  isAlphanumeric : Char → Bool
  toLowercase : String → String

/-- `is_stop_word`. -/
def isStopWord (token : String) : Bool :=
  ["a", "an", "and", "are", "as", "at", "be", "by", "for", "from", "in", "is", "it", "not", "of",
    "on", "or", "that", "the", "this", "to", "was", "with"].contains token

/-- `lexical_tokens`. -/
def lexicalTokens (w : WordTables) (text : String) : List String :=
  (((((text.toList.splitOnP fun c => !w.isAlphanumeric c).map String.ofList).filter fun token =>
    decide (1 < token.utf8ByteSize)).map w.toLowercase).filter fun token => !isStopWord token).dedup

/-- `lexical_overlap`. -/
def lexicalOverlap (w : WordTables) (query terms : List String) : ℕ :=
  (query.filter fun token => (terms.flatMap (lexicalTokens w)).contains token).length

/-! ## Scope and conditions -/

/-- `scope_matches`. -/
def scopeMatches (a : ExperienceArtifact) (lesson : ConditionalLesson) (q : LessonQuery) : Bool :=
  a.projectId == q.projectId || (q.includeShared && lesson.visibility == .shared)

/-- What a lesson requires of a query. -/
structure Condition where
  field : String
  required : Option String
  actual : Option String
  deriving DecidableEq, Repr

/-- The conditions of a lesson, against a query. -/
def conditionsOf (lesson : ConditionalLesson) (q : LessonQuery) : List Condition :=
  [⟨"machine", lesson.applicability.machine, q.machine⟩,
    ⟨"tool", lesson.applicability.tool, q.tool⟩,
    ⟨"version", lesson.applicability.version, q.version⟩]

/-- `ConditionMatch`. -/
inductive ConditionMatch
  | eligible
  | unknown (fields : List String)
  | mismatch
  deriving DecidableEq, Repr

/-- The loop of `conditions_match`; `unknown` are the fields so far that the query leaves open. -/
def matchConditions (unknown : List String) : List Condition → ConditionMatch
  | [] => if unknown.isEmpty then .eligible else .unknown unknown
  | c :: rest =>
    match c.required, c.actual with
    | some _, none => matchConditions (unknown ++ [c.field]) rest
    | some required, some actual =>
      if required ≠ actual then .mismatch else matchConditions unknown rest
    | none, _ => matchConditions unknown rest

/-- `conditions_match`. -/
def conditionsMatch (lesson : ConditionalLesson) (q : LessonQuery) : ConditionMatch :=
  matchConditions [] (conditionsOf lesson q)

/-! ## Candidates -/

/-- What a case offers: its current lessons and the sides of its conflicts. -/
def ExperienceCase.offered (c : ExperienceCase) : List ExperienceArtifact :=
  c.currentLessons ++ c.lessonConflicts.flatten.filterMap fun id =>
    c.events.find? (·.artifactId == id)

/-- The artifacts with the role of a lesson or a correction that a query looks at. -/
def ExperienceStore.lessonArtifacts (s : ExperienceStore) (q : LessonQuery) :
    List ExperienceArtifact :=
  let projectId := if q.includeShared then none else q.projectId
  s.artifactsOfRole q.tenantId roleLesson projectId ++
    s.artifactsOfRole q.tenantId roleCorrection projectId

/-- One turn of the loop of `candidate_lessons`. -/
def addCandidate (q : LessonQuery) (found : List ExperienceArtifact) (a : ExperienceArtifact) :
    Except MemdError (List ExperienceArtifact) := do
  let event ← requiredEvent a
  let shared := (lessonFromEvent event).any fun lesson => lesson.visibility == .shared
  if a.projectId == q.projectId || (q.includeShared && shared) then
    pure (Table.insertOrReplace (fun x y => x.artifactId == y.artifactId) a found)
  else pure found

/-- `candidate_lessons`. -/
def ExperienceStore.candidateLessons (s : ExperienceStore) (q : LessonQuery) :
    Except MemdError (List ExperienceArtifact) :=
  (s.lessonArtifacts q).foldlM (addCandidate q) []

/-! ## Recall -/

/-- The matches so far, and the fields that the query leaves open. -/
structure Judged where
  found : List ApplicableLesson := []
  unknown : List String := []

/-- One turn of the loop over the current lessons. -/
def judge (w : WordTables) (q : LessonQuery) (acc : Judged) (a : ExperienceArtifact) :
    Except MemdError Judged := do
  let event ← requiredEvent a
  let lesson ← required (lessonFromEvent event) "current lesson head must contain lesson data"
  if !scopeMatches a lesson q then pure acc
  else
    -- a lesson without a word in common is not judged by its conditions
    let score := lexicalOverlap w (lexicalTokens w q.symptom) lesson.symptomTerms
    if score == 0 then pure acc
    else
      match conditionsMatch lesson q with
      | .eligible => pure { acc with found := acc.found ++ [⟨a, score, lesson.evidence⟩] }
      | .unknown fields => pure { acc with unknown := acc.unknown ++ fields }
      | .mismatch => pure acc

/-- The conflicts that a match names with one of the matches. -/
def namedConflicts (matchedIds : List String) (item : ApplicableLesson) :
    Except MemdError (List String) := do
  let event ← requiredEvent item.artifact
  let lesson ← required (lessonFromEvent event) "matched artifact must be a lesson"
  pure ((lesson.conflictsWith.filter matchedIds.contains).flatMap fun id =>
    [item.artifact.artifactId, id])

/-- The conflicts that the matches name among themselves. -/
def explicitConflicts (found : List ApplicableLesson) : Except MemdError (List String) := do
  let named ← found.mapM (namedConflicts (found.map (·.artifact.artifactId)))
  pure (sortedIds named.flatten)

/-- The order of the answer: more shared words first, then the later time, then the id. -/
def ApplicableLesson.rank (x : ApplicableLesson) : ℤ ×ₗ ℤ ×ₗ String :=
  toLex (-(x.lexicalScore : ℤ), toLex (-x.artifact.eventTime, x.artifact.artifactId))

/-- The end of `retrieve_lessons`, from what was judged and the conflicts of the cases. -/
def answer (limit : ℕ) (judged : Judged) (branchConflicts : List (List String)) :
    Except MemdError LessonRecall :=
  -- nothing applies: a condition that was not told is named, if there is one
  if judged.found.isEmpty then
    if !judged.unknown.isEmpty then
      .ok (.abstain (.unknownRequiredCondition (sortedIds judged.unknown)))
    else .ok (.abstain .noMatch)
  else
    let matchedIds := judged.found.map (·.artifact.artifactId)
    -- lessons of one case that contradict each other are not offered
    match branchConflicts.find? fun ids => ids.any matchedIds.contains with
    | some ids => .ok (.abstain (.conflict (sortedIds ids)))
    | none => do
      -- nor are lessons of which one names the other as contradicting
      let explicit ← explicitConflicts judged.found
      if !explicit.isEmpty then pure (.abstain (.conflict explicit))
      else pure (.matched ((judged.found.insertionSort fun x y => x.rank ≤ y.rank).take limit))

/-- `retrieve_lessons`. -/
def ExperienceStore.retrieveLessons (s : ExperienceStore) (w : WordTables) (q : LessonQuery) :
    Except MemdError LessonRecall := do
  demand (!isBlank q.symptom) "symptom must not be empty"
  demand (q.limit != 0) "limit must be greater than zero"
  let candidates ← s.candidateLessons q
  let events ← candidates.mapM requiredEvent
  let cases ← (sortedIds (events.filterMap problemIdOf)).mapM (s.resolveCase q.tenantId)
  let current := valuesById (cases.flatMap ExperienceCase.offered)
  let judged ← current.foldlM (judge w q) {}
  answer q.limit judged (cases.flatMap (·.lessonConflicts))

end Experience
