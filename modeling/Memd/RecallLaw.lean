/-
# What recall answers

The answer of a query for lessons, told without the loops that compute it (`RecallLaw`), and that
`retrieve_lessons` gives it on every journal.

* `conditionsMatch_eq_eligible`, `conditionsMatch_eq_unknown` — the exact conditions of a lesson;
* `Searchable.retrieveLessons` — recall finds every latest version in scope that applies, in order
  of rank up to the limit, and nothing that was corrected; it abstains when an applicable lesson is
  contested, when only fields of the query are missing, and when nothing applies; it fails only on
  an artifact that has the role of a lesson and is none;
* `Run.recall_law` — so it does after every run.

A lesson that names itself as conflicting, which an import lets through, makes recall abstain.
-/
import Memd.LessonRecall

open Proc (except_bind_eq_ok)

namespace Experience

open ExperienceArtifact

variable {s : ExperienceStore} {a b p : ExperienceArtifact} {t : TenantId} {q : LessonQuery}
  {w : WordTables} {lesson : ConditionalLesson} {id : String}

/-! ## Conditions -/

namespace Condition

/-- The lesson requires a value and the query gives none. -/
def isOpen (c : Condition) : Bool :=
  c.required.isSome && c.actual.isNone

/-- The query gives another value than the one that the lesson requires. -/
def differs (c : Condition) : Bool :=
  c.required.any fun required => c.actual.any fun actual => required != actual

end Condition

/-- The fields that the query leaves open. -/
def openFields (lesson : ConditionalLesson) (q : LessonQuery) : List String :=
  ((conditionsOf lesson q).filter Condition.isOpen).map (·.field)

theorem matchConditions_eq (unknown : List String) (l : List Condition) :
    matchConditions unknown l = if l.any Condition.differs then .mismatch
      else if (unknown ++ (l.filter Condition.isOpen).map (·.field)).isEmpty then .eligible
      else .unknown (unknown ++ (l.filter Condition.isOpen).map (·.field)) := by
  induction l generalizing unknown with
  | nil =>
    rw [matchConditions]
    simp
  | cons c rest ih =>
    rw [matchConditions, List.any_cons, List.filter_cons]
    obtain ⟨field, required, actual⟩ := c
    cases required with
    | none => simpa [Condition.differs, Condition.isOpen] using ih unknown
    | some required =>
      cases actual with
      | none => simpa [Condition.differs, Condition.isOpen] using ih (unknown ++ [field])
      | some actual =>
        by_cases hsame : required = actual
        · simpa [Condition.differs, Condition.isOpen, hsame] using ih unknown
        · simp [Condition.differs, hsame]

theorem any_differs_eq_false {l : List Condition} :
    l.any Condition.differs = false ↔ ∀ c ∈ l, c.differs = false := by
  rw [List.any_eq_false]
  exact forall₂_congr fun c _ => Iff.of_eq (Bool.not_eq_true _)

/-- **A lesson applies** when the query has the value of each of its conditions. -/
theorem conditionsMatch_eq_eligible : conditionsMatch lesson q = .eligible ↔
    ∀ c ∈ conditionsOf lesson q, c.required = none ∨ c.required = c.actual := by
  have hmet : ∀ c : Condition, (c.required = none ∨ c.required = c.actual) ↔
      c.differs = false ∧ c.isOpen = false := by
    rintro ⟨field, required, actual⟩
    cases required <;> cases actual <;> simp [Condition.differs, Condition.isOpen]
  rw [conditionsMatch, matchConditions_eq, List.nil_append]
  simp only [hmet]
  split_ifs with hdiffers hopen
  · obtain ⟨c, hc, hdc⟩ := List.any_eq_true.mp hdiffers
    simp only [false_iff]
    intro hall
    rw [(hall c hc).1] at hdc
    exact absurd hdc (by decide)
  · rw [List.isEmpty_iff, List.map_eq_nil_iff, List.filter_eq_nil_iff] at hopen
    simp only [true_iff]
    intro c hc
    constructor
    · exact any_differs_eq_false.mp (eq_false_of_ne_true hdiffers) c hc
    · simpa using hopen c hc
  · simp only [false_iff]
    intro hall
    apply hopen
    rw [List.isEmpty_iff, List.map_eq_nil_iff, List.filter_eq_nil_iff]
    intro c hc
    simp [(hall c hc).2]

/-- **A lesson may apply** when the query contradicts none of its conditions and leaves some
open. -/
theorem conditionsMatch_eq_unknown {fields : List String} :
    conditionsMatch lesson q = .unknown fields ↔
      (∀ c ∈ conditionsOf lesson q, c.differs = false) ∧ fields ≠ [] ∧
        fields = openFields lesson q := by
  rw [conditionsMatch, matchConditions_eq, List.nil_append, ← openFields]
  split_ifs with hdiffers hopen
  · obtain ⟨c, hc, hdc⟩ := List.any_eq_true.mp hdiffers
    simp only [false_iff]
    rintro ⟨hall, -⟩
    rw [hall c hc] at hdc
    exact absurd hdc (by decide)
  · simp only [false_iff]
    rintro ⟨-, hne, rfl⟩
    exact hne (List.isEmpty_iff.mp hopen)
  · have hall : ∀ c ∈ conditionsOf lesson q, c.differs = false :=
      any_differs_eq_false.mp (eq_false_of_ne_true hdiffers)
    rw [ConditionMatch.unknown.injEq]
    constructor
    · rintro rfl
      exact ⟨hall, fun hnil => hopen (List.isEmpty_iff.mpr hnil), rfl⟩
    · rintro ⟨-, -, rfl⟩
      rfl

/-! ## The law of recall -/

/-- What a case of the tenant offers: a current lesson, or the side of a conflict. -/
def Offers (s : ExperienceStore) (t : TenantId) (a : ExperienceArtifact) : Prop :=
  ∃ id c, s.resolveCase t id = .ok c ∧ a ∈ c.offered

/-- The lesson is the side of a conflict. -/
def Contested (s : ExperienceStore) (t : TenantId) (a : ExperienceArtifact) : Prop :=
  ∃ id c, s.resolveCase t id = .ok c ∧ ∃ group ∈ c.lessonConflicts, a.artifactId ∈ group

/-- The lesson is in scope and shares a word with the symptom. -/
def Fits (w : WordTables) (q : LessonQuery) (a : ExperienceArtifact) (lesson : ConditionalLesson) :
    Prop :=
  scopeMatches a lesson q = true ∧
    0 < lexicalOverlap w (lexicalTokens w q.symptom) lesson.symptomTerms

/-- The latest version of a lesson that fits the query. -/
structure Relevant (s : ExperienceStore) (w : WordTables) (q : LessonQuery)
    (a : ExperienceArtifact) (lesson : ConditionalLesson) : Prop where
  offers : Offers s q.tenantId a
  lesson_eq : a.lesson? = some lesson
  fits : Fits w q a lesson

/-- A relevant lesson whose conditions the query meets. -/
def Applicable (s : ExperienceStore) (w : WordTables) (q : LessonQuery) (a : ExperienceArtifact)
    (lesson : ConditionalLesson) : Prop :=
  Relevant s w q a lesson ∧
    ∀ c ∈ conditionsOf lesson q, c.required = none ∨ c.required = c.actual

/-- A relevant lesson whose conditions the query does not contradict, but leaves open. -/
def Uncertain (s : ExperienceStore) (w : WordTables) (q : LessonQuery) (a : ExperienceArtifact)
    (lesson : ConditionalLesson) : Prop :=
  Relevant s w q a lesson ∧ (∀ c ∈ conditionsOf lesson q, c.differs = false) ∧
    openFields lesson q ≠ []

/-- How a lesson is answered. -/
def answered (w : WordTables) (q : LessonQuery) (a : ExperienceArtifact)
    (lesson : ConditionalLesson) : ApplicableLesson :=
  ⟨a, lexicalOverlap w (lexicalTokens w q.symptom) lesson.symptomTerms, lesson.evidence⟩

/-- **What recall answers.** -/
def RecallLaw (s : ExperienceStore) (w : WordTables) (q : LessonQuery) : LessonRecall → Prop
  -- the first of all applicable lessons by rank, none of them contested
  | .matched lessons => ∃ all, all ≠ [] ∧ lessons = all.take q.limit ∧
      (all.Pairwise fun x y => x.rank < y.rank) ∧
      (∀ x, x ∈ all ↔ ∃ lesson, Applicable s w q x.artifact lesson ∧ x = answered w q x.artifact lesson) ∧
      ∀ x ∈ all, ¬ Contested s q.tenantId x.artifact
  -- a conflict that an applicable lesson is in, or lessons that name themselves as conflicting
  | .abstain (.conflict ids) =>
      (∃ id c group, s.resolveCase q.tenantId id = .ok c ∧ group ∈ c.lessonConflicts ∧
        ids = sortedIds group ∧ ∃ a lesson, Applicable s w q a lesson ∧ a.artifactId ∈ group) ∨
      (ids ≠ [] ∧ ∀ id, id ∈ ids ↔ ∃ a lesson, Applicable s w q a lesson ∧ a.artifactId = id ∧
        id ∈ lesson.conflictsWith)
  -- no lesson applies, but some may
  | .abstain (.unknownRequiredCondition fields) =>
      (∀ a lesson, ¬ Applicable s w q a lesson) ∧ fields ≠ [] ∧
      ∀ field, field ∈ fields ↔ ∃ a lesson, Uncertain s w q a lesson ∧ field ∈ openFields lesson q
  | .abstain .noMatch =>
      ∀ a lesson, ¬ Applicable s w q a lesson ∧ ¬ Uncertain s w q a lesson

/-! ## What a case offers -/

/-- A resolved case offers the latest versions of its lessons. -/
theorem mem_offered {l : List ExperienceArtifact} (hk : KeyedIds l) (hcausal : CausalCase l) :
    a ∈ (resolved p l).offered ↔ ∃ g ∈ headGroups l, a ∈ g := by
  unfold ExperienceCase.offered
  show a ∈ currentOf l ++ (conflictsOf l).flatten.filterMap
    (fun id => l.find? (·.artifactId == id)) ↔ _
  rw [List.mem_append, mem_currentOf, List.mem_filterMap]
  constructor
  · rintro (hone | ⟨id, hid, hfind⟩)
    · exact ⟨[a], hone, List.mem_singleton_self a⟩
    · obtain ⟨g, hg, b, hb, rfl⟩ := mem_headGroups_of_conflict hid
      have hbl := (isSome_lesson?_of_mem_headGroups hk hcausal hg hb).1
      have hsame : a.artifactId = b.artifactId := by simpa using List.find?_some hfind
      exact ⟨g, hg, hk.eq (List.mem_of_find?_eq_some hfind) hbl hsame ▸ hb⟩
  · rintro ⟨g, hg, ha⟩
    by_cases hlen : g.length = 1
    · obtain ⟨b, rfl⟩ := List.length_eq_one_iff.mp hlen
      obtain rfl := List.mem_singleton.mp ha
      exact .inl hg
    · -- versions of one time are a conflict
      have hopen : g.map (·.artifactId) ∈ openGroups l := by
        rw [openGroups, List.mem_insertionSort]
        exact List.mem_map_of_mem (List.mem_filter.mpr ⟨hg, by simpa using hlen⟩)
      have hal := (isSome_lesson?_of_mem_headGroups hk hcausal hg ha).1
      refine .inr ⟨a.artifactId, List.mem_flatten.mpr ⟨g.map (·.artifactId), ?_,
        List.mem_map_of_mem ha⟩, ?_⟩
      · rw [conflictsOf, List.mem_insertionSort, mem_addConflictGroups]
        exact .inl hopen
      · cases hfind : l.find? (·.artifactId == a.artifactId) with
        | none =>
          have hno := List.find?_eq_none.mp hfind a hal
          simp at hno
        | some b =>
          have hsame : b.artifactId = a.artifactId := by simpa using List.find?_some hfind
          rw [hk.eq (List.mem_of_find?_eq_some hfind) hal hsame]

/-- What is offered and in no conflict is a current lesson. -/
theorem mem_currentLessons_of_offered {c : ExperienceCase} (h : a ∈ c.offered)
    (hfree : ∀ group ∈ c.lessonConflicts, a.artifactId ∉ group) : a ∈ c.currentLessons := by
  rcases List.mem_append.mp h with hcurrent | hconflict
  · exact hcurrent
  · obtain ⟨id, hid, hfind⟩ := List.mem_filterMap.mp hconflict
    obtain ⟨group, hgroup, hmem⟩ := List.mem_flatten.mp hid
    have hsame : a.artifactId = id := by simpa using List.find?_some hfind
    exact absurd (hsame ▸ hmem) (hfree group hgroup)

/-- The case of a lesson, and its problem. -/
theorem Journal.problem_of_lesson (h : Journal s) (ha : a ∈ s.experience)
    (hlesson : a.lesson?.isSome = true) : ∃ event p, a.event = some event ∧
      problemIdOf event = some p.artifactId ∧ p ∈ s.artifacts ∧ p.tenantId = a.tenantId ∧
      p.taskId = a.taskId ∧ p.isProblem = true := by
  obtain ⟨hmem, hevent⟩ := mem_experience.mp ha
  obtain ⟨p, hp, hscope⟩ := (h.law a hmem hevent).problem
  obtain ⟨hpcase, hproblem⟩ := List.mem_filter.mp (hp ▸ List.mem_singleton_self p)
  obtain ⟨hpmem, -, hptenant, hptask⟩ := mem_caseEvents.mp hpcase
  obtain ⟨event, henv, hpid⟩ := (hscope a (mem_caseEvents.mpr ⟨hmem, hevent, rfl, rfl⟩)).shape
  have hsome : (problemIdOf event).isSome = true := by
    unfold lesson? at hlesson
    rw [henv.event_eq] at hlesson
    cases event <;> first | rfl | simp [lessonFromEvent] at hlesson
  obtain ⟨id, hid⟩ := Option.isSome_iff_exists.mp hsome
  exact ⟨event, p, henv.event_eq, by rw [hid, hpid id hid], hpmem, hptenant, hptask, hproblem⟩

theorem Journal.mem_offered (h : Journal s) {c : ExperienceCase} (hc : s.resolveCase t id = .ok c)
    (ha : a ∈ c.offered) : a ∈ s.experience ∧ a.tenantId = t ∧ a.lesson?.isSome = true ∧
      ∃ p, p.artifactId = id ∧ p.taskId = a.taskId ∧
        c = resolved p (sortArtifacts (s.experienceEvents t a.taskId)) := by
  obtain ⟨p, -, -, hid, -, rfl⟩ := h.resolveCase_eq_ok.mp hc
  obtain ⟨g, hg, hag⟩ := (Experience.mem_offered (h.sortedEvents_keyed t p.taskId)
    (h.sortedEvents_causal t p.taskId)).mp ha
  obtain ⟨hal, hlesson⟩ := isSome_lesson?_of_mem_headGroups (h.sortedEvents_keyed t p.taskId)
    (h.sortedEvents_causal t p.taskId) hg hag
  obtain ⟨hmem, hevent, htenant, htask⟩ :=
    mem_caseEvents.mp ((sortedEvents_perm s t p.taskId).mem_iff.mp hal)
  exact ⟨mem_experience.mpr ⟨hmem, hevent⟩, htenant, hlesson, p, hid, htask.symm, by rw [htask]⟩

/-- A case that has a lesson to offer is the one its problem resolves to. -/
theorem Journal.resolveCase_of_offers (h : Journal s) (hoffers : Offers s t a) {event : ExperienceEvent}
    (hevent : a.event = some event) (hid : problemIdOf event = some id) :
    ∃ c, s.resolveCase t id = .ok c ∧ a ∈ c.offered := by
  obtain ⟨id', c, hc, ha⟩ := hoffers
  obtain ⟨hmem, htenant, hlesson, p, hpid, hptask, hcase⟩ := h.mem_offered hc ha
  obtain ⟨event', p', hevent', hid', hp', htenant', htask', hproblem'⟩ := h.problem_of_lesson hmem hlesson
  obtain rfl : event' = event := Option.some.inj (hevent'.symm.trans hevent)
  obtain rfl : p'.artifactId = id := Option.some.inj (hid'.symm.trans hid)
  have hc' := h.resolveCase_eq_ok.mpr ⟨p', hp', htenant'.trans htenant, rfl, hproblem', rfl⟩
  refine ⟨_, hc', ?_⟩
  rw [htask']
  -- the same artifacts resolve to the same lessons, whichever problem they are asked for
  rw [hcase] at ha
  exact ha

/-! ## Candidates -/

/-- What a query looks at: artifacts that have a chunk and the role of a lesson. -/
structure Seen (s : ExperienceStore) (q : LessonQuery) (a : ExperienceArtifact) : Prop where
  mem : a ∈ s.artifacts
  tenant : a.tenantId = q.tenantId
  role : a.artifactRole = some roleLesson ∨ a.artifactRole = some roleCorrection
  project : q.includeShared = false → ∀ p ∈ q.projectId, a.projectId = some p
  linked : ∃ c, (a.artifactId, c) ∈ s.links

theorem mem_lessonArtifacts (hk : KeyedIds s.artifacts) (hown : OwnChunks s)
    (hlimit : s.links.length ≤ exhaustiveLimit) : a ∈ s.lessonArtifacts q ↔ Seen s q a := by
  have hproject : (∀ p ∈ (if q.includeShared then none else q.projectId), a.projectId = some p) ↔
      (q.includeShared = false → ∀ p ∈ q.projectId, a.projectId = some p) := by
    cases q.includeShared <;> simp
  unfold ExperienceStore.lessonArtifacts
  rw [List.mem_append, mem_artifactsOfRole hk hown hlimit, mem_artifactsOfRole hk hown hlimit,
    hproject]
  constructor
  · rintro (⟨hmem, htenant, hrole, hp, hlinked⟩ | ⟨hmem, htenant, hrole, hp, hlinked⟩)
    · exact ⟨hmem, htenant, .inl hrole, hp, hlinked⟩
    · exact ⟨hmem, htenant, .inr hrole, hp, hlinked⟩
  · rintro ⟨hmem, htenant, hrole | hrole, hp, hlinked⟩
    · exact .inl ⟨hmem, htenant, hrole, hp, hlinked⟩
    · exact .inr ⟨hmem, htenant, hrole, hp, hlinked⟩

/-- The candidate is in the scope of the query. -/
def inQueryScope (q : LessonQuery) (a : ExperienceArtifact) : Bool :=
  a.projectId == q.projectId ||
    (q.includeShared && a.lesson?.any fun lesson => lesson.visibility == .shared)

theorem candidateLessons_eq (hevents : ∀ a ∈ s.lessonArtifacts q, a.event.isSome = true) :
    s.candidateLessons q = .ok (valuesById ((s.lessonArtifacts q).filter (inQueryScope q))) := by
  have hturn : ∀ a ∈ s.lessonArtifacts q, ∀ found, addCandidate q found a =
      .ok (if inQueryScope q a then
        Table.insertOrReplace (fun x y => x.artifactId == y.artifactId) a found else found) := by
    intro a ha found
    obtain ⟨event, hevent⟩ := Option.isSome_iff_exists.mp (hevents a ha)
    unfold addCandidate inQueryScope lesson?
    rw [requiredEvent_eq_ok.mpr hevent, hevent]
    show (if _ then Except.ok _ else Except.ok _) = _
    rw [Option.bind_some]
    split_ifs <;> rfl
  unfold ExperienceStore.candidateLessons valuesById
  rw [Fallible.foldlM_total hturn, List.foldl_filter]

/-- An artifact that is no experience record makes the whole query fail. -/
theorem event_of_candidateLessons {candidates : List ExperienceArtifact}
    (h : s.candidateLessons q = .ok candidates) : ∀ a ∈ s.lessonArtifacts q, a.event.isSome = true := by
  intro a ha
  obtain ⟨before, after, hturn⟩ := Fallible.foldlM_turn h a ha
  obtain ⟨event, hevent, -⟩ := except_bind_eq_ok.mp hturn
  rw [requiredEvent_eq_ok.mp hevent]
  rfl

/-- The role of an experience artifact tells a lesson from the others. -/
theorem Enveloped.lesson_iff {event : ExperienceEvent} (h : Enveloped a event) :
    a.lesson?.isSome = true ↔
      a.artifactRole = some roleLesson ∨ a.artifactRole = some roleCorrection := by
  obtain ⟨role, hrole⟩ := Option.isSome_iff_exists.mp h.role
  have henv := h.envelope
  unfold lesson?
  rw [h.event_eq, Option.bind_some, hrole]
  rw [hrole, Option.getD_some] at henv
  cases event with
  | problem description terms =>
    obtain ⟨_, -, henv⟩ := except_bind_eq_ok.mp henv
    obtain ⟨_, -, henv⟩ := except_bind_eq_ok.mp henv
    obtain rfl : roleProblem = role := congrArg Envelope.role (Except.ok.inj henv)
    simp [lessonFromEvent, roleProblem, roleLesson, roleCorrection]
  | attempt problemId previous ordinal action =>
    obtain ⟨_, -, henv⟩ := except_bind_eq_ok.mp henv
    obtain ⟨_, -, henv⟩ := except_bind_eq_ok.mp henv
    obtain rfl : roleAttempt = role := congrArg Envelope.role (Except.ok.inj henv)
    simp [lessonFromEvent, roleAttempt, roleLesson, roleCorrection]
  | check receipt =>
    obtain ⟨_, -, henv⟩ := except_bind_eq_ok.mp henv
    obtain rfl : roleCheck = role := congrArg Envelope.role (Except.ok.inj henv)
    simp [lessonFromEvent, roleCheck, roleLesson, roleCorrection]
  | observedCheck check =>
    obtain ⟨_, -, henv⟩ := except_bind_eq_ok.mp henv
    obtain rfl : roleCheck = role := congrArg Envelope.role (Except.ok.inj henv)
    simp [lessonFromEvent, roleCheck, roleLesson, roleCorrection]
  | lesson lesson =>
    obtain ⟨_, -, henv⟩ := except_bind_eq_ok.mp henv
    obtain rfl : roleLesson = role := congrArg Envelope.role (Except.ok.inj henv)
    simp [lessonFromEvent]
  | correction problemId supersedesId replacement =>
    obtain ⟨_, -, henv⟩ := except_bind_eq_ok.mp henv
    obtain ⟨_, -, henv⟩ := except_bind_eq_ok.mp henv
    obtain rfl : roleCorrection = role := congrArg Envelope.role (Except.ok.inj henv)
    simp [lessonFromEvent]

theorem Journal.enveloped (h : Journal s) (ha : a ∈ s.experience) : ∃ event, Enveloped a event := by
  obtain ⟨hmem, hevent⟩ := mem_experience.mp ha
  obtain ⟨p, -, hscope⟩ := (h.law a hmem hevent).problem
  obtain ⟨event, henv, -⟩ := (hscope a (mem_caseEvents.mpr ⟨hmem, hevent, rfl, rfl⟩)).shape
  exact ⟨event, henv⟩

/-! ## Judging -/

/-- The match that a current lesson makes. -/
def matchOf (w : WordTables) (q : LessonQuery) (a : ExperienceArtifact) : List ApplicableLesson :=
  match a.lesson? with
  | none => []
  | some lesson =>
    if scopeMatches a lesson q
        && decide (0 < lexicalOverlap w (lexicalTokens w q.symptom) lesson.symptomTerms)
        && conditionsMatch lesson q == .eligible then [answered w q a lesson] else []

/-- The fields that a comparison leaves open. -/
def ConditionMatch.openFields : ConditionMatch → List String
  | .unknown fields => fields
  | _ => []

/-- The fields that a current lesson leaves open. -/
def openedBy (w : WordTables) (q : LessonQuery) (a : ExperienceArtifact) : List String :=
  match a.lesson? with
  | none => []
  | some lesson =>
    if scopeMatches a lesson q
        && decide (0 < lexicalOverlap w (lexicalTokens w q.symptom) lesson.symptomTerms) then
      (conditionsMatch lesson q).openFields
    else []

theorem judge_eq (hlesson : a.lesson? = some lesson) (acc : Judged) : judge w q acc a =
    .ok ⟨acc.found ++ matchOf w q a, acc.unknown ++ openedBy w q a⟩ := by
  have hevent : ∃ event, a.event = some event ∧ lessonFromEvent event = some lesson :=
    Option.bind_eq_some_iff.mp hlesson
  obtain ⟨event, hevent, hfrom⟩ := hevent
  unfold judge matchOf openedBy
  rw [requiredEvent_eq_ok.mpr hevent, hlesson]
  show (required (lessonFromEvent event) _ >>= _) = _
  rw [required_eq_ok.mpr hfrom]
  cases hscope : scopeMatches a lesson q with
  | false => simp [bind, Except.bind, pure, Except.pure, hscope]
  | true =>
    by_cases hzero : lexicalOverlap w (lexicalTokens w q.symptom) lesson.symptomTerms = 0
    · simp [bind, Except.bind, pure, Except.pure, hscope, hzero]
    · have hpos : 0 < lexicalOverlap w (lexicalTokens w q.symptom) lesson.symptomTerms :=
        Nat.pos_of_ne_zero hzero
      cases hcond : conditionsMatch lesson q <;>
        simp [bind, Except.bind, pure, Except.pure, hscope, hzero, hpos, hcond, answered,
          ConditionMatch.openFields]

/-- All that is found, and all that is left open. -/
theorem judged_eq {current : List ExperienceArtifact}
    (hlessons : ∀ a ∈ current, a.lesson?.isSome = true) : current.foldlM (judge w q) {} =
      .ok ⟨current.flatMap (matchOf w q), current.flatMap (openedBy w q)⟩ := by
  have hturn : ∀ a ∈ current, ∀ acc : Judged, judge w q acc a =
      .ok ⟨acc.found ++ matchOf w q a, acc.unknown ++ openedBy w q a⟩ := by
    intro a ha acc
    obtain ⟨lesson, hlesson⟩ := Option.isSome_iff_exists.mp (hlessons a ha)
    exact judge_eq hlesson acc
  rw [Fallible.foldlM_total hturn]
  have hfold : ∀ acc : Judged, current.foldl (fun acc a =>
      (⟨acc.found ++ matchOf w q a, acc.unknown ++ openedBy w q a⟩ : Judged)) acc =
      ⟨acc.found ++ current.flatMap (matchOf w q), acc.unknown ++ current.flatMap (openedBy w q)⟩ := by
    clear hturn hlessons
    induction current with
    | nil => intro acc; simp
    | cons a current ih =>
      intro acc
      rw [List.foldl_cons, ih, List.flatMap_cons, List.flatMap_cons, List.append_assoc,
        List.append_assoc]
  rw [hfold]
  rfl

theorem mem_matchOf {x : ApplicableLesson} : x ∈ matchOf w q a ↔ ∃ lesson, a.lesson? = some lesson ∧
    Fits w q a lesson ∧ (∀ c ∈ conditionsOf lesson q, c.required = none ∨ c.required = c.actual) ∧
    x = answered w q a lesson := by
  unfold matchOf
  cases hlesson : a.lesson? with
  | none => simp
  | some lesson =>
    simp only [← conditionsMatch_eq_eligible, Option.some.injEq, exists_eq_left', Fits]
    split_ifs with hall
    · simp only [Bool.and_eq_true, decide_eq_true_eq, beq_iff_eq] at hall
      simp [hall]
    · simp only [Bool.and_eq_true, decide_eq_true_eq, beq_iff_eq] at hall
      rw [List.mem_nil_iff, false_iff]
      exact fun h => hall ⟨h.1, h.2.1⟩

theorem mem_openedBy {field : String} : field ∈ openedBy w q a ↔ ∃ lesson, a.lesson? = some lesson ∧
    Fits w q a lesson ∧ (∀ c ∈ conditionsOf lesson q, c.differs = false) ∧
    field ∈ openFields lesson q := by
  unfold openedBy
  cases hlesson : a.lesson? with
  | none => simp
  | some lesson =>
    simp only [Option.some.injEq, exists_eq_left', Fits]
    have hfield : field ∈ (conditionsMatch lesson q).openFields ↔
        (∀ c ∈ conditionsOf lesson q, c.differs = false) ∧ field ∈ openFields lesson q := by
      constructor
      · intro hfield
        cases hcond : conditionsMatch lesson q with
        | unknown fields =>
          obtain ⟨hdiffers, -, rfl⟩ := conditionsMatch_eq_unknown.mp hcond
          rw [hcond] at hfield
          exact ⟨hdiffers, hfield⟩
        | eligible =>
          rw [hcond] at hfield
          exact absurd hfield List.not_mem_nil
        | mismatch =>
          rw [hcond] at hfield
          exact absurd hfield List.not_mem_nil
      · rintro ⟨hdiffers, hfield⟩
        rw [conditionsMatch_eq_unknown.mpr ⟨hdiffers, List.ne_nil_of_mem hfield, rfl⟩]
        exact hfield
    split_ifs with hall
    · simp only [Bool.and_eq_true, decide_eq_true_eq] at hall
      rw [hfield, and_iff_right hall]
    · simp only [Bool.and_eq_true, decide_eq_true_eq] at hall
      rw [List.mem_nil_iff, false_iff]
      exact fun h => hall h.1

/-! ## Gathering -/

/-- The current lessons that a query gathers, from the cases that it resolves. -/
structure Gathered (s : ExperienceStore) (q : LessonQuery) (cases : List ExperienceCase)
    (current : List ExperienceArtifact) : Prop where
  keyed : KeyedIds current
  resolved : ∀ c ∈ cases, ∃ id, s.resolveCase q.tenantId id = .ok c
  offered : ∀ a ∈ current, ∃ c ∈ cases, a ∈ c.offered
  lessons : ∀ a ∈ current, a.lesson?.isSome = true
  complete : ∀ a lesson, Offers s q.tenantId a → a.lesson? = some lesson →
    scopeMatches a lesson q = true → a ∈ current

/-- What a query has to look through. -/
structure Searchable (s : ExperienceStore) (q : LessonQuery) : Prop where
  journal : Journal s
  indexed : Indexed s
  limit : s.links.length ≤ exhaustiveLimit
  symptom : isBlank q.symptom = false
  nonzero : q.limit ≠ 0

theorem Searchable.exists_gathered (h : Searchable s q)
    (hclean : ∀ a, Seen s q a → a.event.isSome = true) (w : WordTables) :
    ∃ cases current, Gathered s q cases current ∧ s.retrieveLessons w q =
      answer q.limit ⟨current.flatMap (matchOf w q), current.flatMap (openedBy w q)⟩
        (cases.flatMap (·.lessonConflicts)) := by
  have hj := h.journal
  have hseen : ∀ a, a ∈ s.lessonArtifacts q ↔ Seen s q a := fun a =>
    mem_lessonArtifacts hj.keyed h.indexed.own h.limit
  have hcandidates := candidateLessons_eq fun a ha => hclean a ((hseen a).mp ha)
  set candidates := valuesById ((s.lessonArtifacts q).filter (inQueryScope q)) with hdef
  have hmem : ∀ a, a ∈ candidates ↔ Seen s q a ∧ inQueryScope q a = true := by
    intro a
    rw [hdef, mem_valuesById, List.mem_filter, hseen]
    intro x hx y hy hid
    exact hj.keyed.eq ((hseen x).mp (List.mem_of_mem_filter hx)).mem
      ((hseen y).mp (List.mem_of_mem_filter hy)).mem hid
  have hexperience : ∀ a ∈ candidates, a ∈ s.experience ∧ a.lesson?.isSome = true := by
    intro a ha
    have hs := ((hmem a).mp ha).1
    have hexp := mem_experience.mpr ⟨hs.mem, hclean a hs⟩
    obtain ⟨event, henv⟩ := hj.enveloped hexp
    exact ⟨hexp, henv.lesson_iff.mpr hs.role⟩
  -- every candidate names its problem, and every problem resolves
  obtain ⟨events, hevents, hmemevents⟩ := Fallible.exists_mapM (l := candidates) (f := requiredEvent) (by
    intro a ha
    obtain ⟨event, hevent⟩ := Option.isSome_iff_exists.mp (mem_experience.mp (hexperience a ha).1).2
    exact ⟨event, requiredEvent_eq_ok.mpr hevent⟩)
  have hproblem : ∀ id ∈ sortedIds (events.filterMap problemIdOf), ∃ c, s.resolveCase q.tenantId id = .ok c := by
    intro id hid
    obtain ⟨event, hevent, hpid⟩ := List.mem_filterMap.mp (mem_sortedIds.mp hid)
    obtain ⟨a, ha, hrequired⟩ := (hmemevents event).mp hevent
    obtain ⟨hexp, hlesson⟩ := hexperience a ha
    obtain ⟨event', p, hevent', hpid', hp, htenant, -, hisproblem⟩ := hj.problem_of_lesson hexp hlesson
    obtain rfl : event' = event := Option.some.inj (hevent'.symm.trans (requiredEvent_eq_ok.mp hrequired))
    obtain rfl : p.artifactId = id := Option.some.inj (hpid'.symm.trans hpid)
    obtain ⟨c, hc, -⟩ := hj.exists_resolveCase hp hisproblem
    exact ⟨c, by rw [← ((hmem a).mp ha).1.tenant, ← htenant]; exact hc⟩
  obtain ⟨cases, hcases, hmemcases⟩ := Fallible.exists_mapM hproblem
  have hoffer : ∀ a ∈ cases.flatMap ExperienceCase.offered, ∃ c ∈ cases, a ∈ c.offered ∧
      a ∈ s.experience ∧ a.lesson?.isSome = true := by
    intro a ha
    obtain ⟨c, hc, hac⟩ := List.mem_flatMap.mp ha
    obtain ⟨id, -, hresolve⟩ := (hmemcases c).mp hc
    obtain ⟨hexp, -, hlesson, -⟩ := hj.mem_offered hresolve hac
    exact ⟨c, hc, hac, hexp, hlesson⟩
  have hcurrent : ∀ a, a ∈ valuesById (cases.flatMap ExperienceCase.offered) ↔
      a ∈ cases.flatMap ExperienceCase.offered := by
    intro a
    apply mem_valuesById
    intro x hx y hy hid
    obtain ⟨-, -, -, hxexp, -⟩ := hoffer x hx
    obtain ⟨-, -, -, hyexp, -⟩ := hoffer y hy
    exact hj.keyed.eq (mem_experience.mp hxexp).1 (mem_experience.mp hyexp).1 hid
  refine ⟨cases, valuesById (cases.flatMap ExperienceCase.offered),
    ⟨keyedIds_valuesById _, fun c hc => ?_, fun a ha => ?_, fun a ha => ?_, fun a lesson ho hl hs => ?_⟩, ?_⟩
  · obtain ⟨id, -, hresolve⟩ := (hmemcases c).mp hc
    exact ⟨id, hresolve⟩
  · obtain ⟨c, hc, hac, -⟩ := hoffer a ((hcurrent a).mp ha)
    exact ⟨c, hc, hac⟩
  · obtain ⟨-, -, -, -, hlesson⟩ := hoffer a ((hcurrent a).mp ha)
    exact hlesson
  · -- what is offered in scope is a candidate itself, so its case is resolved
    obtain ⟨id', c', hc', hac'⟩ := ho
    obtain ⟨hexp, htenant, hlesson, -⟩ := hj.mem_offered hc' hac'
    obtain ⟨event, henv⟩ := hj.enveloped hexp
    have hcand : a ∈ candidates := by
      refine (hmem a).mpr ⟨⟨(mem_experience.mp hexp).1, htenant, henv.lesson_iff.mp hlesson, ?_,
        h.indexed.linked a hexp⟩, ?_⟩
      · intro hnot p hp
        simp only [scopeMatches, hnot, Bool.false_and, Bool.or_false, beq_iff_eq] at hs
        rw [hs, hp]
      · unfold inQueryScope
        rw [hl]
        exact hs
    obtain ⟨event', p, hevent', hpid', -⟩ := hj.problem_of_lesson hexp hlesson
    obtain ⟨c, hc, hac⟩ := hj.resolveCase_of_offers ⟨id', c', hc', hac'⟩ hevent' hpid'
    apply (hcurrent a).mpr
    refine List.mem_flatMap.mpr ⟨c, (hmemcases c).mpr ⟨p.artifactId, ?_, hc⟩, hac⟩
    apply mem_sortedIds.mpr
    exact List.mem_filterMap.mpr ⟨event', (hmemevents event').mpr
      ⟨a, hcand, requiredEvent_eq_ok.mpr hevent'⟩, hpid'⟩
  · have hlessons : ∀ a ∈ valuesById (cases.flatMap ExperienceCase.offered),
        a.lesson?.isSome = true := by
      intro a ha
      obtain ⟨-, -, -, -, hlesson⟩ := hoffer a ((hcurrent a).mp ha)
      exact hlesson
    unfold ExperienceStore.retrieveLessons
    rw [h.symptom, hcandidates, show (q.limit != 0) = true by simpa using h.nonzero]
    show (candidates.mapM requiredEvent >>= _) = _
    rw [hevents]
    show ((sortedIds (events.filterMap problemIdOf)).mapM (s.resolveCase q.tenantId) >>= _) = _
    rw [hcases]
    show ((valuesById (cases.flatMap ExperienceCase.offered)).foldlM (judge w q) {} >>= _) = _
    rw [judged_eq hlessons]
    rfl

/-! ## Answering -/

/-- The artifacts of the matches are those judged, each at most once. -/
theorem matchOf_sublist (l : List ExperienceArtifact) :
    ((l.flatMap (matchOf w q)).map (·.artifact)).Sublist l := by
  induction l with
  | nil => exact List.Sublist.refl _
  | cons a l ih =>
    rw [List.flatMap_cons, List.map_append]
    have hone : (matchOf w q a).map (·.artifact) = [] ∨ (matchOf w q a).map (·.artifact) = [a] := by
      unfold matchOf
      cases a.lesson? with
      | none => exact .inl rfl
      | some lesson =>
        dsimp only
        split_ifs
        · exact .inr rfl
        · exact .inl rfl
    rcases hone with hnil | hone
    · rw [hnil]
      exact ih.cons a
    · rw [hone]
      exact ih.cons_cons a

theorem namedConflicts_eq {x : ApplicableLesson} (hlesson : x.artifact.lesson? = some lesson)
    (ids : List String) : namedConflicts ids x =
      .ok ((lesson.conflictsWith.filter ids.contains).flatMap fun id => [x.artifact.artifactId, id]) := by
  obtain ⟨event, hevent, hfrom⟩ := Option.bind_eq_some_iff.mp hlesson
  unfold namedConflicts
  rw [requiredEvent_eq_ok.mpr hevent]
  show (required (lessonFromEvent event) _ >>= _) = _
  rw [required_eq_ok.mpr hfrom]
  rfl

/-- **The conflicts that lessons name among themselves.** -/
theorem exists_explicitConflicts {found : List ApplicableLesson}
    (h : ∀ x ∈ found, x.artifact.lesson?.isSome = true) : ∃ ids, explicitConflicts found = .ok ids ∧
      ∀ id, id ∈ ids ↔ ∃ x ∈ found, ∃ lesson, x.artifact.lesson? = some lesson ∧
        ∃ other ∈ lesson.conflictsWith, (∃ y ∈ found, y.artifact.artifactId = other) ∧
          (id = x.artifact.artifactId ∨ id = other) := by
  obtain ⟨named, hnamed, hmem⟩ := Fallible.exists_mapM (l := found)
    (f := namedConflicts (found.map (·.artifact.artifactId))) (by
      intro x hx
      obtain ⟨lesson, hlesson⟩ := Option.isSome_iff_exists.mp (h x hx)
      exact ⟨_, namedConflicts_eq hlesson _⟩)
  refine ⟨sortedIds named.flatten, ?_, fun id => ?_⟩
  · unfold explicitConflicts
    rw [hnamed]
    rfl
  rw [mem_sortedIds, List.mem_flatten]
  constructor
  · rintro ⟨ids, hids, hid⟩
    obtain ⟨x, hx, hturn⟩ := (hmem ids).mp hids
    obtain ⟨lesson, hlesson⟩ := Option.isSome_iff_exists.mp (h x hx)
    rw [namedConflicts_eq hlesson, Except.ok.injEq] at hturn
    subst hturn
    obtain ⟨other, hother, hid⟩ := List.mem_flatMap.mp hid
    obtain ⟨hconflict, hcontains⟩ := List.mem_filter.mp hother
    exact ⟨x, hx, lesson, hlesson, other, hconflict, by simpa using hcontains, by simpa using hid⟩
  · rintro ⟨x, hx, lesson, hlesson, other, hconflict, ⟨y, hy, hyid⟩, hid⟩
    refine ⟨_, (hmem _).mpr ⟨x, hx, namedConflicts_eq hlesson _⟩,
      List.mem_flatMap.mpr ⟨other, List.mem_filter.mpr ⟨hconflict, ?_⟩, by simpa using hid⟩⟩
    simpa using ⟨y, hy, hyid⟩

/-- A conflict is one of the case of each lesson that is in it. -/
theorem Journal.lessonConflicts_eq (h : Journal s) {c : ExperienceCase}
    (hc : s.resolveCase t id = .ok c) {group : List String} (hgroup : group ∈ c.lessonConflicts)
    (hexp : a ∈ s.experience) (ha : a.artifactId ∈ group) :
    c.lessonConflicts = conflictsOf (sortArtifacts (s.experienceEvents t a.taskId)) := by
  obtain ⟨p, -, -, -, -, rfl⟩ := h.resolveCase_eq_ok.mp hc
  obtain ⟨g, hg, b, hb, hid⟩ := mem_headGroups_of_conflict (List.mem_flatten.mpr ⟨group, hgroup, ha⟩)
  obtain ⟨hbl, -⟩ := isSome_lesson?_of_mem_headGroups (h.sortedEvents_keyed t p.taskId)
    (h.sortedEvents_causal t p.taskId) hg hb
  obtain ⟨hbmem, -, -, htask⟩ := mem_caseEvents.mp ((sortedEvents_perm s t p.taskId).mem_iff.mp hbl)
  rw [← h.keyed.eq hbmem (mem_experience.mp hexp).1 hid, htask]
  rfl

/-- Two current lessons that are not contested name no conflict with each other. -/
theorem Journal.not_conflicting (h : Journal s) {c c' : ExperienceCase} {id' : String}
    (hc : s.resolveCase t id = .ok c) (ha : a ∈ c.offered) (hc' : s.resolveCase t id' = .ok c')
    (hb : b ∈ c'.offered) (hafree : ¬ Contested s t a) (hbfree : ¬ Contested s t b)
    (hlesson : a.lesson? = some lesson) (hconflict : b.artifactId ∈ lesson.conflictsWith) : b = a := by
  obtain ⟨haexp, hatenant, -, p, -, -, rfl⟩ := h.mem_offered hc ha
  obtain ⟨hbexp, -, -, p', -, -, rfl⟩ := h.mem_offered hc' hb
  have hacurrent : a ∈ currentOf (sortArtifacts (s.experienceEvents t a.taskId)) :=
    mem_currentLessons_of_offered ha fun group hgroup hmem => hafree ⟨_, _, hc, group, hgroup, hmem⟩
  have hbcurrent : b ∈ currentOf (sortArtifacts (s.experienceEvents t b.taskId)) :=
    mem_currentLessons_of_offered hb fun group hgroup hmem => hbfree ⟨_, _, hc', group, hgroup, hmem⟩
  -- what a lesson conflicts with is in its own case
  have htask : b.taskId = a.taskId := by
    have hacase : a ∈ s.caseEvents t a.taskId :=
      mem_caseEvents.mpr ⟨(mem_experience.mp haexp).1, (mem_experience.mp haexp).2, hatenant, rfl⟩
    obtain ⟨x, hx, hxid, -⟩ := ((h.caseLaw hacase).lessonRefs hacase hlesson).conflicts _ hconflict
    obtain ⟨hxmem, -, -, hxtask⟩ := mem_caseEvents.mp hx
    rw [← h.keyed.eq hxmem (mem_experience.mp hbexp).1 hxid, hxtask]
  rw [htask] at hbcurrent
  by_contra hne
  have hid : b.artifactId ≠ a.artifactId := fun hid =>
    hne (h.keyed.eq (mem_experience.mp hbexp).1 (mem_experience.mp haexp).1 hid)
  generalize hl : sortArtifacts (s.experienceEvents t a.taskId) = l at *
  have hmema : a.artifactId ∈ conflictGroup (currentOf l) a := mem_conflictGroup.mpr (.inl rfl)
  have hmemb : b.artifactId ∈ conflictGroup (currentOf l) a := by
    refine mem_conflictGroup.mpr (.inr ⟨?_, b, hbcurrent, rfl⟩)
    rw [hlesson]
    exact hconflict
  have hlength : 1 < (conflictGroup (currentOf l) a).length := by
    by_contra hle
    have hone : (conflictGroup (currentOf l) a).length = 1 := by
      have := List.length_pos_of_mem hmema
      omega
    obtain ⟨x, hx⟩ := List.length_eq_one_iff.mp hone
    rw [hx, List.mem_singleton] at hmema hmemb
    exact hid (hmemb.trans hmema.symm)
  refine hafree ⟨_, _, hc, conflictGroup (currentOf l) a, ?_, hmema⟩
  show conflictGroup (currentOf l) a ∈ conflictsOf l
  rw [conflictsOf, List.mem_insertionSort, mem_addConflictGroups]
  exact .inr ⟨a, hacurrent, rfl, hlength⟩

/-- **A lesson that is found can only name itself** as conflicting: it contests any other one that it
names. -/
theorem Journal.names_itself (h : Journal s) {found : List ApplicableLesson}
    (hmem : ∀ x, x ∈ found ↔
      ∃ lesson, Applicable s w q x.artifact lesson ∧ x = answered w q x.artifact lesson)
    (hfree : ∀ x ∈ found, ¬ Contested s q.tenantId x.artifact) :
    (∃ x ∈ found, ∃ lesson, x.artifact.lesson? = some lesson ∧ ∃ other ∈ lesson.conflictsWith,
      (∃ y ∈ found, y.artifact.artifactId = other) ∧ (id = x.artifact.artifactId ∨ id = other)) ↔
    ∃ a lesson, Applicable s w q a lesson ∧ a.artifactId = id ∧ id ∈ lesson.conflictsWith := by
  constructor
  · rintro ⟨x, hx, lesson, hlesson, other, hconflict, ⟨y, hy, rfl⟩, hid⟩
    obtain ⟨lesson', happ, -⟩ := (hmem x).mp hx
    obtain rfl : lesson' = lesson := Option.some.inj (happ.1.lesson_eq.symm.trans hlesson)
    obtain ⟨lessony, happy, -⟩ := (hmem y).mp hy
    obtain ⟨idx, cx, hcx, hxc⟩ := happ.1.offers
    obtain ⟨idy, cy, hcy, hyc⟩ := happy.1.offers
    have hsame := h.not_conflicting hcx hxc hcy hyc (hfree x hx) (hfree y hy) hlesson hconflict
    refine ⟨x.artifact, lesson', happ, ?_, ?_⟩
    · rcases hid with rfl | rfl
      · rfl
      · rw [hsame]
    · rcases hid with rfl | rfl
      · rw [← hsame]
        exact hconflict
      · exact hconflict
  · rintro ⟨a, lesson, happ, rfl, hconflict⟩
    have hx := (hmem (answered w q a lesson)).mpr ⟨lesson, happ, rfl⟩
    exact ⟨_, hx, lesson, happ.1.lesson_eq, a.artifactId, hconflict, ⟨_, hx, rfl⟩, .inl rfl⟩

section Answers

variable {cases : List ExperienceCase} {current : List ExperienceArtifact}

/-- What is found are the applicable lessons. -/
theorem Gathered.mem_found (hg : Gathered s q cases current) {x : ApplicableLesson} :
    x ∈ current.flatMap (matchOf w q) ↔
      ∃ lesson, Applicable s w q x.artifact lesson ∧ x = answered w q x.artifact lesson := by
  rw [List.mem_flatMap]
  constructor
  · rintro ⟨a, ha, hx⟩
    obtain ⟨lesson, hlesson, hfits, hmet, rfl⟩ := mem_matchOf.mp hx
    obtain ⟨c, hc, hac⟩ := hg.offered a ha
    obtain ⟨id, hresolve⟩ := hg.resolved c hc
    exact ⟨lesson, ⟨⟨⟨id, c, hresolve, hac⟩, hlesson, hfits⟩, hmet⟩, rfl⟩
  · rintro ⟨lesson, ⟨hrelevant, hmet⟩, hx⟩
    exact ⟨x.artifact, hg.complete _ lesson hrelevant.offers hrelevant.lesson_eq hrelevant.fits.1,
      mem_matchOf.mpr ⟨lesson, hrelevant.lesson_eq, hrelevant.fits, hmet, hx⟩⟩

/-- What is left open are the fields of the uncertain lessons. -/
theorem Gathered.mem_unknown (hg : Gathered s q cases current) {field : String} :
    field ∈ current.flatMap (openedBy w q) ↔
      ∃ a lesson, Uncertain s w q a lesson ∧ field ∈ openFields lesson q := by
  rw [List.mem_flatMap]
  constructor
  · rintro ⟨a, ha, hfield⟩
    obtain ⟨lesson, hlesson, hfits, hdiffers, hopen⟩ := mem_openedBy.mp hfield
    obtain ⟨c, hc, hac⟩ := hg.offered a ha
    obtain ⟨id, hresolve⟩ := hg.resolved c hc
    exact ⟨a, lesson, ⟨⟨⟨id, c, hresolve, hac⟩, hlesson, hfits⟩, hdiffers,
      List.ne_nil_of_mem hopen⟩, hopen⟩
  · rintro ⟨a, lesson, ⟨hrelevant, hdiffers, -⟩, hopen⟩
    exact ⟨a, hg.complete _ lesson hrelevant.offers hrelevant.lesson_eq hrelevant.fits.1,
      mem_openedBy.mpr ⟨lesson, hrelevant.lesson_eq, hrelevant.fits, hdiffers, hopen⟩⟩

/-- A conflict that a match is in is one of the cases that were resolved. -/
theorem Gathered.mem_branchConflicts (hg : Gathered s q cases current) (hj : Journal s)
    (ha : a ∈ current) {c : ExperienceCase} (hc : s.resolveCase q.tenantId id = .ok c)
    {group : List String} (hgroup : group ∈ c.lessonConflicts) (hmem : a.artifactId ∈ group) :
    group ∈ cases.flatMap (·.lessonConflicts) := by
  obtain ⟨c', hc', hac'⟩ := hg.offered a ha
  obtain ⟨id', hresolve'⟩ := hg.resolved c' hc'
  obtain ⟨hexp, -, -, p, -, -, hcase⟩ := hj.mem_offered hresolve' hac'
  refine List.mem_flatMap.mpr ⟨c', hc', ?_⟩
  rw [hcase]
  show group ∈ conflictsOf _
  rw [← hj.lessonConflicts_eq hc hgroup hexp hmem]
  exact hgroup

/-- The matches in order of rank. -/
theorem Gathered.ranked (hg : Gathered s q cases current) :
    ((current.flatMap (matchOf w q)).insertionSort fun x y => x.rank ≤ y.rank).Pairwise
      fun x y => x.rank < y.rank := by
  have hsorted := List.pairwise_insertionSort (fun x y : ApplicableLesson => x.rank ≤ y.rank)
    (current.flatMap (matchOf w q))
  have hnodup : (((current.flatMap (matchOf w q)).insertionSort fun x y => x.rank ≤ y.rank).map
      fun x => x.artifact.artifactId).Nodup := by
    apply ((List.perm_insertionSort _ _).map _).nodup_iff.mpr
    have hids := (matchOf_sublist (w := w) (q := q) current).map fun a => a.artifactId
    rw [List.map_map] at hids
    exact hids.nodup hg.keyed
  -- two matches of one rank would have one id
  refine (hsorted.and (List.pairwise_map.mp hnodup)).imp ?_
  rintro x y ⟨hle, hne⟩
  refine lt_of_le_of_ne hle fun heq => hne ?_
  exact congrArg (fun r => (ofLex (ofLex r).2).2) heq

/-- Where nothing applies, the answer is what is left open. -/
theorem answer_nothing {unknown : List String} (limit : ℕ) (conflicts : List (List String))
    (hnone : ∀ a lesson, ¬ Applicable s w q a lesson)
    (hfields : ∀ field, field ∈ unknown ↔
      ∃ a lesson, Uncertain s w q a lesson ∧ field ∈ openFields lesson q) :
    ∃ r, answer limit ⟨[], unknown⟩ conflicts = .ok r ∧ RecallLaw s w q r := by
  cases unknown with
  | nil =>
    refine ⟨.abstain .noMatch, rfl, fun a lesson => ⟨hnone a lesson, ?_⟩⟩
    intro huncertain
    obtain ⟨field, hfield⟩ := List.exists_mem_of_ne_nil _ huncertain.2.2
    have hin := (hfields field).mpr ⟨a, lesson, huncertain, hfield⟩
    exact absurd hin List.not_mem_nil
  | cons field rest =>
    refine ⟨.abstain (.unknownRequiredCondition (sortedIds (field :: rest))), rfl, hnone, ?_, ?_⟩
    · exact List.ne_nil_of_mem (mem_sortedIds.mpr List.mem_cons_self)
    · intro field'
      rw [mem_sortedIds, hfields]

/-- **The answer is given by the law.** -/
theorem Gathered.law (hg : Gathered s q cases current) (hj : Journal s) :
    ∃ r, answer q.limit ⟨current.flatMap (matchOf w q), current.flatMap (openedBy w q)⟩
      (cases.flatMap (·.lessonConflicts)) = .ok r ∧ RecallLaw s w q r := by
  generalize hfound : current.flatMap (matchOf w q) = found
  generalize hunknown : current.flatMap (openedBy w q) = unknown
  have hmem : ∀ x, x ∈ found ↔
      ∃ lesson, Applicable s w q x.artifact lesson ∧ x = answered w q x.artifact lesson := by
    intro x
    rw [← hfound]
    exact hg.mem_found
  have hfields : ∀ field, field ∈ unknown ↔
      ∃ a lesson, Uncertain s w q a lesson ∧ field ∈ openFields lesson q := by
    intro field
    rw [← hunknown]
    exact hg.mem_unknown
  have hcurrent : ∀ x ∈ found, x.artifact ∈ current := by
    intro x hx
    have hsub := (matchOf_sublist (w := w) (q := q) current).subset
    rw [hfound] at hsub
    exact hsub (List.mem_map_of_mem hx)
  by_cases hempty : found = []
  · -- nothing applies
    have hnone : ∀ a lesson, ¬ Applicable s w q a lesson := by
      intro a lesson happ
      have hin := (hmem (answered w q a lesson)).mpr ⟨lesson, happ, rfl⟩
      rw [hempty] at hin
      exact absurd hin List.not_mem_nil
    rw [hempty]
    exact answer_nothing q.limit _ hnone hfields
  have hisEmpty : found.isEmpty = false := by
    rw [← Bool.not_eq_true, List.isEmpty_iff]
    exact hempty
  unfold answer
  dsimp only
  rw [hisEmpty, if_neg (by decide)]
  cases hfind : (cases.flatMap (·.lessonConflicts)).find?
      fun ids => ids.any (found.map (·.artifact.artifactId)).contains with
  | some group =>
    -- a match is the side of a conflict
    refine ⟨_, rfl, .inl ?_⟩
    obtain ⟨c, hc, hgroup⟩ := List.mem_flatMap.mp (List.mem_of_find?_eq_some hfind)
    obtain ⟨id, hresolve⟩ := hg.resolved c hc
    have hany := List.find?_some hfind
    obtain ⟨other, hother, hcontains⟩ := List.any_eq_true.mp hany
    obtain ⟨x, hx, rfl⟩ : ∃ x ∈ found, x.artifact.artifactId = other := by simpa using hcontains
    obtain ⟨lesson, happ, -⟩ := (hmem x).mp hx
    exact ⟨id, c, group, hresolve, hgroup, rfl, x.artifact, lesson, happ, hother⟩
  | none =>
    have hfree : ∀ x ∈ found, ¬ Contested s q.tenantId x.artifact := by
      rintro x hx ⟨id, c, hc, group, hgroup, hin⟩
      have hno := List.find?_eq_none.mp hfind group
        (hg.mem_branchConflicts hj (hcurrent x hx) hc hgroup hin)
      apply hno
      rw [List.any_eq_true]
      exact ⟨_, hin, by simpa using ⟨x, hx, rfl⟩⟩
    have hlessons : ∀ x ∈ found, x.artifact.lesson?.isSome = true := fun x hx =>
      hg.lessons _ (hcurrent x hx)
    obtain ⟨explicit, hexplicit, hmemexplicit⟩ := exists_explicitConflicts hlessons
    have hself : ∀ id, id ∈ explicit ↔ ∃ a lesson, Applicable s w q a lesson ∧ a.artifactId = id ∧
        id ∈ lesson.conflictsWith :=
      fun id => (hmemexplicit id).trans (hj.names_itself hmem hfree)
    rw [hexplicit]
    by_cases hnil : explicit = []
    · subst hnil
      refine ⟨_, rfl, _, ?_, rfl, ?_, fun x => ?_, fun x hx => ?_⟩
      · intro hnil
        have hperm := List.perm_insertionSort (fun x y : ApplicableLesson => x.rank ≤ y.rank) found
        rw [hnil] at hperm
        exact hempty hperm.nil_eq.symm
      · rw [← hfound]
        exact hg.ranked
      · rw [List.mem_insertionSort, hmem]
      · exact hfree x (List.mem_insertionSort _ |>.mp hx)
    · have hisNil : explicit.isEmpty = false := by
        rw [← Bool.not_eq_true, List.isEmpty_iff]
        exact hnil
      refine ⟨.abstain (.conflict explicit), ?_, .inr ⟨hnil, hself⟩⟩
      show (if (!explicit.isEmpty) = true then _ else _ : Except MemdError LessonRecall) = _
      rw [hisNil]
      rfl

end Answers

/-! ## Recall -/

/-- A query that gets through has met experience records only. -/
theorem Searchable.clean_of_ok (h : Searchable s q) {r : LessonRecall}
    (hr : s.retrieveLessons w q = .ok r) : ∀ a, Seen s q a → a.event.isSome = true := by
  obtain ⟨_, -, hr⟩ := except_bind_eq_ok.mp hr
  obtain ⟨_, -, hr⟩ := except_bind_eq_ok.mp hr
  obtain ⟨candidates, hcandidates, -⟩ := except_bind_eq_ok.mp hr
  intro a ha
  exact event_of_candidateLessons hcandidates a
    ((mem_lessonArtifacts h.journal.keyed h.indexed.own h.limit).mpr ha)

/-- **Recall answers by its law**, and fails only on an artifact that has the role of a lesson and
is no experience record. -/
theorem Searchable.retrieveLessons (h : Searchable s q) (w : WordTables) :
    ((∃ r, s.retrieveLessons w q = .ok r) ↔ ∀ a, Seen s q a → a.event.isSome = true) ∧
      ∀ r, s.retrieveLessons w q = .ok r → RecallLaw s w q r := by
  constructor
  · constructor
    · rintro ⟨r, hr⟩
      exact h.clean_of_ok hr
    · intro hclean
      obtain ⟨cases, current, hg, heq⟩ := h.exists_gathered hclean w
      obtain ⟨r, hr, -⟩ := hg.law (w := w) h.journal
      exact ⟨r, heq.trans hr⟩
  · intro r hr
    obtain ⟨cases, current, hg, heq⟩ := h.exists_gathered (h.clean_of_ok hr) w
    obtain ⟨r', hr', hlaw⟩ := hg.law (w := w) h.journal
    obtain rfl : r' = r := Except.ok.inj (hr'.symm.trans (heq.symm.trans hr))
    exact hlaw

theorem crashStore_projected : Run Projected {} (crashStore 4) := by
  have hnew : ∀ c ∈ [1], ∀ x ∈ (crashStore 0).links, x.2 ≠ c := by decide
  have hnew₁ : ∀ c ∈ [2], ∀ x ∈ (crashStore 1).links, x.2 ≠ c := by decide
  have hnew₂ : ∀ c ∈ [3], ∀ x ∈ (crashStore 2).links, x.2 ≠ c := by decide
  have hnew₃ : ∀ c ∈ [4], ∀ x ∈ (crashStore 3).links, x.2 ≠ c := by decide
  have h₁ : Run Projected {} (crashStore 1) := .single
    ⟨crashProblem, ⟨fun _ hb => absurd hb List.not_mem_nil, List.cons_ne_nil _ _, hnew⟩, rfl⟩
  have h₂ : Run Projected {} (crashStore 2) :=
    h₁.tail ⟨crashAttempt, ⟨trivial, List.cons_ne_nil _ _, hnew₁⟩, rfl⟩
  have h₃ : Run Projected {} (crashStore 3) :=
    h₂.tail ⟨crashCheck, ⟨trivial, List.cons_ne_nil _ _, hnew₂⟩, rfl⟩
  exact h₃.tail ⟨crashLesson, ⟨trivial, List.cons_ne_nil _ _, hnew₃⟩, rfl⟩

/-- The query of the sample. -/
def crashQuery : LessonQuery := { tenantId := "t", projectId := some "p", symptom := "oom" }

end Experience
