/-
# What other projects read of a case

`experience.get` and `experience.export` (`cli/experience.rs`).  Another project reads a case only
while one of its current lessons is shared, and then without what is for the project only
(`shared_view`).

* `readsShared_resolved` — the view drops the lessons of the project and the checks that only they
  use and nothing else, everything it keeps refers to what it keeps, but a correction may name a
  version that is not shown;
* `Journal.getCase_other` — so another project reads nothing else of a case.
-/
import Memd.ExperienceRuns

open Proc (except_bind_eq_ok)

namespace Experience

open ExperienceArtifact

variable {s : ExperienceStore} {c : ExperienceCase} {l : List ExperienceArtifact}
  {a b p : ExperienceArtifact} {t : TenantId} {id : String}

/-! ## Reading a case -/

/-- `require_project`. -/
def requireProject (requested actual : Option String) : Except MemdError Unit :=
  demand (!(requested.isSome && requested != actual)) "experience belongs to another project"

/-- `experience.get`. -/
def ExperienceStore.getCase (s : ExperienceStore) (t : TenantId) (projectId : Option String)
    (problemId : String) : Except MemdError ExperienceCase := do
  let c ← s.resolveCase t problemId
  if projectId.isSome && projectId != c.problem.projectId then
    if !c.isShared then requireProject projectId c.problem.projectId
    pure c.sharedView
  else pure c

/-! ## What is private -/

/-- The artifact carries a lesson with this visibility. -/
def ExperienceArtifact.Teaches (a : ExperienceArtifact) (visibility : LessonVisibility) : Prop :=
  ∃ lesson, a.lesson? = some lesson ∧ lesson.visibility = visibility

/-- The check of a lesson with this visibility. -/
def Supports (l : List ExperienceArtifact) (visibility : LessonVisibility)
    (a : ExperienceArtifact) : Prop :=
  ∃ b ∈ l, ∃ lesson, b.lesson? = some lesson ∧ lesson.visibility = visibility ∧
    lesson.supportingCheckId = a.artifactId

/-- A lesson of the project, or a check that only such lessons have. -/
def Private (l : List ExperienceArtifact) (a : ExperienceArtifact) : Prop :=
  a.Teaches .project ∨ (a.isCheck = true ∧ Supports l .project a ∧ ¬ Supports l .shared a)

theorem visibility_ne_shared {v : LessonVisibility} : v ≠ .shared ↔ v = .project := by
  cases v <;> simp

theorem mem_hiddenLessons : id ∈ c.hiddenLessons ↔
    ∃ a ∈ c.events, a.Teaches .project ∧ a.artifactId = id := by
  rw [ExperienceCase.hiddenLessons, List.mem_map]
  simp only [List.mem_filter, Option.any_eq_true, bne_iff_ne, visibility_ne_shared, Teaches, and_assoc]

theorem mem_supportingChecks {shared : Bool} : id ∈ c.supportingChecks shared ↔
    ∃ b ∈ c.events, ∃ lesson, b.lesson? = some lesson ∧
      lesson.visibility = (if shared then .shared else .project) ∧ lesson.supportingCheckId = id := by
  have hvisibility : ∀ v : LessonVisibility, (v == .shared) = shared ↔
      v = if shared then .shared else .project := by
    intro v
    cases v <;> cases shared <;> simp
  rw [ExperienceCase.supportingChecks, List.mem_filterMap]
  simp only [List.mem_filterMap, Option.ite_none_right_eq_some, beq_iff_eq, hvisibility,
    Option.some.injEq]
  constructor
  · rintro ⟨lesson, ⟨b, hb, hlesson⟩, hv, hid⟩
    exact ⟨b, hb, lesson, hlesson, hv, hid⟩
  · rintro ⟨b, hb, lesson, hlesson, hv, hid⟩
    exact ⟨lesson, ⟨b, hb, hlesson⟩, hv, hid⟩

/-- A lesson is no check. -/
theorem isCheck_eq_false_of_lesson? (h : a.lesson?.isSome = true) : a.isCheck = false := by
  unfold lesson? at h
  unfold isCheck
  cases hevent : a.event with
  | none => rfl
  | some event =>
    rw [hevent] at h
    cases event <;> first | rfl | simp [lessonFromEvent] at h

/-- The supporting check of a lesson of a lawful case is a check of the case. -/
theorem CaseLaw.supportingCheck (h : CaseLaw l) (hb : b ∈ l) {lesson : ConditionalLesson}
    (hlesson : b.lesson? = some lesson) :
    ∃ a ∈ l, a.artifactId = lesson.supportingCheckId ∧ a.isCheck = true := by
  obtain ⟨a, ha, hid, hcheck, -⟩ := (h.lessonRefs hb hlesson).check
  exact ⟨a, ha, hid, hcheck⟩

/-- What an artifact of a lawful case refers to: the problem, an attempt, the check of its lesson,
or the version it supersedes. -/
theorem CaseLaw.refers (h : CaseLaw l) (ha : a ∈ l) (hid : id ∈ a.causalIds) :
    a.supersedes? = some id ∨ ∃ b ∈ l, b.artifactId = id ∧ (b.isProblem = true ∨ b.isAttempt = true ∨
      ∃ lesson, a.lesson? = some lesson ∧ lesson.supportingCheckId = id) := by
  obtain ⟨p, hp, hscope⟩ := h.problem
  obtain ⟨hpl, hproblem⟩ := List.mem_filter.mp (hp ▸ List.mem_singleton_self p)
  obtain ⟨event, henv, hpid⟩ := (hscope a ha).shape
  have hrefs := h.refs a ha
  unfold RefsHold at hrefs
  have hevent := henv.event_eq
  rw [ExperienceArtifact.causalIds, hevent] at hid
  rw [hevent] at hrefs
  cases event with
  | problem description terms => exact absurd hid List.not_mem_nil
  | attempt problemId previous ordinal action =>
    rcases List.mem_cons.mp hid with rfl | hprevious
    · exact .inr ⟨p, hpl, (hpid _ rfl).symm, .inl hproblem⟩
    · -- the attempt before it, by the chain of the attempts
      have hattempt : a.isAttempt = true := by simp [isAttempt, hevent]
      have hpre : previousOf a = previous := by simp [previousOf, hevent]
      rw [Option.mem_toList] at hprevious
      rcases h.attempts.follows a (List.mem_filter.mpr ⟨ha, hattempt⟩) with ⟨-, hnone⟩ |
        ⟨b, hb, hbid, hbattempt, -⟩
      · rw [hpre, hprevious] at hnone
        exact absurd hnone (by simp)
      · rw [hpre, hprevious, Option.some.injEq] at hbid
        exact .inr ⟨b, List.mem_of_mem_filter hb, hbid.symm, .inr (.inl hbattempt)⟩
  | check receipt =>
    obtain rfl := List.mem_singleton.mp hid
    obtain ⟨b, hb, hbid, hattempt⟩ := hrefs.2
    exact .inr ⟨b, hb, hbid, .inr (.inl hattempt)⟩
  | observedCheck check =>
    obtain rfl := List.mem_singleton.mp hid
    obtain ⟨b, hb, hbid, hattempt⟩ := hrefs.2
    exact .inr ⟨b, hb, hbid, .inr (.inl hattempt)⟩
  | lesson lesson =>
    simp only [Option.map_some, Option.getD_some, ExperienceEvent.causalIds, List.mem_cons,
      List.not_mem_nil, or_false] at hid
    rcases hid with rfl | rfl
    · exact .inr ⟨p, hpl, (hpid _ rfl).symm, .inl hproblem⟩
    · have hrefs : LessonRefs l lesson := hrefs
      obtain ⟨b, hb, hbid, -⟩ := hrefs.check
      exact .inr ⟨b, hb, hbid, .inr (.inr ⟨lesson, by simp [lesson?, hevent, lessonFromEvent], rfl⟩)⟩
  | correction problemId supersedesId replacement =>
    simp only [Option.map_some, Option.getD_some, ExperienceEvent.causalIds, List.mem_cons,
      List.not_mem_nil, or_false] at hid
    rcases hid with rfl | rfl | rfl
    · exact .inr ⟨p, hpl, (hpid _ rfl).symm, .inl hproblem⟩
    · exact .inl (by simp [supersedes?, hevent])
    · obtain ⟨b, hb, hbid, -⟩ := hrefs.1.check
      exact .inr ⟨b, hb, hbid, .inr (.inr ⟨replacement, by simp [lesson?, hevent, lessonFromEvent],
        rfl⟩)⟩

/-! ## The view -/

/-- **What `shared_view` hides of a lawful case is what is private.** -/
theorem isHidden_iff (hk : KeyedIds c.events) (hlaw : CaseLaw c.events) (ha : a ∈ c.events) :
    c.isHidden a.artifactId = true ↔ Private c.events a := by
  unfold ExperienceCase.isHidden Private
  simp only [Bool.or_eq_true, Bool.and_eq_true, Bool.not_eq_true', List.contains_eq_mem,
    decide_eq_true_eq, decide_eq_false_iff_not, mem_hiddenLessons, mem_supportingChecks]
  constructor
  · rintro (⟨b, hb, hteaches, hid⟩ | ⟨⟨b, hb, lesson, hlesson, hv, hid⟩, hshared⟩)
    · exact .inl (hk.eq hb ha hid ▸ hteaches)
    · obtain ⟨check, hcheck, hcid, hischeck⟩ := hlaw.supportingCheck hb hlesson
      rw [hk.eq hcheck ha (hcid.trans hid)] at hischeck
      exact .inr ⟨hischeck, ⟨b, hb, lesson, hlesson, hv, hid⟩, hshared⟩
  · rintro (hteaches | ⟨-, hsupports, hshared⟩)
    · exact .inl ⟨a, ha, hteaches, rfl⟩
    · exact .inr ⟨hsupports, hshared⟩

/-- What a view shows of a case. -/
structure ReadsShared (c view : ExperienceCase) : Prop where
  problem : view.problem = c.problem
  sublist : view.events.Sublist c.events
  events : ∀ a ∈ c.events, a ∈ view.events ↔ ¬ Private c.events a
  refs : ∀ a ∈ view.events, ∀ id ∈ a.causalIds,
    a.supersedes? = some id ∨ ∃ b ∈ view.events, b.artifactId = id
  current : ∀ a, a ∈ view.currentLessons ↔ a ∈ c.currentLessons ∧ a.Teaches .shared
  conflicts : ∀ group ∈ view.lessonConflicts, 1 < group.length ∧
    ∀ id ∈ group, ∃ a ∈ view.events, a.artifactId = id ∧ a.Teaches .shared

theorem teaches_of_not_private (hlesson : a.lesson?.isSome = true) (h : ¬ Private l a) :
    a.Teaches .shared := by
  obtain ⟨lesson, hlesson⟩ := Option.isSome_iff_exists.mp hlesson
  refine ⟨lesson, hlesson, ?_⟩
  by_contra hv
  exact h (.inl ⟨lesson, hlesson, visibility_ne_shared.mp hv⟩)

theorem not_private_of_teaches (h : a.Teaches .shared) : ¬ Private l a := by
  obtain ⟨lesson, hlesson, hv⟩ := h
  rintro (⟨lesson', hlesson', hv'⟩ | ⟨hcheck, -⟩)
  · obtain rfl : lesson = lesson' := Option.some.inj (hlesson.symm.trans hlesson')
    rw [hv] at hv'
    exact absurd hv' (by decide)
  · rw [isCheck_eq_false_of_lesson? (by rw [hlesson]; rfl)] at hcheck
    exact absurd hcheck (by decide)

theorem not_private_of_kind (h : a.isProblem = true ∨ a.isAttempt = true) : ¬ Private l a := by
  have hkind : a.lesson? = none ∧ a.isCheck = false := by
    unfold isProblem isAttempt at h
    unfold lesson? isCheck
    cases hevent : a.event with
    | none => exact ⟨rfl, rfl⟩
    | some event =>
      rw [hevent] at h
      cases event <;> first | exact ⟨rfl, rfl⟩ | simp at h
  rintro (⟨lesson, hlesson, -⟩ | ⟨hcheck, -⟩)
  · rw [hkind.1] at hlesson
    exact absurd hlesson (by simp)
  · rw [hkind.2] at hcheck
    exact absurd hcheck (by decide)

/-- **What the view of a resolved case shows.** -/
theorem readsShared_resolved (hk : KeyedIds l) (hcausal : CausalCase l) (hlaw : CaseLaw l) :
    ReadsShared (resolved p l) (resolved p l).sharedView := by
  -- what is hidden is what is private
  have hhidden : ∀ a ∈ l, (resolved p l).isHidden a.artifactId = true ↔ Private l a := fun a ha =>
    isHidden_iff (c := resolved p l) hk hlaw ha
  have hevents : ∀ a, a ∈ (resolved p l).sharedView.events ↔ a ∈ l ∧ ¬ Private l a := by
    intro a
    show a ∈ l.filter _ ↔ _
    rw [List.mem_filter]
    apply and_congr_right
    intro ha
    rw [← hhidden a ha]
    simp
  have hlesson : ∀ g ∈ headGroups l, ∀ a ∈ g, a ∈ l ∧ a.lesson?.isSome = true := fun g hg a ha =>
    isSome_lesson?_of_mem_headGroups hk hcausal hg ha
  refine ⟨rfl, List.filter_sublist, fun a ha => ?_, fun a ha id hid => ?_, fun a => ?_,
    fun group hgroup => ?_⟩
  · rw [hevents]
    exact and_iff_right ha
  -- what a shown artifact refers to is shown, or is a lesson it corrects
  · obtain ⟨hal, hpublic⟩ := (hevents a).mp ha
    rcases hlaw.refers hal hid with hsupersedes | ⟨b, hb, rfl, hkind⟩
    · exact .inl hsupersedes
    refine .inr ⟨b, (hevents b).mpr ⟨hb, ?_⟩, rfl⟩
    rcases hkind with hproblem | hattempt | ⟨lesson, hlesson', hcheck⟩
    · exact not_private_of_kind (.inl hproblem)
    · exact not_private_of_kind (.inr hattempt)
    · -- a check that a shown lesson has is the check of a shared lesson
      obtain ⟨lesson', hlesson'', hv⟩ := teaches_of_not_private (by rw [hlesson']; rfl) hpublic
      obtain rfl : lesson = lesson' := Option.some.inj (hlesson'.symm.trans hlesson'')
      obtain ⟨c, hc, hcid, hischeck⟩ := hlaw.supportingCheck hal hlesson'
      rw [hk.eq hc hb (hcid.trans hcheck)] at hischeck
      rintro (⟨other, hother, -⟩ | ⟨-, -, hno⟩)
      · rw [isCheck_eq_false_of_lesson? (by rw [hother]; rfl)] at hischeck
        exact absurd hischeck (by decide)
      · exact hno ⟨a, hal, lesson, hlesson', hv, hcheck⟩
  -- the current lessons shown are the shared ones
  · show a ∈ (currentOf l).filter _ ↔ a ∈ currentOf l ∧ _
    rw [List.mem_filter]
    apply and_congr_right
    intro ha
    obtain ⟨hal, hsome⟩ := hlesson _ (mem_currentOf.mp ha) a (List.mem_singleton_self a)
    have hiff := hhidden a hal
    rw [Bool.not_eq_true', ← Bool.not_eq_true, hiff]
    exact ⟨teaches_of_not_private hsome, not_private_of_teaches⟩
  -- of a conflict at least two are shown, and those are shared
  · obtain ⟨hmap, hlen⟩ := List.mem_filter.mp hgroup
    obtain ⟨g, hg, rfl⟩ := List.mem_map.mp hmap
    refine ⟨by simpa using hlen, fun id hid => ?_⟩
    obtain ⟨hidg, hshown⟩ := List.mem_filter.mp hid
    obtain ⟨heads, hheads, a, ha, rfl⟩ :=
      mem_headGroups_of_conflict (List.mem_flatten.mpr ⟨g, hg, hidg⟩)
    obtain ⟨hal, hsome⟩ := hlesson heads hheads a ha
    have hpublic : ¬ Private l a := by
      rw [← hhidden a hal]
      simpa using hshown
    exact ⟨a, (hevents a).mpr ⟨hal, hpublic⟩, rfl, teaches_of_not_private hsome hpublic⟩

/-- **Another project reads nothing else of a case**, and only while one of its current lessons is
shared. -/
theorem Journal.getCase_other (h : Journal s) {projectId : Option String} {view : ExperienceCase}
    (hsome : projectId.isSome = true) (hget : s.getCase t projectId id = .ok view)
    (hother : projectId ≠ view.problem.projectId) :
    ∃ c, s.resolveCase t id = .ok c ∧ ReadsShared c view ∧
      ∃ a ∈ view.currentLessons, a.Teaches .shared := by
  unfold ExperienceStore.getCase at hget
  obtain ⟨c, hc, hread⟩ := except_bind_eq_ok.mp hget
  obtain ⟨p, hp, rfl, hpid, hproblem, rfl⟩ := h.resolveCase_eq_ok.mp hc
  by_cases hscope : projectId = p.projectId
  · -- a project that reads its own case reads all of it
    have hown : (projectId.isSome && projectId != p.projectId) = false := by simp [hscope]
    simp only [resolved, hown, Bool.false_eq_true, if_false] at hread
    obtain rfl := Except.ok.inj hread
    exact absurd hscope hother
  have hforeign : (projectId.isSome && projectId != p.projectId) = true := by simp [hsome, hscope]
  have hpmem := mem_caseEvents_of_isProblem hp rfl hproblem
  have hview := readsShared_resolved (p := p) (h.sortedEvents_keyed p.tenantId p.taskId)
    (h.sortedEvents_causal p.tenantId p.taskId)
    ((h.caseLaw hpmem).perm (sortedEvents_perm s p.tenantId p.taskId).symm)
  generalize sortArtifacts (s.experienceEvents p.tenantId p.taskId) = l at *
  cases hshared : (resolved p l).isShared with
  | false =>
    -- the case is not shared, so the project check refuses it
    have hrefused : requireProject projectId p.projectId =
        invalid "experience belongs to another project" := by
      unfold requireProject
      rw [hforeign]
      rfl
    simp only [show (resolved p l).problem.projectId = p.projectId from rfl, hforeign, hshared,
      hrefused, Bool.not_false, if_true] at hread
    obtain ⟨_, hno, -⟩ := except_bind_eq_ok.mp hread
    exact absurd hno invalid_ne_ok
  | true =>
    simp only [show (resolved p l).problem.projectId = p.projectId from rfl, hforeign, hshared,
      Bool.not_true, Bool.false_eq_true, if_false, if_true] at hread
    obtain rfl := Except.ok.inj hread
    refine ⟨_, hc, hview, ?_⟩
    unfold ExperienceCase.isShared at hshared
    obtain ⟨lesson, hmem, hv⟩ := List.any_eq_true.mp hshared
    obtain ⟨a, ha, hlesson⟩ := List.mem_filterMap.mp hmem
    have hteaches : a.Teaches .shared := ⟨lesson, hlesson, beq_iff_eq.mp hv⟩
    exact ⟨a, (hview.current a).mpr ⟨ha, hteaches⟩, hteaches⟩

/-- A lesson for the project only, beside the shared one. -/
def crashPrivate : Call :=
  .record crashContext ⟨⟨"l2", "", 5⟩, [5]⟩
    (.lesson { crashGuidance "ask the cluster team" with visibility := .project })

/-- The sample journal with a private lesson. -/
def crashGuarded : ExperienceStore := okOr ((crashStore 4).perform crashPrivate) {}

theorem crashGuarded_journal : Journal crashGuarded :=
  (Journal.perform crashStore_journal (show Sound _ crashPrivate from trivial) rfl).1

/-- What another project reads of the case. -/
def crashView : ExperienceCase :=
  okOr (crashGuarded.getCase "t" (some "q") "p1") (crashCase 0)

theorem crashView_shared : ∃ c, crashGuarded.resolveCase "t" "p1" = .ok c ∧
    ReadsShared c crashView ∧ ∃ a ∈ crashView.currentLessons, a.Teaches .shared :=
  crashGuarded_journal.getCase_other rfl
    (show crashGuarded.getCase "t" (some "q") "p1" = .ok crashView from rfl) (by decide)

/-- The lesson of the project is not among what is read. -/
example : crashView.events.map (·.artifactId) = ["p1", "a1", "o1", "l1"] := by decide

end Experience
