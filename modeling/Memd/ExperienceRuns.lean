/-
# Runs over the journal of experiences

Calls of any parties, one after the other: recordings, checks, writes of other artifacts and
imports.  The mutation lock makes each call one step, so a run is any interleaving of them.

* `Run.journal` — every run keeps a journal, and nothing recorded is lost or changed;
* `Run.problem_resolves` — so every problem ever recorded resolves;
* `Journal.attempt_unique` — of the recordings that name one attempt as the previous one, one is
  accepted;
* `Run.unforked` — recordings never correct a version of a lesson twice, so
  `Run.currentLessons_perm`: every lesson has exactly one current version;
* `Run.not_open` — a case with a lesson is never open again;
* `recordCorrection_resolves_iff` — when a correction leaves a case that resolves.
-/
import Memd.BundleImport

open Proc (except_bind_eq_ok)

namespace Experience

open ExperienceArtifact

variable {s s' s'' : ExperienceStore} {l : List ExperienceArtifact}
  {a b x p root : ExperienceArtifact} {t : TenantId} {taskId id : String}

/-! ## Calls -/

/-- A call on the artifacts of a store. -/
inductive Call
  | record (ctx : ExperienceContext) (draw : Draw) (event : RecordEvent)
  | recordCheck (ctx : ExperienceContext) (draw : Draw) (receipt : CheckReceipt)
  | recordObservedCheck (ctx : ExperienceContext) (draw : Draw) (check : ObservedCheck)
  | addTaskArtifact (a : ExperienceArtifact) (projectionIds : List ChunkId)
  | importBundle (t : TenantId) (projections : String → List ChunkId)
      (bundle : ExperienceBundleV1)

/-- The store after a call that succeeds. -/
def ExperienceStore.perform (s : ExperienceStore) : Call → Except MemdError ExperienceStore
  | .record ctx draw event => (s.record ctx draw event).map (·.2)
  | .recordCheck ctx draw receipt => (s.recordCheck ctx draw receipt).map (·.2)
  | .recordObservedCheck ctx draw check => (s.recordObservedCheck ctx draw check).map (·.2)
  | .addTaskArtifact a projectionIds => s.addTaskArtifact a projectionIds
  | .importBundle t projections bundle => (s.importBundle t projections bundle).map (·.2)

/-- What a run relies on: a new task id is new, a correction is timely, and what is written
otherwise is not of an experience. -/
def Sound (s : ExperienceStore) : Call → Prop
  | .record _ draw (.problem ..) => ∀ b ∈ s.artifacts, b.taskId ≠ s!"experience-{draw.taskId}"
  | .record ctx draw (.correction _ supersedesId _) => Timely s ctx draw supersedesId
  | .addTaskArtifact a _ => a.event = none
  | _ => True

/-- A sound call that imports nothing. -/
def Recorded (s : ExperienceStore) (call : Call) : Prop :=
  Sound s call ∧ ∀ t projections bundle, call ≠ .importBundle t projections bundle

/-- A call that is allowed and succeeds.  One that fails leaves the store as it is. -/
def Steps (allowed : ExperienceStore → Call → Prop) (s s' : ExperienceStore) : Prop :=
  ∃ call, allowed s call ∧ s.perform call = .ok s'

/-- Any number of calls, one after the other. -/
abbrev Run (allowed : ExperienceStore → Call → Prop) : ExperienceStore → ExperienceStore → Prop :=
  Relation.ReflTransGen (Steps allowed)

/-- A second component that is returned. -/
theorem except_map_snd_eq_ok {ε α β : Type} {r : Except ε (α × β)} {y : β} :
    r.map (·.2) = .ok y ↔ ∃ x, r = .ok (x, y) := by
  cases r with
  | error e => simp [Except.map]
  | ok z => simp [Except.map, Prod.ext_iff]

/-! ## What a call does -/

/-- Another artifact leaves the experience artifacts as they are. -/
theorem addTaskArtifact_other {ids : List ChunkId} (hk : KeyedIds s.artifacts)
    (hevent : a.event = none) (h : s.addTaskArtifact a ids = .ok s') :
    KeyedIds s'.artifacts ∧ s'.experience = s.experience := by
  unfold ExperienceStore.addTaskArtifact ExperienceStore.ensureTaskArtifactWriteSafe at h
  obtain ⟨_, hsafe, hs⟩ := except_bind_eq_ok.mp h
  obtain ⟨_, hcollision, -⟩ := except_bind_eq_ok.mp hsafe
  obtain rfl := Except.ok.inj hs
  -- an experience artifact with the id would have been a collision
  have hother : ∀ b ∈ s.artifacts, b.event.isSome = true → b.artifactId ≠ a.artifactId := by
    intro b hb hbevent hid
    rw [(getTaskArtifactGlobal_eq_some hk).mpr ⟨hb, hid⟩] at hcollision
    unfold ExperienceStore.rejectExperienceArtifactOverwrite at hcollision
    simp only [demand_eq_ok, Bool.or_eq_true, beq_iff_eq, Bool.and_eq_true,
      Option.isNone_iff_eq_none] at hcollision
    rcases hcollision with rfl | ⟨hnone, -⟩
    · rw [hevent] at hbevent
      exact absurd hbevent (by decide)
    · rw [hnone] at hbevent
      exact absurd hbevent (by decide)
  constructor
  · rw [insertArtifact_artifacts]
    exact Table.Keyed.insertOrReplace hk fun b _ hid => beq_iff_eq.mpr hid
  · unfold ExperienceStore.experience
    rw [insertArtifact_artifacts, Table.insertOrReplace, List.filter_append, List.filter_filter,
      List.filter_cons_of_neg (by simp [hevent]), List.filter_nil, List.append_nil]
    apply List.filter_congr
    intro b hb
    by_cases hbevent : b.event.isSome = true
    · simp [hbevent, hother b hb hbevent]
    · simp [hbevent]

/-- The same recorded artifacts make the same cases. -/
theorem caseEvents_congr (h : s'.experience = s.experience) (t : TenantId) (taskId : String) :
    s'.caseEvents t taskId = s.caseEvents t taskId := by
  rw [caseEvents_eq_filter, caseEvents_eq_filter, h]

/-- An artifact without an event keeps the journal. -/
theorem Journal.other {ids : List ChunkId} (h : Journal s) (hevent : a.event = none)
    (hadd : s.addTaskArtifact a ids = .ok s') : Journal s' := by
  obtain ⟨hkeyed, hexperience⟩ := addTaskArtifact_other h.keyed hevent hadd
  refine ⟨hkeyed, fun b hb hbevent => ?_, hexperience ▸ h.causal⟩
  have hmem : b ∈ s.experience := by
    rw [← hexperience]
    exact mem_experience.mpr ⟨hb, hbevent⟩
  rw [caseEvents_congr hexperience]
  exact h.law b (mem_experience.mp hmem).1 hbevent

/-- What a sound recording has written: an artifact that starts a case or extends one, and corrects
what nothing else there corrects. -/
theorem Journal.record (h : Journal s) {ctx : ExperienceContext} {draw : Draw}
    {event : RecordEvent} (hsound : Sound s (.record ctx draw event))
    (hr : s.record ctx draw event = .ok (a, s')) :
    Journal s' ∧ Adds s s' a ∧ ∀ id, a.supersedes? = some id →
      ∀ b ∈ s.caseEvents a.tenantId a.taskId, b.supersedes? ≠ some id := by
  cases event with
  | problem description terms =>
    obtain ⟨hjournal, hadds, hnone⟩ := recordProblem_journal h hr hsound
    exact ⟨hjournal, hadds, supersedes?_eq_none hnone⟩
  | attempt problemId previousAttemptId action =>
    have hw := recordAttempt_wrote h hr
    exact ⟨hw.journal h, hw.adds, hw.corrects_new⟩
  | lesson lesson =>
    have hw := recordLesson_wrote h hr
    exact ⟨hw.journal h, hw.adds, hw.corrects_new⟩
  | correction problemId supersedesId replacement =>
    have hw := recordCorrection_wrote h hr hsound
    exact ⟨hw.journal h, hw.adds, hw.corrects_new⟩

/-- **A sound call keeps a journal**, and keeps what is in it. -/
theorem Journal.perform (h : Journal s) {call : Call} (hsound : Sound s call)
    (hp : s.perform call = .ok s') : Journal s' ∧ ∀ a ∈ s.experience, a ∈ s'.experience := by
  have hadds : ∀ {a : ExperienceArtifact}, Adds s s' a → ∀ b ∈ s.experience, b ∈ s'.experience := by
    intro a hadds b hb
    obtain ⟨hmem, hevent⟩ := mem_experience.mp hb
    exact mem_experience.mpr ⟨hadds.mem_iff.mpr (.inl hmem), hevent⟩
  cases call with
  | record ctx draw event =>
    obtain ⟨a, hr⟩ := except_map_snd_eq_ok.mp hp
    obtain ⟨hjournal, hadd, -⟩ := h.record hsound hr
    exact ⟨hjournal, hadds hadd⟩
  | recordCheck ctx draw receipt =>
    obtain ⟨a, hr⟩ := except_map_snd_eq_ok.mp hp
    have hw := recordCheck_wrote h hr
    exact ⟨hw.journal h, hadds hw.adds⟩
  | recordObservedCheck ctx draw check =>
    obtain ⟨a, hr⟩ := except_map_snd_eq_ok.mp hp
    have hw := recordObservedCheck_wrote h hr
    exact ⟨hw.journal h, hadds hw.adds⟩
  | addTaskArtifact a projectionIds =>
    refine ⟨h.other hsound hp, fun b hb => ?_⟩
    rw [(addTaskArtifact_other h.keyed hsound hp).2]
    exact hb
  | importBundle t projections bundle =>
    obtain ⟨report, hi⟩ := except_map_snd_eq_ok.mp hp
    obtain ⟨ordered, -, -, -, -, -, hs, -⟩ := h.importBundle_spec hi
    refine ⟨h.importBundle hi, fun b hb => ?_⟩
    obtain ⟨hmem, hevent⟩ := mem_experience.mp hb
    refine mem_experience.mpr ⟨?_, hevent⟩
    rw [hs]
    exact List.mem_append_left _ hmem

/-! ## Runs -/

/-- **Every run keeps a journal**, and keeps what is in it. -/
theorem Run.journal (hrun : Run Sound s s') (h : Journal s) :
    Journal s' ∧ ∀ a ∈ s.experience, a ∈ s'.experience := by
  induction hrun with
  | refl => exact ⟨h, fun _ ha => ha⟩
  | tail _ hstep ih =>
    obtain ⟨call, hsound, hp⟩ := hstep
    obtain ⟨hjournal, hsub⟩ := ih.1.perform hsound hp
    exact ⟨hjournal, fun a ha => hsub a (ih.2 a ha)⟩

/-- A run whose calls are allowed otherwise. -/
theorem Run.mono {allowed allowed' : ExperienceStore → Call → Prop} (hrun : Run allowed s s')
    (himp : ∀ s call, allowed s call → allowed' s call) : Run allowed' s s' := by
  induction hrun with
  | refl => exact .refl
  | tail _ hstep ih =>
    obtain ⟨call, hallowed, hp⟩ := hstep
    exact ih.tail ⟨call, himp _ call hallowed, hp⟩

/-! ### A case of five records -/

/-- A project that records what it finds out about a crash. -/
def crashContext : ExperienceContext := { tenantId := "t", projectId := some "p" }

/-- The problem. -/
def crashProblem : Call :=
  .record crashContext ⟨⟨"p1", "u", 1⟩, [1]⟩ (.problem "crash" ["oom"])

/-- An attempt to solve it. -/
def crashAttempt : Call :=
  .record crashContext ⟨⟨"a1", "", 2⟩, [2]⟩ (.attempt "p1" none "add memory")

/-- The check of the attempt. -/
def crashCheck : Call :=
  .recordObservedCheck crashContext ⟨⟨"o1", "", 3⟩, [3]⟩ ⟨"a1", "works", none⟩

/-- A lesson of the check. -/
def crashGuidance (guidance : String) : ConditionalLesson where
  problemId := "p1"
  supportingCheckId := "o1"
  guidance := guidance
  symptomTerms := ["oom"]
  visibility := .shared
  evidence := .observed

/-- The lesson as it is recorded. -/
def crashLesson : Call :=
  .record crashContext ⟨⟨"l1", "", 4⟩, [4]⟩ (.lesson (crashGuidance "add memory"))

/-- The draw of a correction. -/
def correctionDraw (now : ℤ) : Draw :=
  ⟨⟨"x1", "", now⟩, [5]⟩

/-- A correction of the lesson. -/
def crashCorrection : Call :=
  .record crashContext (correctionDraw 5) (.correction "p1" "l1" (crashGuidance "less load"))

/-- The result of a call that succeeds. -/
def okOr {ε α : Type} (r : Except ε α) (a : α) : α :=
  match r with
  | .ok a => a
  | .error _ => a

/-- The store after the first `n` of the records. -/
def crashStore (n : ℕ) : ExperienceStore :=
  okOr (([crashProblem, crashAttempt, crashCheck, crashLesson, crashCorrection].take n).foldlM
    ExperienceStore.perform {}) {}

/-- The artifact of the problem. -/
def crashOpened : ExperienceArtifact :=
  problemArtifact crashContext ⟨⟨"p1", "u", 1⟩, [1]⟩ "crash" ["oom"]

/-- The artifact of the attempt. -/
def crashTried : ExperienceArtifact :=
  attemptArtifact crashContext ⟨⟨"a1", "", 2⟩, [2]⟩ "experience-u" "p1" none 1 "add memory"

/-- The case after the first `n` of the records. -/
def crashCase (n : ℕ) : ExperienceCase :=
  okOr ((crashStore n).resolveCase "t" "p1") ⟨crashOpened, [], [], [], .open⟩

/-- The first call. -/
theorem crashStore_opened : Run Recorded {} (crashStore 1) :=
  .single ⟨crashProblem, ⟨fun _ hb => absurd hb List.not_mem_nil, fun _ _ _ => by simp [crashProblem]⟩,
    rfl⟩

/-- The three calls behind it. -/
theorem crashStore_solved : Run Recorded (crashStore 1) (crashStore 4) := by
  have h₂ : Run Recorded (crashStore 1) (crashStore 2) :=
    .single ⟨crashAttempt, ⟨trivial, fun _ _ _ => by simp [crashAttempt]⟩, rfl⟩
  have h₃ : Run Recorded (crashStore 1) (crashStore 3) :=
    h₂.tail ⟨crashCheck, ⟨trivial, fun _ _ _ => by simp [crashCheck]⟩, rfl⟩
  exact h₃.tail ⟨crashLesson, ⟨trivial, fun _ _ _ => by simp [crashLesson]⟩, rfl⟩

/-- The correction. -/
theorem crashStore_corrected : Run Recorded (crashStore 4) (crashStore 5) :=
  .single ⟨crashCorrection, ⟨.inr (by decide), fun _ _ _ => by simp [crashCorrection]⟩, rfl⟩

/-- A run of recordings is sound. -/
theorem Run.sound (hrun : Run Recorded s s') : Run Sound s s' :=
  Run.mono hrun fun _ _ h => h.1

/-- Four calls leave a journal. -/
theorem crashStore_journal : Journal (crashStore 4) :=
  (Run.journal (Run.sound (crashStore_opened.trans crashStore_solved)) Journal.empty).1

/-- **Every problem ever recorded resolves**, after any calls of any parties, to a case that has
all the artifacts recorded of it. -/
theorem Run.problem_resolves (hbefore : Run Sound {} s) (hrun : Run Sound s s')
    (hp : p ∈ s.experience) (hproblem : p.isProblem = true) :
    ∃ c, s'.resolveCase p.tenantId p.artifactId = .ok c ∧ c.problem = p ∧
      ∀ a ∈ s.caseEvents p.tenantId p.taskId, a ∈ c.events := by
  have h' := (Run.journal hrun (Run.journal hbefore Journal.empty).1)
  have hmem := (mem_experience.mp (h'.2 p hp)).1
  refine ⟨_, h'.1.resolveCase_eq_ok.mpr ⟨p, hmem, rfl, rfl, hproblem, rfl⟩, rfl, fun a ha => ?_⟩
  obtain ⟨hamem, hevent, htenant, htask⟩ := mem_caseEvents.mp ha
  obtain ⟨hamem', -⟩ := mem_experience.mp (h'.2 a (mem_experience.mpr ⟨hamem, hevent⟩))
  exact mem_sortArtifacts.mpr ((experienceEvents_perm s' _ _).mem_iff.mpr
    (mem_caseEvents.mpr ⟨hamem', hevent, htenant, htask⟩))

/-- The problem resolves after the other calls. -/
theorem crashProblem_resolves : ∃ c, (crashStore 4).resolveCase "t" "p1" = .ok c ∧
    c.problem = crashOpened ∧ ∀ a ∈ (crashStore 1).caseEvents "t" "experience-u", a ∈ c.events :=
  Run.problem_resolves (Run.sound crashStore_opened) (Run.sound crashStore_solved)
    (List.mem_singleton_self crashOpened) rfl

/-! ## The state of a case -/

/-- A case is open when it has no lesson, and only then. -/
theorem resolutionState_eq_open (hk : KeyedIds l) (h : CausalCase l) :
    (resolved p l).resolutionState = .open ↔ ∀ a ∈ l, a.isLesson = false := by
  have hgroups : ∀ root ∈ l, root.isLesson = true →
      ∃ g ∈ headGroups l, g ≠ [] := by
    intro root hroot hlesson
    obtain ⟨b, hb⟩ := exists_mem_latest (terminalsOf_ne_nil (a := root) hk h)
    exact ⟨_, List.mem_map.mpr ⟨root, List.mem_filter.mpr ⟨hroot, hlesson⟩, rfl⟩,
      List.ne_nil_of_mem hb⟩
  have hstate : (resolved p l).resolutionState = .open ↔ conflictsOf l = [] ∧ currentOf l = [] := by
    show resolutionStateOf (conflictsOf l) (currentOf l) = .open ↔ _
    unfold resolutionStateOf
    cases hconflicts : conflictsOf l <;> cases hcurrent : currentOf l <;> simp
  rw [hstate]
  constructor
  · rintro ⟨hconflicts, hcurrent⟩ root hroot
    by_contra hlesson
    obtain ⟨g, hg, hne⟩ := hgroups root hroot (by simpa using hlesson)
    -- its latest versions are one current lesson, or a conflict
    by_cases hone : g.length = 1
    · obtain ⟨b, rfl⟩ := List.length_eq_one_iff.mp hone
      have hmem := mem_currentOf.mpr hg
      rw [hcurrent] at hmem
      exact absurd hmem List.not_mem_nil
    · have hopen : g.map (·.artifactId) ∈ openGroups l := by
        rw [openGroups, List.mem_insertionSort]
        exact List.mem_map_of_mem (List.mem_filter.mpr ⟨hg, by simpa using hone⟩)
      have hmem : g.map (·.artifactId) ∈ conflictsOf l := by
        rw [conflictsOf, List.mem_insertionSort, mem_addConflictGroups]
        exact .inl hopen
      rw [hconflicts] at hmem
      exact absurd hmem List.not_mem_nil
  · intro hnone
    have hnil : headGroups l = [] := by
      rw [headGroups, List.filter_eq_nil_iff.mpr fun a ha => by simp [hnone a ha], List.map_nil]
    have hcurrent : currentOf l = [] := by
      rw [currentOf, hnil]
      rfl
    refine ⟨?_, hcurrent⟩
    rw [conflictsOf, hcurrent, openGroups, hnil]
    rfl

/-- **A case with a lesson is never open again**, whatever is recorded or imported. -/
theorem Run.not_open (hbefore : Run Sound {} s) (hrun : Run Sound s s') {c c' : ExperienceCase}
    (hc : s.resolveCase t id = .ok c) (hopen : c.resolutionState ≠ .open)
    (hc' : s'.resolveCase t id = .ok c') : c'.resolutionState ≠ .open := by
  have h := (Run.journal hbefore Journal.empty).1
  obtain ⟨h', hsub⟩ := Run.journal hrun h
  obtain ⟨p, hp, hpt, hpid, hproblem, rfl⟩ := h.resolveCase_eq_ok.mp hc
  obtain ⟨q, hq, -, hqid, -, rfl⟩ := h'.resolveCase_eq_ok.mp hc'
  obtain ⟨event, hevent⟩ := isProblem_event hproblem
  have hp' := (mem_experience.mp (hsub p (mem_experience.mpr ⟨hp, by rw [hevent]; rfl⟩))).1
  obtain rfl : p = q := h'.keyed.eq hp' hq (hpid.trans hqid.symm)
  have hsorted : ∀ s : ExperienceStore, (sortArtifacts (s.experienceEvents t p.taskId)).Perm
      (s.caseEvents t p.taskId) := fun s =>
    (sortArtifacts_perm _).trans (experienceEvents_perm s t p.taskId)
  have hstate : ∀ {s : ExperienceStore}, Journal s →
      ((resolved p (sortArtifacts (s.experienceEvents t p.taskId))).resolutionState = .open ↔
        ∀ a ∈ s.caseEvents t p.taskId, a.isLesson = false) := by
    intro s h
    rw [resolutionState_eq_open ((h.keyed.caseEvents t p.taskId).perm (hsorted s).symm)
      ((h.caseCausal t p.taskId).perm (hsorted s).symm)]
    simp only [(hsorted s).mem_iff]
  rw [ne_eq, hstate h] at hopen
  rw [ne_eq, hstate h']
  refine fun hnone => hopen fun a ha => hnone a ?_
  obtain ⟨hmem, haevent, htenant, htask⟩ := mem_caseEvents.mp ha
  obtain ⟨hmem', -⟩ := mem_experience.mp (hsub a (mem_experience.mpr ⟨hmem, haevent⟩))
  exact mem_caseEvents.mpr ⟨hmem', haevent, htenant, htask⟩

/-- The case is not open. -/
theorem crashCase_not_open : (crashCase 5).resolutionState ≠ .open :=
  Run.not_open (Run.sound (crashStore_opened.trans crashStore_solved)) (Run.sound crashStore_corrected)
    (show (crashStore 4).resolveCase "t" "p1" = .ok (crashCase 4) from rfl) (by decide) rfl

/-! ## Attempts -/

/-- The attempts of a case form a chain. -/
theorem Journal.attemptChain (h : Journal s) (ha : a ∈ s.caseEvents t taskId) :
    AttemptChain ((s.caseEvents t taskId).filter isAttempt) :=
  (h.caseLaw ha).attempts

/-- **The attempts of a problem** are numbered from one without a gap, and each but the first names
the one before it. -/
theorem Journal.attempts_numbered (h : Journal s) (ha : a ∈ s.caseEvents t taskId)
    (hattempt : a.isAttempt = true) :
    (1 ≤ ordinalOf a ∧ ordinalOf a ≤ ((s.caseEvents t taskId).filter isAttempt).length) ∧
      (ordinalOf a = 1 ↔ previousOf a = none) ∧
      (ordinalOf a ≠ 1 → ∃ b ∈ s.caseEvents t taskId, b.isAttempt = true ∧
        previousOf a = some b.artifactId ∧ ordinalOf b + 1 = ordinalOf a) ∧
      ∀ b ∈ s.caseEvents t taskId, b.isAttempt = true → ordinalOf b = ordinalOf a → b = a := by
  have hchain := h.attemptChain ha
  have hmem := List.mem_filter.mpr ⟨ha, hattempt⟩
  refine ⟨(hchain.ordinals _).mp (List.mem_map_of_mem hmem), ?_, ?_, ?_⟩
  · rcases hchain.follows a hmem with ⟨hone, hnone⟩ | ⟨b, -, hprevious, -, -, -, hne⟩
    · simp [hone, hnone]
    · simp [hne, hprevious]
  · intro hne
    rcases hchain.follows a hmem with ⟨hone, -⟩ | ⟨b, hb, hprevious, hbattempt, -, hnext, -⟩
    · exact absurd hone hne
    · exact ⟨b, (List.mem_filter.mp hb).1, hbattempt, hprevious, hnext.symm⟩
  · intro b hb hbattempt hordinal
    exact List.inj_on_of_nodup_map hchain.distinct (List.mem_filter.mpr ⟨hb, hbattempt⟩) hmem hordinal

/-! ### A second attempt -/

/-- A second attempt, behind the first. -/
def crashRetry : Call :=
  .record crashContext ⟨⟨"a2", "", 3⟩, [3]⟩ (.attempt "p1" (some "a1") "add swap")

/-- The store after a second attempt on the problem. -/
def crashRetried : ExperienceStore := okOr ((crashStore 2).perform crashRetry) {}

/-- Its artifact. -/
def crashSecond : ExperienceArtifact :=
  attemptArtifact crashContext ⟨⟨"a2", "", 3⟩, [3]⟩ "experience-u" "p1" (some "a1") 2 "add swap"

/-- A second attempt leaves a journal. -/
theorem crashRetried_journal : Journal crashRetried := by
  have h₂ : Run Sound {} (crashStore 2) :=
    (Run.sound crashStore_opened).tail ⟨crashAttempt, trivial, rfl⟩
  exact (Run.journal (h₂.tail ⟨crashRetry, trivial, rfl⟩) Journal.empty).1

/-- The second attempt is in its case. -/
theorem mem_crashSecond : crashSecond ∈ crashRetried.caseEvents "t" "experience-u" :=
  List.mem_cons_of_mem crashOpened (List.mem_cons_of_mem crashTried List.mem_cons_self)

/-- The second of two attempts. -/
theorem crashSecond_numbered :
    (1 ≤ ordinalOf crashSecond ∧ ordinalOf crashSecond ≤
        ((crashRetried.caseEvents "t" "experience-u").filter isAttempt).length) ∧
      ∃ b ∈ crashRetried.caseEvents "t" "experience-u", b.isAttempt = true ∧
        previousOf crashSecond = some b.artifactId ∧ ordinalOf b + 1 = ordinalOf crashSecond :=
  have h := crashRetried_journal.attempts_numbered mem_crashSecond rfl
  ⟨h.1, h.2.2.1 (by decide)⟩

/-- **Of all recordings that name one attempt as the previous one, one is accepted**: parties that
work on the same attempt do not overwrite each other. -/
theorem Journal.attempt_unique (h : Journal s) (ha : a ∈ s.caseEvents t taskId)
    (hb : b ∈ s.caseEvents t taskId) (hattempt : a.isAttempt = true)
    (hattempt' : b.isAttempt = true) (hsame : previousOf a = previousOf b) : a = b := by
  have hchain := h.attemptChain ha
  have hma := List.mem_filter.mpr ⟨ha, hattempt⟩
  have hmb := List.mem_filter.mpr ⟨hb, hattempt'⟩
  apply List.inj_on_of_nodup_map hchain.distinct hma hmb
  rcases hchain.follows a hma with ⟨hone, hnone⟩ | ⟨c, hc, hprevious, -, -, hnext, -⟩
  · rcases hchain.follows b hmb with ⟨hone', -⟩ | ⟨d, -, hprevious', -⟩
    · rw [hone, hone']
    · rw [hnone, hprevious'] at hsame
      exact absurd hsame (by simp)
  · rcases hchain.follows b hmb with ⟨-, hnone'⟩ | ⟨d, hd, hprevious', -, -, hnext', -⟩
    · rw [hprevious, hnone'] at hsame
      exact absurd hsame (by simp)
    · rw [hprevious, hprevious', Option.some.injEq] at hsame
      have hkeyed := (h.keyed.caseEvents t taskId).filter isAttempt
      rw [hnext, hnext', hkeyed.eq hc hd hsame]

/-- Two recordings behind one attempt. -/
theorem crashSecond_unique : crashRetried.artifacts.getD 2 crashOpened = crashSecond :=
  have hstored : crashRetried.artifacts.getD 2 crashOpened ∈
      crashRetried.caseEvents "t" "experience-u" := mem_crashSecond
  crashRetried_journal.attempt_unique hstored mem_crashSecond rfl rfl rfl

/-! ## Corrections -/

/-- No case of the store corrects a version of a lesson twice. -/
def UnforkedCases (s : ExperienceStore) : Prop :=
  ∀ t taskId, Unforked (s.caseEvents t taskId)

/-- An artifact that corrects nothing, or what nothing else corrects. -/
theorem UnforkedCases.adds (hun : UnforkedCases s) (hadds : Adds s s' a)
    (hnew : ∀ id, a.supersedes? = some id → ∀ b ∈ s.caseEvents a.tenantId a.taskId,
      b.supersedes? ≠ some id) : UnforkedCases s' := by
  intro t taskId
  rcases hadds with ⟨-, hperm⟩ | ⟨-, hs⟩
  · intro x hx y hy
    have hp := caseEvents_perm hperm t taskId
    exact hun t taskId x (hp.mem_iff.mp hx) y (hp.mem_iff.mp hy)
  rw [caseEvents_append hs]
  by_cases hcase : inCase t taskId a = true
  · obtain ⟨-, rfl, rfl⟩ := inCase_iff.mp hcase
    rw [if_pos hcase]
    intro x hx y hy hsome hsame
    obtain ⟨id, hid⟩ := Option.isSome_iff_exists.mp hsome
    rcases List.mem_append.mp hx with hx | hx <;> rcases List.mem_append.mp hy with hy | hy
    · exact hun _ _ x hx y hy hsome hsame
    · obtain rfl := List.mem_singleton.mp hy
      exact absurd hid (hnew id (hsame ▸ hid) x hx)
    · obtain rfl := List.mem_singleton.mp hx
      exact absurd (hsame ▸ hid) (hnew id hid y hy)
    · rw [List.mem_singleton.mp hx, List.mem_singleton.mp hy]
  · rw [if_neg hcase, List.append_nil]
    exact hun t taskId

/-- **Recordings never correct a version of a lesson twice.** -/
theorem Journal.perform_unforked (h : Journal s) (hun : UnforkedCases s) {call : Call}
    (hrecorded : Recorded s call) (hp : s.perform call = .ok s') : UnforkedCases s' := by
  obtain ⟨hsound, himport⟩ := hrecorded
  cases call with
  | record ctx draw event =>
    obtain ⟨a, hr⟩ := except_map_snd_eq_ok.mp hp
    obtain ⟨-, hadds, hnew⟩ := h.record hsound hr
    exact hun.adds hadds hnew
  | recordCheck ctx draw receipt =>
    obtain ⟨a, hr⟩ := except_map_snd_eq_ok.mp hp
    have hw := recordCheck_wrote h hr
    exact hun.adds hw.adds hw.corrects_new
  | recordObservedCheck ctx draw check =>
    obtain ⟨a, hr⟩ := except_map_snd_eq_ok.mp hp
    have hw := recordObservedCheck_wrote h hr
    exact hun.adds hw.adds hw.corrects_new
  | addTaskArtifact a projectionIds =>
    intro t taskId
    rw [caseEvents_congr (addTaskArtifact_other h.keyed hsound hp).2]
    exact hun t taskId
  | importBundle t projections bundle => exact absurd rfl (himport t projections bundle)

/-- **Recordings never fork a case.** -/
theorem Run.unforked (hrun : Run Recorded s s') (h : Journal s) (hun : UnforkedCases s) :
    UnforkedCases s' := by
  induction hrun with
  | refl => exact hun
  | tail hbefore hstep ih =>
    obtain ⟨call, hrecorded, hp⟩ := hstep
    have hjournal := (Run.journal (Run.mono hbefore fun _ _ ha => ha.1) h).1
    exact hjournal.perform_unforked ih hrecorded hp

/-- **Every lesson has exactly one current version** as long as nothing is imported: the last of its
corrections, whatever the times say. -/
theorem Run.currentLessons_perm (hrun : Run Recorded {} s) {c : ExperienceCase}
    (hc : s.resolveCase t id = .ok c) :
    c.currentLessons.Perm ((c.events.filter isLesson).map (tipOf c.events)) ∧
      c.currentLessons.Nodup ∧
      ∀ root ∈ c.events, root.isLesson = true →
        Corrects c.events root (tipOf c.events root) ∧
          ∀ a ∈ c.events, a.supersedes? ≠ some (tipOf c.events root).artifactId := by
  have h := (Run.journal (Run.mono hrun fun _ _ ha => ha.1) Journal.empty).1
  have hun := Run.unforked hrun Journal.empty fun _ _ x hx => absurd hx List.not_mem_nil
  obtain ⟨p, hp, -, -, -, rfl⟩ := h.resolveCase_eq_ok.mp hc
  have hperm : (sortArtifacts (s.experienceEvents t p.taskId)).Perm (s.caseEvents t p.taskId) :=
    (sortArtifacts_perm _).trans (experienceEvents_perm s t p.taskId)
  generalize hl : sortArtifacts (s.experienceEvents t p.taskId) = l at *
  have hk : KeyedIds l := (h.keyed.caseEvents t p.taskId).perm hperm.symm
  have hcausal : CausalCase l := (h.caseCausal t p.taskId).perm hperm.symm
  have hunl : Unforked l := (hun t p.taskId).perm hperm.symm
  have hheads := (hunl.currentLessonHeads_eq hk hcausal).symm.trans (currentLessonHeads_eq hk hcausal)
  have hcurrent : currentOf l = sortArtifacts ((l.filter isLesson).map (tipOf l)) :=
    (Prod.mk.inj (Except.ok.inj hheads)).1.symm
  have htip : ∀ a, Corrects l a (tipOf l a) ∧ childrenOf l (tipOf l a).artifactId = [] :=
    fun a => hunl.tipOf_spec hk hcausal
  have hlessons : (resolved p l).currentLessons.Perm ((l.filter isLesson).map (tipOf l)) := by
    show (currentOf l).Perm _
    rw [hcurrent]
    exact sortArtifacts_perm _
  refine ⟨hlessons, hlessons.nodup_iff.mpr ?_, fun root hroot _ => ⟨(htip root).1, ?_⟩⟩
  · -- two lessons with one current version are one
    apply List.Nodup.map_on _ ((List.Nodup.of_map _ hk).filter _)
    intro a ha b hb hsame
    obtain ⟨hamem, halesson⟩ := List.mem_filter.mp ha
    obtain ⟨hbmem, hblesson⟩ := List.mem_filter.mp hb
    exact Corrects.root_eq (htip a).1 (hsame ▸ (htip b).1) hk hamem hbmem halesson hblesson
  · intro a ha hid
    have hmem := Corrects.mem (htip root).1 hroot
    have hchild : a ∈ childrenOf l (tipOf l root).artifactId :=
      mem_childrenOf.mpr ⟨⟨_, hmem, rfl⟩, ha, hid⟩
    rw [(htip root).2] at hchild
    exact absurd hchild List.not_mem_nil

/-- The current lesson of the corrected case. -/
theorem crashCase_current : (crashCase 5).currentLessons.Perm
      (((crashCase 5).events.filter isLesson).map (tipOf (crashCase 5).events)) ∧
    (crashCase 5).currentLessons.Nodup ∧
    ∀ root ∈ (crashCase 5).events, root.isLesson = true →
      Corrects (crashCase 5).events root (tipOf (crashCase 5).events root) ∧
        ∀ a ∈ (crashCase 5).events,
          a.supersedes? ≠ some (tipOf (crashCase 5).events root).artifactId :=
  Run.currentLessons_perm ((crashStore_opened.trans crashStore_solved).trans crashStore_corrected)
    (show (crashStore 5).resolveCase "t" "p1" = .ok (crashCase 5) from rfl)

/-- **A correction leaves a case that resolves** exactly when it is timely: a call without an
observed time is not held to the time of what it corrects, and the case it writes to is lost
when that time is still to come. -/
theorem recordCorrection_resolves_iff {ctx : ExperienceContext} {draw : Draw}
    {problemId supersedesId : String}
    {replacement : ConditionalLesson} (h : Journal s)
    (hr : s.recordCorrection ctx draw problemId supersedesId replacement = .ok (a, s')) :
    (∃ c, s'.resolveCase ctx.tenantId problemId = .ok c) ↔ Timely s ctx draw supersedesId := by
  obtain ⟨p, head, ha, hadds, hsame, ⟨hcase, hproblem, hid, htenant, -⟩, -, hhead, hheadid, -, -,
    -⟩ := recordCorrection_eq_ok h hr
  obtain ⟨hpmem, -, -, -⟩ := mem_caseEvents.mp hcase
  constructor
  · rintro ⟨c, hc⟩
    cases hobserved : ctx.observedAtMs with
    | some at_ => exact .inl (by rw [hobserved]; rfl)
    | none =>
      right
      intro b hb hbid
      have hk' := h.keyed.adds hadds
      obtain ⟨q, hq, -, hqid, hlaw⟩ := caseLaw_of_resolveCase hk' hc
      obtain rfl : p = q := hk'.eq (hadds.mem_iff.mpr (.inl hpmem)) hq (hid.trans hqid.symm)
      have hamem : a ∈ s'.caseEvents ctx.tenantId p.taskId := by
        rw [mem_caseEvents]
        refine ⟨hadds.mem_iff.mpr (.inr rfl), ?_⟩
        rw [ha]
        exact ⟨rfl, rfl, rfl⟩
      -- what the correction refers to, as the case has it
      have hrefs := hlaw.refs a hamem
      have hevent : a.event = some (.correction problemId supersedesId replacement) := by
        rw [ha]
        rfl
      unfold RefsHold at hrefs
      rw [hevent] at hrefs
      obtain ⟨-, d, hd, hdid, -, hle⟩ := hrefs
      obtain ⟨hdmem, -⟩ := mem_caseEvents.mp hd
      have hdb : d = b := hk'.eq hdmem (hadds.mem_iff.mpr (.inl hb)) (hdid.trans hbid.symm)
      have hnow : a.eventTime = draw.now := by
        rw [ha]
        show ctx.observedAtMs.getD draw.now = draw.now
        rw [hobserved]
        rfl
      rw [hdb, hnow] at hle
      exact hle
  · intro htimely
    have hjournal := (recordCorrection_wrote h hr htimely).journal h
    obtain ⟨c, hc, -⟩ := hjournal.exists_resolveCase (hadds.mem_iff.mpr (.inl hpmem)) hproblem
    rw [htenant, hid] at hc
    exact ⟨c, hc⟩

/-- The result of a correction with a time before that of the lesson. -/
def crashLate : ExperienceArtifact × ExperienceStore :=
  okOr ((crashStore 4).recordCorrection crashContext (correctionDraw 2) "p1" "l1"
    (crashGuidance "less load")) (crashOpened, {})

/-- It is accepted, and the case is lost. -/
theorem crashCase_lost : (crashStore 4).recordCorrection crashContext (correctionDraw 2) "p1" "l1"
      (crashGuidance "less load") = .ok crashLate ∧
    ¬ ∃ c, crashLate.2.resolveCase "t" "p1" = .ok c := by
  have hr : (crashStore 4).recordCorrection crashContext (correctionDraw 2) "p1" "l1"
      (crashGuidance "less load") = .ok (crashLate.1, crashLate.2) := rfl
  refine ⟨hr, fun h => ?_⟩
  rcases (recordCorrection_resolves_iff crashStore_journal hr).mp h with hsome | hnow
  · exact absurd hsome (by decide)
  · exact absurd hnow (by decide)

end Experience
