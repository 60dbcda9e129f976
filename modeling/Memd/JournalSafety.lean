/-
# The journal of experiences

The experience artifacts of a store are a journal: they are added and never replaced.  The cases
of a journal are lawful and their references point back (`Journal`), and every recording call
keeps it so.

* `Journal.adds` — an artifact that extends its case keeps the journal;
* `recordAttempt_wrote`, `recordCheck_wrote`, `recordLesson_wrote`, `recordCorrection_wrote` — what a
  call writes extends its case;
* `Journal.exists_resolveCase` — every problem of a journal resolves.
-/
import Memd.ExperienceJournal
import Memd.LessonHeads

open Proc (except_bind_eq_ok)

namespace Experience

open ExperienceArtifact

variable {s s' : ExperienceStore} {l l' : List ExperienceArtifact} {a b p : ExperienceArtifact}
  {t : TenantId} {taskId id : String}

/-! ## Reading the artifacts of a case -/

/-- An experience artifact of this task. -/
def inCase (t : TenantId) (taskId : String) (a : ExperienceArtifact) : Bool :=
  a.event.isSome && a.tenantId == t && a.taskId == taskId

/-- The artifacts of a case, in the order they were added. -/
def ExperienceStore.caseEvents (s : ExperienceStore) (t : TenantId) (taskId : String) :
    List ExperienceArtifact :=
  s.artifacts.filter (inCase t taskId)

/-- The artifacts of a case: those of its tenant and task with an event. -/
theorem inCase_iff :
    inCase t taskId a = true ↔ a.event.isSome = true ∧ a.tenantId = t ∧ a.taskId = taskId := by
  simp only [inCase, Bool.and_eq_true, beq_iff_eq, and_assoc]

/-- The artifacts of a case are in the store. -/
theorem mem_caseEvents : a ∈ s.caseEvents t taskId ↔
    a ∈ s.artifacts ∧ a.event.isSome = true ∧ a.tenantId = t ∧ a.taskId = taskId := by
  rw [ExperienceStore.caseEvents, List.mem_filter, inCase_iff]

/-- The listing of a case has its artifacts. -/
theorem experienceEvents_perm (s : ExperienceStore) (t : TenantId) (taskId : String) :
    (s.experienceEvents t taskId).Perm (s.caseEvents t taskId) := by
  unfold ExperienceStore.experienceEvents ExperienceStore.listTaskArtifacts
  refine ((List.perm_insertionSort _ _).filter _).trans ?_
  rw [List.filter_filter, ExperienceStore.caseEvents]
  apply List.Perm.of_eq
  apply List.filter_congr
  intro a _
  rw [inCase, Bool.and_assoc]

/-- The attempts of a task are those of its case. -/
theorem listTaskArtifacts_attempts_perm (s : ExperienceStore) (t : TenantId) (taskId : String) :
    ((s.listTaskArtifacts t taskId).filter isAttempt).Perm
      ((s.caseEvents t taskId).filter isAttempt) := by
  unfold ExperienceStore.listTaskArtifacts
  refine ((List.perm_insertionSort _ _).filter _).trans ?_
  rw [List.filter_filter, ExperienceStore.caseEvents, List.filter_filter]
  apply List.Perm.of_eq
  apply List.filter_congr
  intro a _
  by_cases hattempt : a.isAttempt = true
  · obtain ⟨event, hevent⟩ := isAttempt_event hattempt
    simp [inCase, hattempt, hevent]
  · simp [hattempt]

/-- No two artifacts of a case have one id. -/
theorem KeyedIds.caseEvents (hk : KeyedIds s.artifacts) (t : TenantId) (taskId : String) :
    KeyedIds (s.caseEvents t taskId) :=
  hk.filter _

/-- Nor two of a task. -/
theorem KeyedIds.listTaskArtifacts (hk : KeyedIds s.artifacts) (t : TenantId) (taskId : String) :
    KeyedIds (s.listTaskArtifacts t taskId) :=
  (hk.filter _).perm (List.perm_insertionSort _ _).symm

/-- What is found by an id. -/
theorem getExperience_eq_some (hk : KeyedIds s.artifacts) : s.getExperience t id = some a ↔
    a ∈ s.artifacts ∧ a.tenantId = t ∧ a.artifactId = id ∧ a.event.isSome = true := by
  unfold ExperienceStore.getExperience ExperienceStore.getTaskArtifact
  rw [Option.filter_eq_some_iff]
  constructor
  · rintro ⟨hfind, hevent⟩
    have hfound := List.find?_some hfind
    rw [Bool.and_eq_true, beq_iff_eq, beq_iff_eq] at hfound
    exact ⟨List.mem_of_find?_eq_some hfind, hfound.1, hfound.2, hevent⟩
  · rintro ⟨ha, rfl, rfl, hevent⟩
    refine ⟨?_, hevent⟩
    cases hfind : s.artifacts.find? fun b =>
        b.tenantId == a.tenantId && b.artifactId == a.artifactId with
    | none =>
      have hno := List.find?_eq_none.mp hfind a ha
      simp at hno
    | some b =>
      have hfound := List.find?_some hfind
      rw [Bool.and_eq_true, beq_iff_eq, beq_iff_eq] at hfound
      rw [hk.eq (List.mem_of_find?_eq_some hfind) ha hfound.2]

/-- A value that is there is handed on. -/
theorem required_eq_ok {α : Type} {value : Option α} {message : String} {x : α} :
    required value message = .ok x ↔ value = some x := by
  unfold required
  cases value <;> simp

/-! ## Journals -/

/-- The experience artifacts of a store. -/
def ExperienceStore.experience (s : ExperienceStore) : List ExperienceArtifact :=
  s.artifacts.filter (·.event.isSome)

/-- Artifacts with different ids, whose cases are lawful and whose references point back. -/
structure Journal (s : ExperienceStore) : Prop where
  keyed : KeyedIds s.artifacts
  law : ∀ a ∈ s.artifacts, a.event.isSome = true → CaseLaw (s.caseEvents a.tenantId a.taskId)
  causal : CausalCase s.experience

/-- The empty store is a journal. -/
theorem Journal.empty : Journal {} where
  keyed := List.nodup_nil
  law _ ha := absurd ha List.not_mem_nil
  causal := Causal.Acyclic.nil

/-- The artifacts of a case in another order of the store. -/
theorem caseEvents_perm (h : s'.artifacts.Perm s.artifacts) (t : TenantId) (taskId : String) :
    (s'.caseEvents t taskId).Perm (s.caseEvents t taskId) :=
  h.filter _

/-- A journal does not depend on the order of the artifacts. -/
theorem Journal.perm (h : Journal s) (hp : s'.artifacts.Perm s.artifacts) : Journal s' where
  keyed := h.keyed.perm hp.symm
  law a ha hevent := (h.law a (hp.mem_iff.mp ha) hevent).perm (caseEvents_perm hp _ _).symm
  causal := h.causal.perm (hp.filter _).symm

/-- The artifacts with an event. -/
theorem mem_experience : a ∈ s.experience ↔ a ∈ s.artifacts ∧ a.event.isSome = true := by
  rw [ExperienceStore.experience, List.mem_filter]

/-- A case is a part of them. -/
theorem caseEvents_eq_filter (s : ExperienceStore) (t : TenantId) (taskId : String) :
    s.caseEvents t taskId = s.experience.filter (inCase t taskId) := by
  rw [ExperienceStore.experience, List.filter_filter, ExperienceStore.caseEvents]
  apply List.filter_congr
  intro a _
  cases hevent : a.event.isSome <;> simp [inCase, hevent]

/-- What must be there before an artifact is there. -/
theorem RefsHold.causal (h : RefsHold l a) (hshape : ∃ event, Enveloped a event) :
    ∀ r ∈ a.causalIds, ∃ b ∈ l, b.artifactId = r := by
  obtain ⟨event, henv⟩ := hshape
  have hholds : ∀ {id : String} {P : ExperienceArtifact → Prop}, Holds l id P →
      ∃ b ∈ l, b.artifactId = id := by
    rintro id P ⟨b, hb, hid, -⟩
    exact ⟨b, hb, hid⟩
  have hrefs : ∀ r ∈ event.causalIds, ∃ b ∈ l, b.artifactId = r := by
    unfold RefsHold at h
    rw [henv.event_eq] at h
    cases event with
    | problem description terms => exact fun r hr => absurd hr List.not_mem_nil
    | attempt problemId previous ordinal action =>
      intro r hr
      rcases List.mem_cons.mp hr with rfl | hr
      · exact hholds h.1
      · exact hholds (h.2 r (Option.mem_toList.mp hr))
    | check receipt =>
      intro r hr
      obtain rfl := List.mem_singleton.mp hr
      exact hholds h.2
    | observedCheck check =>
      intro r hr
      obtain rfl := List.mem_singleton.mp hr
      exact hholds h.2
    | lesson lesson =>
      intro r hr
      simp only [ExperienceEvent.causalIds, List.mem_cons, List.not_mem_nil, or_false] at hr
      rcases hr with rfl | rfl
      · exact hholds h.problem
      · exact hholds h.check
    | correction problemId supersedesId replacement =>
      have hsame : problemId = replacement.problemId := by
        obtain ⟨_, hdemand, -⟩ := except_bind_eq_ok.mp henv.envelope
        simpa using hdemand
      intro r hr
      simp only [ExperienceEvent.causalIds, List.mem_cons, List.not_mem_nil, or_false] at hr
      rcases hr with rfl | rfl | rfl
      · exact hsame ▸ hholds h.1.problem
      · exact hholds h.2
      · exact hholds h.1.check
  intro r hr
  apply hrefs r
  rw [ExperienceArtifact.causalIds, henv.event_eq] at hr
  exact hr

/-- What an artifact of a lawful case refers to is in the case. -/
theorem CaseLaw.causal (h : CaseLaw l) (ha : a ∈ l) :
    ∀ r ∈ a.causalIds, ∃ b ∈ l, b.artifactId = r := by
  obtain ⟨p, -, hscope⟩ := h.problem
  obtain ⟨event, henv, -⟩ := (hscope a ha).shape
  exact (h.refs a ha).causal ⟨event, henv⟩

/-- Every case of a journal obeys the law of cases. -/
theorem Journal.caseLaw (h : Journal s) (ha : a ∈ s.caseEvents t taskId) :
    CaseLaw (s.caseEvents t taskId) := by
  obtain ⟨hmem, hevent, rfl, rfl⟩ := mem_caseEvents.mp ha
  exact h.law a hmem hevent

/-- Its references point back. -/
theorem Journal.caseCausal (h : Journal s) (t : TenantId) (taskId : String) :
    CausalCase (s.caseEvents t taskId) := by
  rw [caseEvents_eq_filter]
  apply h.causal.filter (h.keyed.filter _)
  intro a ha
  rw [← caseEvents_eq_filter] at ha ⊢
  exact (h.caseLaw ha).causal ha

/-- The artifact is added, or was there. -/
def Adds (s s' : ExperienceStore) (a : ExperienceArtifact) : Prop :=
  (a ∈ s.artifacts ∧ s'.artifacts.Perm s.artifacts) ∨
    ((∀ b ∈ s.artifacts, b.artifactId ≠ a.artifactId) ∧ s'.artifacts = s.artifacts ++ [a])

/-- A write replaces the artifact with its id. -/
theorem insertArtifact_artifacts (s : ExperienceStore) (a : ExperienceArtifact)
    (ids : List ChunkId) : (s.insertArtifact a ids).artifacts =
      Table.insertOrReplace (fun x y => x.artifactId == y.artifactId) a s.artifacts :=
  rfl

/-- **An experience artifact is never replaced.** -/
theorem adds_of_addTaskArtifact {ids : List ChunkId} (hk : KeyedIds s.artifacts)
    (hevent : a.event.isSome = true) (h : s.addTaskArtifact a ids = .ok s') : Adds s s' a := by
  unfold ExperienceStore.addTaskArtifact ExperienceStore.ensureTaskArtifactWriteSafe at h
  obtain ⟨_, hsafe, hs⟩ := except_bind_eq_ok.mp h
  obtain ⟨_, hcollision, -⟩ := except_bind_eq_ok.mp hsafe
  obtain rfl := Except.ok.inj hs
  cases hfind : s.getTaskArtifactGlobal a.artifactId with
  | none =>
    have hno : ∀ b ∈ s.artifacts, b.artifactId ≠ a.artifactId := by
      intro b hb
      simpa using List.find?_eq_none.mp hfind b hb
    refine .inr ⟨hno, ?_⟩
    rw [insertArtifact_artifacts, Table.insertOrReplace, List.filter_eq_self.mpr]
    intro b hb
    simpa using hno b hb
  | some b =>
    have hb : b ∈ s.artifacts := List.mem_of_find?_eq_some hfind
    have hid : b.artifactId = a.artifactId := by simpa using List.find?_some hfind
    have hsame : b = a := by
      rw [hfind] at hcollision
      unfold ExperienceStore.rejectExperienceArtifactOverwrite at hcollision
      simp only [demand_eq_ok, Bool.or_eq_true, beq_iff_eq, Bool.and_eq_true,
        Option.isNone_iff_eq_none] at hcollision
      rcases hcollision with hsame | ⟨-, hnone⟩
      · exact hsame
      · rw [hnone] at hevent
        exact absurd hevent (by decide)
    subst hsame
    refine .inl ⟨hb, ?_⟩
    obtain ⟨pre, post, hsplit⟩ := List.append_of_mem hb
    have hkeyed : ((pre ++ b :: post).map (·.artifactId)).Nodup := by
      have := hk
      rw [hsplit] at this
      exact this
    rw [List.map_append, List.map_cons, List.nodup_middle, List.nodup_cons, ← List.map_append]
      at hkeyed
    have hothers : (pre ++ post).filter (fun r => !(r.artifactId == b.artifactId)) = pre ++ post := by
      apply List.filter_eq_self.mpr
      intro r hr
      have hne : r.artifactId ≠ b.artifactId := fun heq => hkeyed.1 (heq ▸ List.mem_map_of_mem hr)
      simpa using hne
    rw [insertArtifact_artifacts, hsplit, Table.insertOrReplace, List.filter_append, List.filter_cons_of_neg (by simp),
      ← List.filter_append, hothers]
    exact (List.perm_append_singleton _ _).trans List.perm_middle.symm

/-! ## Extending a case -/

/-- What an artifact must be to extend a case. -/
structure Extends (l : List ExperienceArtifact) (a : ExperienceArtifact) : Prop where
  scope : ∃ p ∈ l, p.isProblem = true ∧ InScope p a
  notProblem : a.isProblem = false
  attempt : a.isAttempt = true →
    lastGreatest (l.filter isAttempt) = none ∧ ordinalOf a = 1 ∧ previousOf a = none ∨
      ∃ head, lastGreatest (l.filter isAttempt) = some head ∧ head.isAttempt = true ∧
        previousOf a = some head.artifactId ∧ ordinalOf head < u32Max ∧
        ordinalOf a = ordinalOf head + 1
  refs : RefsHold l a

/-- An artifact that extends a case keeps its law. -/
theorem CaseLaw.extend (h : CaseLaw l) (ha : Extends l a) : CaseLaw (l ++ [a]) := by
  obtain ⟨p, hp, hproblem, hscope⟩ := ha.scope
  refine h.snoc hp hproblem hscope ha.notProblem ?_ ha.refs
  rw [List.filter_append]
  by_cases hattempt : a.isAttempt = true
  · rw [List.filter_cons_of_pos hattempt, List.filter_nil]
    exact h.attempts.snoc (ha.attempt hattempt)
  · rw [List.filter_cons_of_neg hattempt, List.filter_nil, List.append_nil]
    exact h.attempts

/-- The artifacts of each case behind a write. -/
theorem caseEvents_append (hs : s'.artifacts = s.artifacts ++ [a]) (t : TenantId)
    (taskId : String) :
    s'.caseEvents t taskId = s.caseEvents t taskId ++ if inCase t taskId a then [a] else [] := by
  unfold ExperienceStore.caseEvents
  rw [hs, List.filter_append, List.filter_singleton]
  cases inCase t taskId a <;> rfl

/-- A new artifact has a new id. -/
theorem KeyedIds.adds (hk : KeyedIds s.artifacts) (hadds : Adds s s' a) :
    KeyedIds s'.artifacts := by
  rcases hadds with ⟨-, hperm⟩ | ⟨hfresh, hs⟩
  · exact hk.perm hperm.symm
  · rw [KeyedIds, Table.Keyed, hs, List.map_append, List.map_singleton, List.nodup_append]
    refine ⟨hk, List.nodup_singleton _, ?_⟩
    intro i hi j hj heq
    obtain ⟨b, hb, rfl⟩ := List.mem_map.mp hi
    obtain rfl := List.mem_singleton.mp hj
    exact hfresh b hb heq

/-- **A journal stays one** when what is added extends its case. -/
theorem Journal.adds (h : Journal s) (hadds : Adds s s' a) (hevent : a.event.isSome = true)
    (hlaw : CaseLaw (s.caseEvents a.tenantId a.taskId ++ [a]))
    (hcausal : ∀ r ∈ a.causalIds, ∃ b ∈ s.caseEvents a.tenantId a.taskId, b.artifactId = r) :
    Journal s' := by
  have hkeyed := h.keyed.adds hadds
  rcases hadds with ⟨-, hperm⟩ | ⟨-, hs⟩
  · exact h.perm hperm
  have hown : inCase a.tenantId a.taskId a = true := inCase_iff.mpr ⟨hevent, rfl, rfl⟩
  refine ⟨hkeyed, ?_, ?_⟩
  · intro b hb hbevent
    rw [caseEvents_append hs]
    by_cases hcase : inCase b.tenantId b.taskId a = true
    · obtain ⟨-, htenant, htask⟩ := inCase_iff.mp hcase
      rw [if_pos hcase, ← htenant, ← htask]
      exact hlaw
    · rw [if_neg hcase, List.append_nil]
      rw [hs] at hb
      rcases List.mem_append.mp hb with hb | hb
      · exact h.law b hb hbevent
      · obtain rfl := List.mem_singleton.mp hb
        exact absurd hown hcase
  · have hone : s'.experience = s.experience ++ [a] := by
      unfold ExperienceStore.experience
      rw [hs, List.filter_append]
      simp [hevent]
    rw [hone]
    apply h.causal.snoc
    intro r hr
    obtain ⟨b, hb, hid⟩ := hcausal r hr
    obtain ⟨hmem, hbevent, -⟩ := mem_caseEvents.mp hb
    exact ⟨b, mem_experience.mpr ⟨hmem, hbevent⟩, hid⟩

/-- A new artifact that extends its case keeps the journal. -/
theorem Journal.extend (h : Journal s) (hadds : Adds s s' a) (hevent : a.event.isSome = true)
    (ha : Extends (s.caseEvents a.tenantId a.taskId) a) : Journal s' := by
  obtain ⟨p, hp, -, hscope⟩ := ha.scope
  obtain ⟨event, henv, -⟩ := hscope.shape
  exact h.adds hadds hevent ((h.caseLaw hp).extend ha) (ha.refs.causal ⟨event, henv⟩)

/-! ## The shape of what a call writes -/

section Shapes

variable {ctx : ExperienceContext} {draw : Draw}

/-- Sorting keeps the ids. -/
theorem mem_sortedIds {ids : List String} : id ∈ sortedIds ids ↔ id ∈ ids := by
  rw [sortedIds, List.mem_insertionSort, List.mem_dedup]

/-- A problem has the shape of its payload. -/
theorem enveloped_problemArtifact {description : String} {terms : List String}
    (hdescription : requireText "description" description = .ok ())
    (hterms : validateTerms terms = .ok ()) :
    Enveloped (problemArtifact ctx draw description terms) (.problem description terms) := by
  refine ⟨rfl, ?_, rfl, rfl, rfl, rfl, rfl, rfl, fun _ => Iff.rfl⟩
  rw [ExperienceEvent.envelope, hdescription, hterms]
  rfl

/-- So does an attempt. -/
theorem enveloped_attemptArtifact {problemId action : String} {previous : Option String} {n : ℕ}
    (haction : requireText "action" action = .ok ()) (hn : n ≠ 0) :
    Enveloped (attemptArtifact ctx draw taskId problemId previous n action)
      (.attempt problemId previous n action) := by
  refine ⟨rfl, ?_, rfl, rfl, rfl, rfl, rfl, rfl, fun _ => Iff.rfl⟩
  have hone : demand (n != 0) "attempt ordinal must be at least 1" = .ok () := by
    simpa using hn
  rw [ExperienceEvent.envelope, haction, hone]
  rfl

/-- So does a check with a receipt. -/
theorem enveloped_checkArtifact {receipt : CheckReceipt} {summary : String}
    (hreceipt : validateReceipt receipt = .ok ()) :
    Enveloped (checkArtifact ctx draw taskId receipt.attemptId receipt.status summary
      (.check receipt)) (.check receipt) := by
  refine ⟨rfl, ?_, rfl, rfl, rfl, rfl, rfl, rfl, fun _ => Iff.rfl⟩
  rw [ExperienceEvent.envelope, hreceipt]
  rfl

/-- So does an observed check. -/
theorem enveloped_observedArtifact {check : ObservedCheck} {summary : String}
    (hcheck : validateObservedCheck check = .ok ()) :
    Enveloped (checkArtifact ctx draw taskId check.attemptId observedCheckStatus summary
      (.observedCheck check)) (.observedCheck check) := by
  refine ⟨rfl, ?_, rfl, rfl, rfl, rfl, rfl, rfl, fun _ => Iff.rfl⟩
  rw [ExperienceEvent.envelope, hcheck]
  rfl

/-- So does a lesson. -/
theorem enveloped_lessonArtifact {lesson : ConditionalLesson}
    (hlesson : validateEmbeddedLesson lesson = .ok ()) :
    Enveloped (lessonArtifact ctx draw taskId lesson) (.lesson lesson) := by
  refine ⟨rfl, ?_, rfl, rfl, rfl, rfl, rfl, rfl, fun _ => Iff.rfl⟩
  rw [ExperienceEvent.envelope, hlesson]
  rfl

/-- So does a correction. -/
theorem enveloped_correctionArtifact {supersedesId : String} {replacement : ConditionalLesson}
    (hlesson : validateEmbeddedLesson replacement = .ok ()) :
    Enveloped (correctionArtifact ctx draw taskId replacement.problemId supersedesId replacement)
      (.correction replacement.problemId supersedesId replacement) := by
  refine ⟨rfl, ?_, rfl, rfl, rfl, rfl, rfl, rfl, fun _ => mem_sortedIds⟩
  have hsame : demand (replacement.problemId == replacement.problemId)
      "correction problem_id must match replacement.problem_id" = .ok () := by
    simp
  rw [ExperienceEvent.envelope, hsame, hlesson]
  rfl

end Shapes

/-! ## What a call looks up -/

section Targets

variable {ctx : ExperienceContext} {projectId : Option String}

/-- A problem has an event. -/
theorem isProblem_event (h : a.isProblem = true) : ∃ event, a.event = some event := by
  unfold isProblem at h
  cases hevent : a.event with
  | none => simp [hevent] at h
  | some event => exact ⟨event, rfl⟩

/-- A problem is in the case of its task. -/
theorem mem_caseEvents_of_isProblem (hp : p ∈ s.artifacts) (htenant : p.tenantId = t)
    (hproblem : p.isProblem = true) : p ∈ s.caseEvents t p.taskId := by
  obtain ⟨event, hevent⟩ := isProblem_event hproblem
  refine mem_caseEvents.mpr ⟨hp, ?_, htenant, rfl⟩
  rw [hevent]
  rfl

/-- The problem a call asks for is in the store, of the tenant and the project. -/
theorem requireProblem_eq_ok (hk : KeyedIds s.artifacts) (h : s.requireProblem ctx id = .ok p) :
    p ∈ s.artifacts ∧ p.tenantId = ctx.tenantId ∧ p.artifactId = id ∧ p.isProblem = true ∧
      p.projectId = ctx.projectId := by
  unfold ExperienceStore.requireProblem ensureProject at h
  simp only [except_bind_eq_ok, required_eq_ok, getExperience_eq_some hk, demand_eq_ok,
    beq_iff_eq] at h
  obtain ⟨q, ⟨hq, htenant, hid, -⟩, _, -, _, hproblem, _, hproject, hpure⟩ := h
  obtain rfl := Except.ok.inj hpure
  exact ⟨hq, htenant, hid, hproblem, hproject.symm⟩

/-- So is the attempt a check is about. -/
theorem loadCheckTarget_eq_ok (hk : KeyedIds s.artifacts)
    (h : s.loadCheckTarget t projectId id = .ok b) :
    b ∈ s.artifacts ∧ b.tenantId = t ∧ b.artifactId = id ∧ b.isAttempt = true ∧
      b.projectId = projectId := by
  unfold ExperienceStore.loadCheckTarget ensureProject at h
  simp only [except_bind_eq_ok, required_eq_ok, getExperience_eq_some hk, demand_eq_ok,
    beq_iff_eq] at h
  obtain ⟨q, ⟨hq, htenant, hid, -⟩, _, -, _, hattempt, _, hproject, hpure⟩ := h
  obtain rfl := Except.ok.inj hpure
  exact ⟨hq, htenant, hid, hattempt, hproject.symm⟩

/-- What a lesson rests on is a check. -/
theorem isCheck_of_validateLessonEvidence {lesson : ConditionalLesson} {u : Unit}
    (h : validateLessonEvidence a lesson = .ok u) : a.isCheck = true := by
  unfold validateLessonEvidence at h
  obtain ⟨event, hevent, hrest⟩ := except_bind_eq_ok.mp h
  rw [requiredEvent_eq_ok] at hevent
  unfold isCheck
  rw [hevent]
  cases event with
  | check receipt => rfl
  | observedCheck check => rfl
  | problem description terms => exact absurd (except_bind_eq_ok.mp hrest) (by simp)
  | attempt problemId previous ordinal action => exact absurd (except_bind_eq_ok.mp hrest) (by simp)
  | lesson lesson => exact absurd (except_bind_eq_ok.mp hrest) (by simp)
  | correction problemId supersedesId replacement => exact absurd (except_bind_eq_ok.mp hrest) (by simp)

/-- The lessons that a new lesson names are of its problem. -/
theorem validateConflictRefs_eq_ok (hk : KeyedIds s.artifacts) {lesson : ConditionalLesson}
    {u : Unit} (h : s.validateConflictRefs ctx p lesson = .ok u) :
    ∀ id ∈ lesson.conflictsWith, ∃ b ∈ s.artifacts, b.artifactId = id ∧
      b.tenantId = ctx.tenantId ∧ b.taskId = p.taskId ∧ b.lesson?.isSome = true := by
  unfold ExperienceStore.validateConflictRefs at h
  obtain ⟨seen, hloop, -⟩ := except_bind_eq_ok.mp h
  intro id hid
  obtain ⟨before, after, hturn⟩ := Fallible.foldlM_turn hloop id hid
  unfold ExperienceStore.validateConflictRef at hturn
  simp only [except_bind_eq_ok, required_eq_ok, getExperience_eq_some hk, demand_eq_ok,
    requireLesson_eq_ok, Bool.and_eq_true, beq_iff_eq] at hturn
  obtain ⟨_, -, _, -, b, ⟨hb, htenant, hbid, -⟩, _, hlesson, _, ⟨htask, -⟩, -⟩ := hturn
  exact ⟨b, hb, hbid, htenant, htask, hlesson⟩

/-- What `validate_lesson` and `validate_conflict_refs` find is what a lesson refers to. -/
theorem lessonRefs_of_validate (hk : KeyedIds s.artifacts) {lesson : ConditionalLesson} {u : Unit}
    (h : s.validateLesson ctx lesson = .ok p)
    (hconflicts : s.validateConflictRefs ctx p lesson = .ok u) :
    (p ∈ s.caseEvents ctx.tenantId p.taskId ∧ p.isProblem = true ∧ p.artifactId = lesson.problemId ∧
      p.tenantId = ctx.tenantId ∧ p.projectId = ctx.projectId) ∧
      LessonRefs (s.caseEvents ctx.tenantId p.taskId) lesson := by
  unfold ExperienceStore.validateLesson at h
  simp only [except_bind_eq_ok, required_eq_ok, getExperience_eq_some hk, demand_eq_ok,
    Bool.and_eq_true, beq_iff_eq] at h
  obtain ⟨_, hwell, q, hq, _, -, c, ⟨hc, hctenant, hcid, hcevent⟩, _, ⟨hctask, -⟩, _, hevidence,
    _, -, hpure⟩ := h
  obtain rfl := Except.ok.inj hpure
  obtain ⟨hmem, htenant, hid, hproblem, hproject⟩ := requireProblem_eq_ok hk hq
  have hcase := mem_caseEvents_of_isProblem hmem htenant hproblem
  refine ⟨⟨hcase, hproblem, hid, htenant, hproject⟩, hwell, ⟨q, hcase, hid, trivial⟩, ?_, ?_⟩
  · refine ⟨c, mem_caseEvents.mpr ⟨hc, hcevent, hctenant, hctask⟩, hcid, ?_, hevidence⟩
    exact isCheck_of_validateLessonEvidence hevidence
  · intro conflict hconflict
    obtain ⟨b, hb, hbid, hbtenant, hbtask, hblesson⟩ :=
      validateConflictRefs_eq_ok hk hconflicts conflict hconflict
    refine ⟨b, mem_caseEvents.mpr ⟨hb, ?_, hbtenant, hbtask⟩, hbid, hblesson⟩
    unfold lesson? at hblesson
    cases hbevent : b.event with
    | none => rw [hbevent] at hblesson; exact absurd hblesson (by decide)
    | some event => rfl

end Targets

/-! ## What the calls write -/

section Calls

variable {ctx : ExperienceContext} {draw : Draw}

/-- A write that goes through adds the artifact. -/
theorem writeArtifact_eq_ok {x : ExperienceArtifact} (hk : KeyedIds s.artifacts)
    (hevent : x.event.isSome = true) (h : s.writeArtifact x draw = .ok (a, s')) :
    a = x ∧ Adds s s' x := by
  unfold ExperienceStore.writeArtifact at h
  obtain ⟨after, hadd, hpure⟩ := except_bind_eq_ok.mp h
  obtain ⟨rfl, rfl⟩ := Prod.mk.inj (Except.ok.inj hpure)
  exact ⟨rfl, adds_of_addTaskArtifact hk hevent hadd⟩

/-- What a call has written: an experience artifact that extends its case, and corrects what nothing
else there corrects. -/
structure Wrote (s s' : ExperienceStore) (a : ExperienceArtifact) : Prop where
  adds : Adds s s' a
  event : a.event.isSome = true
  extends_case : Extends (s.caseEvents a.tenantId a.taskId) a
  corrects_new : ∀ id, a.supersedes? = some id →
    ∀ b ∈ s.caseEvents a.tenantId a.taskId, b.supersedes? ≠ some id

/-- An artifact that supersedes nothing has nothing to show about it. -/
theorem supersedes?_eq_none {P : String → Prop} (h : a.supersedes? = none) :
    ∀ id, a.supersedes? = some id → P id :=
  fun id hid => absurd (h.symm.trans hid) (by simp)

/-- **A recording keeps the journal.** -/
theorem Wrote.journal (hw : Wrote s s' a) (h : Journal s) : Journal s' :=
  h.extend hw.adds hw.event hw.extends_case

/-- Every artifact of a journal is of the scope of its problem. -/
theorem Journal.scope (h : Journal s) (hb : b ∈ s.caseEvents t taskId) :
    ∃ p ∈ s.caseEvents t taskId, p.isProblem = true ∧ InScope p b := by
  obtain ⟨p, hone, hscope⟩ := (h.caseLaw hb).problem
  have hp : p ∈ (s.caseEvents t taskId).filter isProblem := by
    rw [hone]
    exact List.mem_singleton_self p
  exact ⟨p, (List.mem_filter.mp hp).1, (List.mem_filter.mp hp).2, hscope b hb⟩

/-- The current attempt of a task. -/
theorem currentAttempt_listTaskArtifacts (hk : KeyedIds s.artifacts)
    {head : Option ExperienceArtifact}
    (h : currentAttempt (s.listTaskArtifacts t taskId) = .ok head) :
    head = lastGreatest ((s.caseEvents t taskId).filter isAttempt) := by
  obtain ⟨hchain, rfl⟩ := (currentAttempt_eq_ok (hk.listTaskArtifacts t taskId)).mp h
  exact Selection.maxByKey_perm hchain.distinct (listTaskArtifacts_attempts_perm s t taskId)

/-- A recorded attempt extends its case. -/
theorem recordAttempt_wrote {problemId action : String} {previous : Option String}
    (h : Journal s) (hr : s.recordAttempt ctx draw problemId previous action = .ok (a, s')) :
    Wrote s s' a := by
  unfold ExperienceStore.recordAttempt at hr
  obtain ⟨_, -, hr⟩ := except_bind_eq_ok.mp hr
  obtain ⟨_, haction, hr⟩ := except_bind_eq_ok.mp hr
  obtain ⟨p, hp, hr⟩ := except_bind_eq_ok.mp hr
  obtain ⟨head, hhead, hr⟩ := except_bind_eq_ok.mp hr
  obtain ⟨n, hn, hwrite⟩ := except_bind_eq_ok.mp hr
  obtain ⟨rfl, hadds⟩ := writeArtifact_eq_ok h.keyed rfl hwrite
  obtain ⟨hmem, htenant, hid, hproblem, hproject⟩ := requireProblem_eq_ok h.keyed hp
  obtain ⟨pevent, hpevent⟩ := isProblem_event hproblem
  have hcase : p ∈ s.caseEvents ctx.tenantId p.taskId :=
    mem_caseEvents.mpr ⟨hmem, by rw [hpevent]; rfl, htenant, rfl⟩
  have hlast := currentAttempt_listTaskArtifacts h.keyed hhead
  have hfollow : lastGreatest ((s.caseEvents ctx.tenantId p.taskId).filter isAttempt) = none ∧
        n = 1 ∧ previous = none ∨
      ∃ head, lastGreatest ((s.caseEvents ctx.tenantId p.taskId).filter isAttempt) = some head ∧
        head.isAttempt = true ∧ previous = some head.artifactId ∧ ordinalOf head < u32Max ∧
        n = ordinalOf head + 1 := by
    rw [← hlast]
    unfold ExperienceStore.nextOrdinal at hn
    cases head with
    | none =>
      simp only [except_bind_eq_ok, demand_eq_ok, Option.isNone_iff_eq_none] at hn
      obtain ⟨_, hnone, hpure⟩ := hn
      exact .inl ⟨rfl, (Except.ok.inj hpure).symm, hnone⟩
    | some head =>
      simp only [except_bind_eq_ok, demand_eq_ok, beq_iff_eq, attemptOrdinal_eq_ok,
        decide_eq_true_eq] at hn
      obtain ⟨_, hprevious, _, -, m, ⟨hattempt, rfl⟩, _, hmax, hpure⟩ := hn
      exact .inr ⟨head, rfl, hattempt, hprevious, hmax, (Except.ok.inj hpure).symm⟩
  have hpos : n ≠ 0 := by
    rcases hfollow with ⟨-, rfl, -⟩ | ⟨head, -, -, -, -, rfl⟩ <;> omega
  refine ⟨hadds, rfl, ?_, supersedes?_eq_none rfl⟩
  show Extends (s.caseEvents ctx.tenantId p.taskId) _
  refine ⟨⟨p, hcase, hproblem, rfl, htenant.symm, hproject.symm, _,
    enveloped_attemptArtifact haction hpos, ?_⟩, rfl, fun _ => hfollow, ?_⟩
  · rintro _ ⟨⟩
    exact hid.symm
  · refine ⟨⟨p, hcase, hid, trivial⟩, ?_⟩
    rcases hfollow with ⟨-, -, rfl⟩ | ⟨head, hhead', -, rfl, -, -⟩
    · exact fun _ hnone => absurd hnone (by simp)
    · rintro _ ⟨⟩
      exact ⟨head, (List.mem_filter.mp (Selection.maxByKey_eq_some hhead').1).1, rfl, trivial⟩

/-- A check of an attempt of the journal extends its case. -/
theorem Journal.extends_check (h : Journal s) {attempt x : ExperienceArtifact}
    {event : ExperienceEvent}
    (ht : s.loadCheckTarget ctx.tenantId ctx.projectId id = .ok attempt)
    (henv : Enveloped x event) (hproblemId : problemIdOf event = none)
    (hx : x.tenantId = ctx.tenantId ∧ x.projectId = ctx.projectId ∧ x.taskId = attempt.taskId)
    (hkind : x.isProblem = false ∧ x.isAttempt = false)
    (hrefs : (∃ b ∈ s.caseEvents ctx.tenantId attempt.taskId, b.artifactId = id ∧
      b.isAttempt = true) → RefsHold (s.caseEvents ctx.tenantId attempt.taskId) x) :
    Extends (s.caseEvents x.tenantId x.taskId) x := by
  obtain ⟨hmem, htenant, hid, hattempt, hproject⟩ := loadCheckTarget_eq_ok h.keyed ht
  obtain ⟨aevent, haevent⟩ := isAttempt_event hattempt
  have hcase : attempt ∈ s.caseEvents ctx.tenantId attempt.taskId :=
    mem_caseEvents.mpr ⟨hmem, by rw [haevent]; rfl, htenant, rfl⟩
  obtain ⟨p, hp, hproblem, hscope⟩ := h.scope hcase
  obtain ⟨hxtenant, hxproject, hxtask⟩ := hx
  rw [hxtenant, hxtask]
  refine ⟨⟨p, hp, hproblem, ?_, ?_, ?_, event, henv, ?_⟩, hkind.1, ?_,
    hrefs ⟨attempt, hcase, hid, hattempt⟩⟩
  · exact hxtask.trans hscope.taskId
  · exact hxtenant.trans (htenant.symm.trans hscope.tenantId)
  · exact hxproject.trans (hproject.symm.trans hscope.projectId)
  · rw [hproblemId]
    exact fun _ hnone => absurd hnone (by simp)
  · exact fun hx => absurd (hx.symm.trans hkind.2) (by decide)

/-- So does a check with a receipt. -/
theorem recordCheck_wrote {receipt : CheckReceipt} (h : Journal s)
    (hr : s.recordCheck ctx draw receipt = .ok (a, s')) : Wrote s s' a := by
  unfold ExperienceStore.recordCheck at hr
  obtain ⟨_, hreceipt, hr⟩ := except_bind_eq_ok.mp hr
  obtain ⟨attempt, hattempt, hr⟩ := except_bind_eq_ok.mp hr
  obtain ⟨_, -, hwrite⟩ := except_bind_eq_ok.mp hr
  obtain ⟨rfl, hadds⟩ := writeArtifact_eq_ok h.keyed rfl hwrite
  refine ⟨hadds, rfl, h.extends_check hattempt (enveloped_checkArtifact hreceipt) rfl
    ⟨rfl, rfl, rfl⟩ ⟨rfl, rfl⟩ fun hholds => ?_, supersedes?_eq_none rfl⟩
  exact ⟨hreceipt, hholds⟩

/-- So does an observed check. -/
theorem recordObservedCheck_wrote {check : ObservedCheck} (h : Journal s)
    (hr : s.recordObservedCheck ctx draw check = .ok (a, s')) : Wrote s s' a := by
  unfold ExperienceStore.recordObservedCheck at hr
  obtain ⟨_, hcheck, hr⟩ := except_bind_eq_ok.mp hr
  obtain ⟨attempt, hattempt, hr⟩ := except_bind_eq_ok.mp hr
  obtain ⟨_, -, hwrite⟩ := except_bind_eq_ok.mp hr
  obtain ⟨rfl, hadds⟩ := writeArtifact_eq_ok h.keyed rfl hwrite
  refine ⟨hadds, rfl, h.extends_check hattempt (enveloped_observedArtifact hcheck) rfl
    ⟨rfl, rfl, rfl⟩ ⟨rfl, rfl⟩ fun hholds => ?_, supersedes?_eq_none rfl⟩
  exact ⟨hcheck, hholds⟩

/-- So does a lesson. -/
theorem recordLesson_wrote {lesson : ConditionalLesson} (h : Journal s)
    (hr : s.recordLesson ctx draw lesson = .ok (a, s')) : Wrote s s' a := by
  unfold ExperienceStore.recordLesson at hr
  obtain ⟨p, hp, hr⟩ := except_bind_eq_ok.mp hr
  obtain ⟨_, hconflicts, hwrite⟩ := except_bind_eq_ok.mp hr
  obtain ⟨rfl, hadds⟩ := writeArtifact_eq_ok h.keyed rfl hwrite
  obtain ⟨⟨hcase, hproblem, hid, htenant, hproject⟩, hrefs⟩ :=
    lessonRefs_of_validate h.keyed hp hconflicts
  refine ⟨hadds, rfl, ?_, supersedes?_eq_none rfl⟩
  show Extends (s.caseEvents ctx.tenantId p.taskId) _
  refine ⟨⟨p, hcase, hproblem, rfl, htenant.symm, hproject.symm, _,
    enveloped_lessonArtifact hrefs.wellFormed, ?_⟩, rfl, fun hattempt => ?_, hrefs⟩
  · rintro _ ⟨⟩
    exact hid.symm
  · have hno : (lessonArtifact ctx draw p.taskId lesson).isAttempt = false := rfl
    exact absurd (hattempt.symm.trans hno) (by decide)

/-- Sorting keeps the artifacts of a case. -/
theorem sortedEvents_perm (s : ExperienceStore) (t : TenantId) (taskId : String) :
    (sortArtifacts (s.experienceEvents t taskId)).Perm (s.caseEvents t taskId) :=
  (sortArtifacts_perm _).trans (experienceEvents_perm s t taskId)

/-- Sorted or not, they have different ids. -/
theorem Journal.sortedEvents_keyed (h : Journal s) (t : TenantId) (taskId : String) :
    KeyedIds (sortArtifacts (s.experienceEvents t taskId)) :=
  (h.keyed.caseEvents t taskId).perm (sortedEvents_perm s t taskId).symm

/-- And their references point back. -/
theorem Journal.sortedEvents_causal (h : Journal s) (t : TenantId) (taskId : String) :
    CausalCase (sortArtifacts (s.experienceEvents t taskId)) :=
  (h.caseCausal t taskId).perm (sortedEvents_perm s t taskId).symm

/-- `resolve_case` on a journal. -/
theorem Journal.resolveCase_eq_ok (h : Journal s) {c : ExperienceCase} :
    s.resolveCase t id = .ok c ↔ ∃ p ∈ s.artifacts, p.tenantId = t ∧ p.artifactId = id ∧
      p.isProblem = true ∧ c = resolved p (sortArtifacts (s.experienceEvents t p.taskId)) := by
  unfold ExperienceStore.resolveCase
  simp only [except_bind_eq_ok, required_eq_ok, getExperience_eq_some h.keyed, requiredEvent_eq_ok,
    demand_eq_ok]
  have hperm := fun taskId => (experienceEvents_perm s t taskId).symm
  have hcase : ∀ taskId p', caseOf p' (s.experienceEvents t taskId) = .ok c ↔
      CaseLaw (s.experienceEvents t taskId) ∧
        c = resolved p' (sortArtifacts (s.experienceEvents t taskId)) := fun taskId p' =>
    caseOf_eq_ok ((h.keyed.caseEvents t taskId).perm (hperm taskId))
      ((h.caseCausal t taskId).perm (hperm taskId))
  constructor
  · rintro ⟨p, ⟨hp, htenant, hid, -⟩, _, -, _, hproblem, hok⟩
    exact ⟨p, hp, htenant, hid, hproblem, ((hcase _ _).mp hok).2⟩
  · rintro ⟨p, hp, rfl, hid, hproblem, rfl⟩
    obtain ⟨event, hevent⟩ := isProblem_event hproblem
    have hsome : p.event.isSome = true := by
      rw [hevent]
      rfl
    refine ⟨p, ⟨hp, rfl, hid, hsome⟩, event, hevent, (), hproblem, (hcase _ _).mpr ⟨?_, rfl⟩⟩
    exact (h.law p hp hsome).perm (hperm _)

/-- **Every problem of a journal resolves.** -/
theorem Journal.exists_resolveCase (h : Journal s) (hp : p ∈ s.artifacts)
    (hproblem : p.isProblem = true) :
    ∃ c, s.resolveCase p.tenantId p.artifactId = .ok c ∧ c.problem = p :=
  ⟨_, h.resolveCase_eq_ok.mpr ⟨p, hp, rfl, rfl, hproblem, rfl⟩, rfl⟩

/-- What a correction may supersede: a current version of a lesson of the case. -/
theorem mem_headGroups_of_head? {c : ExperienceCase} (hk : KeyedIds l) (hcausal : CausalCase l)
    (hc : c = resolved p l) (h : c.head? id = some a) :
    a.artifactId = id ∧ ∃ g ∈ headGroups l, a ∈ g := by
  subst hc
  unfold ExperienceCase.head? at h
  cases hcurrent : (resolved p l).currentLessons.find? (·.artifactId == id) with
  | some b =>
    rw [hcurrent] at h
    obtain rfl : b = a := Option.some.inj h
    have hmem := List.mem_of_find?_eq_some hcurrent
    exact ⟨by simpa using List.find?_some hcurrent, [b], mem_currentOf.mp hmem,
      List.mem_singleton_self b⟩
  | none =>
    rw [hcurrent] at h
    -- no current lesson, so it is a side of a conflict
    change (if (conflictsOf l).flatten.contains id = true then l.find? (·.artifactId == id)
      else none) = some a at h
    split_ifs at h with hcontains
    have hid : a.artifactId = id := by simpa using List.find?_some h
    have hmem : a ∈ l := List.mem_of_find?_eq_some h
    rw [List.contains_eq_mem, decide_eq_true_eq] at hcontains
    obtain ⟨g, hg, b, hb, hbid⟩ := mem_headGroups_of_conflict hcontains
    have hbl := (isSome_lesson?_of_mem_headGroups hk hcausal hg hb).1
    rw [hk.eq hmem hbl (hid.trans hbid.symm)]
    exact ⟨hbid, g, hg, hb⟩

/-- A call that corrects at a time before what it corrects, because it takes the time of the
recording, is not timely. -/
def Timely (s : ExperienceStore) (ctx : ExperienceContext) (draw : Draw) (supersedesId : String) :
    Prop :=
  ctx.observedAtMs.isSome = true ∨
    ∀ b ∈ s.artifacts, b.artifactId = supersedesId → b.eventTime ≤ draw.now

/-- The inversion of `record_correction`. -/
theorem recordCorrection_eq_ok {problemId supersedesId : String} {replacement : ConditionalLesson}
    (h : Journal s)
    (hr : s.recordCorrection ctx draw problemId supersedesId replacement = .ok (a, s')) :
    ∃ p head, a = correctionArtifact ctx draw p.taskId problemId supersedesId replacement ∧
      Adds s s' a ∧ replacement.problemId = problemId ∧
      (p ∈ s.caseEvents ctx.tenantId p.taskId ∧ p.isProblem = true ∧ p.artifactId = problemId ∧
        p.tenantId = ctx.tenantId ∧ p.projectId = ctx.projectId) ∧
      LessonRefs (s.caseEvents ctx.tenantId p.taskId) replacement ∧
      head ∈ s.caseEvents ctx.tenantId p.taskId ∧ head.artifactId = supersedesId ∧
      head.lesson?.isSome = true ∧
      (∃ g ∈ headGroups (sortArtifacts (s.experienceEvents ctx.tenantId p.taskId)), head ∈ g) ∧
      ∀ at_ ∈ ctx.observedAtMs, head.eventTime ≤ at_ := by
  unfold ExperienceStore.recordCorrection at hr
  obtain ⟨_, -, hr⟩ := except_bind_eq_ok.mp hr
  obtain ⟨_, hsame, hr⟩ := except_bind_eq_ok.mp hr
  obtain ⟨p, hp, hr⟩ := except_bind_eq_ok.mp hr
  obtain ⟨_, hconflicts, hr⟩ := except_bind_eq_ok.mp hr
  obtain ⟨c, hc, hr⟩ := except_bind_eq_ok.mp hr
  obtain ⟨head, hhead, hr⟩ := except_bind_eq_ok.mp hr
  obtain ⟨_, htime, hwrite⟩ := except_bind_eq_ok.mp hr
  obtain ⟨rfl, hadds⟩ := writeArtifact_eq_ok h.keyed rfl hwrite
  obtain rfl : replacement.problemId = problemId := by simpa using hsame
  obtain ⟨⟨hcase, hproblem, hid, htenant, hproject⟩, hrefs⟩ :=
    lessonRefs_of_validate h.keyed hp hconflicts
  obtain ⟨q, hq, hqtenant, hqid, -, rfl⟩ := h.resolveCase_eq_ok.mp hc
  obtain rfl : p = q := h.keyed.eq (mem_caseEvents.mp hcase).1 hq (hid.trans hqid.symm)
  have hperm : (sortArtifacts (s.experienceEvents ctx.tenantId p.taskId)).Perm
      (s.caseEvents ctx.tenantId p.taskId) :=
    (sortArtifacts_perm _).trans (experienceEvents_perm s _ _)
  have hk := (h.keyed.caseEvents ctx.tenantId p.taskId).perm hperm.symm
  have hcausal := (h.caseCausal ctx.tenantId p.taskId).perm hperm.symm
  obtain ⟨hheadid, g, hg, hheadg⟩ :=
    mem_headGroups_of_head? hk hcausal rfl (required_eq_ok.mp hhead)
  obtain ⟨hmem, hlesson⟩ := isSome_lesson?_of_mem_headGroups hk hcausal hg hheadg
  refine ⟨p, head, rfl, hadds, rfl, ⟨hcase, hproblem, hid, htenant, hproject⟩, hrefs,
    hperm.mem_iff.mp hmem, hheadid, hlesson, ⟨g, hg, hheadg⟩, ?_⟩
  unfold ensureCausalTime at htime
  rw [demand_eq_ok, Option.all_eq_true] at htime
  exact fun at_ hat => by simpa using htime at_ hat

/-- A correction supersedes a version that nothing else supersedes. -/
theorem recordCorrection_new {problemId supersedesId : String} {replacement : ConditionalLesson} (h : Journal s)
    (hr : s.recordCorrection ctx draw problemId supersedesId replacement = .ok (a, s')) :
    ∀ id, a.supersedes? = some id → ∀ b ∈ s.caseEvents a.tenantId a.taskId,
      b.supersedes? ≠ some id := by
  obtain ⟨p, head, rfl, -, -, -, -, hhead, hheadid, -, ⟨g, hg, hheadg⟩, -⟩ :=
    recordCorrection_eq_ok h hr
  rintro _ ⟨⟩ b hb hid
  have hperm : (sortArtifacts (s.experienceEvents ctx.tenantId p.taskId)).Perm
      (s.caseEvents ctx.tenantId p.taskId) :=
    (sortArtifacts_perm _).trans (experienceEvents_perm s _ _)
  obtain ⟨root, -, -, -, hend⟩ := mem_headGroups
    ((h.keyed.caseEvents ctx.tenantId p.taskId).perm hperm.symm)
    ((h.caseCausal ctx.tenantId p.taskId).perm hperm.symm) hg hheadg
  have hchild : b ∈ childrenOf (sortArtifacts (s.experienceEvents ctx.tenantId p.taskId))
      head.artifactId := by
    refine mem_childrenOf.mpr ⟨⟨head, hperm.mem_iff.mpr hhead, rfl⟩, hperm.mem_iff.mpr hb, ?_⟩
    rw [hid, hheadid]
  rw [hend] at hchild
  exact absurd hchild List.not_mem_nil

/-- A timely correction extends its case. -/
theorem recordCorrection_wrote {problemId supersedesId : String}
    {replacement : ConditionalLesson} (h : Journal s)
    (hr : s.recordCorrection ctx draw problemId supersedesId replacement = .ok (a, s'))
    (htimely : Timely s ctx draw supersedesId) : Wrote s s' a := by
  have hnew := recordCorrection_new h hr
  obtain ⟨p, head, rfl, hadds, rfl, ⟨hcase, hproblem, hid, htenant, hproject⟩, hrefs, hhead,
    hheadid, hlesson, -, htime⟩ := recordCorrection_eq_ok h hr
  refine ⟨hadds, rfl, ?_, hnew⟩
  show Extends (s.caseEvents ctx.tenantId p.taskId) _
  refine ⟨⟨p, hcase, hproblem, rfl, htenant.symm, hproject.symm, _,
    enveloped_correctionArtifact hrefs.wellFormed, ?_⟩, rfl, fun hattempt => ?_, hrefs, head, hhead,
    hheadid, hlesson, ?_⟩
  · rintro _ ⟨⟩
    exact hid.symm
  · have hno : (correctionArtifact ctx draw p.taskId replacement.problemId supersedesId
        replacement).isAttempt = false := rfl
    exact absurd (hattempt.symm.trans hno) (by decide)
  · show head.eventTime ≤ ctx.observedAtMs.getD draw.now
    cases hobserved : ctx.observedAtMs with
    | some at_ => exact htime at_ hobserved
    | none =>
      rcases htimely with hsome | hnow
      · rw [hobserved] at hsome
        exact absurd hsome (by decide)
      · exact hnow head (mem_caseEvents.mp hhead).1 hheadid

/-- A problem starts a case of its own, under a task id that was not in use. -/
theorem recordProblem_journal {description : String} {terms : List String} (h : Journal s)
    (hr : s.recordProblem ctx draw description terms = .ok (a, s'))
    (hfresh : ∀ b ∈ s.artifacts, b.taskId ≠ s!"experience-{draw.taskId}") :
    Journal s' ∧ Adds s s' a ∧ a.supersedes? = none := by
  unfold ExperienceStore.recordProblem at hr
  obtain ⟨_, hdescription, hr⟩ := except_bind_eq_ok.mp hr
  obtain ⟨_, hterms, hr⟩ := except_bind_eq_ok.mp hr
  obtain ⟨_, -, hwrite⟩ := except_bind_eq_ok.mp hr
  obtain ⟨rfl, hadds⟩ := writeArtifact_eq_ok h.keyed rfl hwrite
  have hnone : s.caseEvents (problemArtifact ctx draw description terms).tenantId
      (problemArtifact ctx draw description terms).taskId = [] := by
    apply List.filter_eq_nil_iff.mpr
    intro b hb hcase
    exact hfresh b hb (inCase_iff.mp hcase).2.2
  refine ⟨h.adds hadds rfl ?_ fun r hr => absurd hr List.not_mem_nil, hadds, rfl⟩
  rw [hnone, List.nil_append]
  refine ⟨⟨_, rfl, fun b hb => ?_⟩, AttemptChain.nil, fun b hb => ?_⟩
  · obtain rfl := List.mem_singleton.mp hb
    refine ⟨rfl, rfl, rfl, _, enveloped_problemArtifact hdescription hterms, ?_⟩
    exact fun _ hnone => absurd hnone (by simp [problemIdOf])
  · obtain rfl := List.mem_singleton.mp hb
    trivial

/-- The artifacts behind a write. -/
theorem Adds.mem_iff (h : Adds s s' a) : b ∈ s'.artifacts ↔ b ∈ s.artifacts ∨ b = a := by
  rcases h with ⟨hmem, hperm⟩ | ⟨-, hs⟩
  · rw [hperm.mem_iff]
    exact ⟨.inl, fun h => h.elim id fun heq => heq ▸ hmem⟩
  · rw [hs, List.mem_append, List.mem_singleton]

/-- A case that resolves is lawful. -/
theorem caseLaw_of_resolveCase {c : ExperienceCase} (hk : KeyedIds s.artifacts)
    (h : s.resolveCase t id = .ok c) : ∃ p ∈ s.artifacts, p.tenantId = t ∧ p.artifactId = id ∧
      CaseLaw (s.caseEvents t p.taskId) := by
  unfold ExperienceStore.resolveCase caseOf at h
  simp only [except_bind_eq_ok, required_eq_ok, getExperience_eq_some hk] at h
  obtain ⟨p, ⟨hp, htenant, hid, -⟩, _, -, _, -, _, hvalid, -⟩ := h
  have hperm : (sortArtifacts (s.experienceEvents t p.taskId)).Perm (s.caseEvents t p.taskId) :=
    (sortArtifacts_perm _).trans (experienceEvents_perm s _ _)
  have hlaw := (validateCase_eq_ok_iff ((hk.caseEvents t p.taskId).perm hperm.symm)).mp hvalid
  exact ⟨p, hp, htenant, hid, hlaw.perm hperm⟩

end Calls

end Experience
