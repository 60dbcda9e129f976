/-
# When a recording is accepted

A recording on a journal is refused for what it says, never for what is stored besides.

* `Journal.recordAttempt_eq`, `Journal.recordObservedCheck_eq`, `Journal.recordLesson_eq` — what
  is enough for a recording to be accepted, and what it writes.
-/
import Memd.ExperienceRuns

open Proc (except_bind_eq_ok)

namespace Experience

open ExperienceArtifact

variable {s s' : ExperienceStore} {l : List ExperienceArtifact} {a b p x : ExperienceArtifact}
  {ctx : ExperienceContext} {draw : Draw} {t : TenantId} {taskId id : String}

/-- An artifact with a new id, for a task that no other tenant has. -/
structure Writable (s : ExperienceStore) (a : ExperienceArtifact) : Prop where
  fresh : ∀ b ∈ s.artifacts, b.artifactId ≠ a.artifactId
  owner : ∀ tenant ∈ s.getTaskGlobal a.taskId, tenant = a.tenantId

theorem Writable.writeArtifact_eq (h : Writable s a) (draw : Draw) :
    s.writeArtifact a draw = .ok (a, s.insertArtifact a draw.projectionIds) := by
  unfold ExperienceStore.writeArtifact
  rw [(addTaskArtifact_eq draw.projectionIds h.fresh h.owner).1]
  rfl

theorem Writable.artifacts (h : Writable s a) (ids : List ChunkId) :
    (s.insertArtifact a ids).artifacts = s.artifacts ++ [a] :=
  (addTaskArtifact_eq ids h.fresh h.owner).2

/-! ## What is found -/

@[simp] theorem requireText_eq_ok {field value : String} {u : Unit} :
    requireText field value = .ok u ↔ isBlank value = false := by
  simp [requireText]

theorem ensureCausalTime_eq_ok {observedAtMs : Option ℤ} {eventName : String} {u : Unit} :
    ensureCausalTime observedAtMs p eventName = .ok u ↔ ∀ at_ ∈ observedAtMs, p.eventTime ≤ at_ := by
  simp [ensureCausalTime, Option.all_eq_true]

theorem Journal.requireProblem_eq (h : Journal s) (hp : p ∈ s.artifacts)
    (hproblem : p.isProblem = true) (htenant : p.tenantId = ctx.tenantId)
    (hproject : ctx.projectId = p.projectId) : s.requireProblem ctx p.artifactId = .ok p := by
  obtain ⟨event, hevent⟩ := isProblem_event hproblem
  have hfound : s.getExperience ctx.tenantId p.artifactId = some p :=
    (getExperience_eq_some h.keyed).mpr ⟨hp, htenant, rfl, by rw [hevent]; rfl⟩
  unfold ExperienceStore.requireProblem ensureProject
  simp only [except_bind_eq_ok, required_eq_ok, requiredEvent_eq_ok, demand_eq_ok, beq_iff_eq]
  exact ⟨p, hfound, event, hevent, (), hproblem, (), hproject, rfl⟩

theorem Journal.loadCheckTarget_eq (h : Journal s) (ha : a ∈ s.artifacts)
    (hattempt : a.isAttempt = true) (htenant : a.tenantId = ctx.tenantId)
    (hproject : ctx.projectId = a.projectId) :
    s.loadCheckTarget ctx.tenantId ctx.projectId a.artifactId = .ok a := by
  obtain ⟨event, hevent⟩ := isAttempt_event hattempt
  have hfound : s.getExperience ctx.tenantId a.artifactId = some a :=
    (getExperience_eq_some h.keyed).mpr ⟨ha, htenant, rfl, by rw [hevent]; rfl⟩
  unfold ExperienceStore.loadCheckTarget ensureProject
  simp only [except_bind_eq_ok, required_eq_ok, requiredEvent_eq_ok, demand_eq_ok, beq_iff_eq]
  exact ⟨a, hfound, event, hevent, (), hattempt, (), hproject, rfl⟩

/-- The current attempt of a case is always found. -/
theorem Journal.currentAttempt_eq (h : Journal s) (hp : p ∈ s.caseEvents t taskId) :
    currentAttempt (s.listTaskArtifacts t taskId) =
      .ok (lastGreatest ((s.caseEvents t taskId).filter isAttempt)) := by
  have hchain := (h.caseLaw hp).attempts
  have hperm := listTaskArtifacts_attempts_perm s t taskId
  refine (currentAttempt_eq_ok (h.keyed.listTaskArtifacts t taskId)).mpr ⟨hchain.perm hperm.symm, ?_⟩
  exact Selection.maxByKey_perm hchain.distinct hperm.symm

/-- The last attempt is the current one when no other has a greater ordinal. -/
theorem lastGreatest_concat (h : ∀ b ∈ l, ordinalOf b ≤ ordinalOf a) :
    lastGreatest (l ++ [a]) = some a := by
  unfold lastGreatest Selection.maxByKey
  rw [List.foldl_concat]
  show Selection.greater ordinalOf (Selection.maxByKey ordinalOf l) a = some a
  cases hbest : Selection.maxByKey ordinalOf l with
  | none => rfl
  | some b =>
    show (if ordinalOf b ≤ ordinalOf a then some a else some b) = some a
    rw [if_pos (h b (Selection.maxByKey_eq_some hbest).1)]

/-! ## What is accepted -/

/-- A problem is accepted when it says something, for a project. -/
theorem recordProblem_eq {description : String} {terms : List String}
    (hdescription : isBlank description = false) (hterms : validateTerms terms = .ok ())
    (hproject : ctx.projectId.isSome = true)
    (hw : Writable s (problemArtifact ctx draw description terms)) :
    s.recordProblem ctx draw description terms = .ok (problemArtifact ctx draw description terms,
      s.insertArtifact (problemArtifact ctx draw description terms) draw.projectionIds) := by
  unfold ExperienceStore.recordProblem
  simp only [except_bind_eq_ok, requireText_eq_ok, demand_eq_ok]
  exact ⟨(), hdescription, (), hterms, (), hproject, hw.writeArtifact_eq draw⟩

/-- An attempt is accepted when it says something and follows the attempts of its problem. -/
theorem Journal.recordAttempt_eq (h : Journal s) {previous : Option String} {action : String} {n : ℕ}
    (hp : p ∈ s.caseEvents ctx.tenantId taskId) (hproblem : p.isProblem = true)
    (hproject : ctx.projectId = p.projectId) (hid : isBlank p.artifactId = false)
    (haction : isBlank action = false)
    (hn : ExperienceStore.nextOrdinal ctx
      (lastGreatest ((s.caseEvents ctx.tenantId taskId).filter isAttempt)) previous = .ok n)
    (hw : Writable s (attemptArtifact ctx draw taskId p.artifactId previous n action)) :
    s.recordAttempt ctx draw p.artifactId previous action =
      .ok (attemptArtifact ctx draw taskId p.artifactId previous n action,
        s.insertArtifact (attemptArtifact ctx draw taskId p.artifactId previous n action)
          draw.projectionIds) := by
  obtain ⟨hmem, -, htenant, rfl⟩ := mem_caseEvents.mp hp
  unfold ExperienceStore.recordAttempt
  simp only [except_bind_eq_ok, requireText_eq_ok]
  exact ⟨(), hid, (), haction, p, h.requireProblem_eq hmem hproblem htenant hproject, _,
    h.currentAttempt_eq hp, n, hn, hw.writeArtifact_eq draw⟩

/-- The artifact `record_observed_check` writes. -/
def observedArtifact (ctx : ExperienceContext) (draw : Draw) (taskId : String)
    (check : ObservedCheck) : ExperienceArtifact :=
  checkArtifact ctx draw taskId check.attemptId observedCheckStatus
    s!"Observed check for attempt {check.attemptId}: {check.result}" (.observedCheck check)

/-- A check is accepted for any attempt of the project that is not after it. -/
theorem Journal.recordObservedCheck_eq (h : Journal s) {check : ObservedCheck}
    (ha : a ∈ s.caseEvents ctx.tenantId taskId) (hattempt : a.isAttempt = true)
    (hproject : ctx.projectId = a.projectId) (hid : check.attemptId = a.artifactId)
    (hcheck : validateObservedCheck check = .ok ())
    (htime : ∀ at_ ∈ ctx.observedAtMs, a.eventTime ≤ at_)
    (hw : Writable s (observedArtifact ctx draw taskId check)) :
    s.recordObservedCheck ctx draw check = .ok (observedArtifact ctx draw taskId check,
      s.insertArtifact (observedArtifact ctx draw taskId check) draw.projectionIds) := by
  obtain ⟨hmem, -, htenant, rfl⟩ := mem_caseEvents.mp ha
  unfold ExperienceStore.recordObservedCheck
  simp only [except_bind_eq_ok, ensureCausalTime_eq_ok, hid]
  exact ⟨(), hcheck, a, h.loadCheckTarget_eq hmem hattempt htenant hproject, (), htime,
    hid ▸ hw.writeArtifact_eq draw⟩

/-- A lesson without conflicts is accepted on a problem with a check that supports it. -/
theorem Journal.recordLesson_eq (h : Journal s) {lesson : ConditionalLesson}
    {check : ExperienceArtifact} (hwell : validateEmbeddedLesson lesson = .ok ())
    (hp : p ∈ s.caseEvents ctx.tenantId taskId) (hproblem : p.isProblem = true)
    (hproject : ctx.projectId = p.projectId) (hscoped : p.projectId.isSome = true)
    (hid : lesson.problemId = p.artifactId)
    (hc : check ∈ s.caseEvents ctx.tenantId taskId) (hcid : lesson.supportingCheckId = check.artifactId)
    (hcproject : check.projectId = p.projectId)
    (hevidence : validateLessonEvidence check lesson = .ok ())
    (htime : ∀ at_ ∈ ctx.observedAtMs, check.eventTime ≤ at_) (hconflicts : lesson.conflictsWith = [])
    (hw : Writable s (lessonArtifact ctx draw taskId lesson)) :
    s.recordLesson ctx draw lesson = .ok (lessonArtifact ctx draw taskId lesson,
      s.insertArtifact (lessonArtifact ctx draw taskId lesson) draw.projectionIds) := by
  obtain ⟨hmem, -, htenant, rfl⟩ := mem_caseEvents.mp hp
  obtain ⟨hcmem, hcevent, hctenant, hctask⟩ := mem_caseEvents.mp hc
  have hfound : s.getExperience ctx.tenantId check.artifactId = some check :=
    (getExperience_eq_some h.keyed).mpr ⟨hcmem, hctenant, rfl, hcevent⟩
  unfold ExperienceStore.recordLesson ExperienceStore.validateLesson
    ExperienceStore.validateConflictRefs
  simp only [except_bind_eq_ok, required_eq_ok, demand_eq_ok, ensureCausalTime_eq_ok, hid, hcid,
    hconflicts]
  refine ⟨p, ⟨(), hwell, p, h.requireProblem_eq hmem hproblem htenant hproject, (), ?_, check, hfound,
    (), ?_, (), hevidence, (), htime, rfl⟩, (), ⟨[], rfl, rfl⟩, hw.writeArtifact_eq draw⟩
  · simp [hscoped]
  · simp [hctask, hcproject]

end Experience
