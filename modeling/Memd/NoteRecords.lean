/-
# The case a note makes

A valid case file is stored whole: every record of it is accepted, and the case they make resolves
to the lesson of the file (`create_case` of `experience/note.rs`).

* `Noting.snoc` — a record is added to a note;
* `foldlM_noteAttempt` — every approach becomes an attempt;
* `createCase_noting` — no record of a valid case file is refused;
* `createCase_resolves` — the case they make has them in their order, with the lesson of the file as
  its one current lesson.
-/
import Memd.BundleRoundTrip
import Memd.NoteCases

open Proc (except_bind_eq_ok)

namespace Experience

open ExperienceArtifact

variable {s s' s₀ : ExperienceStore} {l written : List ExperienceArtifact}
  {a b p x : ExperienceArtifact} {ctx : ExperienceContext} {draws : ℕ → Draw} {case : CaseFile}
  {t : TenantId} {taskId id : String} {start : ℤ} {n : ℕ}

/-! ## The records of a note -/

/-- The task of a note. -/
def noteTask (draws : ℕ → Draw) : String :=
  s!"experience-{(draws 0).taskId}"

/-- What a note of `n` records draws: new ids, all different, and a task that no other tenant
has. -/
structure NewNote (s : ExperienceStore) (t : TenantId) (draws : ℕ → Draw) (n : ℕ) : Prop where
  fresh : ∀ i < n, ∀ b ∈ s.artifacts, b.artifactId ≠ (draws i).artifactId
  distinct : ∀ i < n, ∀ j < n, (draws i).artifactId = (draws j).artifactId → i = j
  nonblank : ∀ i < n, isBlank (draws i).artifactId = false
  task : ∀ b ∈ s.artifacts, b.taskId ≠ noteTask draws
  owner : ∀ tenant ∈ s.getTaskGlobal (noteTask draws), tenant = t

/-- A note that has written these records so far, each with its draw and its time. -/
structure Noting (s₀ s : ExperienceStore) (t : TenantId) (start : ℤ) (draws : ℕ → Draw)
    (written : List ExperienceArtifact) : Prop where
  journal : Journal s
  artifacts : s.artifacts = s₀.artifacts ++ written
  owner : ∀ tenant ∈ s.getTaskGlobal (noteTask draws), tenant = t
  ids : written.map (·.artifactId) = (List.range written.length).map fun i => (draws i).artifactId
  times : written.map (·.eventTime) = (List.range written.length).map fun i : ℕ => start + (i : ℤ)
  inCase : ∀ a ∈ written, inCase t (noteTask draws) a = true

/-- A new note has written nothing yet. -/
theorem NewNote.noting (hnew : NewNote s t draws n) (h : Journal s) : Noting s s t start draws [] where
  journal := h
  artifacts := (List.append_nil _).symm
  owner := hnew.owner
  ids := rfl
  times := rfl
  inCase _ ha := absurd ha List.not_mem_nil

/-- The case of a note is what it has written. -/
theorem Noting.caseEvents (hN : Noting s₀ s t start draws written) (hnew : NewNote s₀ t draws n) :
    s.caseEvents t (noteTask draws) = written := by
  unfold ExperienceStore.caseEvents
  rw [hN.artifacts, List.filter_append, List.filter_eq_self.mpr hN.inCase,
    List.filter_eq_nil_iff.mpr, List.nil_append]
  intro b hb hcase
  exact hnew.task b hb (inCase_iff.mp hcase).2.2

/-- What the next record of a note must be. -/
structure NextNoted (t : TenantId) (start : ℤ) (draws : ℕ → Draw) (i : ℕ) (a : ExperienceArtifact) :
    Prop where
  id : a.artifactId = (draws i).artifactId
  time : a.eventTime = start + (i : ℤ)
  inCase : Experience.inCase t (noteTask draws) a = true

/-- The next record of a note has a new id. -/
theorem Noting.writable (hN : Noting s₀ s t start draws written) (hnew : NewNote s₀ t draws n)
    (hlt : written.length < n) (ha : NextNoted t start draws written.length a) : Writable s a := by
  obtain ⟨-, htenant, htask⟩ := inCase_iff.mp ha.inCase
  refine ⟨fun b hb => ?_, ?_⟩
  · rw [ha.id]
    rw [hN.artifacts] at hb
    rcases List.mem_append.mp hb with hb | hb
    · exact hnew.fresh _ hlt b hb
    · -- a record of the note itself has an earlier draw
      have hid : b.artifactId ∈ written.map (·.artifactId) := List.mem_map_of_mem hb
      rw [hN.ids] at hid
      obtain ⟨i, hi, hbi⟩ := List.mem_map.mp hid
      rw [List.mem_range] at hi
      intro heq
      have := hnew.distinct i (by omega) _ hlt (hbi.trans heq)
      omega
  · rw [htask, htenant]
    exact hN.owner

/-- **A record is added to a note.** -/
theorem Noting.snoc (hN : Noting s₀ s t start draws written) (hnew : NewNote s₀ t draws n)
    (hlt : written.length < n) (ha : NextNoted t start draws written.length a) {ids : List ChunkId}
    (hj : Journal (s.insertArtifact a ids)) :
    Noting s₀ (s.insertArtifact a ids) t start draws (written ++ [a]) where
  journal := hj
  artifacts := by
    rw [(hN.writable hnew hlt ha).artifacts, hN.artifacts, List.append_assoc]
  owner := by
    intro tenant h
    rcases getTaskGlobal_insertArtifact h with h | rfl
    · exact hN.owner tenant h
    · exact (inCase_iff.mp ha.inCase).2.1
  ids := by
    rw [List.map_append, hN.ids, List.length_append, List.length_singleton, List.range_succ,
      List.map_append, List.map_singleton, List.map_singleton, ha.id]
  times := by
    rw [List.map_append, hN.times, List.length_append, List.length_singleton, List.range_succ,
      List.map_append, List.map_singleton, List.map_singleton, ha.time]
  inCase := by
    intro b hb
    rcases List.mem_append.mp hb with hb | hb
    · exact hN.inCase b hb
    · rw [List.mem_singleton.mp hb]
      exact ha.inCase

/-- The attempt an attempt of a note names, which is the one before it. -/
def previousNoted (draws : ℕ → Draw) : ℕ → Option String
  | 0 => none
  | i + 1 => some (draws (i + 1)).artifactId

section Noted

variable (ctx : ExperienceContext) (start : ℤ) (draws : ℕ → Draw) (case : CaseFile)

/-- The problem a note records. -/
def notedProblem : ExperienceArtifact :=
  problemArtifact (ctx.at start 0) (draws 0) case.problem case.symptoms

/-- The `i`-th attempt of a note. -/
def notedAttempt (i : ℕ) (action : String) : ExperienceArtifact :=
  attemptArtifact (ctx.at start (i + 1)) (draws (i + 1)) (noteTask draws) (draws 0).artifactId
    (previousNoted draws i) (i + 1) action

/-- The attempts a note records, one for each action. -/
def notedAttempts (actions : List String) : List ExperienceArtifact :=
  actions.mapIdx (notedAttempt ctx start draws)

/-- The check of a note, after `n` attempts. -/
def notedCheck (n : ℕ) : ExperienceArtifact :=
  observedArtifact (ctx.at start (n + 1)) (draws (n + 1)) (noteTask draws)
    ⟨(draws n).artifactId, case.check.result, case.check.command⟩

/-- The lesson of a note, after `n` attempts. -/
def notedLesson (n : ℕ) : ExperienceArtifact :=
  lessonArtifact (ctx.at start (n + 2)) (draws (n + 2)) (noteTask draws)
    (lessonFromCase case (draws 0).artifactId (draws (n + 1)).artifactId .observed)

/-- Every record of a note, in the order they are written. -/
def notedEvents : List ExperienceArtifact :=
  notedProblem ctx start draws case :: notedAttempts ctx start draws (case.failed ++ [case.fix]) ++
    [notedCheck ctx start draws case (case.failed.length + 1),
      notedLesson ctx start draws case (case.failed.length + 1)]

end Noted

/-- The clock of a note does not wrap around. -/
theorem tick_eq (hstart : IntType.i64.Fits start) (hend : IntType.i64.Fits (start + n)) {i : ℕ}
    (hi : i ≤ n) : tick start i = start + i := by
  apply IntType.cast_of_fits
  rw [IntType.fits_i64] at hstart hend ⊢
  omega

/-- Each record of a note is later than the one before it. -/
theorem tick_le_succ (hstart : IntType.i64.Fits start) (hend : IntType.i64.Fits (start + n)) {i : ℕ}
    (hi : i < n) : tick start i ≤ tick start (i + 1) := by
  rw [tick_eq hstart hend hi.le, tick_eq hstart hend hi]
  push_cast
  omega

/-- One more action is one more attempt. -/
theorem notedAttempts_concat (actions : List String) (action : String) :
    notedAttempts ctx start draws (actions ++ [action]) =
      notedAttempts ctx start draws actions ++ [notedAttempt ctx start draws actions.length action] :=
  List.mapIdx_concat

/-- There are as many attempts as actions. -/
theorem length_notedAttempts (actions : List String) :
    (notedAttempts ctx start draws actions).length = actions.length :=
  List.length_mapIdx

/-- An attempt of the note is for one of the actions. -/
theorem mem_notedAttempts {actions : List String} (ha : a ∈ notedAttempts ctx start draws actions) :
    ∃ i action, i < actions.length ∧ action ∈ actions ∧ a = notedAttempt ctx start draws i action := by
  obtain ⟨i, hi, rfl⟩ := List.mem_mapIdx.mp ha
  exact ⟨i, actions[i], hi, List.getElem_mem hi, rfl⟩

/-- The attempts of a note are attempts. -/
theorem filter_notedAttempts (actions : List String) :
    (notedAttempts ctx start draws actions).filter isAttempt = notedAttempts ctx start draws actions := by
  apply List.filter_eq_self.mpr
  intro a ha
  obtain ⟨i, action, -, -, rfl⟩ := mem_notedAttempts ha
  rfl

/-- The current attempt of a note so far. -/
theorem lastGreatest_notedAttempts (actions : List String) (action : String) :
    lastGreatest (notedAttempts ctx start draws (actions ++ [action])) =
      some (notedAttempt ctx start draws actions.length action) := by
  rw [notedAttempts_concat]
  apply lastGreatest_concat
  intro b hb
  obtain ⟨i, action', hi, -, rfl⟩ := mem_notedAttempts hb
  show i + 1 ≤ actions.length + 1
  omega

/-- The ids of the first `n` attempts of a note. -/
def notedIds (draws : ℕ → Draw) (n : ℕ) : List String :=
  (List.range n).map fun i => (draws (i + 1)).artifactId

/-- Every draw gives one id. -/
theorem length_notedIds (draws : ℕ → Draw) (n : ℕ) : (notedIds draws n).length = n := by
  simp [notedIds]

/-- One more draw gives one more id. -/
theorem notedIds_succ (draws : ℕ → Draw) (n : ℕ) :
    notedIds draws (n + 1) = notedIds draws n ++ [(draws (n + 1)).artifactId] := by
  simp [notedIds, List.range_succ]

/-- The last id is that of the previous attempt. -/
theorem getLast?_notedIds (draws : ℕ → Draw) (n : ℕ) :
    (notedIds draws n).getLast? = previousNoted draws n := by
  cases n with
  | zero => rfl
  | succ n => rw [notedIds_succ, List.getLast?_concat, previousNoted]

/-- The next attempt of a note is the next in its chain. -/
theorem nextOrdinal_noted {actions : List String} (hlen : actions.length < u32Max)
    (hstart : IntType.i64.Fits start) (hend : IntType.i64.Fits (start + n))
    (hn : actions.length + 1 ≤ n) :
    ExperienceStore.nextOrdinal (ctx.at start (actions.length + 1))
      (lastGreatest (notedAttempts ctx start draws actions)) (previousNoted draws actions.length) =
        .ok (actions.length + 1) := by
  cases actions using List.reverseRecOn with
  | nil => rfl
  | append_singleton actions action =>
    rw [List.length_append, List.length_singleton] at *
    rw [lastGreatest_notedAttempts]
    unfold ExperienceStore.nextOrdinal
    simp only [except_bind_eq_ok, demand_eq_ok, beq_iff_eq, ensureCausalTime_eq_ok,
      attemptOrdinal_eq_ok, decide_eq_true_eq]
    refine ⟨(), rfl, (), ?_, actions.length + 1, ⟨rfl, rfl⟩, (), hlen, rfl⟩
    rintro at_ ⟨⟩
    show tick start (actions.length + 1) ≤ tick start (actions.length + 1 + 1)
    exact tick_le_succ hstart hend hn

/-- The attempts of a note are of its task. -/
theorem next_notedAttempt {actions : List String} {action : String}
    (hstart : IntType.i64.Fits start) (hend : IntType.i64.Fits (start + n))
    (hn : actions.length + 1 ≤ n) :
    NextNoted ctx.tenantId start draws (actions.length + 1)
      (notedAttempt ctx start draws actions.length action) where
  id := rfl
  time := tick_eq hstart hend hn
  inCase := inCase_iff.mpr ⟨rfl, rfl, rfl⟩

/-- Recording an attempt behind the previous one. -/
theorem noteAttempt_eq {ids : List String} {previous : Option String} {problemId action : String}
    (hn : ids.length = n) (hprevious : ids.getLast? = previous)
    (hr : s.recordAttempt (ctx.at start (n + 1)) (draws (n + 1)) problemId previous action =
      .ok (a, s')) :
    ExperienceStore.noteAttempt ctx start draws problemId (ids, s) action =
      .ok (ids ++ [a.artifactId], s') := by
  subst hn hprevious
  unfold ExperienceStore.noteAttempt ExperienceStore.record
  dsimp only
  rw [hr]
  rfl

/-- **Every approach becomes an attempt.** -/
theorem foldlM_noteAttempt (hnew : NewNote s₀ ctx.tenantId draws (n + 1))
    (hN : Noting s₀ s ctx.tenantId start draws [notedProblem ctx start draws case])
    (hstart : IntType.i64.Fits start) (hend : IntType.i64.Fits (start + n))
    (actions : List String) (hn : actions.length ≤ n) (hlen : actions.length ≤ u32Max)
    (hactions : ∀ action ∈ actions, isBlank action = false) :
    ∃ s', actions.foldlM (ExperienceStore.noteAttempt ctx start draws (draws 0).artifactId) ([], s) =
        .ok (notedIds draws actions.length, s') ∧
      Noting s₀ s' ctx.tenantId start draws
        (notedProblem ctx start draws case :: notedAttempts ctx start draws actions) := by
  induction actions using List.reverseRecOn with
  | nil => exact ⟨s, rfl, hN⟩
  | append_singleton actions action ih =>
    rw [List.length_append, List.length_singleton] at hn hlen
    obtain ⟨s₁, hloop, hN₁⟩ := ih (by omega) (by omega) fun action h =>
      hactions action (List.mem_append_left _ h)
    have haction := hactions action (List.mem_append_right _ (List.mem_singleton_self action))
    have hwritten : (notedProblem ctx start draws case ::
        notedAttempts ctx start draws actions).length = actions.length + 1 := by
      rw [List.length_cons, length_notedAttempts]
    have hnext : NextNoted ctx.tenantId start draws (actions.length + 1)
        (notedAttempt ctx start draws actions.length action) := next_notedAttempt hstart hend hn
    rw [← hwritten] at hnext
    have hlt : (notedProblem ctx start draws case ::
        notedAttempts ctx start draws actions).length < n + 1 := by
      omega
    -- the case so far is what the note has written
    have hevents := hN₁.caseEvents hnew
    have hp : notedProblem ctx start draws case ∈ s₁.caseEvents ctx.tenantId (noteTask draws) := by
      rw [hevents]
      exact List.mem_cons_self
    have hordinal : ExperienceStore.nextOrdinal (ctx.at start (actions.length + 1))
        (lastGreatest ((s₁.caseEvents ctx.tenantId (noteTask draws)).filter isAttempt))
        (previousNoted draws actions.length) = .ok (actions.length + 1) := by
      rw [hevents, List.filter_cons_of_neg (by simp [isAttempt, notedProblem, problemArtifact, newArtifact]),
        filter_notedAttempts]
      exact nextOrdinal_noted (by omega) hstart hend hn
    have hwritable := hN₁.writable hnew hlt hnext
    have hr : s₁.recordAttempt (ctx.at start (actions.length + 1)) (draws (actions.length + 1))
        (draws 0).artifactId (previousNoted draws actions.length) action =
          .ok (notedAttempt ctx start draws actions.length action,
            s₁.insertArtifact (notedAttempt ctx start draws actions.length action)
              (draws (actions.length + 1)).projectionIds) :=
      @Journal.recordAttempt_eq s₁ (notedProblem ctx start draws case)
        (ctx.at start (actions.length + 1)) (draws (actions.length + 1)) (noteTask draws) hN₁.journal
        (previousNoted draws actions.length) action (actions.length + 1) hp rfl rfl
        (hnew.nonblank 0 (by omega)) haction hordinal hwritable
    have hj := (recordAttempt_wrote hN₁.journal hr).journal hN₁.journal
    have hturn := noteAttempt_eq (length_notedIds draws actions.length)
      (getLast?_notedIds draws actions.length) hr
    refine ⟨s₁.insertArtifact (notedAttempt ctx start draws actions.length action)
      (draws (actions.length + 1)).projectionIds, ?_, ?_⟩
    · rw [List.foldlM_append, except_bind_eq_ok]
      refine ⟨_, hloop, ?_⟩
      rw [List.foldlM_cons, except_bind_eq_ok]
      refine ⟨_, hturn, ?_⟩
      rw [List.length_append, List.length_singleton, notedIds_succ, List.foldlM_nil]
      rfl
    · rw [notedAttempts_concat, ← List.cons_append]
      exact hN₁.snoc hnew hlt hnext hj

/-! ## The whole note -/

/-- The actions of a valid case file are not blank. -/
theorem CaseFile.Valid.actions (h : case.Valid) :
    ∀ action ∈ case.failed ++ [case.fix], isBlank action = false := by
  intro action haction
  rcases List.mem_append.mp haction with haction | haction
  · exact (h.failed.2 action haction).1
  · rw [List.mem_singleton.mp haction]
    exact h.fix.1

/-- The check of a valid case file is accepted. -/
theorem CaseFile.Valid.observedCheck (h : case.Valid) {attemptId : String}
    (hid : isBlank attemptId = false) :
    validateObservedCheck ⟨attemptId, case.check.result, case.check.command⟩ = .ok () := by
  unfold validateObservedCheck
  simp only [except_bind_eq_ok, requireText_eq_ok]
  refine ⟨(), hid, (), h.result.1, ?_⟩
  cases hcommand : case.check.command with
  | none => rfl
  | some command => exact requireText_eq_ok.mpr (h.command command hcommand).1

/-- The problem of a note is recorded. -/
theorem Noting.problem (hnew : NewNote s ctx.tenantId draws (n + 1)) (h : Journal s)
    (hvalid : case.Valid) (hproject : ctx.projectId.isSome = true)
    (hstart : IntType.i64.Fits start) :
    ∃ s', s.recordProblem (ctx.at start 0) (draws 0) case.problem case.symptoms =
        .ok (notedProblem ctx start draws case, s') ∧
      Noting s s' ctx.tenantId start draws [notedProblem ctx start draws case] := by
  have hN : Noting s s ctx.tenantId start draws [] := hnew.noting h
  have hnext : NextNoted ctx.tenantId start draws 0 (notedProblem ctx start draws case) := by
    refine ⟨rfl, ?_, inCase_iff.mpr ⟨rfl, rfl, rfl⟩⟩
    show tick start 0 = _
    rw [tick_eq hstart (n := 0) (by simpa using hstart) le_rfl]
  have hlt : ([] : List ExperienceArtifact).length < n + 1 := Nat.succ_pos n
  have hr := @recordProblem_eq s (ctx.at start 0) (draws 0) case.problem case.symptoms
    hvalid.problem.1 hvalid.terms hproject (hN.writable hnew hlt hnext)
  exact ⟨_, hr, hN.snoc hnew hlt hnext (recordProblem_journal h hr hnew.task).1⟩

/-- The check of a note is recorded. -/
theorem Noting.check (hnew : NewNote s₀ ctx.tenantId draws (n + 4)) (hvalid : case.Valid)
    (hstart : IntType.i64.Fits start) (hend : IntType.i64.Fits (start + (n + 3 : ℕ)))
    (hn : case.failed.length = n)
    (hN : Noting s₀ s ctx.tenantId start draws (notedProblem ctx start draws case ::
      notedAttempts ctx start draws (case.failed ++ [case.fix]))) :
    ∃ s', s.recordObservedCheck (ctx.at start (n + 2)) (draws (n + 2))
          ⟨(draws (n + 1)).artifactId, case.check.result, case.check.command⟩ =
        .ok (notedCheck ctx start draws case (n + 1), s') ∧
      Noting s₀ s' ctx.tenantId start draws ((notedProblem ctx start draws case ::
        notedAttempts ctx start draws (case.failed ++ [case.fix])) ++
          [notedCheck ctx start draws case (n + 1)]) := by
  have hlength : (notedProblem ctx start draws case ::
      notedAttempts ctx start draws (case.failed ++ [case.fix])).length = n + 2 := by
    rw [List.length_cons, length_notedAttempts, List.length_append, List.length_singleton, hn]
  have hnext : NextNoted ctx.tenantId start draws (n + 2)
      (notedCheck ctx start draws case (n + 1)) :=
    ⟨rfl, tick_eq hstart hend (by omega), inCase_iff.mpr ⟨rfl, rfl, rfl⟩⟩
  have hlt : n + 2 < n + 4 := by omega
  rw [← hlength] at hnext hlt
  -- the fix is the last of the attempts
  have hfix : notedAttempt ctx start draws n case.fix ∈ s.caseEvents ctx.tenantId (noteTask draws) := by
    rw [hN.caseEvents hnew, notedAttempts_concat, hn]
    exact List.mem_cons_of_mem _ (List.mem_append_right _ (List.mem_singleton_self _))
  have htime : ∀ at_ ∈ (ctx.at start (n + 2)).observedAtMs,
      (notedAttempt ctx start draws n case.fix).eventTime ≤ at_ := by
    rintro at_ ⟨⟩
    show tick start (n + 1) ≤ tick start (n + 2)
    exact tick_le_succ hstart hend (by omega)
  have hr := @Journal.recordObservedCheck_eq s (notedAttempt ctx start draws n case.fix)
    (ctx.at start (n + 2)) (draws (n + 2)) (noteTask draws) hN.journal
    ⟨(draws (n + 1)).artifactId, case.check.result, case.check.command⟩ hfix rfl rfl rfl
    (hvalid.observedCheck (hnew.nonblank (n + 1) (by omega))) htime (hN.writable hnew hlt hnext)
  exact ⟨_, hr, hN.snoc hnew hlt hnext ((recordObservedCheck_wrote hN.journal hr).journal hN.journal)⟩

/-- The lesson of a note is recorded. -/
theorem Noting.lesson (hnew : NewNote s₀ ctx.tenantId draws (n + 4)) (hvalid : case.Valid)
    (hproject : ctx.projectId.isSome = true)
    (hstart : IntType.i64.Fits start) (hend : IntType.i64.Fits (start + (n + 3 : ℕ)))
    (hlength : l.length = n + 1)
    (hN : Noting s₀ s ctx.tenantId start draws ((notedProblem ctx start draws case :: l) ++
      [notedCheck ctx start draws case (n + 1)])) :
    ∃ s', s.recordLesson (ctx.at start (n + 3)) (draws (n + 3))
          (lessonFromCase case (draws 0).artifactId (draws (n + 2)).artifactId .observed) =
        .ok (notedLesson ctx start draws case (n + 1), s') ∧
      Noting s₀ s' ctx.tenantId start draws (((notedProblem ctx start draws case :: l) ++
        [notedCheck ctx start draws case (n + 1)]) ++
          [notedLesson ctx start draws case (n + 1)]) := by
  have hwritten : ((notedProblem ctx start draws case :: l) ++
      [notedCheck ctx start draws case (n + 1)]).length = n + 3 := by
    rw [List.length_append, List.length_cons, List.length_singleton, hlength]
  have hnext : NextNoted ctx.tenantId start draws (n + 3)
      (notedLesson ctx start draws case (n + 1)) :=
    ⟨rfl, tick_eq hstart hend le_rfl, inCase_iff.mpr ⟨rfl, rfl, rfl⟩⟩
  have hlt : n + 3 < n + 4 := by omega
  rw [← hwritten] at hnext hlt
  have hevents := hN.caseEvents hnew
  have hp : notedProblem ctx start draws case ∈ s.caseEvents ctx.tenantId (noteTask draws) := by
    rw [hevents]
    exact List.mem_append_left _ List.mem_cons_self
  have hcheck : notedCheck ctx start draws case (n + 1) ∈
      s.caseEvents ctx.tenantId (noteTask draws) := by
    rw [hevents]
    exact List.mem_append_right _ (List.mem_singleton_self _)
  have htime : ∀ at_ ∈ (ctx.at start (n + 3)).observedAtMs,
      (notedCheck ctx start draws case (n + 1)).eventTime ≤ at_ := by
    rintro at_ ⟨⟩
    show tick start (n + 2) ≤ tick start (n + 3)
    exact tick_le_succ hstart hend (by omega)
  have hr := @Journal.recordLesson_eq s (notedProblem ctx start draws case) (ctx.at start (n + 3))
    (draws (n + 3)) (noteTask draws) hN.journal
    (lessonFromCase case (draws 0).artifactId (draws (n + 2)).artifactId .observed)
    (notedCheck ctx start draws case (n + 1))
    (hvalid.embeddedLesson (hnew.nonblank 0 (by omega)) (hnew.nonblank (n + 2) (by omega)) _)
    hp rfl rfl hproject rfl hcheck rfl rfl rfl htime rfl (hN.writable hnew hlt hnext)
  exact ⟨_, hr, hN.snoc hnew hlt hnext ((recordLesson_wrote hN.journal hr).journal hN.journal)⟩

/-- What a note of a valid case file answers. -/
def notedOutcome (draws : ℕ → Draw) (case : CaseFile) : NoteOutcome where
  problemId := (draws 0).artifactId
  attemptIds := notedIds draws (case.failed.length + 1)
  checkId := (draws (case.failed.length + 2)).artifactId
  lessonId := (draws (case.failed.length + 3)).artifactId
  evidence := .observed
  replay := false

/-- **No record of a valid case file is refused.** -/
theorem createCase_noting (h : Journal s) (hvalid : case.Valid) (hproject : ctx.projectId.isSome = true)
    (now : ℤ) (hnew : NewNote s ctx.tenantId draws (case.failed.length + 4))
    (hstart : IntType.i64.Fits (ctx.observedAtMs.getD now))
    (hend : IntType.i64.Fits (ctx.observedAtMs.getD now + (case.failed.length + 3 : ℕ))) :
    ∃ s', s.createCase ctx now draws case = .ok (notedOutcome draws case, s') ∧
      Noting s s' ctx.tenantId (ctx.observedAtMs.getD now) draws
        (notedEvents ctx (ctx.observedAtMs.getD now) draws case) := by
  unfold ExperienceStore.createCase
  dsimp only
  generalize ctx.observedAtMs.getD now = start at *
  obtain ⟨s₁, hproblem, hN₁⟩ :=
    Noting.problem (n := case.failed.length + 3) hnew h hvalid hproject hstart
  have hlength : (case.failed ++ [case.fix]).length = case.failed.length + 1 := by
    rw [List.length_append, List.length_singleton]
  have hfew := hvalid.failed.1
  obtain ⟨s₂, hattempts, hN₂⟩ := foldlM_noteAttempt hnew hN₁ hstart hend
    (case.failed ++ [case.fix]) (by omega) (by rw [hlength, u32Max]; omega) hvalid.actions
  obtain ⟨s₃, hcheck, hN₃⟩ := Noting.check hnew hvalid hstart hend rfl hN₂
  obtain ⟨s₄, hlesson, hN₄⟩ := Noting.lesson hnew hvalid hproject hstart hend
    (by rw [length_notedAttempts, hlength]) hN₃
  rw [hlength] at hattempts
  refine ⟨s₄, ?_, ?_⟩
  · rw [except_bind_eq_ok]
    refine ⟨_, hproblem, ?_⟩
    dsimp only
    rw [except_bind_eq_ok]
    refine ⟨_, hattempts, ?_⟩
    dsimp only
    rw [except_bind_eq_ok]
    refine ⟨(draws (case.failed.length + 1)).artifactId, ?_, ?_⟩
    · rw [getLast?_notedIds]
      rfl
    rw [length_notedIds, except_bind_eq_ok]
    refine ⟨_, hcheck, ?_⟩
    dsimp only
    rw [except_bind_eq_ok]
    exact ⟨_, hlesson, rfl⟩
  · rw [notedEvents, List.append_cons]
    exact hN₄

/-! ## The case of a note -/

/-- **A case with one lesson and no correction** is resolved by it. -/
theorem resolved_of_one_lesson (hnone : ∀ b ∈ l, b.supersedes? = none)
    (hone : l.filter isLesson = [a]) (hconflicts : a.lesson?.map (·.conflictsWith) = some []) :
    resolved p l = ⟨p, l, [a], [], .resolved⟩ := by
  have hchildren : ∀ id, childrenOf l id = [] := by
    intro id
    apply List.eq_nil_iff_forall_not_mem.mpr
    intro b hb
    obtain ⟨-, hmem, hsupersedes⟩ := mem_childrenOf.mp hb
    rw [hnone b hmem] at hsupersedes
    exact absurd hsupersedes (by simp)
  have hterminals : terminalsOf l a = [a] := by
    unfold terminalsOf
    cases l.length with
    | zero => rfl
    | succ n => rw [Forest.leaves, hchildren, List.isEmpty_nil, if_pos rfl]
  have hgroups : headGroups l = [[a]] := by
    rw [headGroups, hone, List.map_singleton, hterminals, latest_singleton]
  have hcurrent : currentOf l = [a] := by
    rw [currentOf, hgroups]
    rfl
  have hopen : openGroups l = [] := by
    rw [openGroups, hgroups]
    rfl
  have hgroup : conflictGroup [a] a = [a.artifactId] := by
    rw [conflictGroup, hconflicts]
    rfl
  have hclear : conflictsOf l = [] := by
    rw [conflictsOf, hcurrent, hopen, addConflictGroups, List.foldl_cons, List.foldl_nil, hgroup]
    rfl
  rw [resolved, hcurrent, hclear]
  rfl

/-- What a note records: a problem, attempts, a check and a lesson. -/
theorem mem_notedEvents (ha : a ∈ notedEvents ctx start draws case) :
    a = notedProblem ctx start draws case ∨
      (∃ i action, a = notedAttempt ctx start draws i action) ∨
      a = notedCheck ctx start draws case (case.failed.length + 1) ∨
      a = notedLesson ctx start draws case (case.failed.length + 1) := by
  rw [notedEvents, List.cons_append, List.mem_cons, List.mem_append, List.mem_cons,
    List.mem_singleton] at ha
  rcases ha with ha | ha | ha | ha
  · exact .inl ha
  · obtain ⟨i, action, -, -, ha⟩ := mem_notedAttempts ha
    exact .inr (.inl ⟨i, action, ha⟩)
  · exact .inr (.inr (.inl ha))
  · exact .inr (.inr (.inr ha))

/-- A note records one lesson. -/
theorem filter_isLesson_notedEvents : (notedEvents ctx start draws case).filter isLesson =
    [notedLesson ctx start draws case (case.failed.length + 1)] := by
  have hattempts : (notedAttempts ctx start draws (case.failed ++ [case.fix])).filter isLesson = [] := by
    apply List.filter_eq_nil_iff.mpr
    intro a ha
    obtain ⟨i, action, -, -, rfl⟩ := mem_notedAttempts ha
    exact Bool.false_ne_true
  rw [notedEvents, List.cons_append, List.filter_cons_of_neg Bool.false_ne_true, List.filter_append,
    hattempts]
  rfl

/-- The records of a note are in the order of their times. -/
theorem Noting.sortArtifacts_eq (hN : Noting s₀ s t start draws written) :
    sortArtifacts written = written := by
  have hranges : ((List.range written.length).map fun i : ℕ => start + (i : ℤ)).Pairwise (· < ·) := by
    apply List.pairwise_map.mpr
    exact List.pairwise_lt_range.imp fun hlt => by omega
  rw [← hN.times, List.pairwise_map] at hranges
  apply List.Pairwise.insertionSort_eq
  apply hranges.imp
  intro a b hlt
  exact le_of_lt (Prod.Lex.left _ _ hlt)

/-- **The case of a note** resolves to its records in their order, with its lesson as the one current
lesson. -/
theorem createCase_resolves (h : Journal s) (hvalid : case.Valid)
    (hproject : ctx.projectId.isSome = true) (now : ℤ)
    (hnew : NewNote s ctx.tenantId draws (case.failed.length + 4))
    (hstart : IntType.i64.Fits (ctx.observedAtMs.getD now))
    (hend : IntType.i64.Fits (ctx.observedAtMs.getD now + (case.failed.length + 3 : ℕ))) :
    ∃ s', s.createCase ctx now draws case = .ok (notedOutcome draws case, s') ∧ Journal s' ∧
      s'.artifacts = s.artifacts ++ notedEvents ctx (ctx.observedAtMs.getD now) draws case ∧
      s'.resolveCase ctx.tenantId (draws 0).artifactId =
        .ok ⟨notedProblem ctx (ctx.observedAtMs.getD now) draws case,
          notedEvents ctx (ctx.observedAtMs.getD now) draws case,
          [notedLesson ctx (ctx.observedAtMs.getD now) draws case (case.failed.length + 1)], [],
          .resolved⟩ := by
  obtain ⟨s', hcreate, hN⟩ := createCase_noting h hvalid hproject now hnew hstart hend
  generalize ctx.observedAtMs.getD now = start at *
  refine ⟨s', hcreate, hN.journal, hN.artifacts, ?_⟩
  have hevents := hN.caseEvents hnew
  have hp : notedProblem ctx start draws case ∈ s'.caseEvents ctx.tenantId (noteTask draws) := by
    rw [hevents]
    exact List.mem_cons_self
  have hsorted : sortArtifacts (s'.experienceEvents ctx.tenantId (noteTask draws)) =
      notedEvents ctx start draws case := by
    rw [sortArtifacts_eq_of_perm (hN.journal.keyed.caseEvents _ _) (experienceEvents_perm s' _ _),
      hevents, hN.sortArtifacts_eq]
  refine hN.journal.resolveCase_eq_ok.mpr ⟨_, (mem_caseEvents.mp hp).1, rfl, rfl, rfl, ?_⟩
  show _ = resolved (notedProblem ctx start draws case)
    (sortArtifacts (s'.experienceEvents ctx.tenantId (noteTask draws)))
  rw [hsorted, resolved_of_one_lesson (fun b hb => ?_) filter_isLesson_notedEvents rfl]
  rcases mem_notedEvents hb with rfl | ⟨i, action, rfl⟩ | rfl | rfl <;> rfl

/-- A case file with one failed approach. -/
def crashFile : CaseFile where
  problem := "crash"
  symptoms := ["oom"]
  failed := ["restart"]
  fix := "add memory"
  check := { method := .observed, result := "works" }

/-- The ids and chunks the sample draws. -/
def crashDraws (i : ℕ) : Draw :=
  ⟨⟨["p1", "a1", "a2", "o1", "l1"].getD i "", "u", 0⟩, [i]⟩

/-- The sample case file is recorded and its case resolves. -/
theorem crashFile_resolves : ∃ s',
    ExperienceStore.createCase {} crashContext 7 crashDraws crashFile =
        .ok (notedOutcome crashDraws crashFile, s') ∧
      Journal s' ∧ s'.artifacts = [] ++ notedEvents crashContext 7 crashDraws crashFile ∧
      s'.resolveCase "t" "p1" = .ok ⟨notedProblem crashContext 7 crashDraws crashFile,
        notedEvents crashContext 7 crashDraws crashFile,
        [notedLesson crashContext 7 crashDraws crashFile 2], [], .resolved⟩ := by
  have hnew : NewNote {} "t" crashDraws 5 :=
    ⟨fun _ _ _ hb => absurd hb List.not_mem_nil, by decide, by decide,
      fun _ hb => absurd hb List.not_mem_nil, fun _ h => absurd h (by simp [ExperienceStore.getTaskGlobal])⟩
  exact createCase_resolves Journal.empty (CaseFile.validate_eq_ok.mp rfl) rfl 7 hnew (by decide)
    (by decide)

end Experience
