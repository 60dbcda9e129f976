/-
# The resume of a task

`build_task_resume_view` sorts the artifacts of a task and reads the current state off the newest
start, progress or finish record that is no experience record.  The order is total on distinct
ids, so the view does not depend on the order of arrival (`resumeOf_buildTaskResumeView`).
-/
import Memd.DigestSources
import Memd.ListSelection

open TaskArtifact Selection

/-! ## The order -/

theorem resumeBefore_total (a b : TaskArtifact) : resumeBefore a b ∨ resumeBefore b a := by
  unfold resumeBefore
  have hid := String.le_total a.artifactId b.artifactId
  dsimp only
  grind

theorem resumeBefore_trans {a b c : TaskArtifact} (hab : resumeBefore a b) (hbc : resumeBefore b c) :
    resumeBefore a c := by
  unfold resumeBefore at *
  have hid : c.artifactId ≤ b.artifactId → b.artifactId ≤ a.artifactId →
      c.artifactId ≤ a.artifactId := fun h h' => String.le_trans h h'
  dsimp only at *
  grind

instance : Std.Total resumeBefore := ⟨resumeBefore_total⟩

instance : IsTrans TaskArtifact resumeBefore := ⟨fun _ _ _ => resumeBefore_trans⟩

/-- Artifacts that stand on both sides of each other have one id. -/
theorem artifactId_eq_of_resumeBefore {a b : TaskArtifact} (hab : resumeBefore a b)
    (hba : resumeBefore b a) : a.artifactId = b.artifactId := by
  unfold resumeBefore at *
  have hid : a.artifactId ≤ b.artifactId → b.artifactId ≤ a.artifactId →
      a.artifactId = b.artifactId := fun h h' => String.le_antisymm h h'
  dsimp only at *
  grind

section Resume

variable {artifacts : List TaskArtifact}

theorem eq_of_artifactId (hids : (artifacts.map (·.artifactId)).Nodup) {a b : TaskArtifact}
    (ha : a ∈ artifacts) (hb : b ∈ artifacts) (h : a.artifactId = b.artifactId) : a = b :=
  List.inj_on_of_nodup_map hids ha hb h

theorem insertionSort_resumeBefore_of_perm (hids : (artifacts.map (·.artifactId)).Nodup)
    {artifacts' : List TaskArtifact} (h : artifacts'.Perm artifacts) :
    artifacts'.insertionSort resumeBefore = artifacts.insertionSort resumeBefore :=
  insertionSort_eq_of_perm
    (fun _ ha _ hb hab hba => eq_of_artifactId hids ha hb (artifactId_eq_of_resumeBefore hab hba)) h

/-! ## What the view is -/

/-- The newest record of a task's state: later observed, later created, greater id. -/
structure LatestState (artifacts : List TaskArtifact) (s : TaskArtifact) : Prop where
  mem : s ∈ artifacts
  state : isStateArtifact s = true
  latest : ∀ a ∈ artifacts, isStateArtifact a = true → resumeBefore s a

/-- Each entry that is not blank, trimmed and once. -/
structure Merged (entries out : List String) : Prop where
  once : out.Nodup
  mem : ∀ x, x ∈ out ↔ x ≠ "" ∧ ∃ entry ∈ entries, trimTag entry = x

theorem merged_dedupeKeepOrder (entries : List String) : Merged entries (dedupeKeepOrder entries) := by
  rw [dedupeKeepOrder_eq]
  exact ⟨(normalizeTags_clean entries).nodup, fun _ => mem_normalizeTags⟩

/-- What a resume says, of a task and its artifacts. -/
structure ResumeOf (task : TaskRow) (artifacts : List TaskArtifact) (view : TaskResumeView) : Prop where
  order : ∀ artifacts', artifacts'.Perm artifacts → buildTaskResumeView task artifacts' = view
  state : ∀ s, LatestState artifacts s → Merged s.blockers view.blockers ∧
    Merged s.followups view.followups ∧ view.task = { task with
      status := if s.status.isSome then s.status else task.status
      finishedAtMs := if s.artifactKind = .taskFinish
        then some (s.timestampObserved.getD s.timestampCreated) else none }
  exists_state : (∃ a ∈ artifacts, isStateArtifact a = true) → ∃ s, LatestState artifacts s
  no_state : (∀ a ∈ artifacts, isStateArtifact a = false) →
    view.blockers = [] ∧ view.followups = [] ∧ view.task = task
  whatWorked : Merged (artifacts.flatMap (·.whatWorked)) view.whatWorked
  whatFailed : Merged (artifacts.flatMap (·.whatFailed)) view.whatFailed
  validation : Merged (artifacts.flatMap (·.validation)) view.validation

theorem exists_find?_state {a : TaskArtifact} (ha : a ∈ artifacts) (hstate : isStateArtifact a = true) :
    ∃ s, (artifacts.insertionSort resumeBefore).find? isStateArtifact = some s := by
  rw [← Option.isSome_iff_exists, List.find?_isSome]
  exact ⟨a, (List.mem_insertionSort resumeBefore).mpr ha, hstate⟩

/-- The state the view is built from is the newest. -/
theorem find?_eq_some_iff (hids : (artifacts.map (·.artifactId)).Nodup) {s : TaskArtifact} :
    (artifacts.insertionSort resumeBefore).find? isStateArtifact = some s ↔
      LatestState artifacts s := by
  rw [find?_insertionSort_eq_some_iff fun _ ha _ hb hab hba =>
    eq_of_artifactId hids ha hb (artifactId_eq_of_resumeBefore hab hba)]
  exact ⟨fun ⟨hmem, hstate, hlatest⟩ => ⟨hmem, hstate, hlatest⟩,
    fun ⟨hmem, hstate, hlatest⟩ => ⟨hmem, hstate, hlatest⟩⟩

theorem merged_flatMap_sorted (f : TaskArtifact → List String) :
    Merged (artifacts.flatMap f)
      (dedupeKeepOrder ((artifacts.insertionSort resumeBefore).flatMap f)) := by
  obtain ⟨honce, hmem⟩ := merged_dedupeKeepOrder
    ((artifacts.insertionSort resumeBefore).flatMap f)
  refine ⟨honce, fun x => (hmem x).trans ?_⟩
  simp only [List.mem_flatMap, List.mem_insertionSort]

/-- **The resume of a task**, for every record and every list of artifacts with distinct ids. -/
theorem resumeOf_buildTaskResumeView (task : TaskRow) {artifacts : List TaskArtifact}
    (hids : (artifacts.map (·.artifactId)).Nodup) :
    ResumeOf task artifacts (buildTaskResumeView task artifacts) where
  order := by
    intro artifacts' h
    simp only [buildTaskResumeView, insertionSort_resumeBefore_of_perm hids h]
  state := by
    intro s hs
    have hfind := (find?_eq_some_iff hids).mpr hs
    simp only [buildTaskResumeView, hfind, Option.map_some, Option.getD_some]
    refine ⟨merged_dedupeKeepOrder _, merged_dedupeKeepOrder _, ?_⟩
    cases s.status <;> rfl
  exists_state := by
    rintro ⟨a, ha, hstate⟩
    obtain ⟨s, hs⟩ := exists_find?_state ha hstate
    exact ⟨s, (find?_eq_some_iff hids).mp hs⟩
  no_state := by
    intro hnone
    have hfind : (artifacts.insertionSort resumeBefore).find? isStateArtifact = none := by
      rw [List.find?_eq_none]
      intro a ha hstate
      exact absurd hstate (by simp [hnone a ((List.mem_insertionSort resumeBefore).mp ha)])
    simp only [buildTaskResumeView, hfind]
    exact ⟨rfl, rfl, trivial⟩
  whatWorked := merged_flatMap_sorted _
  whatFailed := merged_flatMap_sorted _
  validation := merged_flatMap_sorted _

end Resume

/-! ### A task with a problem on record -/

/-- The record of a blocked task. -/
def blockedTask : TaskRow :=
  { taskId := "k", tenantId := "t", projectId := some "p", parentTaskId := none, agentId := none,
    sessionId := none, status := some "blocked", goal := none, scientificQuestion := none,
    hypothesis := none, lastArtifactId := "a", startedAtMs := some 1, finishedAtMs := none,
    updatedAtMs := 100 }

/-- Progress that names a blocker, reported late. -/
def blockedProgress : TaskArtifact :=
  { artifactId := "a", artifactKind := .taskProgress, taskId := "k", tenantId := "t",
    status := some "blocked", blockers := ["missing mount"], whatFailed := ["read too early"],
    timestampCreated := 100, timestampObserved := some 10 }

/-- The record that ends the task. -/
def mountedFinish : TaskArtifact :=
  { artifactId := "b", artifactKind := .taskFinish, taskId := "k", tenantId := "t",
    status := some "completed", timestampCreated := 20, timestampObserved := some 20 }

/-- A problem of the experience journal, a progress record of its kind. -/
def recordedProblem : TaskArtifact :=
  { artifactId := "c", artifactKind := .taskProgress, taskId := "k", tenantId := "t",
    status := some "open", summary := some "mount lost", experience := some "problem",
    timestampCreated := 30 }

/-- The blocker is gone after the finish, whichever record comes first. -/
theorem resumeOf_mounted : ResumeOf blockedTask [mountedFinish, blockedProgress]
    (buildTaskResumeView blockedTask [mountedFinish, blockedProgress]) :=
  resumeOf_buildTaskResumeView blockedTask (by decide)

/-- The newest progress record is the problem, and it names no blocker; the state is read off the
record before it. -/
theorem resume_skips_problem :
    (∀ a ∈ [blockedProgress, recordedProblem], a.artifactKind = .taskProgress ∧
        resumeBefore recordedProblem a) ∧
      recordedProblem.blockers = [] ∧ recordedProblem.status = some "open" ∧
      (buildTaskResumeView blockedTask [blockedProgress, recordedProblem]).blockers =
        ["missing mount"] ∧
      (buildTaskResumeView blockedTask [blockedProgress, recordedProblem]).task.status =
        some "blocked" := by
  decide
