/-
# The single-flight slot of index repairs

`HnswRepairState` of `store/persistent.rs`: probes and the startup backfill try to claim
one slot, the owner of the slot runs repair passes, and a probe that finds the slot taken
arms `pending` so that the owner runs one more pass.  A task that panics or is aborted
frees the slot through its guard.

`RepairSystem` runs any number of callers and tasks against the bookkeeping, one lock
section at a time, and keeps the order of probe calls and pass starts:

* at most one task owns the slot (`single_run`);
* a probe is served by a pass that starts after it, as long as no task is dropped while
  a probe is waiting (`probes_served_iff`); the guard of a dropped task clears `pending`
  as well, and the waiting probe is forgotten (`dropped_pass_forgets_probe`).
-/
import Mathlib.Data.List.Induction
import Mathlib.Tactic.Common

/-! ## The bookkeeping -/

/-- `RepairBookkeeping`: the two flags. -/
structure RepairBookkeeping where
  /-- a repair task owns the single-flight slot -/
  inFlight : Bool := false
  /-- an external mutation was observed during an in-flight repair -/
  pending : Bool := false
  deriving DecidableEq, Repr

/-- What asks for a repair. -/
inductive RepairKind
  | startup
  | probe
  deriving DecidableEq, Repr

namespace RepairBookkeeping

/-- `try_begin_or_arm`: whether the caller became the owner of the slot. -/
def tryBeginOrArm (g : RepairBookkeeping) (kind : RepairKind) : Bool × RepairBookkeeping :=
  if g.inFlight then
    (false, if kind = .probe then { g with pending := true } else g)
  else (true, ⟨true, false⟩)

/-- `finish_or_continue`: whether another pass is required. -/
def finishOrContinue (g : RepairBookkeeping) : Bool × RepairBookkeeping :=
  if g.pending then (true, { g with pending := false })
  else (false, { g with inFlight := false })

/-- `RepairInFlightGuard::drop` with the guard still armed. -/
def dropGuard (_g : RepairBookkeeping) : RepairBookkeeping :=
  ⟨false, false⟩

end RepairBookkeeping

/-! ## Callers and tasks -/

/-- Where a repair task stands: spawned, inside a pass, told to run another pass, behind a
`finish_or_continue` that released the slot but with its guard still armed, or ended. -/
inductive TaskPhase
  | scheduled
  | running
  | again
  | released
  | ended
  deriving DecidableEq, Repr

/-- The task owns the slot. -/
def TaskPhase.owns : TaskPhase → Bool
  | scheduled | running | again => true
  | released | ended => false

/-- The task has a pass to start. -/
def TaskPhase.isDue : TaskPhase → Bool
  | scheduled | again => true
  | _ => false

/-- What the condition on the runs is about: probes and the starts of passes. -/
inductive RepairEvent
  | probed
  | passStarted
  deriving DecidableEq, Repr

/-- The bookkeeping, the tasks in the order they were spawned, and what has happened. -/
structure RepairSystem where
  book : RepairBookkeeping := {}
  tasks : List TaskPhase := []
  log : List RepairEvent := []
  deriving DecidableEq, Repr

/-- What callers and tasks can do. -/
inductive RepairStep
  /-- `schedule_hnsw_repair` of a caller: `try_begin_or_arm`, and the spawn if it won -/
  | call (kind : RepairKind)
  | startPass (i : ℕ)
  | finishPass (i : ℕ)
  /-- the guard is defused and the task returns -/
  | exit (i : ℕ)
  /-- the task panics or is aborted, which can happen at its first poll or in a pass -/
  | drop (i : ℕ)
  deriving DecidableEq, Repr

namespace RepairSystem

/-- A task changes its phase. -/
def setPhase (st : RepairSystem) (i : ℕ) (ph : TaskPhase) : RepairSystem :=
  { st with tasks := st.tasks.set i ph }

/-- The calls of a probe are logged. -/
def logCall (st : RepairSystem) : RepairKind → List RepairEvent
  | .probe => st.log ++ [.probed]
  | .startup => st.log

/-- A caller asks for a repair, and spawns a task if the slot was free. -/
def call (st : RepairSystem) (kind : RepairKind) : RepairSystem where
  book := (st.book.tryBeginOrArm kind).2
  tasks := if (st.book.tryBeginOrArm kind).1 then st.tasks ++ [.scheduled] else st.tasks
  log := st.logCall kind

/-- A task starts a pass. -/
def startPass (st : RepairSystem) (i : ℕ) : RepairSystem :=
  { st.setPhase i .running with log := st.log ++ [.passStarted] }

/-- A task ends a pass, and goes on or releases the slot. -/
def finishPass (st : RepairSystem) (i : ℕ) : RepairSystem :=
  { st.setPhase i (if st.book.finishOrContinue.1 then .again else .released) with
    book := st.book.finishOrContinue.2 }

/-- A task is dropped, and its guard frees the slot. -/
def dropTask (st : RepairSystem) (i : ℕ) : RepairSystem :=
  { st.setPhase i .ended with book := st.book.dropGuard }

/-- The phases a task can be dropped in: there is no await between the end of a pass and
the next one, nor between the release of the slot and the end of the task. -/
def canDrop : TaskPhase → Bool
  | .scheduled | .running => true
  | _ => false

/-- The next state, if the step is possible. -/
def step (st : RepairSystem) : RepairStep → Option RepairSystem
  | .call kind => some (st.call kind)
  | .startPass i => if st.tasks[i]?.any (·.isDue) then some (st.startPass i) else none
  | .finishPass i => if st.tasks[i]? = some .running then some (st.finishPass i) else none
  | .exit i => if st.tasks[i]? = some .released then some (st.setPhase i .ended) else none
  | .drop i => if st.tasks[i]?.any canDrop then some (st.dropTask i) else none

/-- The state after a run of steps, if all of them are possible. -/
def run (st : RepairSystem) : List RepairStep → Option RepairSystem
  | [] => some st
  | a :: rest => (st.step a).bind (run · rest)

/-- A run of two parts. -/
theorem run_append (st : RepairSystem) (l₁ l₂ : List RepairStep) :
    st.run (l₁ ++ l₂) = (st.run l₁).bind (run · l₂) := by
  induction l₁ generalizing st with
  | nil => rfl
  | cons a l₁ ih =>
    rw [List.cons_append, run, run, Option.bind_assoc]
    congr
    funext st'
    exact ih st'

/-- The last step of a run. -/
theorem run_concat {st st' : RepairSystem} {l : List RepairStep} {a : RepairStep} :
    st.run (l ++ [a]) = some st' ↔ ∃ m, st.run l = some m ∧ m.step a = some st' := by
  rw [run_append, Option.bind_eq_some_iff]
  constructor
  · rintro ⟨m, hm, h⟩
    refine ⟨m, hm, ?_⟩
    simpa [run] using h
  · rintro ⟨m, hm, h⟩
    refine ⟨m, hm, ?_⟩
    simp [run, h]

/-! ## One owner -/

/-- The slot is taken exactly when a task owns it, and no two tasks do. -/
structure Single (st : RepairSystem) : Prop where
  taken : st.book.inFlight = true ↔ ∃ i : ℕ, ∃ ph, st.tasks[i]? = some ph ∧ ph.owns = true
  unique : ∀ (i j : ℕ) (ph ph' : TaskPhase), st.tasks[i]? = some ph → st.tasks[j]? = some ph' →
    ph.owns = true → ph'.owns = true → i = j

/-- A task with a pass to start owns the slot. -/
theorem isDue_owns {ph : TaskPhase} (h : ph.isDue = true) : ph.owns = true := by
  cases ph <;> first | rfl | exact absurd h (by decide)

/-- A task that can be dropped owns the slot. -/
theorem canDrop_owns {ph : TaskPhase} (h : canDrop ph = true) : ph.owns = true := by
  cases ph <;> first | rfl | exact absurd h (by decide)

/-- A task that owned the slot and goes on owning it. -/
theorem Single.keep {st : RepairSystem} (h : st.Single) {i : ℕ} {ph ph' : TaskPhase}
    (hi : st.tasks[i]? = some ph) (ho : ph.owns = true) (ho' : ph'.owns = true)
    {book : RepairBookkeeping} {log : List RepairEvent} (hbook : book.inFlight = true) :
    Single { book := book, tasks := st.tasks.set i ph', log := log } := by
  have hlt : i < st.tasks.length := (List.getElem?_eq_some_iff.mp hi).1
  have hself : (st.tasks.set i ph')[i]? = some ph' := List.getElem?_set_self hlt
  -- another owner after the step was one before it
  have hother : ∀ (j : ℕ) (ph'' : TaskPhase), (st.tasks.set i ph')[j]? = some ph'' → ph''.owns = true → j = i := by
    intro j ph'' hj hoj
    by_cases hij : i = j
    · exact hij.symm
    · rw [List.getElem?_set_ne hij] at hj
      exact h.unique j i ph'' ph hj hi hoj ho
  constructor
  · exact ⟨fun _ => ⟨i, ph', hself, ho'⟩, fun _ => hbook⟩
  · intro j k ph₁ ph₂ hj hk h₁ h₂
    rw [hother j ph₁ hj h₁, hother k ph₂ hk h₂]

/-- The owner gives the slot up. -/
theorem Single.leave {st : RepairSystem} (h : st.Single) {i : ℕ} {ph ph' : TaskPhase}
    (hi : st.tasks[i]? = some ph) (ho : ph.owns = true) (ho' : ph'.owns = false)
    {book : RepairBookkeeping} {log : List RepairEvent} (hbook : book.inFlight = false) :
    Single { book := book, tasks := st.tasks.set i ph', log := log } := by
  have hlt : i < st.tasks.length := (List.getElem?_eq_some_iff.mp hi).1
  have hnone : ∀ (j : ℕ) (ph'' : TaskPhase), (st.tasks.set i ph')[j]? = some ph'' → ph''.owns = false := by
    intro j ph'' hj
    by_cases hij : i = j
    · subst hij
      rw [List.getElem?_set_self hlt] at hj
      rw [← Option.some.inj hj]
      exact ho'
    · rw [List.getElem?_set_ne hij] at hj
      cases hoj : ph''.owns with
      | false => rfl
      | true => exact absurd (h.unique i j ph ph'' hi hj ho hoj) hij
  constructor
  · constructor
    · intro hb
      rw [hbook] at hb
      exact absurd hb (by decide)
    · rintro ⟨j, ph'', hj, hoj⟩
      rw [hnone j ph'' hj] at hoj
      exact absurd hoj (by decide)
  · intro j k ph₁ ph₂ hj _ h₁ _
    rw [hnone j ph₁ hj] at h₁
    exact absurd h₁ (by decide)

/-- A call leaves at most one owner. -/
theorem Single.call {st : RepairSystem} (h : st.Single) (kind : RepairKind) :
    (st.call kind).Single := by
  cases hfl : st.book.inFlight with
  | true =>
    have hbook : (st.call kind).book.inFlight = true := by
      unfold RepairSystem.call RepairBookkeeping.tryBeginOrArm
      rw [if_pos hfl]
      cases kind
      · simpa using hfl
      · simpa using hfl
    have htasks : (st.call kind).tasks = st.tasks := by
      simp [RepairSystem.call, RepairBookkeeping.tryBeginOrArm, hfl]
    constructor
    · rw [htasks, hbook]
      exact ⟨fun _ => h.taken.mp hfl, fun _ => rfl⟩
    · rw [htasks]
      exact h.unique
  | false =>
    have hfree : ∀ (i : ℕ) (ph : TaskPhase), st.tasks[i]? = some ph → ph.owns = false := by
      intro i ph hi
      cases ho : ph.owns with
      | false => rfl
      | true =>
        have := h.taken.mpr ⟨i, ph, hi, ho⟩
        rw [hfl] at this
        exact absurd this (by decide)
    have hbook : (st.call kind).book.inFlight = true := by
      simp [RepairSystem.call, RepairBookkeeping.tryBeginOrArm, hfl]
    have htasks : (st.call kind).tasks = st.tasks ++ [.scheduled] := by
      simp [RepairSystem.call, RepairBookkeeping.tryBeginOrArm, hfl]
    -- the new task is the only owner
    have hlast : ∀ (i : ℕ) (ph : TaskPhase), (st.tasks ++ [.scheduled])[i]? = some ph → ph.owns = true →
        i = st.tasks.length := by
      intro i ph hi ho
      rw [List.getElem?_append] at hi
      by_cases hlt : i < st.tasks.length
      · rw [if_pos hlt] at hi
        rw [hfree i ph hi] at ho
        exact absurd ho (by decide)
      · rw [if_neg hlt, List.getElem?_singleton] at hi
        by_cases hz : i - st.tasks.length = 0
        · omega
        · rw [if_neg hz] at hi
          exact absurd hi (by simp)
    constructor
    · rw [htasks, hbook]
      exact ⟨fun _ => ⟨st.tasks.length, .scheduled, by simp, rfl⟩, fun _ => rfl⟩
    · rw [htasks]
      intro i j ph ph' hi hj ho ho'
      rw [hlast i ph hi ho, hlast j ph' hj ho']

/-- Every step keeps the slot with one owner. -/
theorem Single.step {st st' : RepairSystem} (h : st.Single) {a : RepairStep}
    (hstep : st.step a = some st') : st'.Single := by
  cases a with
  | call kind =>
    obtain rfl : st.call kind = st' := by simpa [RepairSystem.step] using hstep
    exact h.call kind
  | startPass i =>
    simp only [RepairSystem.step, Option.ite_none_right_eq_some, Option.some.injEq] at hstep
    obtain ⟨hany, rfl⟩ := hstep
    obtain ⟨ph, hi, hdue⟩ := Option.any_eq_true _ _ |>.mp hany
    have hown := isDue_owns hdue
    exact h.keep hi hown rfl (h.taken.mpr ⟨i, ph, hi, hown⟩)
  | finishPass i =>
    simp only [RepairSystem.step, Option.ite_none_right_eq_some, Option.some.injEq] at hstep
    obtain ⟨hi, rfl⟩ := hstep
    have hfl := h.taken.mpr ⟨i, .running, hi, rfl⟩
    unfold RepairSystem.finishPass RepairBookkeeping.finishOrContinue
    cases hp : st.book.pending with
    | true => exact h.keep hi rfl rfl hfl
    | false => exact h.leave hi rfl rfl rfl
  | exit i =>
    simp only [RepairSystem.step, Option.ite_none_right_eq_some, Option.some.injEq] at hstep
    obtain ⟨hi, rfl⟩ := hstep
    have hlt : i < st.tasks.length := (List.getElem?_eq_some_iff.mp hi).1
    -- neither before nor after is the task an owner
    have hsame : ∀ (j : ℕ) (ph : TaskPhase), ph.owns = true →
        ((st.tasks.set i .ended)[j]? = some ph ↔ st.tasks[j]? = some ph) := by
      intro j ph ho
      by_cases hij : i = j
      · subst hij
        rw [List.getElem?_set_self hlt, hi]
        constructor
        · intro he
          rw [← Option.some.inj he] at ho
          exact absurd ho (by decide)
        · intro he
          rw [← Option.some.inj he] at ho
          exact absurd ho (by decide)
      · rw [List.getElem?_set_ne hij]
    constructor
    · show st.book.inFlight = true ↔ _
      rw [h.taken]
      constructor
      · rintro ⟨j, ph, hj, ho⟩
        exact ⟨j, ph, (hsame j ph ho).mpr hj, ho⟩
      · rintro ⟨j, ph, hj, ho⟩
        exact ⟨j, ph, (hsame j ph ho).mp hj, ho⟩
    · intro j k ph ph' hj hk ho ho'
      exact h.unique j k ph ph' ((hsame j ph ho).mp hj) ((hsame k ph' ho').mp hk) ho ho'
  | drop i =>
    simp only [RepairSystem.step, Option.ite_none_right_eq_some, Option.some.injEq] at hstep
    obtain ⟨hany, rfl⟩ := hstep
    obtain ⟨ph, hi, hdrop⟩ := Option.any_eq_true _ _ |>.mp hany
    exact h.leave hi (canDrop_owns hdrop) rfl rfl

/-- At first there is no owner. -/
theorem single_init : Single {} := by
  constructor <;> simp

/-- At most one repair task owns the slot, in every state of every run. -/
theorem single_run {steps : List RepairStep} {st : RepairSystem}
    (h : RepairSystem.run {} steps = some st) : st.Single := by
  induction steps using List.reverseRecOn generalizing st with
  | nil =>
    obtain rfl : ({} : RepairSystem) = st := by simpa [run] using h
    exact single_init
  | append_singleton l a ih =>
    obtain ⟨m, hm, hstep⟩ := run_concat.mp h
    exact (ih hm).step hstep

/-! ## No forgotten probe -/

/-- Some probe has not been followed by the start of a pass. -/
def Waiting (log : List RepairEvent) : Prop :=
  ∃ l₁ l₂, log = l₁ ++ .probed :: l₂ ∧ .passStarted ∉ l₂

/-- Whenever the slot is free, every probe so far was followed by the start of a pass. -/
def Served (st : RepairSystem) : Prop :=
  st.book.inFlight = false → ∀ l₁ l₂, st.log = l₁ ++ .probed :: l₂ → .passStarted ∈ l₂

/-- What it means that no probe is left waiting. -/
theorem served_iff {st : RepairSystem} :
    st.Served ↔ (st.book.inFlight = false → ¬ Waiting st.log) := by
  unfold Served Waiting
  constructor
  · rintro h hfl ⟨l₁, l₂, heq, hno⟩
    exact hno (h hfl l₁ l₂ heq)
  · intro h hfl l₁ l₂ heq
    by_contra hno
    exact h hfl ⟨l₁, l₂, heq, hno⟩

/-- The start of a pass serves every probe before it. -/
theorem not_waiting_passStarted (log : List RepairEvent) :
    ¬ Waiting (log ++ [.passStarted]) := by
  rintro ⟨l₁, l₂, heq, hno⟩
  cases l₂ using List.reverseRecOn with
  | nil => simp at heq
  | append_singleton l a =>
    rw [← List.cons_append, ← List.append_assoc] at heq
    obtain ⟨-, rfl⟩ := List.append_inj' heq rfl |>.imp_right List.singleton_inj.mp
    exact hno (by simp)

/-- A waiting probe is waited for: the slot is taken, and `pending` is armed or the owner
has a pass to start. -/
def Covered (st : RepairSystem) : Prop :=
  Waiting st.log → st.book.inFlight = true ∧
    (st.book.pending = true ∨ ∃ i : ℕ, ∃ ph, st.tasks[i]? = some ph ∧ ph.isDue = true)

/-- A call keeps every probe covered. -/
theorem Covered.call {st : RepairSystem} (h : st.Covered) (kind : RepairKind) :
    (st.call kind).Covered := by
  intro hw
  unfold RepairSystem.call RepairBookkeeping.tryBeginOrArm
  cases hfl : st.book.inFlight with
  | true =>
    cases kind with
    | probe => exact ⟨by simp, .inl rfl⟩
    | startup =>
      obtain ⟨-, hcov⟩ := h hw
      simpa [hfl] using hcov
  | false => exact ⟨by simp, .inr ⟨st.tasks.length, .scheduled, by simp, rfl⟩⟩

/-- A step keeps the probes covered, unless it drops a task while a probe is waiting. -/
theorem Covered.step {st st' : RepairSystem} (h : st.Covered) (hs : st.Single) {a : RepairStep}
    (hstep : st.step a = some st') (hclean : ∀ i, a = .drop i → ¬ Waiting st.log) :
    st'.Covered := by
  cases a with
  | call kind =>
    obtain rfl : st.call kind = st' := by simpa [RepairSystem.step] using hstep
    exact h.call kind
  | startPass i =>
    simp only [RepairSystem.step, Option.ite_none_right_eq_some, Option.some.injEq] at hstep
    obtain ⟨-, rfl⟩ := hstep
    exact fun hw => absurd hw (not_waiting_passStarted st.log)
  | finishPass i =>
    simp only [RepairSystem.step, Option.ite_none_right_eq_some, Option.some.injEq] at hstep
    obtain ⟨hi, rfl⟩ := hstep
    have hlt : i < st.tasks.length := (List.getElem?_eq_some_iff.mp hi).1
    intro hw
    obtain ⟨hfl, hcov⟩ := h hw
    unfold RepairSystem.finishPass RepairBookkeeping.finishOrContinue
    cases hp : st.book.pending with
    | true => exact ⟨hfl, .inr ⟨i, .again, List.getElem?_set_self hlt, rfl⟩⟩
    | false =>
      -- the owner is inside a pass, so nobody has a pass to start
      rcases hcov with hpend | ⟨j, ph, hj, hdue⟩
      · rw [hp] at hpend
        exact absurd hpend (by decide)
      · obtain rfl := hs.unique i j .running ph hi hj rfl (isDue_owns hdue)
        rw [hi] at hj
        rw [← Option.some.inj hj] at hdue
        exact absurd hdue (by decide)
  | exit i =>
    simp only [RepairSystem.step, Option.ite_none_right_eq_some, Option.some.injEq] at hstep
    obtain ⟨hi, rfl⟩ := hstep
    intro hw
    obtain ⟨hfl, hcov⟩ := h hw
    refine ⟨hfl, ?_⟩
    rcases hcov with hpend | ⟨j, ph, hj, hdue⟩
    · exact .inl hpend
    · right
      refine ⟨j, ph, ?_, hdue⟩
      have hij : i ≠ j := by
        rintro rfl
        rw [hi] at hj
        rw [← Option.some.inj hj] at hdue
        exact absurd hdue (by decide)
      exact (List.getElem?_set_ne hij).trans hj
  | drop i =>
    simp only [RepairSystem.step, Option.ite_none_right_eq_some, Option.some.injEq] at hstep
    obtain ⟨-, rfl⟩ := hstep
    exact fun hw => absurd hw (hclean i rfl)

/-- No task is dropped while a probe is waiting. -/
def CleanDrops (steps : List RepairStep) : Prop :=
  ∀ (l : List RepairStep) (i : ℕ) (st st' : RepairSystem), l ++ [.drop i] <+: steps →
    RepairSystem.run {} l = some st → st.step (.drop i) = some st' → ¬ Waiting st.log

/-- Without a drop that forgets a probe every probe is covered. -/
theorem covered_run {steps : List RepairStep} (hclean : CleanDrops steps) {st : RepairSystem}
    (h : RepairSystem.run {} steps = some st) : st.Covered := by
  induction steps using List.reverseRecOn generalizing st with
  | nil =>
    obtain rfl : ({} : RepairSystem) = st := by simpa [run] using h
    rintro ⟨l₁, l₂, heq, -⟩
    simp at heq
  | append_singleton l a ih =>
    obtain ⟨m, hm, hstep⟩ := run_concat.mp h
    have hcov : m.Covered := by
      refine ih ?_ hm
      intro l' i st₁ st₂ hpre
      exact hclean l' i st₁ st₂ (hpre.trans (List.prefix_append l [a]))
    refine hcov.step (single_run hm) hstep ?_
    rintro i rfl
    exact hclean l i m st (List.prefix_refl _) hm hstep

/-- **Repair signals.**  In every run at most one task owns the slot; and every probe is
followed by the start of a pass before the slot is free again exactly when no task
panics or is aborted while a probe is waiting for its pass. -/
theorem probes_served_iff (steps : List RepairStep) :
    (∀ l st, l <+: steps → RepairSystem.run {} l = some st → st.Single) ∧
    ((∀ l st, l <+: steps → RepairSystem.run {} l = some st → st.Served) ↔ CleanDrops steps) := by
  refine ⟨fun l st _ h => single_run h, ?_, ?_⟩
  · intro hserved l i st st' hpre hrun hstep
    have hfree : st'.book.inFlight = false ∧ st'.log = st.log := by
      simp only [RepairSystem.step, Option.ite_none_right_eq_some, Option.some.injEq] at hstep
      obtain ⟨-, rfl⟩ := hstep
      exact ⟨rfl, rfl⟩
    have := served_iff.mp (hserved _ st' hpre (run_concat.mpr ⟨st, hrun, hstep⟩)) hfree.1
    rwa [hfree.2] at this
  · intro hclean l st hpre hrun
    have hcov : st.Covered := by
      refine covered_run ?_ hrun
      intro l' i st₁ st₂ hpre'
      exact hclean l' i st₁ st₂ (hpre'.trans hpre)
    rw [served_iff]
    intro hfl hw
    have := (hcov hw).1
    rw [hfl] at this
    exact absurd this (by decide)

/-- **A dropped pass forgets a probe.**  A probe starts a repair; a second probe arms
`pending` during its pass, and the pass is aborted: the slot is free and no pass has started
after the second probe. -/
theorem dropped_pass_forgets_probe :
    ¬ ∀ (steps : List RepairStep) (st : RepairSystem),
      RepairSystem.run {} steps = some st → st.Served := by
  intro h
  have hserved := h [.call .probe, .startPass 0, .call .probe, .drop 0] _ rfl
  have := hserved rfl [.probed, .passStarted] [] rfl
  exact absurd this (by simp)

end RepairSystem
