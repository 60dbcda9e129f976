/-
# The lesson of a case file

What a case file is that passes its checks, and that its lesson passes the checks of lessons.

* `CaseFile.validate_eq_ok` — what a case file is that passes;
* `CaseFile.Valid.embeddedLesson` — the lesson of a valid case file is accepted.
-/
import Memd.CaseNotes
import Memd.RecordAcceptance

open Proc (except_bind_eq_ok)

namespace Experience

open ExperienceArtifact

variable {case : CaseFile}

/-! ## Valid case files -/

/-- Text that is not blank and not longer than a bound. -/
def IsText (value : String) (max : ℕ) : Prop :=
  isBlank value = false ∧ value.toList.length ≤ max

theorem validateText_eq_ok {field value : String} {max : ℕ} {u : Unit} :
    validateText field value max = .ok u ↔ IsText value max := by
  simp [validateText, IsText]

theorem validateItems_eq_ok {field : String} {values : List String} {min max each : ℕ} {u : Unit} :
    validateItems field values min max each = .ok u ↔
      (min ≤ values.length ∧ values.length ≤ max) ∧ ∀ value ∈ values, IsText value each := by
  unfold validateItems
  simp only [except_bind_eq_ok, demand_eq_ok, Bool.and_eq_true, decide_eq_true_eq,
    Fallible.forM_eq_ok, validateText_eq_ok]
  constructor
  · rintro ⟨_, hlength, hall⟩
    exact ⟨hlength, hall⟩
  · exact fun h => ⟨(), h⟩

theorem optionForM_eq_ok {α : Type} {value : Option α} {f : α → Except MemdError Unit} {u : Unit} :
    value.forM f = .ok u ↔ ∀ x ∈ value, f x = .ok () := by
  cases value <;> simp [Option.forM, pure, Except.pure]

/-- What `validate` asks of a case file. -/
structure CaseFile.Valid (case : CaseFile) : Prop where
  problem : IsText case.problem 300
  symptoms : (1 ≤ case.symptoms.length ∧ case.symptoms.length ≤ 12) ∧
    ∀ symptom ∈ case.symptoms, IsText symptom 80
  failed : case.failed.length ≤ 8 ∧ ∀ action ∈ case.failed, IsText action 300
  fix : IsText case.fix 1000
  result : IsText case.check.result 300
  command : ∀ command ∈ case.check.command, IsText command 300
  receipt : ∀ receiptId ∈ case.check.receiptId,
    IsText receiptId 80 ∧ case.check.method = .executed
  conditions : case.appliesWhen.entries.length ≤ 8
  condition : ∀ entry ∈ case.appliesWhen.entries,
    isConditionKey entry.1 = true ∧ IsText entry.2 80
  version : (case.appliesWhen.get? "version").isSome = true →
    (case.appliesWhen.get? "tool").isSome = true
  evidence : case.evidence.length ≤ 8 ∧ ∀ link ∈ case.evidence, IsText link 300

/-- **A case file passes** exactly when it is valid. -/
theorem CaseFile.validate_eq_ok : case.validate = .ok () ↔ case.Valid := by
  have hversion : (!((case.appliesWhen.get? "version").isSome &&
      (case.appliesWhen.get? "tool").isNone)) = true ↔
      ((case.appliesWhen.get? "version").isSome = true →
        (case.appliesWhen.get? "tool").isSome = true) := by
    cases case.appliesWhen.get? "version" <;> cases case.appliesWhen.get? "tool" <;> simp
  have hentry : ∀ entry : String × String, validateAppliesWhen entry = .ok () ↔
      isConditionKey entry.1 = true ∧ IsText entry.2 80 := by
    intro entry
    simp [validateAppliesWhen, except_bind_eq_ok, validateText_eq_ok]
  unfold CaseFile.validate
  simp only [except_bind_eq_ok, validateText_eq_ok, validateItems_eq_ok, optionForM_eq_ok,
    demand_eq_ok, Fallible.forM_eq_ok, hentry, hversion, beq_iff_eq, decide_eq_true_eq, Nat.zero_le,
    true_and]
  constructor
  · rintro ⟨_, hproblem, _, hsymptoms, _, hfailed, _, hfix, _, hresult, _, hcommand, _, hreceipt, _,
      hconditions, _, hcondition, _, hversion, hevidence⟩
    refine ⟨hproblem, hsymptoms, hfailed, hfix, hresult, hcommand, fun receiptId h => ?_,
      hconditions, hcondition, hversion, hevidence⟩
    obtain ⟨_, htext, hmethod⟩ := hreceipt receiptId h
    exact ⟨htext, hmethod⟩
  · intro h
    exact ⟨(), h.problem, (), h.symptoms, (), h.failed, (), h.fix, (), h.result, (), h.command, (),
      fun receiptId hr => ⟨(), (h.receipt receiptId hr).1, (h.receipt receiptId hr).2⟩, (),
      h.conditions, (), h.condition, (), h.version, h.evidence⟩

/-! ## The lesson of a case file -/

theorem CaseFile.Valid.terms (h : case.Valid) : validateTerms case.symptoms = .ok () := by
  have hne : case.symptoms ≠ [] := by
    intro hnil
    have hlength := h.symptoms.1.1
    rw [hnil, List.length_nil] at hlength
    omega
  have hall : ∀ symptom ∈ case.symptoms, isBlank symptom = false := fun symptom hs =>
    (h.symptoms.2 symptom hs).1
  unfold validateTerms
  rw [demand_eq_ok]
  simpa [hne] using hall

/-- The lesson of a valid case file passes the checks on lessons. -/
theorem CaseFile.Valid.embeddedLesson (h : case.Valid) {problemId checkId : String}
    (hproblem : isBlank problemId = false) (hcheck : isBlank checkId = false)
    (evidence : LessonEvidence) :
    validateEmbeddedLesson (lessonFromCase case problemId checkId evidence) = .ok () := by
  have hvalue : ∀ key, (!(case.appliesWhen.get? key).any isBlank) = true := by
    intro key
    cases hget : case.appliesWhen.get? key with
    | none => rfl
    | some value =>
      have hblank := (h.condition _ (SortedMap.get?_eq_some.mp hget)).2.1
      show (!isBlank value) = true
      rw [hblank]
      rfl
  unfold validateEmbeddedLesson validateApplicability
  simp only [except_bind_eq_ok, requireText_eq_ok, demand_eq_ok, Fallible.forM_eq_ok]
  refine ⟨(), hproblem, (), hcheck, (), h.fix.1, (), h.terms, (), ?_, ?_⟩
  · intro field hfield
    simp only [List.mem_cons, List.not_mem_nil, or_false] at hfield
    rcases hfield with rfl | rfl | rfl <;> exact hvalue _
  · have hversion := h.version
    show (!((case.appliesWhen.get? "version").isSome && (case.appliesWhen.get? "tool").isNone)) = true
    cases htool : case.appliesWhen.get? "tool" with
    | some tool => simp
    | none =>
      rw [htool] at hversion
      simpa using hversion

end Experience
