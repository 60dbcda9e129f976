/-
# The law of an experience case

What `validate_case` asks of the artifacts of a task, as a law about them: one problem, artifacts
of its scope in the shape of their payloads, attempts that form a chain, references that are kept.

* `validateCase_eq_ok_iff` — for artifacts with different ids the check passes exactly when the
  law holds;
* `CaseLaw.perm` — the law does not depend on the order of the artifacts;
* `AttemptChain.ordinals` — the attempts of a chain are numbered from one without a gap, and
  `currentAttempt` finds the last of them.
-/
import Memd.ExperienceCase
import Memd.FallibleLoops
import Memd.Table

open Proc (except_bind_eq_ok)

namespace Experience

open ExperienceArtifact

/-- Artifacts with different ids. -/
abbrev KeyedIds (l : List ExperienceArtifact) : Prop :=
  Table.Keyed (fun a : ExperienceArtifact => a.artifactId) l

variable {l l' : List ExperienceArtifact} {a b : ExperienceArtifact} {id : String}

/-! ## Looking up an id -/

/-- What is looked up is an artifact of that id. -/
theorem mem_of_byId (h : byId l id = some a) : a ∈ l ∧ a.artifactId = id := by
  refine ⟨List.mem_reverse.mp (List.mem_of_find?_eq_some h), ?_⟩
  simpa using List.find?_some h

/-- With unique ids a lookup finds exactly the artifact of that id. -/
theorem byId_eq_some (hk : KeyedIds l) : byId l id = some a ↔ a ∈ l ∧ a.artifactId = id := by
  refine ⟨mem_of_byId, ?_⟩
  rintro ⟨ha, rfl⟩
  cases hfind : byId l a.artifactId with
  | none =>
    have hno := List.find?_eq_none.mp hfind a (List.mem_reverse.mpr ha)
    simp at hno
  | some b =>
    obtain ⟨hb, hid⟩ := mem_of_byId hfind
    rw [hk.eq hb ha hid]

/-- A lookup succeeds where some artifact has the id. -/
theorem isSome_byId : (byId l id).isSome = true ↔ ∃ a ∈ l, a.artifactId = id := by
  rw [byId, List.find?_isSome]
  simp

/-! ## Chains of attempts -/

/-- An attempt that starts a chain, or follows another of the list by one. -/
def Follows (attempts : List ExperienceArtifact) (a : ExperienceArtifact) : Prop :=
  (ordinalOf a = 1 ∧ previousOf a = none) ∨
    ∃ p ∈ attempts, previousOf a = some p.artifactId ∧ p.isAttempt = true ∧
      ordinalOf p < u32Max ∧ ordinalOf a = ordinalOf p + 1 ∧ ordinalOf a ≠ 1

/-- No ordinal is used twice, and each attempt starts the chain or follows another. -/
structure AttemptChain (attempts : List ExperienceArtifact) : Prop where
  distinct : (attempts.map ordinalOf).Nodup
  follows : ∀ a ∈ attempts, Follows attempts a

/-- An ordinal is read from an attempt, and it is the attempt's own. -/
theorem attemptOrdinal_eq_ok {n : ℕ} :
    attemptOrdinal a = .ok n ↔ a.isAttempt = true ∧ ordinalOf a = n := by
  unfold attemptOrdinal isAttempt ordinalOf
  rw [except_bind_eq_ok]
  simp only [requiredEvent_eq_ok]
  cases a.event with
  | none => simp
  | some event => cases event <;> simp [pure, Except.pure]

/-- The predecessor check passes where the attempt follows an earlier one. -/
theorem checkPredecessor_eq_ok (hk : KeyedIds l) {u : Unit} :
    checkPredecessor l a = .ok u ↔ Follows l a := by
  unfold checkPredecessor Follows
  split
  · rename_i hordinal hprevious
    simp [hordinal, hprevious]
  · rename_i hordinal hprevious
    simp [hordinal, hprevious]
  · rename_i hprevious hone
    have hone : ordinalOf a ≠ 1 := hone
    simp [hprevious, hone]
  · rename_i previousId hprevious hone
    have hone : ordinalOf a ≠ 1 := hone
    cases hfind : byId l previousId with
    | none =>
      have hno : ∀ p ∈ l, previousId ≠ p.artifactId := by
        intro p hp heq
        have hsome := isSome_byId.mpr ⟨p, hp, heq.symm⟩
        rw [hfind] at hsome
        exact absurd hsome (by simp)
      simp only [hprevious, invalid_ne_ok, hone, false_and, false_or, false_iff]
      rintro ⟨p, hp, heq, -⟩
      exact hno p hp (Option.some.inj heq)
    | some p =>
      obtain ⟨hp, rfl⟩ := (byId_eq_some hk).mp hfind
      simp only [except_bind_eq_ok, attemptOrdinal_eq_ok, demand_eq_ok, decide_eq_true_eq,
        beq_iff_eq, hprevious, hone, false_and, false_or]
      constructor
      · rintro ⟨n, ⟨hattempt, rfl⟩, _, hmax, hnext⟩
        exact ⟨p, hp, rfl, hattempt, hmax, hnext.symm, hone⟩
      · rintro ⟨q, hq, heq, hattempt, hmax, hnext, -⟩
        obtain rfl := hk.eq hp hq (Option.some.inj heq)
        exact ⟨_, ⟨hattempt, rfl⟩, (), hmax, hnext.symm⟩

/-- The loop of `current_attempt` after some ordinals. -/
theorem foldlM_checkAttempt (attempts : List ExperienceArtifact) {seen seen' : List ℕ} :
    l.foldlM (checkAttempt attempts) seen = .ok seen' ↔
      seen' = (l.map ordinalOf).reverse ++ seen ∧ (l.map ordinalOf).Nodup ∧
        (∀ n ∈ l.map ordinalOf, n ∉ seen) ∧
        ∀ a ∈ l, checkPredecessor attempts a = .ok () := by
  apply Fallible.foldlM_distinct
  intro seen a next
  unfold checkAttempt
  simp only [except_bind_eq_ok, demand_eq_ok, Bool.not_eq_true', List.contains_eq_mem,
    decide_eq_false_iff_not]
  constructor
  · rintro ⟨_, hnew, _, hpred, hpure⟩
    exact ⟨(Except.ok.inj hpure).symm, hnew, hpred⟩
  · rintro ⟨rfl, hnew, hpred⟩
    exact ⟨(), hnew, (), hpred, rfl⟩

/-- A part of a list with unique ids has unique ids. -/
theorem KeyedIds.filter (hk : KeyedIds l) (p : ExperienceArtifact → Bool) :
    KeyedIds (l.filter p) :=
  List.Nodup.sublist (List.filter_sublist.map _) hk

/-- Unique ids stay unique in any order. -/
theorem KeyedIds.perm (hk : KeyedIds l) (h : l.Perm l') : KeyedIds l' :=
  (h.map _).nodup_iff.mp hk

/-- `current_attempt` returns when the attempts form a chain. -/
theorem currentAttempt_eq_ok (hk : KeyedIds l) {head : Option ExperienceArtifact} :
    currentAttempt l = .ok head ↔
      AttemptChain (l.filter isAttempt) ∧ head = lastGreatest (l.filter isAttempt) := by
  unfold currentAttempt
  dsimp only
  split
  · rename_i hnil
    rw [List.isEmpty_iff.mp hnil]
    simp only [Except.ok.injEq]
    constructor
    · rintro rfl
      exact ⟨⟨List.nodup_nil, fun a ha => absurd ha List.not_mem_nil⟩, rfl⟩
    · rintro ⟨-, rfl⟩
      rfl
  · simp only [except_bind_eq_ok, foldlM_checkAttempt]
    constructor
    · rintro ⟨seen, ⟨rfl, hnodup, -, hall⟩, hpure⟩
      refine ⟨⟨hnodup, fun a ha => ?_⟩, (Except.ok.inj hpure).symm⟩
      exact (checkPredecessor_eq_ok (hk.filter _)).mp (hall a ha)
    · rintro ⟨⟨hnodup, hfollows⟩, rfl⟩
      refine ⟨_, ⟨rfl, hnodup, fun n _ => List.not_mem_nil, fun a ha => ?_⟩, rfl⟩
      exact (checkPredecessor_eq_ok (hk.filter _)).mpr (hfollows a ha)

/-- An attempt that follows one of a list follows one of a longer list. -/
theorem Follows.mono (h : Follows l a) (hsub : ∀ p ∈ l, p ∈ l') : Follows l' a := by
  rcases h with hfirst | ⟨p, hp, hrest⟩
  · exact .inl hfirst
  · exact .inr ⟨p, hsub p hp, hrest⟩

/-- A chain of attempts is one in any order. -/
theorem AttemptChain.perm (h : AttemptChain l) (hp : l.Perm l') : AttemptChain l' where
  distinct := (hp.map _).nodup_iff.mp h.distinct
  follows a ha := (h.follows a (hp.mem_iff.mpr ha)).mono fun _ => hp.mem_iff.mp

/-- A chain goes down to one from every ordinal in it. -/
theorem AttemptChain.mem_of_le (h : AttemptChain l) {n : ℕ} (hn : n ∈ l.map ordinalOf) :
    ∀ k, 1 ≤ k → k ≤ n → k ∈ l.map ordinalOf := by
  induction n using Nat.strong_induction_on with
  | _ n ih =>
    intro k hk hle
    by_cases heq : k = n
    · exact heq ▸ hn
    obtain ⟨a, ha, rfl⟩ := List.mem_map.mp hn
    -- `a` is not the first, so its predecessor is one below
    rcases h.follows a ha with ⟨hone, -⟩ | ⟨p, hp, -, -, -, hnext, -⟩
    · omega
    · apply ih (ordinalOf p) (by omega) (List.mem_map_of_mem hp) k hk
      omega

/-- Attempts are numbered from one on. -/
theorem AttemptChain.one_le (h : AttemptChain l) {n : ℕ} (hn : n ∈ l.map ordinalOf) : 1 ≤ n := by
  obtain ⟨a, ha, rfl⟩ := List.mem_map.mp hn
  rcases h.follows a ha with ⟨hone, -⟩ | ⟨p, -, -, -, -, hnext, -⟩
  · omega
  · omega

/-- **The ordinals of a chain** are the numbers from one to its length. -/
theorem AttemptChain.ordinals (h : AttemptChain l) (n : ℕ) :
    n ∈ l.map ordinalOf ↔ 1 ≤ n ∧ n ≤ l.length := by
  have hinterval : ∀ m, (∀ k, k ∈ l.map ordinalOf → k ≤ m) → m ∈ l.map ordinalOf ∨ m = 0 →
      l.length = m := by
    intro m hmax hmem
    have hperm : (l.map ordinalOf).Perm (List.range' 1 m) := by
      apply (List.perm_ext_iff_of_nodup h.distinct List.nodup_range').mpr
      intro k
      rw [List.mem_range'_1]
      constructor
      · intro hk
        have hone := h.one_le hk
        have hle := hmax k hk
        omega
      · rintro ⟨hone, hlt⟩
        rcases hmem with hm | rfl
        · exact h.mem_of_le hm k hone (by omega)
        · omega
    have hlen := hperm.length_eq
    rwa [List.length_map, List.length_range'] at hlen
  have hgreatest : ∃ m, (∀ k, k ∈ l.map ordinalOf → k ≤ m) ∧ (m ∈ l.map ordinalOf ∨ m = 0) := by
    cases hmax : (l.map ordinalOf).max? with
    | none =>
      rw [List.max?_eq_none_iff] at hmax
      exact ⟨0, by rw [hmax]; intro k hk; exact absurd hk List.not_mem_nil, .inr rfl⟩
    | some m =>
      obtain ⟨hm, hle⟩ := List.max?_eq_some_iff.mp hmax
      exact ⟨m, hle, .inl hm⟩
  obtain ⟨m, hmax, hmem⟩ := hgreatest
  have hlen := hinterval m hmax hmem
  constructor
  · intro hn
    exact ⟨h.one_le hn, hlen ▸ hmax n hn⟩
  · rintro ⟨hone, hle⟩
    rcases hmem with hm | rfl
    · exact h.mem_of_le hm n hone (by omega)
    · omega

/-! ## References -/

/-- There is an artifact with this id, of a kind. -/
def Holds (l : List ExperienceArtifact) (id : String) (P : ExperienceArtifact → Prop) : Prop :=
  ∃ a ∈ l, a.artifactId = id ∧ P a

/-- What holds of a named artifact holds in a longer list, in a weaker form. -/
theorem Holds.mono {P Q : ExperienceArtifact → Prop} (h : Holds l id P) (hsub : ∀ a ∈ l, a ∈ l')
    (himp : ∀ a, P a → Q a) : Holds l' id Q := by
  obtain ⟨a, ha, hid, hP⟩ := h
  exact ⟨a, hsub a ha, hid, himp a hP⟩

/-- What a lesson refers to: its problem, a check that supports it, lessons it conflicts with. -/
structure LessonRefs (l : List ExperienceArtifact) (lesson : ConditionalLesson) : Prop where
  wellFormed : validateEmbeddedLesson lesson = .ok ()
  problem : Holds l lesson.problemId fun _ => True
  check : Holds l lesson.supportingCheckId fun c =>
    c.isCheck = true ∧ validateLessonEvidence c lesson = .ok ()
  conflicts : ∀ id ∈ lesson.conflictsWith, Holds l id fun c => c.lesson?.isSome = true

/-- What an artifact refers to. -/
def RefsHold (l : List ExperienceArtifact) (a : ExperienceArtifact) : Prop :=
  match a.event with
  | none => False
  | some (.problem ..) => True
  | some (.attempt problemId previous _ _) =>
    (Holds l problemId fun _ => True) ∧ ∀ id ∈ previous, Holds l id fun _ => True
  | some (.check receipt) =>
    validateReceipt receipt = .ok () ∧ Holds l receipt.attemptId fun c => c.isAttempt = true
  | some (.observedCheck check) =>
    validateObservedCheck check = .ok () ∧ Holds l check.attemptId fun c => c.isAttempt = true
  | some (.lesson lesson) => LessonRefs l lesson
  | some (.correction _ supersedesId replacement) =>
    LessonRefs l replacement ∧ Holds l supersedesId fun c =>
      c.lesson?.isSome = true ∧ c.eventTime ≤ a.eventTime

/-- A lesson's references stay good when artifacts are added. -/
theorem LessonRefs.mono {lesson : ConditionalLesson} (h : LessonRefs l lesson)
    (hsub : ∀ a ∈ l, a ∈ l') : LessonRefs l' lesson where
  wellFormed := h.wellFormed
  problem := h.problem.mono hsub fun _ hc => hc
  check := h.check.mono hsub fun _ hc => hc
  conflicts id hid := (h.conflicts id hid).mono hsub fun _ hc => hc

/-- An artifact's references stay good when artifacts are added. -/
theorem RefsHold.mono (h : RefsHold l a) (hsub : ∀ a ∈ l, a ∈ l') : RefsHold l' a := by
  unfold RefsHold at h ⊢
  split at h
  · exact h.elim
  · trivial
  · exact ⟨h.1.mono hsub fun _ hc => hc, fun p hp => (h.2 p hp).mono hsub fun _ hc => hc⟩
  · exact ⟨h.1, h.2.mono hsub fun _ hc => hc⟩
  · exact ⟨h.1, h.2.mono hsub fun _ hc => hc⟩
  · exact h.mono hsub
  · exact ⟨h.1.mono hsub, h.2.mono hsub fun _ hc => hc⟩

/-- A reference that is found, and then passes a check that reads only the target. -/
theorem ensureRef_bind_eq_ok (hk : KeyedIds l) {kind : String} {u : Unit}
    {f : ExperienceArtifact → Except MemdError Unit} :
    (ensureRef l id kind a >>= f) = .ok u ↔ Holds l id fun c => f c = .ok () := by
  rw [except_bind_eq_ok]
  have hfound : ∀ c, ensureRef l id kind a = .ok c ↔ c ∈ l ∧ c.artifactId = id := by
    intro c
    rw [← byId_eq_some hk]
    unfold ensureRef
    cases byId l id with
    | none => simp
    | some b => simp
  constructor
  · rintro ⟨c, hc, hf⟩
    exact ⟨c, ((hfound c).mp hc).1, ((hfound c).mp hc).2, hf⟩
  · rintro ⟨c, hc, hid, hf⟩
    exact ⟨c, (hfound c).mpr ⟨hc, hid⟩, hf⟩

/-- The check for a lesson passes where there is one. -/
theorem requireLesson_eq_ok {message : String} {u : Unit} :
    requireLesson a message = .ok u ↔ a.lesson?.isSome = true := by
  unfold requireLesson lesson?
  rw [except_bind_eq_ok]
  simp only [requiredEvent_eq_ok, demand_eq_ok]
  cases a.event <;> simp

/-- Retelling an error changes no success. -/
theorem onError_eq_ok {α : Type} {tell : MemdError → String} {r : Except MemdError α} {x : α} :
    onError tell r = .ok x ↔ r = .ok x := by
  cases r <;> simp [onError]

/-- An attempt carries an event. -/
theorem isAttempt_event (h : a.isAttempt = true) : ∃ event, a.event = some event := by
  unfold isAttempt at h
  cases hevent : a.event with
  | none => simp [hevent] at h
  | some event => exact ⟨event, rfl⟩

/-- A check carries an event. -/
theorem isCheck_event (h : a.isCheck = true) : ∃ event, a.event = some event := by
  unfold isCheck at h
  cases hevent : a.event with
  | none => simp [hevent] at h
  | some event => exact ⟨event, rfl⟩

/-- A check's target is accepted where it is an attempt of the case. -/
theorem validateCheckTargetRef_eq_ok (hk : KeyedIds l) {u : Unit} :
    validateCheckTargetRef l a id = .ok u ↔ Holds l id fun c => c.isAttempt = true := by
  unfold validateCheckTargetRef
  rw [ensureRef_bind_eq_ok hk]
  simp only [except_bind_eq_ok, requiredEvent_eq_ok, demand_eq_ok]
  constructor
  · refine fun h => h.mono (fun _ hc => hc) ?_
    rintro c ⟨_, -, hattempt⟩
    exact hattempt
  · refine fun h => h.mono (fun _ hc => hc) fun c hattempt => ?_
    obtain ⟨event, hevent⟩ := isAttempt_event hattempt
    exact ⟨event, hevent, hattempt⟩

/-- A lesson's references are accepted where each names what it must. -/
theorem validateLessonRefs_eq_ok (hk : KeyedIds l) {lesson : ConditionalLesson} {u : Unit} :
    (validateEmbeddedLesson lesson >>= fun _ => validateLessonRefs l a lesson) = .ok u ↔
      LessonRefs l lesson := by
  have hbody : validateLessonRefs l a lesson = .ok () ↔
      (Holds l lesson.problemId fun _ => True) ∧
      (Holds l lesson.supportingCheckId fun c =>
        c.isCheck = true ∧ validateLessonEvidence c lesson = .ok ()) ∧
      ∀ id ∈ lesson.conflictsWith, Holds l id fun c => c.lesson?.isSome = true := by
    unfold validateLessonRefs
    rw [ensureRef_bind_eq_ok hk]
    have hconflicts : (lesson.conflictsWith.forM fun conflict => do
          let target ← ensureRef l conflict "conflicting lesson" a
          requireLesson target s!"lesson '{a.artifactId}' conflicts with a non-lesson artifact") =
        Except.ok () ↔
        ∀ id ∈ lesson.conflictsWith, Holds l id fun c => c.lesson?.isSome = true := by
      rw [Fallible.forM_eq_ok]
      refine forall₂_congr fun id _ => ?_
      rw [ensureRef_bind_eq_ok hk]
      simp only [requireLesson_eq_ok]
    constructor
    · rintro ⟨p, hp, hpid, hrest⟩
      obtain ⟨c, hc, hcid, hrest⟩ := (ensureRef_bind_eq_ok hk).mp hrest
      simp only [except_bind_eq_ok, requiredEvent_eq_ok, demand_eq_ok, onError_eq_ok] at hrest
      obtain ⟨_, _, _, hcheck, _, hevidence, hloop⟩ := hrest
      exact ⟨⟨p, hp, hpid, trivial⟩, ⟨c, hc, hcid, hcheck, hevidence⟩, hconflicts.mp hloop⟩
    · rintro ⟨⟨p, hp, hpid, -⟩, ⟨c, hc, hcid, hcheck, hevidence⟩, hloop⟩
      refine ⟨p, hp, hpid, (ensureRef_bind_eq_ok hk).mpr ⟨c, hc, hcid, ?_⟩⟩
      obtain ⟨event, hevent⟩ := isCheck_event hcheck
      simp only [except_bind_eq_ok, requiredEvent_eq_ok, demand_eq_ok, onError_eq_ok]
      exact ⟨event, hevent, (), hcheck, (), hevidence, hconflicts.mpr hloop⟩
  rw [except_bind_eq_ok]
  constructor
  · rintro ⟨_, hwell, h⟩
    obtain ⟨hproblem, hcheck, hloop⟩ := hbody.mp h
    exact ⟨hwell, hproblem, hcheck, hloop⟩
  · rintro ⟨hwell, hproblem, hcheck, hloop⟩
    exact ⟨(), hwell, hbody.mpr ⟨hproblem, hcheck, hloop⟩⟩

/-- The references of an artifact are accepted exactly where they hold. -/
theorem checkRefs_eq_ok (hk : KeyedIds l) : checkRefs l a = .ok () ↔ RefsHold l a := by
  unfold checkRefs RefsHold
  rw [except_bind_eq_ok]
  simp only [requiredEvent_eq_ok]
  cases hevent : a.event with
  | none => simp
  | some event =>
    simp only [Option.some.injEq, exists_eq_left']
    cases event with
    | problem description terms => simp
    -- an attempt refers to its problem, and to its predecessor if it has one
    | attempt problemId previous ordinal action =>
      dsimp only
      rw [ensureRef_bind_eq_ok hk]
      cases previous with
      | none =>
        simp only [Option.not_mem_none, IsEmpty.forall_iff, implies_true, and_true]
      | some p =>
        simp only [ensureRef_bind_eq_ok hk, Option.mem_some_iff, forall_eq']
        constructor
        · rintro ⟨c, hc, hid, hprevious⟩
          exact ⟨⟨c, hc, hid, trivial⟩, hprevious⟩
        · rintro ⟨⟨c, hc, hid, -⟩, hprevious⟩
          exact ⟨c, hc, hid, hprevious⟩
    -- a check refers to an attempt, and so does an observed one
    | check receipt =>
      dsimp only
      simp only [except_bind_eq_ok, validateCheckTargetRef_eq_ok hk]
      constructor
      · rintro ⟨_, hreceipt, href⟩
        exact ⟨hreceipt, href⟩
      · rintro ⟨hreceipt, href⟩
        exact ⟨(), hreceipt, href⟩
    | observedCheck check =>
      dsimp only
      simp only [except_bind_eq_ok, validateCheckTargetRef_eq_ok hk]
      constructor
      · rintro ⟨_, hcheck, href⟩
        exact ⟨hcheck, href⟩
      · rintro ⟨hcheck, href⟩
        exact ⟨(), hcheck, href⟩
    | lesson lesson => exact validateLessonRefs_eq_ok hk
    -- a correction refers to what a lesson refers to, and to the lesson it replaces
    | correction problemId supersedesId replacement =>
      dsimp only
      have htarget : ∀ c : ExperienceArtifact, (do
            requireLesson c s!"correction '{a.artifactId}' supersedes a non-lesson artifact"
            demand (decide (c.eventTime ≤ a.eventTime))
              s!"correction '{a.artifactId}' predates its superseded lesson") = Except.ok () ↔
          c.lesson?.isSome = true ∧ c.eventTime ≤ a.eventTime := by
        intro c
        simp only [except_bind_eq_ok, requireLesson_eq_ok, demand_eq_ok, decide_eq_true_eq]
        constructor
        · rintro ⟨_, hlesson, htime⟩
          exact ⟨hlesson, htime⟩
        · rintro ⟨hlesson, htime⟩
          exact ⟨(), hlesson, htime⟩
      constructor
      · intro h
        obtain ⟨_, hwell, h⟩ := except_bind_eq_ok.mp h
        obtain ⟨_, hrefs, h⟩ := except_bind_eq_ok.mp h
        refine ⟨(validateLessonRefs_eq_ok hk).mp (except_bind_eq_ok.mpr ⟨_, hwell, hrefs⟩), ?_⟩
        simpa only [htarget] using (ensureRef_bind_eq_ok hk).mp h
      · rintro ⟨hrefs, hsupersedes⟩
        obtain ⟨_, hwell, hrefs⟩ := except_bind_eq_ok.mp
          ((validateLessonRefs_eq_ok hk (u := ())).mpr hrefs)
        refine except_bind_eq_ok.mpr ⟨_, hwell, except_bind_eq_ok.mpr ⟨_, hrefs, ?_⟩⟩
        apply (ensureRef_bind_eq_ok hk).mpr
        simpa only [htarget] using hsupersedes

/-! ## Cases -/

/-- An artifact of the scope of a problem, in the shape of its payload. -/
structure InScope (problem a : ExperienceArtifact) : Prop where
  taskId : a.taskId = problem.taskId
  tenantId : a.tenantId = problem.tenantId
  projectId : a.projectId = problem.projectId
  shape : ∃ event, Enveloped a event ∧ ∀ id ∈ problemIdOf event, id = problem.artifactId

/-- The scope check passes exactly for an artifact in the problem's scope. -/
theorem checkScope_eq_ok {problem : ExperienceArtifact} :
    checkScope problem a = .ok () ↔ InScope problem a := by
  unfold checkScope
  simp only [except_bind_eq_ok, demand_eq_ok, Bool.and_eq_true, beq_iff_eq,
    validateArtifactShape_eq_ok, requiredEvent_eq_ok, Option.all_eq_true]
  constructor
  · rintro ⟨_, ⟨⟨htask, htenant⟩, hproject⟩, _, ⟨event, henv⟩, event', hevent', hproblem⟩
    obtain rfl : event = event' := Option.some.inj (henv.event_eq.symm.trans hevent')
    exact ⟨htask, htenant, hproject, event, henv, hproblem⟩
  · rintro ⟨htask, htenant, hproject, event, henv, hproblem⟩
    exact ⟨(), ⟨⟨htask, htenant⟩, hproject⟩, (), ⟨event, henv⟩, event, henv.event_eq, hproblem⟩

/-- The law of a case. -/
structure CaseLaw (l : List ExperienceArtifact) : Prop where
  problem : ∃ p, l.filter isProblem = [p] ∧ ∀ a ∈ l, InScope p a
  attempts : AttemptChain (l.filter isAttempt)
  refs : ∀ a ∈ l, RefsHold l a

/-- What a lesson of a lawful case refers to. -/
theorem CaseLaw.lessonRefs (h : CaseLaw l) (ha : a ∈ l) {lesson : ConditionalLesson}
    (hlesson : a.lesson? = some lesson) : LessonRefs l lesson := by
  have hrefs := h.refs a ha
  unfold lesson? at hlesson
  cases hevent : a.event with
  | none =>
    rw [hevent] at hlesson
    exact absurd hlesson (by simp)
  | some event =>
    unfold RefsHold at hrefs
    rw [hevent] at hlesson hrefs
    cases event with
    | lesson learned =>
      obtain rfl : learned = lesson := Option.some.inj hlesson
      exact hrefs
    | correction problemId supersedesId replacement =>
      obtain rfl : replacement = lesson := Option.some.inj hlesson
      exact hrefs.1
    | _ => exact absurd hlesson (by simp [lessonFromEvent])

/-- **The check of a case** is the law. -/
theorem validateCase_eq_ok_iff (hk : KeyedIds l) : validateCase l = .ok () ↔ CaseLaw l := by
  have hbody : ∀ p, (do
        l.forM (checkScope p)
        let _ ← currentAttempt l
        l.forM (checkRefs l)) = Except.ok () ↔
      (∀ a ∈ l, InScope p a) ∧ AttemptChain (l.filter isAttempt) ∧ ∀ a ∈ l, RefsHold l a := by
    intro p
    simp only [except_bind_eq_ok, Fallible.forM_eq_ok, checkScope_eq_ok, checkRefs_eq_ok hk,
      currentAttempt_eq_ok hk]
    constructor
    · rintro ⟨_, hscope, _, ⟨hchain, -⟩, hrefs⟩
      exact ⟨hscope, hchain, hrefs⟩
    · rintro ⟨hscope, hchain, hrefs⟩
      exact ⟨(), hscope, _, ⟨hchain, rfl⟩, hrefs⟩
  unfold validateCase
  split
  · rename_i p hproblem
    rw [hbody]
    constructor
    · rintro ⟨hscope, hchain, hrefs⟩
      exact ⟨⟨p, hproblem, hscope⟩, hchain, hrefs⟩
    · rintro ⟨⟨q, hq, hscope⟩, hchain, hrefs⟩
      obtain rfl : p = q := List.singleton_inj.mp (hproblem.symm.trans hq)
      exact ⟨hscope, hchain, hrefs⟩
  · rename_i hnone
    simp only [invalid_ne_ok, false_iff]
    rintro ⟨⟨p, hp, -⟩, -, -⟩
    exact hnone p hp

/-- The law of a case does not depend on the order of its artifacts. -/
theorem CaseLaw.perm (h : CaseLaw l) (hp : l.Perm l') : CaseLaw l' where
  problem := by
    obtain ⟨p, hone, hscope⟩ := h.problem
    refine ⟨p, ?_, fun a ha => hscope a (hp.mem_iff.mpr ha)⟩
    exact List.perm_singleton.mp ((hp.symm.filter _).trans (by rw [hone]))
  attempts := h.attempts.perm (hp.filter _)
  refs a ha := (h.refs a (hp.mem_iff.mpr ha)).mono fun _ => hp.mem_iff.mp

/-! ## Appending an artifact -/

/-- No attempts form a chain. -/
theorem AttemptChain.nil : AttemptChain [] :=
  ⟨List.nodup_nil, fun _ ha => absurd ha List.not_mem_nil⟩

/-- A new first attempt, or one that follows the last. -/
theorem AttemptChain.snoc (h : AttemptChain l)
    (ha : lastGreatest l = none ∧ ordinalOf a = 1 ∧ previousOf a = none ∨
      ∃ head, lastGreatest l = some head ∧ head.isAttempt = true ∧
        previousOf a = some head.artifactId ∧ ordinalOf head < u32Max ∧
        ordinalOf a = ordinalOf head + 1) : AttemptChain (l ++ [a]) := by
  rcases ha with ⟨hnone, hone, hprevious⟩ | ⟨head, hhead, hattempt, hprevious, hmax, hnext⟩
  · rw [Selection.maxByKey_eq_none.mp hnone, List.nil_append]
    refine ⟨List.nodup_singleton _, fun b hb => ?_⟩
    obtain rfl := List.mem_singleton.mp hb
    exact .inl ⟨hone, hprevious⟩
  · obtain ⟨hmem, hle⟩ := Selection.maxByKey_eq_some hhead
    have hpos := h.one_le (List.mem_map_of_mem hmem)
    refine ⟨?_, fun b hb => ?_⟩
    · rw [List.map_append, List.map_singleton, List.nodup_append]
      refine ⟨h.distinct, List.nodup_singleton _, ?_⟩
      intro n hn m hm heq
      obtain ⟨b, hb, rfl⟩ := List.mem_map.mp hn
      obtain rfl := List.mem_singleton.mp hm
      have hbound := hle b hb
      omega
    · rcases List.mem_append.mp hb with hb | hb
      · exact (h.follows b hb).mono fun _ hp => List.mem_append_left _ hp
      · obtain rfl := List.mem_singleton.mp hb
        exact .inr ⟨head, List.mem_append_left _ hmem, hprevious, hattempt, hmax, hnext, by omega⟩

/-- A lawful case stays lawful when an artifact is appended that is none of its problem, is of its
scope, keeps the chain of the attempts and refers to artifacts of the case. -/
theorem CaseLaw.snoc (h : CaseLaw l) {p : ExperienceArtifact} (hp : p ∈ l)
    (hproblem : p.isProblem = true) (hscope : InScope p a) (hnot : a.isProblem = false)
    (hattempts : AttemptChain ((l ++ [a]).filter isAttempt)) (hrefs : RefsHold l a) :
    CaseLaw (l ++ [a]) where
  problem := by
    obtain ⟨q, hone, hall⟩ := h.problem
    have hq : p = q := by
      have hmem : p ∈ l.filter isProblem := List.mem_filter.mpr ⟨hp, hproblem⟩
      rw [hone] at hmem
      exact List.mem_singleton.mp hmem
    subst hq
    refine ⟨p, ?_, fun b hb => ?_⟩
    · rw [List.filter_append, hone, List.filter_cons_of_neg (by simp [hnot]), List.filter_nil,
        List.append_nil]
    · rcases List.mem_append.mp hb with hb | hb
      · exact hall b hb
      · obtain rfl := List.mem_singleton.mp hb
        exact hscope
  attempts := hattempts
  refs b hb := by
    rcases List.mem_append.mp hb with hb | hb
    · exact (h.refs b hb).mono fun _ hc => List.mem_append_left _ hc
    · obtain rfl := List.mem_singleton.mp hb
      exact hrefs.mono fun _ hc => List.mem_append_left _ hc

end Experience
