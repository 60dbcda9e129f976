/-
# Importing experience bundles

What an import does to a journal (`import_bundle`): what its checks ask for, and what is in the
store after it.

* `checkBundle_eq_ok` — the checks as one statement;
* `importBundle_eq_ok` — once the checks pass no write is refused;
* `Journal.importBundle` — a journal stays one.
-/
import Memd.ExperienceBundle

open Proc (except_bind_eq_ok)

namespace Experience

open ExperienceArtifact

variable {s s' s₁ : ExperienceStore} {l l' : List ExperienceArtifact}
  {a b p root : ExperienceArtifact} {t : TenantId} {taskId id : String}
  {bundle : ExperienceBundleV1} {replayed : List String} {ordered : List ExperienceArtifact}
  {projections : String → List ChunkId}

/-! ## The checks -/

/-- In a keyed journal a lookup by id finds the artifact of that id. -/
theorem getTaskArtifactGlobal_eq_some (hk : KeyedIds s.artifacts) :
    s.getTaskArtifactGlobal id = some a ↔ a ∈ s.artifacts ∧ a.artifactId = id := by
  unfold ExperienceStore.getTaskArtifactGlobal
  constructor
  · intro hfind
    exact ⟨List.mem_of_find?_eq_some hfind, by simpa using List.find?_some hfind⟩
  · rintro ⟨ha, rfl⟩
    cases hfind : s.artifacts.find? (·.artifactId == a.artifactId) with
    | none =>
      have hno := List.find?_eq_none.mp hfind a ha
      simp at hno
    | some b =>
      have hid : b.artifactId = a.artifactId := by simpa using List.find?_some hfind
      rw [hk.eq (List.mem_of_find?_eq_some hfind) ha hid]

/-- The check of a bundle's own artifacts passes where ids are unique and the tenant is the
bundle's. -/
theorem uniqueBundleArtifacts_eq_ok {u : Unit} : uniqueBundleArtifacts bundle = .ok u ↔
    KeyedIds bundle.artifacts ∧
      ∀ a ∈ bundle.artifacts, a.tenantId = bundle.tenantId ∧ ∃ event, Enveloped a event := by
  unfold uniqueBundleArtifacts
  have hturn : ∀ seen a next, uniqueBundleArtifact bundle.tenantId seen a = .ok next ↔
      next = a.artifactId :: seen ∧ a.artifactId ∉ seen ∧
        (a.tenantId = bundle.tenantId ∧ ∃ event, Enveloped a event) := by
    intro seen a next
    unfold uniqueBundleArtifact
    simp only [except_bind_eq_ok, demand_eq_ok, beq_iff_eq, validateArtifactShape_eq_ok,
      Bool.not_eq_true', List.contains_eq_mem, decide_eq_false_iff_not]
    constructor
    · rintro ⟨_, htenant, _, hshape, _, hnew, hpure⟩
      exact ⟨(Except.ok.inj hpure).symm, hnew, htenant, hshape⟩
    · rintro ⟨rfl, hnew, htenant, hshape⟩
      exact ⟨(), htenant, (), hshape, (), hnew, rfl⟩
  simp only [except_bind_eq_ok, Fallible.foldlM_distinct hturn]
  constructor
  · rintro ⟨_, ⟨-, hnodup, -, hall⟩, -⟩
    exact ⟨hnodup, hall⟩
  · rintro ⟨hnodup, hall⟩
    exact ⟨_, ⟨rfl, hnodup, fun _ _ => List.not_mem_nil, hall⟩, rfl⟩

/-- The check for collisions passes where stored artifacts of the same id are equal. -/
theorem checkGlobalArtifactCollisions_eq_ok (hk : KeyedIds s.artifacts) :
    s.checkGlobalArtifactCollisions l = .ok replayed ↔
      (∀ a ∈ l, ∀ b ∈ s.artifacts, b.artifactId = a.artifactId → b = a) ∧
        replayed = (l.filter (· ∈ s.artifacts)).map (·.artifactId) := by
  have hloop : ∀ before, l.foldlM s.checkGlobalArtifactCollision before = .ok replayed ↔
      (∀ a ∈ l, ∀ b ∈ s.artifacts, b.artifactId = a.artifactId → b = a) ∧
        replayed = before ++ (l.filter (· ∈ s.artifacts)).map (·.artifactId) := by
    induction l with
    | nil =>
      intro before
      show Except.ok before = .ok replayed ↔ _
      simp [eq_comm]
    | cons x l ih =>
      intro before
      have hturn : ∀ next, s.checkGlobalArtifactCollision before x = .ok next ↔
          (∀ b ∈ s.artifacts, b.artifactId = x.artifactId → b = x) ∧
            next = before ++ if x ∈ s.artifacts then [x.artifactId] else [] := by
        intro next
        unfold ExperienceStore.checkGlobalArtifactCollision
        cases hfind : s.getTaskArtifactGlobal x.artifactId with
        | none =>
          have hno : ∀ b ∈ s.artifacts, b.artifactId ≠ x.artifactId := by
            intro b hb
            simpa using List.find?_eq_none.mp hfind b hb
          have hx : x ∉ s.artifacts := fun hx => hno x hx rfl
          simp only [Except.ok.injEq, if_neg hx, List.append_nil]
          exact ⟨fun h => ⟨fun b hb hid => absurd hid (hno b hb), h.symm⟩, fun h => h.2.symm⟩
        | some b =>
          obtain ⟨hb, hid⟩ := (getTaskArtifactGlobal_eq_some hk).mp hfind
          simp only [except_bind_eq_ok, demand_eq_ok, Bool.and_eq_true, beq_iff_eq]
          constructor
          · rintro ⟨_, ⟨-, rfl⟩, hpure⟩
            refine ⟨fun c hc hcid => hk.eq hc hb hcid, ?_⟩
            rw [if_pos hb]
            exact (Except.ok.inj hpure).symm
          · rintro ⟨hsame, rfl⟩
            obtain rfl := hsame b hb hid
            rw [if_pos hb]
            exact ⟨(), ⟨rfl, rfl⟩, rfl⟩
      rw [List.foldlM_cons, except_bind_eq_ok]
      simp only [hturn, ih, List.forall_mem_cons]
      have hsplit : (if x ∈ s.artifacts then [x.artifactId] else []) ++
          (l.filter (· ∈ s.artifacts)).map (·.artifactId) =
            ((x :: l).filter (· ∈ s.artifacts)).map (·.artifactId) := by
        by_cases hx : x ∈ s.artifacts
        · simp [hx]
        · simp [hx]
      constructor
      · rintro ⟨_, ⟨hx, rfl⟩, hl, rfl⟩
        exact ⟨⟨hx, hl⟩, by rw [List.append_assoc, hsplit]⟩
      · rintro ⟨⟨hx, hl⟩, rfl⟩
        exact ⟨_, ⟨hx, rfl⟩, hl, by rw [List.append_assoc, hsplit]⟩
  unfold ExperienceStore.checkGlobalArtifactCollisions
  simpa using hloop []

/-- The check of the tasks passes where no task belongs to another tenant. -/
theorem checkGlobalTaskCollisions_eq_ok {u : Unit} : s.checkGlobalTaskCollisions t l = .ok u ↔
    ∀ a ∈ l, ∀ tenant ∈ s.getTaskGlobal a.taskId, tenant = t := by
  unfold ExperienceStore.checkGlobalTaskCollisions
  rw [Fallible.forM_eq_ok]
  simp only [List.mem_dedup, List.forall_mem_map]
  refine forall₂_congr fun a _ => ?_
  cases s.getTaskGlobal a.taskId <;> simp

/-- The artifacts of a bundle that the store does not have. -/
def pendingOf (s : ExperienceStore) (bundle : ExperienceBundleV1) : List ExperienceArtifact :=
  bundle.artifacts.filter (· ∉ s.artifacts)

/-- What the checks of an import ask for. -/
structure Checked (s : ExperienceStore) (t : TenantId) (bundle : ExperienceBundleV1) : Prop where
  header : bundle.format = bundleFormat ∧ bundle.version = bundleVersion ∧ bundle.tenantId = t
  nonempty : bundle.artifacts ≠ []
  keyed : KeyedIds bundle.artifacts
  shape : ∀ a ∈ bundle.artifacts, a.tenantId = t ∧ ∃ event, Enveloped a event
  collisions : ∀ a ∈ bundle.artifacts, ∀ b ∈ s.artifacts, b.artifactId = a.artifactId → b = a
  tasks : ∀ a ∈ bundle.artifacts, ∀ tenant ∈ s.getTaskGlobal a.taskId, tenant = t

/-- The ids of the artifacts of a bundle that the store has. -/
def replayedOf (s : ExperienceStore) (bundle : ExperienceBundleV1) : List String :=
  (bundle.artifacts.filter (· ∈ s.artifacts)).map (·.artifactId)

/-- An artifact of the bundle is replayed where it is stored already. -/
theorem contains_replayedOf (hk : KeyedIds bundle.artifacts) (ha : a ∈ bundle.artifacts) :
    (replayedOf s bundle).contains a.artifactId = decide (a ∈ s.artifacts) := by
  rw [List.contains_eq_mem, replayedOf, Bool.eq_iff_iff, decide_eq_true_eq, decide_eq_true_eq,
    List.mem_map]
  constructor
  · rintro ⟨b, hb, hid⟩
    obtain ⟨hmem, hs⟩ := List.mem_filter.mp hb
    rw [hk.eq ha hmem hid.symm]
    simpa using hs
  · intro hs
    exact ⟨a, List.mem_filter.mpr ⟨ha, by simpa using hs⟩, rfl⟩

/-- The artifacts that are not replayed are those not yet stored. -/
theorem filter_replayedOf (hk : KeyedIds bundle.artifacts) (q : ExperienceArtifact → Bool) :
    (bundle.artifacts.filter q).filter (fun a => !(replayedOf s bundle).contains a.artifactId) =
      (pendingOf s bundle).filter q := by
  rw [pendingOf, List.filter_filter, List.filter_filter]
  apply List.filter_congr
  intro a ha
  rw [contains_replayedOf hk ha, Bool.and_comm]
  simp

/-- **The checks of an import.** -/
theorem checkBundle_eq_ok (hk : KeyedIds s.artifacts) :
    s.checkBundle t bundle = .ok (replayed, ordered) ↔ Checked s t bundle ∧
      replayed = replayedOf s bundle ∧
      (∀ a ∈ bundle.artifacts,
        s.validateCombinedCase t bundle.artifacts (replayedOf s bundle) a.taskId = .ok ()) ∧
      topologicalOrder (pendingOf s bundle) = .ok ordered := by
  have hpending : ∀ h : KeyedIds bundle.artifacts,
      bundle.artifacts.filter (fun a => !(replayedOf s bundle).contains a.artifactId) =
        pendingOf s bundle := by
    intro h
    have := filter_replayedOf (s := s) h fun _ => true
    simpa using this
  unfold ExperienceStore.checkBundle validateBundleHeader ExperienceStore.validateCombinedCases
  simp only [except_bind_eq_ok, demand_eq_ok, Bool.and_eq_true, beq_iff_eq, Bool.not_eq_true',
    List.isEmpty_eq_false_iff, uniqueBundleArtifacts_eq_ok,
    checkGlobalArtifactCollisions_eq_ok hk, checkGlobalTaskCollisions_eq_ok, Fallible.forM_eq_ok,
    List.mem_dedup, List.forall_mem_map]
  constructor
  · rintro ⟨_, ⟨_, ⟨hformat, hversion⟩, _, htenant, hne⟩, _, ⟨hkeyed, hshape⟩, _, ⟨hcol, rfl⟩, _,
      htasks, _, hcases, order, horder, hpure⟩
    obtain ⟨rfl, rfl⟩ := Prod.mk.inj (Except.ok.inj hpure)
    refine ⟨⟨⟨hformat, hversion, htenant⟩, hne, hkeyed, htenant ▸ hshape, hcol, htasks⟩, rfl,
      hcases, ?_⟩
    rw [← hpending hkeyed]
    exact horder
  · rintro ⟨hc, rfl, hcases, horder⟩
    obtain ⟨hformat, hversion, htenant⟩ := hc.header
    refine ⟨(), ⟨(), ⟨hformat, hversion⟩, (), htenant, hc.nonempty⟩, (),
      ⟨hc.keyed, htenant.symm ▸ hc.shape⟩, _, ⟨hc.collisions, rfl⟩, (), hc.tasks, (), hcases,
      ordered, ?_, rfl⟩
    rw [← replayedOf, hpending hc.keyed]
    exact horder

/-! ## The writes -/

/-- A task's tenant is the one it had, or the one of the artifact written. -/
theorem getTaskGlobal_insertArtifact {ids : List ChunkId} {tenant : TenantId}
    (h : tenant ∈ (s.insertArtifact a ids).getTaskGlobal taskId) :
    tenant ∈ s.getTaskGlobal taskId ∨ tenant = a.tenantId := by
  unfold ExperienceStore.getTaskGlobal ExperienceStore.insertArtifact at h
  dsimp only at h
  by_cases hkind : a.artifactKind ≠ .digest
  · rw [if_pos hkind] at h
    unfold Db.upsertTask at h
    split_ifs at h with hany
    · -- an upsert keeps the tenant of a row
      left
      rw [Table.updateWhere, List.find?_map, Option.mem_def, Option.map_map,
        Option.map_eq_some_iff] at h
      obtain ⟨r, hr, hrow⟩ := h
      have htask : ∀ r : TaskRow, (if r.taskId == (Db.taskRowOf a.toTaskArtifact).taskId
          then Db.mergeTask r (Db.taskRowOf a.toTaskArtifact) else r).taskId = r.taskId ∧
          (if r.taskId == (Db.taskRowOf a.toTaskArtifact).taskId
            then Db.mergeTask r (Db.taskRowOf a.toTaskArtifact) else r).tenantId = r.tenantId := by
        intro r
        split_ifs <;> exact ⟨rfl, rfl⟩
      have hfind : s.tasks.find? (·.taskId == taskId) = some r := by
        rw [← hr]
        congr 1
        funext r
        show (r.taskId == taskId) = _
        rw [← (htask r).1]
        rfl
      unfold ExperienceStore.getTaskGlobal
      rw [hfind, Option.mem_def, Option.map_some, ← hrow]
      exact congrArg some (htask r).2.symm
    · rw [List.find?_append, Option.mem_def, Option.map_eq_some_iff] at h
      obtain ⟨r, hr, rfl⟩ := h
      rw [Option.or_eq_some_iff] at hr
      rcases hr with hr | ⟨-, hr⟩
      · left
        unfold ExperienceStore.getTaskGlobal
        rw [hr]
        rfl
      · right
        obtain rfl := List.mem_singleton.mp (List.mem_of_find?_eq_some hr)
        rfl
  · rw [if_neg hkind] at h
    exact .inl h

/-- A new artifact of a tenant that may write its task is not refused. -/
theorem addTaskArtifact_eq (ids : List ChunkId)
    (hfresh : ∀ b ∈ s.artifacts, b.artifactId ≠ a.artifactId)
    (htask : ∀ tenant ∈ s.getTaskGlobal a.taskId, tenant = a.tenantId) :
    s.addTaskArtifact a ids = .ok (s.insertArtifact a ids) ∧
      (s.insertArtifact a ids).artifacts = s.artifacts ++ [a] := by
  have hnone : s.getTaskArtifactGlobal a.artifactId = none := by
    apply List.find?_eq_none.mpr
    intro b hb
    simpa using hfresh b hb
  have hcross : Db.rejectCrossTenantTaskWrite (s.getTaskGlobal a.taskId) a.toTaskArtifact =
      .ok () := by
    unfold Db.rejectCrossTenantTaskWrite
    rw [if_neg]
    simpa [Option.any_eq_true] using fun tenant h => htask tenant h
  constructor
  · unfold ExperienceStore.addTaskArtifact ExperienceStore.ensureTaskArtifactWriteSafe
    rw [hnone, hcross]
    by_cases hkind : a.artifactKind = .digest
    · rw [if_neg (not_not.mpr hkind)]
      rfl
    · rw [if_pos hkind]
      rfl
  · rw [insertArtifact_artifacts, Table.insertOrReplace, List.filter_eq_self.mpr]
    intro b hb
    simpa using hfresh b hb

/-- **No write of new artifacts is refused.** -/
theorem exists_writeAll (hk : KeyedIds l)
    (hfresh : ∀ a ∈ l, ∀ b ∈ s.artifacts, b.artifactId ≠ a.artifactId)
    (htenant : ∀ a ∈ l, a.tenantId = t)
    (htasks : ∀ a ∈ l, ∀ tenant ∈ s.getTaskGlobal a.taskId, tenant = t) :
    ∃ s', s.writeAll projections l = .ok s' ∧ s'.artifacts = s.artifacts ++ l ∧
      ∀ taskId, ∀ tenant ∈ s'.getTaskGlobal taskId, tenant ∈ s.getTaskGlobal taskId ∨
        tenant = t := by
  induction l generalizing s with
  | nil => exact ⟨s, rfl, (List.append_nil _).symm, fun _ _ h => .inl h⟩
  | cons a l ih =>
    rw [List.forall_mem_cons] at hfresh htenant htasks
    obtain ⟨hnodup, hkl⟩ := List.nodup_cons.mp hk
    obtain ⟨hadd, hartifacts⟩ := addTaskArtifact_eq (projections a.artifactId) hfresh.1
      (htenant.1 ▸ htasks.1)
    obtain ⟨s', hwrite, hs', htask'⟩ := ih (s := s.insertArtifact a (projections a.artifactId)) hkl
      (by
        intro b hb c hc
        rw [hartifacts] at hc
        rcases List.mem_append.mp hc with hc | hc
        · exact hfresh.2 b hb c hc
        · obtain rfl := List.mem_singleton.mp hc
          exact fun heq => hnodup (List.mem_map.mpr ⟨b, hb, heq.symm⟩))
      htenant.2
      (by
        intro b hb tenant h
        rcases getTaskGlobal_insertArtifact h with h | rfl
        · exact htasks.2 b hb tenant h
        · exact htenant.1)
    refine ⟨s', ?_, ?_, fun taskId tenant h => ?_⟩
    · show (s.addTaskArtifact a (projections a.artifactId) >>= fun s => s.writeAll projections l) =
        .ok s'
      rw [hadd]
      exact hwrite
    · rw [hs', hartifacts, List.append_assoc, List.singleton_append]
    · rcases htask' taskId tenant h with h | rfl
      · rcases getTaskGlobal_insertArtifact h with h | rfl
        · exact .inl h
        · exact .inr htenant.1
      · exact .inr rfl

/-- What is still to be written has unique ids. -/
theorem KeyedIds.pendingOf (h : KeyedIds bundle.artifacts) (s : ExperienceStore) :
    KeyedIds (pendingOf s bundle) :=
  h.filter _

/-- What is still to be written is in the bundle and not in the store. -/
theorem mem_pendingOf : a ∈ pendingOf s bundle ↔ a ∈ bundle.artifacts ∧ a ∉ s.artifacts := by
  simp [pendingOf, List.mem_filter]

/-- What is still to be written has ids that the store does not have. -/
theorem Checked.fresh (hc : Checked s t bundle) (ha : a ∈ pendingOf s bundle) :
    ∀ b ∈ s.artifacts, b.artifactId ≠ a.artifactId := by
  obtain ⟨hmem, hnot⟩ := mem_pendingOf.mp ha
  intro b hb heq
  exact hnot (hc.collisions a hmem b hb heq ▸ hb)

/-- Ordering the artifacts permutes them. -/
theorem topologicalOrder_perm (hk : KeyedIds l) (h : topologicalOrder l = .ok ordered) :
    ordered.Perm l :=
  (Causal.linearize_perm ((topologicalOrder_eq_linearize hk).mp h)).trans
    (List.perm_insertionSort _ _)

/-- The writes of an import up to any point are not refused. -/
theorem Checked.exists_writeAll_take (hc : Checked s t bundle) (projections : String → List ChunkId)
    (horder : topologicalOrder (pendingOf s bundle) = .ok ordered) (k : ℕ) :
    ∃ s', s.writeAll projections (ordered.take k) = .ok s' ∧
      s'.artifacts = s.artifacts ++ ordered.take k ∧
      ∀ taskId, ∀ tenant ∈ s'.getTaskGlobal taskId, tenant ∈ s.getTaskGlobal taskId ∨
        tenant = t := by
  have hperm := topologicalOrder_perm (hc.keyed.pendingOf s) horder
  have hpending : ∀ a ∈ ordered.take k, a ∈ pendingOf s bundle :=
    fun a ha => hperm.mem_iff.mp (List.mem_of_mem_take ha)
  apply exists_writeAll
  · exact List.Nodup.sublist ((List.take_sublist k ordered).map _)
      ((hc.keyed.pendingOf s).perm hperm.symm)
  · exact fun a ha => hc.fresh (hpending a ha)
  · exact fun a ha => (hc.shape a (mem_pendingOf.mp (hpending a ha)).1).1
  · exact fun a ha => hc.tasks a (mem_pendingOf.mp (hpending a ha)).1

/-- What an import has done when it returns. -/
theorem importBundle_eq_ok (hk : KeyedIds s.artifacts) {report : ImportReport} :
    s.importBundle t projections bundle = .ok (report, s') ↔ ∃ ordered,
      s.checkBundle t bundle = .ok (replayedOf s bundle, ordered) ∧
      s.writeAll projections ordered = .ok s' ∧
      report = ⟨(ordered.map (·.artifactId)).insertionSort (· ≤ ·),
        (replayedOf s bundle).insertionSort (· ≤ ·)⟩ := by
  unfold ExperienceStore.importBundle
  rw [except_bind_eq_ok]
  constructor
  · rintro ⟨⟨replayed, ordered⟩, hcheck, h⟩
    obtain ⟨s'', hwrite, hpure⟩ := except_bind_eq_ok.mp h
    obtain ⟨rfl, rfl⟩ := Prod.mk.inj (Except.ok.inj hpure)
    obtain ⟨-, rfl, -⟩ := (checkBundle_eq_ok hk).mp hcheck
    exact ⟨ordered, hcheck, hwrite, rfl⟩
  · rintro ⟨ordered, hcheck, hwrite, rfl⟩
    exact ⟨_, hcheck, except_bind_eq_ok.mpr ⟨s', hwrite, rfl⟩⟩

/-- **Once the checks of an import pass, it gets through.** -/
theorem importBundle_of_checkBundle (projections : String → List ChunkId) (hk : KeyedIds s.artifacts)
    (h : s.checkBundle t bundle = .ok (replayed, ordered)) :
    ∃ report s', s.importBundle t projections bundle = .ok (report, s') ∧
      s'.artifacts = s.artifacts ++ ordered := by
  obtain ⟨hc, rfl, -, horder⟩ := (checkBundle_eq_ok hk).mp h
  obtain ⟨s', hwrite, hs', -⟩ :=
    hc.exists_writeAll_take projections horder ordered.length
  rw [List.take_length] at hwrite hs'
  exact ⟨_, s', (importBundle_eq_ok hk).mpr ⟨ordered, h, hwrite, rfl⟩, hs'⟩

/-! ## Roots -/

/-- A lesson carries a lesson event. -/
theorem event_of_isLesson (h : a.isLesson = true) : ∃ lesson, a.event = some (.lesson lesson) := by
  unfold isLesson at h
  split at h
  · rename_i lesson hevent
    exact ⟨lesson, hevent⟩
  · exact absurd h (by simp)

/-- A correction carries a correction event. -/
theorem event_of_supersedes? (h : a.supersedes? = some id) :
    ∃ problemId replacement, a.event = some (.correction problemId id replacement) := by
  unfold supersedes? at h
  split at h
  · rename_i problemId supersedesId replacement hevent
    obtain rfl := Option.some.inj h
    exact ⟨problemId, replacement, hevent⟩
  · exact absurd h (by simp)

/-- The root of a version of a lesson is found. -/
theorem rootOf_eq (hk : KeyedIds l) (h : CausalCase l) (hroot : root ∈ l)
    (hlesson : root.isLesson = true) (ha : Corrects l root a) :
    rootOf l a.artifactId = .ok root.artifactId := by
  obtain ⟨rank, hranked, hbound⟩ := exists_ranked hk h
  -- the ids seen so far are of higher ranks, so the walk meets none of them again
  have hwalk : ∀ fuel seen, rank a.artifactId < fuel →
      (∀ v ∈ seen, rank a.artifactId < rank v) →
      lessonRootId l fuel seen a.artifactId = .ok root.artifactId := by
    have hnew : ∀ {a : ExperienceArtifact} {seen : List String},
        (∀ v ∈ seen, rank a.artifactId < rank v) → seen.contains a.artifactId = false := by
      intro a seen hseen
      rw [List.contains_eq_mem, decide_eq_false_iff_not]
      exact fun hmem => absurd (hseen _ hmem) (lt_irrefl _)
    induction ha with
    | refl =>
      intro fuel seen hfuel hseen
      obtain ⟨lesson, hevent⟩ := event_of_isLesson hlesson
      cases fuel with
      | zero => exact absurd hfuel (Nat.not_lt_zero _)
      | succ fuel =>
        rw [lessonRootId, hnew hseen, (byId_eq_some hk).mpr ⟨hroot, rfl⟩]
        show (requiredEvent root >>= _) = _
        rw [requiredEvent_eq_ok.mpr hevent]
        rfl
    | @tail c d hc hd ih =>
      intro fuel seen hfuel hseen
      obtain ⟨-, hdl, hsupersedes⟩ := mem_childrenOf.mp hd
      obtain ⟨problemId, replacement, hevent⟩ := event_of_supersedes? hsupersedes
      have hlt : rank c.artifactId < rank d.artifactId := hranked.lt c d hd
      cases fuel with
      | zero => exact absurd hfuel (Nat.not_lt_zero _)
      | succ fuel =>
        rw [lessonRootId, hnew hseen, (byId_eq_some hk).mpr ⟨hdl, rfl⟩]
        show (requiredEvent d >>= _) = _
        rw [requiredEvent_eq_ok.mpr hevent]
        apply ih fuel (d.artifactId :: seen) (by omega)
        intro v hv
        rcases List.mem_cons.mp hv with rfl | hv
        · exact hlt
        · exact hlt.trans (hseen v hv)
  have hal : a ∈ l := ha.mem hroot
  exact hwalk _ [] ((hbound a hal).trans (Nat.lt_succ_self _)) fun v hv => absurd hv List.not_mem_nil

/-- A version of a lesson that is a head has a root. -/
theorem exists_rootOf (hk : KeyedIds l) (h : CausalCase l) {g : List ExperienceArtifact}
    (hg : g ∈ headGroups l) (ha : a ∈ g) : a ∈ l ∧ ∃ root, rootOf l a.artifactId = .ok root := by
  obtain ⟨root, hroot, hlesson, hcorrects, -⟩ := mem_headGroups hk h hg ha
  exact ⟨hcorrects.mem hroot, root.artifactId, rootOf_eq hk h hroot hlesson hcorrects⟩

/-- **The heads under their roots** are found, and are the latest versions of the lessons. -/
theorem exists_currentByRoot (hk : KeyedIds l) (h : CausalCase l) :
    ∃ heads, currentByRoot l = .ok heads ∧ ∀ root a, (root, a) ∈ heads ↔
      (∃ g ∈ headGroups l, a ∈ g) ∧ rootOf l a.artifactId = .ok root := by
  have hfound : ∀ {g : List ExperienceArtifact}, g ∈ headGroups l → ∀ {a}, a ∈ g →
      a ∈ l ∧ ∃ root, rootOf l a.artifactId = .ok root := fun hg _ ha => exists_rootOf hk h hg ha
  -- the lessons with one latest version
  obtain ⟨single, hsingle, hmem₁⟩ := Fallible.exists_mapM (l := currentOf l)
    (f := fun head => rootOf l head.artifactId >>= fun root => pure (root, head))
    (by
      intro a ha
      obtain ⟨-, root, hroot⟩ := hfound (mem_currentOf.mp ha) (List.mem_singleton_self a)
      exact ⟨(root, a), by rw [hroot]; rfl⟩)
  have hopen : ∀ id, id ∈ (openGroups l).flatten ↔
      ∃ g ∈ headGroups l, g.length ≠ 1 ∧ ∃ a ∈ g, a.artifactId = id := by
    intro id
    simp only [openGroups, List.mem_flatten, List.mem_insertionSort, List.mem_map, List.mem_filter,
      bne_iff_ne]
    constructor
    · rintro ⟨_, ⟨g, ⟨hg, hlen⟩, rfl⟩, hid⟩
      exact ⟨g, hg, hlen, List.mem_map.mp hid⟩
    · rintro ⟨g, hg, hlen, hid⟩
      exact ⟨_, ⟨g, ⟨hg, hlen⟩, rfl⟩, List.mem_map.mpr hid⟩
  -- the versions of the lessons with several
  obtain ⟨several, hseveral, hmem₂⟩ := Fallible.exists_mapM (l := (openGroups l).flatten)
    (f := fun id => required (byId l id) s!"conflicting head '{id}' is missing" >>= fun a =>
      rootOf l id >>= fun root => pure (root, a))
    (by
      intro id hid
      obtain ⟨g, hg, -, a, ha, rfl⟩ := (hopen id).mp hid
      obtain ⟨hal, root, hroot⟩ := hfound hg ha
      exact ⟨(root, a), by rw [(byId_eq_some hk).mpr ⟨hal, rfl⟩, hroot]; rfl⟩)
  refine ⟨single ++ several, ?_, fun root a => ?_⟩
  · unfold currentByRoot
    rw [currentLessonHeads_eq hk h]
    exact except_bind_eq_ok.mpr ⟨(currentOf l, openGroups l), rfl, except_bind_eq_ok.mpr
      ⟨single, hsingle, except_bind_eq_ok.mpr ⟨several, hseveral, rfl⟩⟩⟩
  · rw [List.mem_append, hmem₁, hmem₂]
    simp only [except_bind_eq_ok, required_eq_ok, byId_eq_some hk]
    constructor
    · rintro (⟨b, hb, root', hroot, hpure⟩ | ⟨id, hid, b, ⟨hb, rfl⟩, root', hroot, hpure⟩)
      · obtain ⟨rfl, rfl⟩ := Prod.mk.inj (Except.ok.inj hpure)
        exact ⟨⟨[b], mem_currentOf.mp hb, List.mem_singleton_self b⟩, hroot⟩
      · obtain ⟨rfl, rfl⟩ := Prod.mk.inj (Except.ok.inj hpure)
        obtain ⟨g, hg, -, c, hc, hid⟩ := (hopen _).mp hid
        obtain rfl := hk.eq (hfound hg hc).1 hb hid
        exact ⟨⟨g, hg, hc⟩, hroot⟩
    · rintro ⟨⟨g, hg, ha⟩, hroot⟩
      by_cases hlen : g.length = 1
      · left
        obtain ⟨b, rfl⟩ := List.length_eq_one_iff.mp hlen
        obtain rfl := List.mem_singleton.mp ha
        exact ⟨a, mem_currentOf.mpr hg, root, hroot, rfl⟩
      · right
        exact ⟨a.artifactId, (hopen _).mpr ⟨g, hg, hlen, a, ha, rfl⟩, a, ⟨(hfound hg ha).1, rfl⟩,
          root, hroot, rfl⟩

/-! ## Journals after an import -/

/-- The events of a case have unique ids. -/
theorem experienceEvents_keyed (hk : KeyedIds s.artifacts) (t : TenantId) (taskId : String) :
    KeyedIds (s.experienceEvents t taskId) :=
  (hk.caseEvents t taskId).perm (experienceEvents_perm s t taskId).symm

/-- The artifacts of a task after an import, before they are written. -/
def combinedCase (s : ExperienceStore) (t : TenantId) (bundle : ExperienceBundleV1)
    (taskId : String) : List ExperienceArtifact :=
  s.experienceEvents t taskId ++ (pendingOf s bundle).filter (·.taskId == taskId)

/-- A case with the bundle's artifacts has unique ids. -/
theorem Checked.combined_keyed (hc : Checked s t bundle) (hk : KeyedIds s.artifacts)
    (taskId : String) : KeyedIds (combinedCase s t bundle taskId) := by
  unfold combinedCase KeyedIds Table.Keyed
  rw [List.map_append, List.nodup_append]
  refine ⟨experienceEvents_keyed hk t taskId, (hc.keyed.pendingOf s).filter _, ?_⟩
  intro i hi j hj heq
  obtain ⟨b, hb, rfl⟩ := List.mem_map.mp hi
  obtain ⟨a, ha, rfl⟩ := List.mem_map.mp hj
  have hmem := (mem_caseEvents.mp ((experienceEvents_perm s t taskId).mem_iff.mp hb)).1
  exact hc.fresh (List.mem_of_mem_filter ha) b hmem heq

/-- Every artifact of a checked bundle carries an event. -/
theorem Checked.isSome_event (hc : Checked s t bundle) (ha : a ∈ bundle.artifacts) :
    a.event.isSome = true := by
  obtain ⟨-, event, henv⟩ := hc.shape a ha
  rw [henv.event_eq]
  rfl

/-- The check of a task of a bundle. -/
theorem Checked.validateCombinedCase_eq_ok (hc : Checked s t bundle) (hk : KeyedIds s.artifacts)
    {u : Unit} :
    s.validateCombinedCase t bundle.artifacts (replayedOf s bundle) taskId = .ok u ↔
      rejectStaleOverride (s.experienceEvents t taskId)
        (bundle.artifacts.filter (·.taskId == taskId)) (replayedOf s bundle) = .ok () ∧
      CaseLaw (combinedCase s t bundle taskId) ∧
      ∃ heads, currentLessonHeads (sortArtifacts (combinedCase s t bundle taskId)) = .ok heads := by
  have hkc := hc.combined_keyed hk taskId
  have hperm := (sortArtifacts_perm (combinedCase s t bundle taskId)).symm
  have hlaw : validateCase (sortArtifacts (combinedCase s t bundle taskId)) = .ok () ↔
      CaseLaw (combinedCase s t bundle taskId) := by
    rw [validateCase_eq_ok_iff (hkc.perm hperm)]
    exact ⟨fun h => h.perm hperm.symm, fun h => h.perm hperm⟩
  unfold ExperienceStore.validateCombinedCase
  dsimp only
  rw [filter_replayedOf hc.keyed, ← combinedCase]
  simp only [except_bind_eq_ok, hlaw]
  constructor
  · rintro ⟨_, hstale, _, hl, heads, hheads, -⟩
    exact ⟨hstale, hl, heads, hheads⟩
  · rintro ⟨hstale, hl, heads, hheads⟩
    exact ⟨(), hstale, (), hl, heads, hheads, rfl⟩

/-- A store after some of the pending artifacts are written: a case of it is the case before with
what was written of it. -/
theorem caseEvents_writeAll {written : List ExperienceArtifact}
    (hs : s'.artifacts = s.artifacts ++ written) (t : TenantId) (taskId : String) :
    s'.caseEvents t taskId = s.caseEvents t taskId ++ written.filter (inCase t taskId) := by
  unfold ExperienceStore.caseEvents
  rw [hs, List.filter_append]

/-- The artifacts of a case in a part of the bundle. -/
theorem Checked.filter_inCase (hc : Checked s t bundle) {part : List ExperienceArtifact}
    (hpart : ∀ a ∈ part, a ∈ bundle.artifacts) :
    part.filter (inCase t taskId) = part.filter (·.taskId == taskId) := by
  apply List.filter_congr
  intro a ha
  have htenant : (a.tenantId == t) = true := by simpa using (hc.shape a (hpart a ha)).1
  unfold inCase
  rw [hc.isSome_event (hpart a ha), htenant]
  rfl

/-- What is ordered is of the bundle. -/
theorem Checked.mem_of_mem_ordered (hc : Checked s t bundle)
    (horder : topologicalOrder (pendingOf s bundle) = .ok ordered) (ha : a ∈ ordered) :
    a ∈ bundle.artifacts :=
  (mem_pendingOf.mp ((topologicalOrder_perm (hc.keyed.pendingOf s) horder).mem_iff.mp ha)).1

section Written

variable (h : Journal s) (hc : Checked s t bundle)
  (horder : topologicalOrder (pendingOf s bundle) = .ok ordered)
include h hc horder

/-- Ids still differ after some of the writes. -/
theorem keyed_take {k : ℕ} (hs : s'.artifacts = s.artifacts ++ ordered.take k) :
    KeyedIds s'.artifacts := by
  have hperm := topologicalOrder_perm (hc.keyed.pendingOf s) horder
  rw [KeyedIds, Table.Keyed, hs, List.map_append, List.nodup_append]
  refine ⟨h.keyed, List.Nodup.sublist ((List.take_sublist k ordered).map _)
    ((hc.keyed.pendingOf s).perm hperm.symm), ?_⟩
  intro i hi j hj heq
  obtain ⟨b, hb, rfl⟩ := List.mem_map.mp hi
  obtain ⟨a, ha, rfl⟩ := List.mem_map.mp hj
  exact hc.fresh (hperm.mem_iff.mp (List.mem_of_mem_take ha)) b hb heq

/-- The references still point back after some of the writes. -/
theorem causal_take (hlaw : ∀ a ∈ bundle.artifacts, CaseLaw (combinedCase s t bundle a.taskId))
    {k : ℕ} (hs : s'.artifacts = s.artifacts ++ ordered.take k) : CausalCase s'.experience := by
  have hperm := topologicalOrder_perm (hc.keyed.pendingOf s) horder
  have hbundle : ∀ a ∈ ordered, a ∈ bundle.artifacts :=
    fun a ha => hc.mem_of_mem_ordered horder ha
  have hexperience : s'.experience = s.experience ++ ordered.take k := by
    unfold ExperienceStore.experience
    rw [hs, List.filter_append, List.filter_eq_self.mpr fun a ha =>
      hc.isSome_event (hbundle a (List.mem_of_mem_take ha))]
  rw [hexperience]
  apply h.causal.append_take ((topologicalOrder_eq_linearize (hc.keyed.pendingOf s)).mp horder)
  intro a ha r hr
  have hmem : a ∈ combinedCase s t bundle a.taskId := by
    apply List.mem_append_right
    exact List.mem_filter.mpr ⟨hperm.mem_iff.mp ha, beq_self_eq_true _⟩
  obtain ⟨b, hb, hid⟩ := (hlaw a (hbundle a ha)).causal hmem r hr
  refine ⟨b, ?_, hid⟩
  rcases List.mem_append.mp hb with hb | hb
  · obtain ⟨hbmem, hbevent, -⟩ :=
      mem_caseEvents.mp ((experienceEvents_perm s t a.taskId).mem_iff.mp hb)
    exact List.mem_append_left _ (mem_experience.mpr ⟨hbmem, hbevent⟩)
  · exact List.mem_append_right _ (hperm.mem_iff.mpr (List.mem_of_mem_filter hb))

end Written

/-- What an import has done, in one piece. -/
theorem Journal.importBundle_spec (h : Journal s) {report : ImportReport}
    (hi : s.importBundle t projections bundle = .ok (report, s')) : ∃ ordered,
    Checked s t bundle ∧ topologicalOrder (pendingOf s bundle) = .ok ordered ∧
      ordered.Perm (pendingOf s bundle) ∧
      (∀ a ∈ bundle.artifacts, CaseLaw (combinedCase s t bundle a.taskId)) ∧
      s.writeAll projections ordered = .ok s' ∧ s'.artifacts = s.artifacts ++ ordered ∧
      ∀ taskId, ∀ tenant ∈ s'.getTaskGlobal taskId, tenant ∈ s.getTaskGlobal taskId ∨
        tenant = t := by
  obtain ⟨ordered, hcheck, hwrite, -⟩ := (importBundle_eq_ok h.keyed).mp hi
  obtain ⟨hc, -, hcases, horder⟩ := (checkBundle_eq_ok h.keyed).mp hcheck
  obtain ⟨s'', hwrite', hs', htasks⟩ :=
    hc.exists_writeAll_take projections horder ordered.length
  rw [List.take_length] at hwrite' hs'
  obtain rfl : s'' = s' := Except.ok.inj (hwrite'.symm.trans hwrite)
  refine ⟨ordered, hc, horder, topologicalOrder_perm (hc.keyed.pendingOf s) horder,
    fun a ha => ?_, hwrite, hs', htasks⟩
  exact ((hc.validateCombinedCase_eq_ok h.keyed).mp (hcases a ha)).2.1

/-- After an import a task of the bundle has the case that was checked. -/
theorem Checked.caseEvents_perm (hc : Checked s t bundle) (hperm : ordered.Perm (pendingOf s bundle))
    (hs : s'.artifacts = s.artifacts ++ ordered) (taskId : String) :
    (combinedCase s t bundle taskId).Perm (s'.caseEvents t taskId) := by
  rw [caseEvents_writeAll hs, hc.filter_inCase fun a ha => (mem_pendingOf.mp (hperm.mem_iff.mp ha)).1]
  exact (experienceEvents_perm s t taskId).append (hperm.filter _).symm

/-- What a bundle has is there after its import. -/
theorem mem_of_mem_bundle (hperm : ordered.Perm (pendingOf s bundle))
    (hs : s'.artifacts = s.artifacts ++ ordered) (ha : a ∈ bundle.artifacts) : a ∈ s'.artifacts := by
  rw [hs]
  by_cases hold : a ∈ s.artifacts
  · exact List.mem_append_left _ hold
  · exact List.mem_append_right _ (hperm.mem_iff.mpr (mem_pendingOf.mpr ⟨ha, hold⟩))

/-- A bundle is still well formed for a store that its own import has left, or left in the middle. -/
theorem Checked.again (hc : Checked s t bundle) (hk : KeyedIds s'.artifacts)
    (hall : ∀ a ∈ bundle.artifacts, a ∈ s'.artifacts) (hsub : ∀ b ∈ s₁.artifacts, b ∈ s'.artifacts)
    (htasks : ∀ taskId, ∀ tenant ∈ s₁.getTaskGlobal taskId,
      tenant ∈ s.getTaskGlobal taskId ∨ tenant = t) : Checked s₁ t bundle := by
  refine ⟨hc.header, hc.nonempty, hc.keyed, hc.shape, ?_, ?_⟩
  · exact fun a ha b hb hid => hk.eq (hsub b hb) (hall a ha) hid
  · intro a ha tenant htenant
    rcases htasks a.taskId tenant htenant with hold | rfl
    · exact hc.tasks a ha tenant hold
    · rfl

/-- **A journal stays one** when a bundle is imported. -/
theorem Journal.importBundle (h : Journal s) {report : ImportReport}
    (hi : s.importBundle t projections bundle = .ok (report, s')) : Journal s' := by
  obtain ⟨ordered, hc, horder, hperm, hlaw, -, hs, -⟩ := h.importBundle_spec hi
  have htake : s'.artifacts = s.artifacts ++ ordered.take ordered.length := by
    rw [List.take_length]
    exact hs
  refine ⟨keyed_take h hc horder htake, fun a ha hevent => ?_, causal_take h hc horder hlaw htake⟩
  by_cases hnew : ∃ b ∈ ordered, inCase a.tenantId a.taskId b = true
  · obtain ⟨b, hb, hcase⟩ := hnew
    obtain ⟨-, htenant, htask⟩ := inCase_iff.mp hcase
    have hbundle := hc.mem_of_mem_ordered horder hb
    rw [← htenant, ← htask, (hc.shape b hbundle).1]
    exact (hlaw b hbundle).perm (hc.caseEvents_perm hperm hs b.taskId)
  · have hnone : ordered.filter (inCase a.tenantId a.taskId) = [] := by
      apply List.filter_eq_nil_iff.mpr
      exact fun b hb hcase => hnew ⟨b, hb, hcase⟩
    rw [caseEvents_writeAll hs, hnone, List.append_nil]
    rw [hs] at ha
    rcases List.mem_append.mp ha with ha | ha
    · exact h.law a ha hevent
    · exact absurd ⟨a, ha, inCase_iff.mpr ⟨hevent, rfl, rfl⟩⟩ hnew

/-! ## The same import again -/

/-- Artifacts that are replayed override nothing. -/
theorem rejectStaleOverride_replayed {existing imported : List ExperienceArtifact}
    (hk : KeyedIds existing) (h : CausalCase existing)
    (hall : ∀ a ∈ imported, replayed.contains a.artifactId = true) :
    rejectStaleOverride existing imported replayed = .ok () := by
  unfold rejectStaleOverride
  split_ifs
  · rfl
  · obtain ⟨heads, hheads, -⟩ := exists_currentByRoot hk h
    rw [hheads]
    show imported.forM (rejectStaleCorrection existing imported heads replayed) = .ok ()
    apply Fallible.forM_eq_ok.mpr
    intro a ha
    unfold rejectStaleCorrection
    rw [if_pos (hall a ha)]

end Experience
