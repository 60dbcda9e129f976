/-
# Cases in other stores

What is exported is imported elsewhere as it was: the cases of the exported problems resolve in
the other store to what they resolve to here (`export_bundle`, `import_bundle`).

* `Journal.mem_exportBundle` — an export holds the whole cases of its problems, each artifact once;
* `importBundle_exportBundle` — a store that has nothing of the tasks takes the whole export, and
  every exported problem resolves there to the same case;
* `importBundle_replay` — the same import again writes nothing.
-/
import Memd.ExperienceRuns

open Proc (except_bind_eq_ok)

namespace Experience

open ExperienceArtifact

variable {s s' s₀ : ExperienceStore} {l l' : List ExperienceArtifact} {a b p : ExperienceArtifact}
  {t : TenantId} {problemIds : List String} {bundle : ExperienceBundleV1}
  {projections : String → List ChunkId}

/-! ## Sorting -/

/-- What is sorted does not depend on the order it came in. -/
theorem sortArtifacts_eq_of_perm (hk : KeyedIds l) (hp : l'.Perm l) :
    sortArtifacts l' = sortArtifacts l := by
  have : Std.Total fun a b : ExperienceArtifact => a.sortKey ≤ b.sortKey :=
    ⟨fun a b => le_total a.sortKey b.sortKey⟩
  have : IsTrans ExperienceArtifact fun a b => a.sortKey ≤ b.sortKey :=
    ⟨fun _ _ _ hab hbc => le_trans hab hbc⟩
  apply Selection.insertionSort_eq_of_perm _ hp
  intro a ha b hb hab hba
  have hkey : a.sortKey = b.sortKey := le_antisymm hab hba
  have hid : a.artifactId = b.artifactId := congrArg (fun k => (ofLex (ofLex k).2).2) hkey
  exact hk.eq ha hb hid

/-! ## What an export holds -/

/-- **An export** holds the cases of its problems. -/
theorem Journal.mem_exportBundle (h : Journal s) (he : s.exportBundle t problemIds = .ok bundle) :
    (bundle.format = bundleFormat ∧ bundle.version = bundleVersion ∧ bundle.tenantId = t) ∧
      problemIds ≠ [] ∧ KeyedIds bundle.artifacts ∧
      (∀ id ∈ problemIds, ∃ p ∈ s.artifacts, p.tenantId = t ∧ p.artifactId = id ∧
        p.isProblem = true) ∧
      ∀ a, a ∈ bundle.artifacts ↔ ∃ p ∈ s.artifacts, p.tenantId = t ∧ p.artifactId ∈ problemIds ∧
        p.isProblem = true ∧ a ∈ s.caseEvents t p.taskId := by
  unfold ExperienceStore.exportBundle at he
  simp only [except_bind_eq_ok, demand_eq_ok, Bool.not_eq_true', List.isEmpty_eq_false_iff] at he
  obtain ⟨_, hne, cases, hcases, hpure⟩ := he
  obtain rfl := Except.ok.inj hpure
  obtain ⟨hresolved, hcase⟩ := Fallible.mapM_turn hcases
  have hevents : ∀ a, a ∈ cases.flatMap (·.events) ↔ ∃ p ∈ s.artifacts, p.tenantId = t ∧
      p.artifactId ∈ problemIds ∧ p.isProblem = true ∧ a ∈ s.caseEvents t p.taskId := by
    intro a
    rw [List.mem_flatMap]
    constructor
    · rintro ⟨c, hc, ha⟩
      obtain ⟨id, hid, hok⟩ := hcase c hc
      obtain ⟨p, hp, htenant, rfl, hproblem, rfl⟩ := h.resolveCase_eq_ok.mp hok
      refine ⟨p, hp, htenant, hid, hproblem, ?_⟩
      exact (experienceEvents_perm s t p.taskId).mem_iff.mp (mem_sortArtifacts.mp ha)
    · rintro ⟨p, hp, htenant, hid, hproblem, ha⟩
      obtain ⟨c, hc, hok⟩ := hresolved _ hid
      obtain ⟨q, hq, -, hqid, -, rfl⟩ := h.resolveCase_eq_ok.mp hok
      obtain rfl : p = q := h.keyed.eq hp hq hqid.symm
      exact ⟨_, hc, mem_sortArtifacts.mpr ((experienceEvents_perm s t p.taskId).mem_iff.mpr ha)⟩
  have hids : ∀ a ∈ cases.flatMap (·.events), ∀ b ∈ cases.flatMap (·.events),
      a.artifactId = b.artifactId → a = b := by
    intro a ha b hb hid
    obtain ⟨_, -, -, -, -, ha⟩ := (hevents a).mp ha
    obtain ⟨_, -, -, -, -, hb⟩ := (hevents b).mp hb
    exact h.keyed.eq (mem_caseEvents.mp ha).1 (mem_caseEvents.mp hb).1 hid
  refine ⟨⟨rfl, rfl, rfl⟩, hne, ?_, fun id hid => ?_, fun a => ?_⟩
  · exact (keyedIds_valuesById _).perm (sortArtifacts_perm _).symm
  · obtain ⟨c, -, hok⟩ := hresolved id hid
    obtain ⟨p, hp, htenant, hpid, hproblem, -⟩ := h.resolveCase_eq_ok.mp hok
    exact ⟨p, hp, htenant, hpid, hproblem⟩
  · rw [mem_sortArtifacts, mem_valuesById hids, hevents]

/-! ## The same cases in another store -/

/-- **What is exported is imported as it was**: a store without any of the tasks takes the whole
export, and every exported problem resolves there to the same case. -/
theorem importBundle_exportBundle (h : Journal s) (h₀ : Journal s₀)
    (he : s.exportBundle t problemIds = .ok bundle)
    (hids : ∀ a ∈ bundle.artifacts, ∀ b ∈ s₀.artifacts, b.artifactId ≠ a.artifactId)
    (hcases : ∀ a ∈ bundle.artifacts, s₀.caseEvents t a.taskId = [])
    (htasks : ∀ a ∈ bundle.artifacts, ∀ tenant ∈ s₀.getTaskGlobal a.taskId, tenant = t) :
    ∃ report s₁, s₀.importBundle t projections bundle = .ok (report, s₁) ∧
      s₁.artifacts.Perm (s₀.artifacts ++ bundle.artifacts) ∧
      ∀ id ∈ problemIds, s₁.resolveCase t id = s.resolveCase t id := by
  obtain ⟨⟨hformat, hversion, htenant⟩, hne, hkeyed, hproblems, hmem⟩ := h.mem_exportBundle he
  have hstore : ∀ a ∈ bundle.artifacts, a ∈ s.artifacts ∧ a.event.isSome = true ∧
      a ∈ s.caseEvents t a.taskId := by
    intro a ha
    obtain ⟨p, -, -, -, -, hcase⟩ := (hmem a).mp ha
    obtain ⟨has, hevent, hat, htask⟩ := mem_caseEvents.mp hcase
    exact ⟨has, hevent, mem_caseEvents.mpr ⟨has, hevent, hat, rfl⟩⟩
  -- a task of the bundle is in it as a whole
  have hcase : ∀ a ∈ bundle.artifacts,
      (bundle.artifacts.filter (·.taskId == a.taskId)).Perm (s.caseEvents t a.taskId) := by
    intro a ha
    apply (List.perm_ext_iff_of_nodup ((List.Nodup.of_map _ hkeyed).filter _)
      (List.Nodup.of_map _ (h.keyed.caseEvents t a.taskId))).mpr
    intro b
    rw [List.mem_filter, beq_iff_eq]
    constructor
    · rintro ⟨hb, htask⟩
      rw [← htask]
      exact (hstore b hb).2.2
    · intro hb
      obtain ⟨p, hp, hpt, hpid, hproblem, hap⟩ := (hmem a).mp ha
      have htask : a.taskId = p.taskId := (mem_caseEvents.mp hap).2.2.2
      refine ⟨(hmem b).mpr ⟨p, hp, hpt, hpid, hproblem, htask ▸ hb⟩, ?_⟩
      exact (mem_caseEvents.mp hb).2.2.2
  have hnew : ∀ a ∈ bundle.artifacts, a ∉ s₀.artifacts := fun a ha has => hids a ha a has rfl
  have hpending : pendingOf s₀ bundle = bundle.artifacts := by
    apply List.filter_eq_self.mpr
    exact fun a ha => by simpa using hnew a ha
  have hc : Checked s₀ t bundle := by
    refine ⟨⟨hformat, hversion, htenant⟩, ?_, hkeyed, fun a ha => ?_, ?_, htasks⟩
    · obtain ⟨id, hid⟩ := List.exists_mem_of_ne_nil _ hne
      obtain ⟨p, hp, hpt, rfl, hproblem⟩ := hproblems id hid
      have hpcase := mem_caseEvents_of_isProblem hp hpt hproblem
      exact List.ne_nil_of_mem ((hmem p).mpr ⟨p, hp, hpt, hid, hproblem, hpcase⟩)
    · obtain ⟨-, -, hacase⟩ := hstore a ha
      obtain ⟨p, -, hscope⟩ := (h.caseLaw hacase).problem
      obtain ⟨event, henv, -⟩ := (hscope a hacase).shape
      exact ⟨(mem_caseEvents.mp hacase).2.2.1, event, henv⟩
    · exact fun a ha b hb hid => absurd hid (hids a ha b hb)
  have hnone : ∀ a ∈ bundle.artifacts, s₀.experienceEvents t a.taskId = [] := by
    intro a ha
    apply List.perm_nil.mp
    rw [← hcases a ha]
    exact experienceEvents_perm s₀ t a.taskId
  have hcombined : ∀ a ∈ bundle.artifacts,
      (combinedCase s₀ t bundle a.taskId).Perm (s.caseEvents t a.taskId) := by
    intro a ha
    rw [combinedCase, hnone a ha, hpending, List.nil_append]
    exact hcase a ha
  obtain ⟨ordered, horder⟩ : ∃ ordered, topologicalOrder (pendingOf s₀ bundle) = .ok ordered := by
    obtain ⟨rank, -, hrank⟩ := h.causal.rank (h.keyed.filter _)
    have hsorted := List.perm_insertionSort pendingOrder (pendingOf s₀ bundle)
    simp only [topologicalOrder_eq_linearize (hc.keyed.pendingOf s₀)]
    refine Causal.exists_linearize hsorted.length_eq.le fun a ha r hr _ => hrank a ?_ r hr
    obtain ⟨has, hevent, -⟩ := hstore a (mem_pendingOf.mp (hsorted.mem_iff.mp ha)).1
    exact mem_experience.mpr ⟨has, hevent⟩
  have hcheck : s₀.checkBundle t bundle = .ok (replayedOf s₀ bundle, ordered) := by
    refine (checkBundle_eq_ok h₀.keyed).mpr ⟨hc, rfl, fun a ha => ?_, horder⟩
    apply (hc.validateCombinedCase_eq_ok h₀.keyed).mpr
    have hperm := (hcombined a ha).symm
    have hsorted := (sortArtifacts_perm (combinedCase s₀ t bundle a.taskId)).symm
    refine ⟨?_, (h.caseLaw (hstore a ha).2.2).perm hperm, _, currentLessonHeads_eq
      ((hc.combined_keyed h₀.keyed a.taskId).perm hsorted)
      (((h.caseCausal t a.taskId).perm hperm).perm hsorted)⟩
    rw [hnone a ha]
    rfl
  obtain ⟨report, s₁, hi, hs₁⟩ :=
    importBundle_of_checkBundle projections h₀.keyed hcheck
  have hperm := topologicalOrder_perm (hc.keyed.pendingOf s₀) horder
  have h₁ := h₀.importBundle hi
  refine ⟨report, s₁, hi, ?_, fun id hid => ?_⟩
  · rw [hs₁]
    exact (hpending ▸ hperm).append_left _
  · obtain ⟨p, hp, hpt, rfl, hproblem⟩ := hproblems id hid
    have hpcase := mem_caseEvents_of_isProblem hp hpt hproblem
    have hbundle := (hmem p).mpr ⟨p, hp, hpt, hid, hproblem, hpcase⟩
    have hp₁ : p ∈ s₁.artifacts := by
      rw [hs₁]
      exact List.mem_append_right _ (hperm.mem_iff.mpr (hpending.symm ▸ hbundle))
    have hsame : (s₁.experienceEvents t p.taskId).Perm (s.experienceEvents t p.taskId) :=
      (experienceEvents_perm s₁ t p.taskId).trans
        ((hc.caseEvents_perm hperm hs₁ p.taskId).symm.trans
          ((hcombined p hbundle).trans (experienceEvents_perm s t p.taskId).symm))
    rw [h₁.resolveCase_eq_ok.mpr ⟨p, hp₁, hpt, rfl, hproblem, rfl⟩,
      h.resolveCase_eq_ok.mpr ⟨p, hp, hpt, rfl, hproblem, rfl⟩,
      sortArtifacts_eq_of_perm (experienceEvents_keyed h.keyed t p.taskId) hsame]

/-- The export of the solved case. -/
def crashBundle : ExperienceBundleV1 :=
  okOr ((crashStore 4).exportBundle "t" ["p1"]) ⟨"", 0, "", []⟩

/-- The chunks of the sample bundle. -/
def crashChunks (artifactId : String) : List ChunkId :=
  [["p1", "a1", "o1", "l1"].idxOf artifactId]

theorem crashBundle_imported : ∃ report s₁,
    ExperienceStore.importBundle {} "t" crashChunks crashBundle = .ok (report, s₁) ∧
      s₁.artifacts.Perm ([] ++ crashBundle.artifacts) ∧
      ∀ id ∈ ["p1"], s₁.resolveCase "t" id = (crashStore 4).resolveCase "t" id :=
  importBundle_exportBundle crashStore_journal Journal.empty rfl
    (fun _ _ _ hb => absurd hb List.not_mem_nil) (fun _ _ => rfl)
    (fun _ _ _ htenant => absurd htenant (by simp [ExperienceStore.getTaskGlobal]))

/-- What an import into an empty store leaves. -/
def crashImported : ImportReport × ExperienceStore :=
  okOr (ExperienceStore.importBundle {} "t" crashChunks crashBundle) (⟨[], []⟩, {})

theorem crashBundle_importBundle :
    ExperienceStore.importBundle {} "t" crashChunks crashBundle =
      .ok (crashImported.1, crashImported.2) :=
  rfl

/-! ## The same import again -/

/-- **The same import again** writes nothing: every artifact of the bundle is replayed. -/
theorem importBundle_replay {projections' : String → List ChunkId} (h : Journal s)
    {report : ImportReport} (hi : s.importBundle t projections bundle = .ok (report, s')) :
    s'.importBundle t projections' bundle =
      .ok (⟨[], (bundle.artifacts.map (·.artifactId)).insertionSort (· ≤ ·)⟩, s') := by
  have h' := h.importBundle hi
  obtain ⟨ordered, hc, horder, hperm, hlaw, -, hs, htasks⟩ := h.importBundle_spec hi
  have hall : ∀ a ∈ bundle.artifacts, a ∈ s'.artifacts := fun a ha => mem_of_mem_bundle hperm hs ha
  have hreplayed : replayedOf s' bundle = bundle.artifacts.map (·.artifactId) := by
    rw [replayedOf, List.filter_eq_self.mpr]
    exact fun a ha => by simpa using hall a ha
  have hpending : pendingOf s' bundle = [] := by
    apply List.filter_eq_nil_iff.mpr
    exact fun a ha => by simpa using hall a ha
  have hc' : Checked s' t bundle := hc.again h'.keyed hall (fun _ hb => hb) htasks
  have hcombined : ∀ taskId, combinedCase s' t bundle taskId = s'.experienceEvents t taskId := by
    intro taskId
    rw [combinedCase, hpending, List.filter_nil, List.append_nil]
  have hcheck : s'.checkBundle t bundle = .ok (replayedOf s' bundle, []) := by
    refine (checkBundle_eq_ok h'.keyed).mpr ⟨hc', rfl, fun a ha => ?_, by rw [hpending]; rfl⟩
    apply (hc'.validateCombinedCase_eq_ok h'.keyed).mpr
    have hp := (experienceEvents_perm s' t a.taskId).symm
    have hcausal := (h'.caseCausal t a.taskId).perm hp
    have hkeyed := experienceEvents_keyed h'.keyed t a.taskId
    refine ⟨rejectStaleOverride_replayed hkeyed hcausal fun b hb => ?_, ?_, ?_⟩
    · rw [contains_replayedOf hc.keyed (List.mem_of_mem_filter hb), decide_eq_true_eq]
      exact hall b (List.mem_of_mem_filter hb)
    · rw [hcombined]
      exact ((hlaw a ha).perm (hc.caseEvents_perm hperm hs a.taskId)).perm hp
    · rw [hcombined]
      have hsorted := (sortArtifacts_perm (s'.experienceEvents t a.taskId)).symm
      exact ⟨_, currentLessonHeads_eq (hkeyed.perm hsorted) (hcausal.perm hsorted)⟩
  rw [importBundle_eq_ok h'.keyed]
  exact ⟨[], hcheck, rfl, by rw [hreplayed]; rfl⟩

theorem crashBundle_replay : crashImported.2.importBundle "t" crashChunks crashBundle =
    .ok (⟨[], (crashBundle.artifacts.map (·.artifactId)).insertionSort (· ≤ ·)⟩, crashImported.2) :=
  importBundle_replay Journal.empty crashBundle_importBundle

end Experience
