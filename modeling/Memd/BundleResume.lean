/-
# Imports that are stopped and made again

An import writes one artifact after the other, and a failing store leaves it in the middle.  When
it is made again, what is there is replayed, and the rest is checked against it and written.

* `topologicalOrder_pendingOf_take` — what is left is written in the order it would have been;
* `importBundle_resume` — where nothing is corrected twice, an import that was stopped anywhere
  and is made again leaves the store that one import leaves.
-/
import Memd.StaleCorrections

open Proc (except_bind_eq_ok)

namespace Experience

open ExperienceArtifact

variable {s s' s₁ : ExperienceStore} {l : List ExperienceArtifact} {a b : ExperienceArtifact}
  {t : TenantId} {bundle : ExperienceBundleV1} {ordered : List ExperienceArtifact}
  {projections : String → List ChunkId}

/-! ## What is left of an import -/

instance : Std.Total pendingOrder :=
  ⟨fun a b => le_total (toLex (a.eventTime, a.artifactId)) (toLex (b.eventTime, b.artifactId))⟩

instance : IsTrans ExperienceArtifact pendingOrder :=
  ⟨fun _ _ _ hab hbc => le_trans (α := ℤ ×ₗ String) hab hbc⟩

section Left

variable (hc : Checked s t bundle) (horder : topologicalOrder (pendingOf s bundle) = .ok ordered)
  {k : ℕ} (hs : s₁.artifacts = s.artifacts ++ ordered.take k)
include hc horder hs

theorem pendingOf_take : pendingOf s₁ bundle = (pendingOf s bundle).filter fun a =>
    !((ordered.take k).map (·.artifactId)).contains a.artifactId := by
  have hperm := topologicalOrder_perm (hc.keyed.pendingOf s) horder
  unfold pendingOf
  rw [List.filter_filter]
  apply List.filter_congr
  intro a ha
  have hwritten : a.artifactId ∈ (ordered.take k).map (·.artifactId) ↔ a ∈ ordered.take k := by
    constructor
    · intro hid
      obtain ⟨b, hb, hbid⟩ := List.mem_map.mp hid
      have hbundle := hc.mem_of_mem_ordered horder (List.mem_of_mem_take hb)
      exact hc.keyed.eq hbundle ha hbid ▸ hb
    · exact fun hmem => List.mem_map_of_mem hmem
  rw [Bool.eq_iff_iff, decide_eq_true_eq, Bool.and_eq_true, Bool.not_eq_true', decide_eq_true_eq,
    List.contains_eq_mem, decide_eq_false_iff_not, hwritten, hs, List.mem_append, not_or, and_comm]

/-- **What is left is written in the order it would have been.** -/
theorem topologicalOrder_pendingOf_take :
    topologicalOrder (pendingOf s₁ bundle) = .ok (ordered.drop k) := by
  have hk := hc.keyed.pendingOf s
  have hsorted := List.perm_insertionSort pendingOrder (pendingOf s bundle)
  have hdrop := Causal.linearize_drop (hk.perm hsorted.symm)
    ((topologicalOrder_eq_linearize hk).mp horder) k
  have hleft : (pendingOf s₁ bundle).insertionSort pendingOrder =
      ((pendingOf s bundle).insertionSort pendingOrder).filter fun a =>
        !((ordered.take k).map (·.artifactId)).contains a.artifactId := by
    rw [pendingOf_take hc horder hs, Selection.filter_insertionSort]
  have hlength : (pendingOf s₁ bundle).length = (pendingOf s bundle).length - k := by
    have hlen := (Causal.linearize_perm hdrop).length_eq
    rw [← hleft, List.length_insertionSort, List.length_drop,
      (topologicalOrder_perm hk horder).length_eq] at hlen
    exact hlen.symm
  rw [topologicalOrder_eq_linearize (hc.keyed.pendingOf s₁), hleft, hlength]
  exact hdrop

end Left

/-- The part of a lawful case that a store has is causal when the store is. -/
theorem causalCase_part (h' : Journal s') (hk₁ : KeyedIds s₁.artifacts)
    (hcausal₁ : CausalCase s₁.experience) (hsub : ∀ a ∈ s₁.artifacts, a ∈ s'.artifacts)
    {taskId : String} (hlaw : CaseLaw (s'.caseEvents t taskId)) :
    CausalCase (s₁.experienceEvents t taskId) := by
  apply Causal.Acyclic.perm _ (experienceEvents_perm s₁ t taskId).symm
  rw [caseEvents_eq_filter]
  apply hcausal₁.filter (hk₁.filter _)
  intro b hb r hr
  rw [← caseEvents_eq_filter] at hb ⊢
  obtain ⟨hbmem, hbevent, hbtenant, hbtask⟩ := mem_caseEvents.mp hb
  obtain ⟨m, hm, hordered⟩ := hcausal₁
  obtain ⟨c, hcm, hcid⟩ := hordered.exists_of_mem b
    (hm.mem_iff.mpr (mem_experience.mpr ⟨hbmem, hbevent⟩)) r hr
  have hcs := (mem_experience.mp (hm.mem_iff.mp hcm)).1
  -- the one the store has is the one of the whole case
  obtain ⟨d, hd, hdid⟩ :=
    hlaw.causal (mem_caseEvents.mpr ⟨hsub b hbmem, hbevent, hbtenant, hbtask⟩) r hr
  have hdc : d = c := h'.keyed.eq (mem_caseEvents.mp hd).1 (hsub c hcs) (hdid.trans hcid.symm)
  exact ⟨c, mem_caseEvents.mpr ⟨hcs, hdc ▸ (mem_caseEvents.mp hd).2⟩, hcid⟩

/-- **An import that was stopped and is made again**: when nothing is corrected twice in the cases
of the bundle, it leaves the store that one import leaves. -/
theorem importBundle_resume (h : Journal s) {report : ImportReport}
    (hi : s.importBundle t projections bundle = .ok (report, s')) {writes : ℕ}
    (hstopped : s.importUpTo t projections bundle writes = .ok s₁)
    (hun : ∀ a ∈ bundle.artifacts, Unforked (s'.caseEvents t a.taskId)) :
    ∃ report₁, s₁.importBundle t projections bundle = .ok (report₁, s') := by
  have h' := h.importBundle hi
  obtain ⟨ordered, hc, horder, hperm, hlaw, hwrite, hs', -⟩ := h.importBundle_spec hi
  -- the state the first attempt left
  obtain ⟨s₂, hwrite₁, hs₁, htasks⟩ :=
    hc.exists_writeAll_take projections horder writes
  obtain rfl : s₂ = s₁ := by
    unfold ExperienceStore.importUpTo at hstopped
    obtain ⟨⟨replayed, ordered'⟩, hcheck', hstop⟩ := except_bind_eq_ok.mp hstopped
    obtain ⟨-, -, -, horder'⟩ := (checkBundle_eq_ok h.keyed).mp hcheck'
    obtain rfl := Except.ok.inj (horder.symm.trans horder')
    exact Except.ok.inj (hwrite₁.symm.trans hstop)
  have hk₁ := keyed_take h hc horder hs₁
  have hcausal₁ := causal_take h hc horder hlaw hs₁
  have hsub : ∀ a ∈ s₂.artifacts, a ∈ s'.artifacts := by
    intro a ha
    rw [hs₁] at ha
    rw [hs']
    rcases List.mem_append.mp ha with ha | ha
    · exact List.mem_append_left _ ha
    · exact List.mem_append_right _ (List.mem_of_mem_take ha)
  have hbundle' : ∀ a ∈ bundle.artifacts, a ∈ s'.artifacts := fun a ha =>
    mem_of_mem_bundle hperm hs' ha
  have hc₁ : Checked s₂ t bundle := hc.again h'.keyed hbundle' hsub htasks
  have horder₁ := topologicalOrder_pendingOf_take hc horder hs₁
  have hperm₁ := topologicalOrder_perm (hc₁.keyed.pendingOf s₂) horder₁
  have hwritten : s'.artifacts = s₂.artifacts ++ ordered.drop writes := by
    rw [hs₁, hs', List.append_assoc, List.take_append_drop]
  have hcheck₁ : s₂.checkBundle t bundle = .ok (replayedOf s₂ bundle, ordered.drop writes) := by
    refine (checkBundle_eq_ok hk₁).mpr ⟨hc₁, rfl, fun a ha => ?_, horder₁⟩
    apply (hc₁.validateCombinedCase_eq_ok hk₁).mpr
    -- the case of the task, all of it, and the part that is there
    have hcase := hc₁.caseEvents_perm hperm₁ hwritten a.taskId
    have hlawAll := (hlaw a ha).perm (hc.caseEvents_perm hperm hs' a.taskId)
    have hcausalAll := h'.caseCausal t a.taskId
    have hexisting := experienceEvents_perm s₂ t a.taskId
    have hpart : ∀ b ∈ s₂.experienceEvents t a.taskId, b ∈ s'.caseEvents t a.taskId := by
      intro b hb
      obtain ⟨hmem, hrest⟩ := mem_caseEvents.mp (hexisting.mem_iff.mp hb)
      exact mem_caseEvents.mpr ⟨hsub b hmem, hrest⟩
    have hcausalPart : CausalCase (s₂.experienceEvents t a.taskId) :=
      causalCase_part h' hk₁ hcausal₁ hsub hlawAll
    refine ⟨?_, hlawAll.perm hcase.symm, ?_⟩
    · apply rejectStaleOverride_of_unforked (h'.keyed.caseEvents t a.taskId) hcausalAll
        hlawAll.refs hpart (experienceEvents_keyed hk₁ t a.taskId) ?_ (hc.keyed.filter _)
        (hun a ha) hcausalPart ?_ ?_ ?_
      · intro b hb hnew
        have hb' := hcase.mem_iff.mpr hb
        rcases List.mem_append.mp hb' with hold | hpending
        · exact absurd hold hnew
        · obtain ⟨hpend, htask⟩ := List.mem_filter.mp hpending
          exact List.mem_filter.mpr ⟨(mem_pendingOf.mp hpend).1, htask⟩
      · rw [← hcase.length_eq, combinedCase, List.length_append]
        have hle : ((pendingOf s₂ bundle).filter (·.taskId == a.taskId)).length ≤
            (bundle.artifacts.filter (·.taskId == a.taskId)).length :=
          (List.filter_sublist.filter _).length_le
        omega
      · intro b hb
        obtain ⟨hbmem, htask⟩ := List.mem_filter.mp hb
        by_cases hold : b ∈ s₂.artifacts
        · left
          rw [contains_replayedOf hc.keyed hbmem, decide_eq_true_eq]
          exact hold
        · right
          refine ⟨mem_caseEvents.mpr ⟨hbundle' b hbmem, hc.isSome_event hbmem, (hc.shape b hbmem).1,
            by simpa using htask⟩, fun hin => hold ?_⟩
          exact (mem_caseEvents.mp (hexisting.mem_iff.mp hin)).1
      · exact fun b hb => hc.isSome_event (List.mem_of_mem_filter hb)
    · have hsorted := (sortArtifacts_perm (combinedCase s₂ t bundle a.taskId)).symm
      exact ⟨_, currentLessonHeads_eq ((hc₁.combined_keyed hk₁ a.taskId).perm hsorted)
        ((hcausalAll.perm hcase.symm).perm hsorted)⟩
  refine ⟨_, (importBundle_eq_ok hk₁).mpr ⟨_, hcheck₁, ?_, rfl⟩⟩
  -- the two parts are written one after the other
  unfold ExperienceStore.writeAll at hwrite hwrite₁ ⊢
  rw [← List.take_append_drop writes ordered, List.foldlM_append, hwrite₁] at hwrite
  exact hwrite

/-- What the import leaves that stops after two writes. -/
def crashStopped : ExperienceStore :=
  okOr (ExperienceStore.importUpTo {} "t" crashChunks crashBundle 2) {}

theorem crashStopped_resumed : ∃ report₁,
    crashStopped.importBundle "t" crashChunks crashBundle = .ok (report₁, crashImported.2) := by
  have hstopped : ExperienceStore.importUpTo {} "t" crashChunks crashBundle 2 = .ok crashStopped :=
    rfl
  have hnone : ∀ x ∈ crashImported.2.artifacts, x.supersedes? = none := by decide
  refine importBundle_resume Journal.empty crashBundle_importBundle hstopped fun a _ x hx y _ hsome _ => ?_
  rw [hnone x (mem_caseEvents.mp hx).1] at hsome
  exact absurd hsome (by decide)

end Experience
