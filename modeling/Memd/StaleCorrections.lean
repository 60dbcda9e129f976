/-
# Stale corrections

What `reject_stale_override` keeps out of a journal: corrections from an old branch of a lesson
that could override its current version.

* `rejectStaleOverride_of_unforked` — where nothing is corrected twice, no correction is stale;
* `Journal.importBundle_heads` — after an import every current version of a lesson comes from one
  that was current before;
* `importBundle_stale` — a second correction of one lesson is refused when it is not older than
  what the store has.
-/
import Memd.BundleRoundTrip

open Proc (except_bind_eq_ok)

namespace Experience

open ExperienceArtifact

variable {s s' : ExperienceStore} {l l' existing imported : List ExperienceArtifact}
  {a b x root : ExperienceArtifact} {t : TenantId} {taskId id : String}
  {bundle : ExperienceBundleV1} {replayed : List String} {projections : String → List ChunkId}

/-! ## Versions of lessons -/

/-- Every version of a lesson comes from a lesson. -/
theorem exists_root (hk : KeyedIds l) (h : CausalCase l) (hrefs : ∀ a ∈ l, ∀ id,
    a.supersedes? = some id → Holds l id fun c => c.lesson?.isSome = true) (ha : a ∈ l)
    (hlesson : a.lesson?.isSome = true) :
    ∃ root ∈ l, root.isLesson = true ∧ Corrects l root a := by
  obtain ⟨rank, hranked, -⟩ := exists_ranked hk h
  induction hn : rank a.artifactId using Nat.strongRecOn generalizing a with
  | ind n ih =>
    cases hsupersedes : a.supersedes? with
    | none =>
      refine ⟨a, ha, ?_, .refl⟩
      -- it carries a lesson and is no correction
      unfold lesson? at hlesson
      unfold supersedes? at hsupersedes
      unfold isLesson
      cases hevent : a.event with
      | none => rw [hevent] at hlesson; exact absurd hlesson (by decide)
      | some event =>
        rw [hevent] at hlesson hsupersedes
        cases event with
        | lesson lesson => rfl
        | correction problemId supersedesId replacement => exact absurd hsupersedes (by simp)
        | problem description terms => exact absurd hlesson (by simp [lessonFromEvent])
        | attempt problemId previous ordinal action =>
          exact absurd hlesson (by simp [lessonFromEvent])
        | check receipt => exact absurd hlesson (by simp [lessonFromEvent])
        | observedCheck check => exact absurd hlesson (by simp [lessonFromEvent])
    | some id =>
      obtain ⟨c, hc, rfl, hclesson⟩ := hrefs a ha id hsupersedes
      have hchild : a ∈ childrenOf l c.artifactId := mem_childrenOf.mpr ⟨⟨c, hc, rfl⟩, ha, hsupersedes⟩
      have hlt : rank c.artifactId < rank a.artifactId := hranked.lt c a hchild
      obtain ⟨root, hroot, hisLesson, hcorrects⟩ := ih _ (hn ▸ hlt) hc hclesson rfl
      exact ⟨root, hroot, hisLesson, hcorrects.tail hchild⟩

/-- A part of a case whose references stay within it. -/
theorem superseded_mem (h : CausalCase existing) (hk : KeyedIds l) (hsub : ∀ a ∈ existing, a ∈ l)
    (hrefs : ∀ a ∈ l, RefsHold l a) (ha : a ∈ existing) (hid : a.supersedes? = some id) :
    Holds existing id fun c => c.lesson?.isSome = true := by
  obtain ⟨problemId, replacement, hevent⟩ := event_of_supersedes? hid
  have hholds := hrefs a (hsub a ha)
  unfold RefsHold at hholds
  rw [hevent] at hholds
  obtain ⟨-, c, hc, hcid, hlesson, -⟩ := hholds
  obtain ⟨m, hm, hordered⟩ := h
  obtain ⟨d, hd, hdid⟩ := hordered.exists_of_mem a (hm.mem_iff.mpr ha) id
    (mem_causalIds_of_supersedes hid)
  have hdl := hsub d (hm.mem_iff.mp hd)
  rw [hk.eq hc hdl (hcid.trans hdid.symm)] at hlesson
  exact ⟨d, hm.mem_iff.mp hd, hdid, hlesson⟩

/-! ## Corrections that are not stale -/

section Stale

variable (hk : KeyedIds l) (hcausal : CausalCase l) (hrefs : ∀ a ∈ l, RefsHold l a)
  (hsub : ∀ a ∈ existing, a ∈ l) (hke : KeyedIds existing)
  (himported : ∀ a ∈ l, a ∉ existing → a ∈ imported) (hki : KeyedIds imported)

include hk hcausal hrefs hsub hke himported hki in
/-- The walk from a new correction ends, at the existing version of the lesson that it comes from
or, when there is none, at a new lesson. -/
theorem firstExistingCorrectionTarget_eq_ok (hlen : l.length ≤ existing.length + imported.length)
    {z : ExperienceArtifact} (hz : z ∈ l) (hznew : z ∉ existing) (hzid : z.supersedes? = some id) :
    ∃ target, firstExistingCorrectionTarget existing imported
        (existing.length + imported.length + 1) [] id = .ok target ∧
      (∀ x ∈ target, x ∈ existing ∧ Corrects l x z ∧
        ∃ y ∈ l, y ∉ existing ∧ y.supersedes? = some x.artifactId) ∧
      (target = none → ∃ r ∈ l, r ∉ existing ∧ r.isLesson = true ∧ Corrects l r z) := by
  obtain ⟨rank, hranked, hbound⟩ := exists_ranked hk hcausal
  have hwalk : ∀ n fuel seen (z : ExperienceArtifact) (id : String), z ∈ l → z ∉ existing →
      z.supersedes? = some id → rank z.artifactId = n → n ≤ fuel →
      (∀ v ∈ seen, rank z.artifactId ≤ rank v) →
      ∃ target, firstExistingCorrectionTarget existing imported (fuel + 1) seen id = .ok target ∧
        (∀ x ∈ target, x ∈ existing ∧ Corrects l x z ∧
          ∃ y ∈ l, y ∉ existing ∧ y.supersedes? = some x.artifactId) ∧
        (target = none → ∃ r ∈ l, r ∉ existing ∧ r.isLesson = true ∧ Corrects l r z) := by
    intro n
    induction n using Nat.strongRecOn with
    | ind n ih =>
      intro fuel seen z id hz hznew hzid hrank hfuel hseen
      obtain ⟨problemId, replacement, hzevent⟩ := event_of_supersedes? hzid
      have hholds := hrefs z hz
      unfold RefsHold at hholds
      rw [hzevent] at hholds
      obtain ⟨-, c, hc, rfl, hclesson, -⟩ := hholds
      have hchild : z ∈ childrenOf l c.artifactId := mem_childrenOf.mpr ⟨⟨c, hc, rfl⟩, hz, hzid⟩
      have hlt : rank c.artifactId < rank z.artifactId := hranked.lt c z hchild
      have hnew : seen.contains c.artifactId = false := by
        rw [List.contains_eq_mem, decide_eq_false_iff_not]
        intro hmem
        have hle := hseen _ hmem
        omega
      rw [firstExistingCorrectionTarget, hnew, if_neg (by decide : ¬ false = true)]
      cases hexisting : byId existing c.artifactId with
      | some x =>
        obtain ⟨hx, hxid⟩ := (byId_eq_some hke).mp hexisting
        obtain rfl : x = c := hk.eq (hsub x hx) hc hxid
        refine ⟨some x, rfl, ?_, fun hnone => absurd hnone (by simp)⟩
        rintro _ ⟨⟩
        exact ⟨hx, .single hchild, z, hz, hznew, hzid⟩
      | none =>
        have hcnew : c ∉ existing := by
          intro hmem
          rw [(byId_eq_some hke).mpr ⟨hmem, rfl⟩] at hexisting
          exact absurd hexisting (by simp)
        dsimp only
        rw [(byId_eq_some hki).mpr ⟨himported c hc hcnew, rfl⟩]
        -- it carries a lesson: the walk ends at a lesson and goes on at a correction
        unfold lesson? at hclesson
        cases hevent : c.event with
        | none => rw [hevent] at hclesson; exact absurd hclesson (by decide)
        | some event =>
          show ∃ target, (requiredEvent c >>= _) = .ok target ∧ _
          rw [requiredEvent_eq_ok.mpr hevent]
          rw [hevent] at hclesson
          cases event with
          | lesson lesson =>
            refine ⟨none, rfl, fun x hx => absurd hx (by simp), fun _ => ?_⟩
            exact ⟨c, hc, hcnew, by unfold isLesson; rw [hevent], .single hchild⟩
          | correction problemId' supersedesId replacement' =>
            have hcid : c.supersedes? = some supersedesId := by
              unfold supersedes?
              rw [hevent]
            obtain ⟨fuel, rfl⟩ : ∃ m, fuel = m + 1 := ⟨fuel - 1, by omega⟩
            obtain ⟨target, htarget, hsome, hnone⟩ := ih (rank c.artifactId) (hrank ▸ hlt) fuel
              (c.artifactId :: seen) c supersedesId hc hcnew hcid rfl (by omega)
              (by
                intro v hv
                rcases List.mem_cons.mp hv with rfl | hv
                · exact le_rfl
                · exact hlt.le.trans (hseen v hv))
            refine ⟨target, htarget, fun x hx => ?_, fun h => ?_⟩
            · obtain ⟨hxe, hcorrects, hnew⟩ := hsome x hx
              exact ⟨hxe, hcorrects.tail hchild, hnew⟩
            · obtain ⟨r, hr, hrnew, hlesson, hcorrects⟩ := hnone h
              exact ⟨r, hr, hrnew, hlesson, hcorrects.tail hchild⟩
          | problem description terms => exact absurd hclesson (by simp [lessonFromEvent])
          | attempt problemId' previous ordinal action =>
            exact absurd hclesson (by simp [lessonFromEvent])
          | check receipt => exact absurd hclesson (by simp [lessonFromEvent])
          | observedCheck check => exact absurd hclesson (by simp [lessonFromEvent])
  have hzbound := hbound z hz
  exact hwalk _ _ [] z id hz hznew hzid rfl (by omega) fun v hv => absurd hv List.not_mem_nil

include hk hcausal hrefs hsub hke himported hki in
/-- **Where nothing is corrected twice, no correction is stale.** -/
theorem rejectStaleOverride_of_unforked (hun : Unforked l) (hce : CausalCase existing)
    (hlen : l.length ≤ existing.length + imported.length)
    (hnew : ∀ a ∈ imported, replayed.contains a.artifactId = true ∨ a ∈ l ∧ a ∉ existing)
    (hevents : ∀ a ∈ imported, a.event.isSome = true) :
    rejectStaleOverride existing imported replayed = .ok () := by
  unfold rejectStaleOverride
  split_ifs
  · rfl
  obtain ⟨heads, hheads, hmem⟩ := exists_currentByRoot hke hce
  rw [hheads]
  show imported.forM (rejectStaleCorrection existing imported heads replayed) = .ok ()
  apply Fallible.forM_eq_ok.mpr
  intro a ha
  unfold rejectStaleCorrection
  rcases hnew a ha with hreplayed | ⟨hal, hanew⟩
  · rw [if_pos hreplayed]
  split_ifs
  · rfl
  obtain ⟨event, hevent⟩ := Option.isSome_iff_exists.mp (hevents a ha)
  rw [requiredEvent_eq_ok.mpr hevent]
  cases event with
  | correction problemId supersedesId replacement =>
    have hid : a.supersedes? = some supersedesId := by
      unfold supersedes?
      rw [hevent]
    obtain ⟨target, htarget, hspec, -⟩ := firstExistingCorrectionTarget_eq_ok hk hcausal hrefs hsub hke
      himported hki hlen hal hanew hid
    show (firstExistingCorrectionTarget existing imported (existing.length + imported.length + 1) []
      supersedesId >>= _) = .ok ()
    rw [htarget]
    cases target with
    | none => rfl
    | some x =>
      obtain ⟨hx, -, y, hy, hynew, hyid⟩ := hspec x rfl
      -- the only correction of `x` is new, so `x` is a head among the existing artifacts
      have hend : childrenOf existing x.artifactId = [] := by
        apply List.eq_nil_iff_forall_not_mem.mpr
        intro w hw
        obtain ⟨-, hwe, hwid⟩ := mem_childrenOf.mp hw
        have hsame := hun y hy w (hsub w hwe) (by rw [hyid]; rfl) (hyid.trans hwid.symm)
        exact hynew (hsame ▸ hwe)
      have hxlesson : x.lesson?.isSome = true := by
        obtain ⟨problemId', replacement', hyevent⟩ := event_of_supersedes? hyid
        have hholds := hrefs y hy
        unfold RefsHold at hholds
        rw [hyevent] at hholds
        obtain ⟨-, d, hd, hdid, hdlesson, -⟩ := hholds
        rw [hk.eq hd (hsub x hx) hdid] at hdlesson
        exact hdlesson
      obtain ⟨root, hroot, hisLesson, hcorrects⟩ := exists_root hke hce
        (fun b hb id hbid => superseded_mem hce hk hsub hrefs hb hbid) hx hxlesson
      have hune : Unforked existing := fun b hb c hc => hun b (hsub b hb) c (hsub c hc)
      have hterminal : x ∈ terminalsOf existing root :=
        (mem_terminalsOf hke hce).mpr ⟨hcorrects, hend⟩
      have hgroup : [x] ∈ headGroups existing := by
        apply List.mem_map.mpr
        refine ⟨root, List.mem_filter.mpr ⟨hroot, hisLesson⟩, ?_⟩
        rw [hune.terminalsOf_eq hke] at hterminal ⊢
        rw [List.mem_singleton.mp hterminal, latest_singleton]
      have hrootOf := rootOf_eq hke hce hroot hisLesson hcorrects
      have hhead := (hmem root.artifactId x).mpr ⟨⟨[x], hgroup, List.mem_singleton_self x⟩, hrootOf⟩
      show (rootOf existing x.artifactId >>= _) = .ok ()
      rw [hrootOf]
      dsimp only
      show (if (((heads.filter (·.1 == root.artifactId)).map (·.2)).any
        (·.artifactId == x.artifactId)) = true then _ else _) = Except.ok ()
      rw [if_pos]
      rw [List.any_eq_true]
      refine ⟨x, List.mem_map.mpr ⟨_, List.mem_filter.mpr ⟨hhead, ?_⟩, rfl⟩, ?_⟩
      · exact beq_self_eq_true _
      · exact beq_self_eq_true _
  | problem description terms => rfl
  | attempt problemId previous ordinal action => rfl
  | check receipt => rfl
  | observedCheck check => rfl
  | lesson lesson => rfl

end Stale

/-! ## Times along the corrections -/

theorem Corrects.mono (h : Corrects l a b) (hsub : ∀ a ∈ l, a ∈ l') : Corrects l' a b := by
  induction h with
  | refl => exact .refl
  | tail _ hd ih =>
    obtain ⟨⟨c, hc, hid⟩, hdl, hsupersedes⟩ := mem_childrenOf.mp hd
    exact ih.tail (mem_childrenOf.mpr ⟨⟨c, hsub c hc, hid⟩, hsub _ hdl, hsupersedes⟩)

/-- A correction is not older than what it corrects. -/
theorem Corrects.eventTime_le (h : Corrects l a b) (hk : KeyedIds l)
    (hrefs : ∀ a ∈ l, RefsHold l a) (ha : a ∈ l) : a.eventTime ≤ b.eventTime := by
  induction h with
  | refl => exact le_rfl
  | @tail c d hc hd ih =>
    obtain ⟨-, hdl, hsupersedes⟩ := mem_childrenOf.mp hd
    obtain ⟨problemId, replacement, hevent⟩ := event_of_supersedes? hsupersedes
    have hholds := hrefs d hdl
    unfold RefsHold at hholds
    rw [hevent] at hholds
    obtain ⟨-, e, he, heid, -, hle⟩ := hholds
    obtain rfl := hk.eq he (Corrects.mem hc ha) heid
    exact ih.trans hle

/-- Every version of a lesson has a last version below it that is not older. -/
theorem exists_terminal (hk : KeyedIds l) (hcausal : CausalCase l)
    (hrefs : ∀ a ∈ l, RefsHold l a) (hroot : root ∈ l) (h : Corrects l root a) :
    ∃ z ∈ terminalsOf l root, a.eventTime ≤ z.eventTime := by
  obtain ⟨z, hz⟩ := List.exists_mem_of_ne_nil _ (terminalsOf_ne_nil (a := a) hk hcausal)
  obtain ⟨hcorrects, hend⟩ := (mem_terminalsOf hk hcausal).mp hz
  refine ⟨z, (mem_terminalsOf hk hcausal).mpr ⟨h.trans hcorrects, hend⟩, ?_⟩
  exact Corrects.eventTime_le hcorrects hk hrefs (Corrects.mem h hroot)

/-- The latest versions of a lesson do not depend on the order of the case. -/
theorem mem_latest_perm (hk : KeyedIds l) (hcausal : CausalCase l) (hp : l.Perm l') :
    a ∈ latest (terminalsOf l root) ↔ a ∈ latest (terminalsOf l' root) := by
  have hterminals : ∀ a, a ∈ terminalsOf l root ↔ a ∈ terminalsOf l' root := by
    intro a
    have hchildren : ∀ id c, c ∈ childrenOf l id ↔ c ∈ childrenOf l' id := by
      intro id c
      simp only [mem_childrenOf, hp.mem_iff]
    rw [mem_terminalsOf hk hcausal, mem_terminalsOf (hk.perm hp) (hcausal.perm hp),
      List.eq_nil_iff_forall_not_mem, List.eq_nil_iff_forall_not_mem]
    simp only [hchildren]
    exact and_congr_left fun _ => ⟨fun h => h.mono fun _ hc => hp.mem_iff.mp hc,
      fun h => h.mono fun _ hc => hp.mem_iff.mpr hc⟩
  rw [mem_latest_iff, mem_latest_iff, hterminals]
  simp only [hterminals]

/-! ## What an import may change -/

/-- **A new correction is let through** when it comes from a current version of its lesson, or is
older than one. -/
theorem rejectStaleCorrection_eq_ok (hke : KeyedIds existing) (hce : CausalCase existing)
    {heads : List (String × ExperienceArtifact)}
    (hheads : ∀ root a, (root, a) ∈ heads ↔
      (∃ g ∈ headGroups existing, a ∈ g) ∧ rootOf existing a.artifactId = .ok root)
    (hnew : replayed.contains a.artifactId = false) (hid : a.supersedes? = some id)
    (htarget : firstExistingCorrectionTarget existing imported
      (existing.length + imported.length + 1) [] id = .ok (some x))
    (hroot : root ∈ existing) (hlesson : root.isLesson = true) (hx : Corrects existing root x)
    {u : Unit} : rejectStaleCorrection existing imported heads replayed a = .ok u ↔
      x ∈ latest (terminalsOf existing root) ∨
        ∃ b ∈ latest (terminalsOf existing root), a.eventTime < b.eventTime := by
  obtain ⟨problemId, replacement, hevent⟩ := event_of_supersedes? hid
  -- the heads of the root are its latest versions
  have hcurrent : ∀ b, b ∈ (heads.filter (·.1 == root.artifactId)).map (·.2) ↔
      b ∈ latest (terminalsOf existing root) := by
    intro b
    have hmap : b ∈ (heads.filter (·.1 == root.artifactId)).map (·.2) ↔
        (root.artifactId, b) ∈ heads := by
      simp only [List.mem_map, List.mem_filter, beq_iff_eq]
      constructor
      · rintro ⟨⟨r, c⟩, ⟨hmem, rfl⟩, rfl⟩
        exact hmem
      · exact fun h => ⟨_, ⟨h, rfl⟩, rfl⟩
    rw [hmap, hheads]
    constructor
    · rintro ⟨⟨g, hg, hb⟩, hrootOf⟩
      obtain ⟨r, hr, rfl⟩ := List.mem_map.mp hg
      obtain ⟨hrmem, hrlesson⟩ := List.mem_filter.mp hr
      obtain ⟨hterminal, -⟩ := mem_latest.mp hb
      have hcorrects := ((mem_terminalsOf hke hce).mp hterminal).1
      have hsame := (rootOf_eq hke hce hrmem hrlesson hcorrects).symm.trans hrootOf
      rw [hke.eq hrmem hroot (Except.ok.inj hsame)] at hb
      exact hb
    · intro hb
      obtain ⟨hterminal, -⟩ := mem_latest.mp hb
      have hcorrects := ((mem_terminalsOf hke hce).mp hterminal).1
      exact ⟨⟨_, List.mem_map.mpr ⟨root, List.mem_filter.mpr ⟨hroot, hlesson⟩, rfl⟩, hb⟩,
        rootOf_eq hke hce hroot hlesson hcorrects⟩
  have hany : (((heads.filter (·.1 == root.artifactId)).map (·.2)).any
      (·.artifactId == x.artifactId)) = true ↔ x ∈ latest (terminalsOf existing root) := by
    rw [List.any_eq_true]
    constructor
    · rintro ⟨b, hb, hbid⟩
      have hlatest := (hcurrent b).mp hb
      have hbmem := Corrects.mem ((mem_terminalsOf hke hce).mp (mem_latest.mp hlatest).1).1 hroot
      rw [hke.eq (Corrects.mem hx hroot) hbmem (beq_iff_eq.mp hbid).symm]
      exact hlatest
    · exact fun h => ⟨x, (hcurrent x).mpr h, beq_self_eq_true _⟩
  unfold rejectStaleCorrection
  rw [hnew, if_neg (by decide : ¬ false = true), requiredEvent_eq_ok.mpr hevent]
  show (firstExistingCorrectionTarget existing imported (existing.length + imported.length + 1) []
    id >>= _) = .ok u ↔ _
  rw [htarget]
  show (rootOf existing x.artifactId >>= _) = .ok u ↔ _
  rw [rootOf_eq hke hce hroot hlesson hx]
  show (if (((heads.filter (·.1 == root.artifactId)).map (·.2)).any
    (·.artifactId == x.artifactId)) = true then _ else _) = Except.ok u ↔ _
  split_ifs with hhead
  · exact ⟨fun _ => .inl (hany.mp hhead), fun _ => rfl⟩
  · have hnothead : x ∉ latest (terminalsOf existing root) := fun h => hhead (hany.mpr h)
    cases hnewest : Selection.maxByKey eventTime
        ((heads.filter (·.1 == root.artifactId)).map (·.2)) with
    | none =>
      obtain ⟨b, hb⟩ := exists_mem_latest (terminalsOf_ne_nil (a := root) hke hce)
      have hbmem := (hcurrent b).mpr hb
      rw [Selection.maxByKey_eq_none.mp hnewest] at hbmem
      exact absurd hbmem List.not_mem_nil
    | some newest =>
      obtain ⟨hmem, hmax⟩ := Selection.maxByKey_eq_some hnewest
      rw [demand_eq_ok, decide_eq_true_eq]
      constructor
      · exact fun hlt => .inr ⟨newest, (hcurrent newest).mp hmem, hlt⟩
      · rintro (h | ⟨b, hb, hlt⟩)
        · exact absurd h hnothead
        · exact hlt.trans_le (hmax b ((hcurrent b).mpr hb))

/-- What the check of a task of a bundle has let through. -/
theorem Journal.rejectStaleOverride_eq_ok (h : Journal s)
    (hstale : rejectStaleOverride (s.experienceEvents t taskId)
      (bundle.artifacts.filter (·.taskId == taskId)) (replayedOf s bundle) = .ok ())
    (hne : s.experienceEvents t taskId ≠ []) :
    ∃ heads, (∀ root a, (root, a) ∈ heads ↔
      (∃ g ∈ headGroups (s.experienceEvents t taskId), a ∈ g) ∧
        rootOf (s.experienceEvents t taskId) a.artifactId = .ok root) ∧
      ∀ a ∈ bundle.artifacts, a.taskId = taskId →
        rejectStaleCorrection (s.experienceEvents t taskId)
          (bundle.artifacts.filter (·.taskId == taskId)) heads (replayedOf s bundle) a = .ok () := by
  have hperm := (experienceEvents_perm s t taskId).symm
  obtain ⟨heads, hheads, hspec⟩ := exists_currentByRoot (experienceEvents_keyed h.keyed t taskId)
    ((h.caseCausal t taskId).perm hperm)
  refine ⟨heads, hspec, fun a ha htask => ?_⟩
  unfold rejectStaleOverride at hstale
  rw [if_neg (fun hempty => hne (List.isEmpty_iff.mp hempty)), hheads] at hstale
  have hall := Fallible.forM_eq_ok.mp hstale
  exact hall a (List.mem_filter.mpr ⟨ha, by simpa using htask⟩)

/-- **An import does not override a current lesson from an old branch.**  Whatever is the current
version of a lesson after an import, or a side of a conflict the times leave open, comes from one
that was so before. -/
theorem Journal.importBundle_heads (h : Journal s) {report : ImportReport}
    (hi : s.importBundle t projections bundle = .ok (report, s'))
    (hroot : root ∈ s.caseEvents t taskId) (hlesson : root.isLesson = true)
    (hb : b ∈ latest (terminalsOf (s'.caseEvents t taskId) root)) :
    ∃ a ∈ latest (terminalsOf (s.caseEvents t taskId) root),
      Corrects (s'.caseEvents t taskId) a b := by
  have h' := h.importBundle hi
  obtain ⟨ordered, hcheck, -⟩ := (importBundle_eq_ok h.keyed).mp hi
  obtain ⟨-, -, hcases, -⟩ := (checkBundle_eq_ok h.keyed).mp hcheck
  obtain ⟨ordered, hc, horder, hperm, hlaw, -, hs, -⟩ := h.importBundle_spec hi
  have hk := h.keyed.caseEvents t taskId
  have hk' := h'.keyed.caseEvents t taskId
  have hcausal := h.caseCausal t taskId
  have hcausal' := h'.caseCausal t taskId
  have hsub : ∀ a ∈ s.caseEvents t taskId, a ∈ s'.caseEvents t taskId := by
    intro a ha
    rw [caseEvents_writeAll hs]
    exact List.mem_append_left _ ha
  have hrefs := (h.caseLaw hroot).refs
  have hrefs' := (h'.caseLaw (hsub root hroot)).refs
  obtain ⟨hbterminal, hbmax⟩ := mem_latest_iff.mp hb
  obtain ⟨hbcorrects, hbend⟩ := (mem_terminalsOf hk' hcausal').mp hbterminal
  have hbmem := Corrects.mem hbcorrects (hsub root hroot)
  -- no last version of before is younger than what is current now
  have hyoung : ∀ a ∈ terminalsOf (s.caseEvents t taskId) root, a.eventTime ≤ b.eventTime := by
    intro a ha
    have hcorrects := ((mem_terminalsOf hk hcausal).mp ha).1
    obtain ⟨z, hz, hle⟩ := exists_terminal hk' hcausal' hrefs' (hsub root hroot)
      (hcorrects.mono hsub)
    exact hle.trans (hbmax z hz)
  by_cases hold : b ∈ s.caseEvents t taskId
  · -- an artifact that was there before: it was a last version, and not older than the others
    have hlessonb := Corrects.isSome_lesson? hbcorrects hlesson
    obtain ⟨r, hr, hrlesson, hrcorrects⟩ := exists_root hk hcausal
      (fun c hc id hid => superseded_mem hcausal hk (fun _ hm => hm) hrefs hc hid) hold hlessonb
    have hsame : r = root := Corrects.root_eq (hrcorrects.mono hsub) hbcorrects hk' (hsub r hr)
      (hsub root hroot) hrlesson hlesson
    subst hsame
    have hend : childrenOf (s.caseEvents t taskId) b.artifactId = [] := by
      apply List.eq_nil_iff_forall_not_mem.mpr
      intro w hw
      have hchild : w ∈ childrenOf (s'.caseEvents t taskId) b.artifactId := by
        obtain ⟨⟨c, hc, hid⟩, hwmem, hwid⟩ := mem_childrenOf.mp hw
        exact mem_childrenOf.mpr ⟨⟨c, hsub c hc, hid⟩, hsub w hwmem, hwid⟩
      rw [hbend] at hchild
      exact absurd hchild List.not_mem_nil
    have hterminal := (mem_terminalsOf hk hcausal).mpr ⟨hrcorrects, hend⟩
    exact ⟨b, mem_latest_iff.mpr ⟨hterminal, hyoung⟩, .refl⟩
  · -- an artifact of the bundle: the check let it through
    have hrest := hbmem
    rw [caseEvents_writeAll hs] at hrest
    have hordered : b ∈ ordered := by
      rcases List.mem_append.mp hrest with hin | hin
      · exact absurd hin hold
      · exact List.mem_of_mem_filter hin
    obtain ⟨hbundle, hbnew⟩ := mem_pendingOf.mp (hperm.mem_iff.mp hordered)
    have hbtask : b.taskId = taskId := (mem_caseEvents.mp hbmem).2.2.2
    obtain ⟨id, hid⟩ : ∃ id, b.supersedes? = some id := by
      rcases hbcorrects.cases_tail with rfl | ⟨c, -, hcb⟩
      · exact absurd hroot hold
      · exact ⟨_, (mem_childrenOf.mp hcb).2.2⟩
    have hexisting := experienceEvents_perm s t taskId
    have hke := experienceEvents_keyed h.keyed t taskId
    have hce := hcausal.perm hexisting.symm
    have hcase := hc.caseEvents_perm hperm hs taskId
    obtain ⟨target, htarget, hsome, hnone⟩ := firstExistingCorrectionTarget_eq_ok
      hk' hcausal' hrefs'
      (fun a ha => hsub a (hexisting.mem_iff.mp ha)) hke
      (by
        intro a ha hnew
        rcases List.mem_append.mp (hcase.mem_iff.mpr ha) with hin | hin
        · exact absurd hin hnew
        · obtain ⟨hpend, htask⟩ := List.mem_filter.mp hin
          exact List.mem_filter.mpr ⟨(mem_pendingOf.mp hpend).1, htask⟩)
      (hc.keyed.filter _)
      (by
        rw [← hcase.length_eq, combinedCase, List.length_append]
        have hle : ((pendingOf s bundle).filter (·.taskId == taskId)).length ≤
            (bundle.artifacts.filter (·.taskId == taskId)).length :=
          (List.filter_sublist.filter _).length_le
        omega)
      hbmem (fun hin => hold (hexisting.mem_iff.mp hin)) hid
    cases target with
    | none =>
      obtain ⟨r, hr, hrnew, hrlesson, hrcorrects⟩ := hnone rfl
      have hsame : r = root := Corrects.root_eq hrcorrects hbcorrects hk' hr (hsub root hroot)
        hrlesson hlesson
      exact absurd (hexisting.mem_iff.mpr (hsame ▸ hroot)) hrnew
    | some x =>
      obtain ⟨hx, hxcorrects, y, -, -, hyid⟩ := hsome x rfl
      have hxmem := hexisting.mem_iff.mp hx
      have hxlesson : x.lesson?.isSome = true := by
        rcases hxcorrects.cases_head with rfl | ⟨c, hcx, -⟩
        · exact absurd hxmem hold
        · obtain ⟨-, hcmem, hcid⟩ := mem_childrenOf.mp hcx
          obtain ⟨d, hd, hdid, hdlesson⟩ :=
            superseded_mem hcausal' hk' (fun _ hm => hm) hrefs' hcmem hcid
          rw [hk'.eq hd (hsub x hxmem) hdid] at hdlesson
          exact hdlesson
      obtain ⟨r, hr, hrlesson, hrcorrects⟩ := exists_root hke hce
        (fun c hc id hid => superseded_mem hce hk (fun _ hm => hexisting.mem_iff.mp hm) hrefs hc hid)
        hx hxlesson
      have hrmem := hexisting.mem_iff.mp hr
      have hsame : r = root := Corrects.root_eq
        ((hrcorrects.mono fun _ hm => hsub _ (hexisting.mem_iff.mp hm)).trans hxcorrects) hbcorrects
        hk' (hsub r hrmem) (hsub root hroot) hrlesson hlesson
      subst hsame
      have hok := hcases b hbundle
      rw [hbtask] at hok
      have hstale := ((hc.validateCombinedCase_eq_ok h.keyed).mp hok).1
      obtain ⟨heads, hheads, hall⟩ := h.rejectStaleOverride_eq_ok hstale
        (List.ne_nil_of_mem hx)
      have hnew : (replayedOf s bundle).contains b.artifactId = false := by
        rw [contains_replayedOf hc.keyed hbundle, decide_eq_false_iff_not]
        exact hbnew
      rcases (rejectStaleCorrection_eq_ok hke hce hheads hnew hid htarget hr hrlesson
        hrcorrects).mp (hall b hbundle hbtask) with hhead | ⟨a, ha, hlt⟩
      · exact ⟨x, (mem_latest_perm hke hce hexisting).mp hhead, hxcorrects⟩
      · have hbefore := (mem_latest.mp ((mem_latest_perm hke hce hexisting).mp ha)).1
        exact absurd (hyoung a hbefore) (not_le.mpr hlt)

/-- The lesson of the sample. -/
def crashLearned : ExperienceArtifact :=
  lessonArtifact crashContext ⟨⟨"l1", "", 4⟩, [4]⟩ "experience-u" (crashGuidance "add memory")

/-- A correction of the sample's lesson. -/
def crashFixed : ExperienceArtifact :=
  correctionArtifact crashContext (correctionDraw 5) "experience-u" "p1" "l1"
    (crashGuidance "less load")

/-- The case with its correction. -/
def correctedBundle : ExperienceBundleV1 :=
  okOr ((crashStore 5).exportBundle "t" ["p1"]) ⟨"", 0, "", []⟩

/-- What its import into the store without the correction leaves. -/
def crashMerged : ImportReport × ExperienceStore :=
  okOr ((crashStore 4).importBundle "t" crashChunks correctedBundle) (⟨[], []⟩, {})

theorem mem_crashLearned : crashLearned ∈ (crashStore 4).caseEvents "t" "experience-u" := by
  decide

theorem crashMerged_heads :
    ∃ a ∈ latest (terminalsOf ((crashStore 4).caseEvents "t" "experience-u") crashLearned),
      Corrects (crashMerged.2.caseEvents "t" "experience-u") a crashFixed :=
  have hi : (crashStore 4).importBundle "t" crashChunks correctedBundle =
      .ok (crashMerged.1, crashMerged.2) := rfl
  crashStore_journal.importBundle_heads hi mem_crashLearned rfl (List.mem_singleton_self crashFixed)

/-- **A second correction** of a lesson is refused, with its whole bundle, when it is not older than
the versions the store has. -/
theorem importBundle_stale (h : Journal s) (hbundle : b ∈ bundle.artifacts)
    (hnew : b ∉ s.artifacts) (hx : x ∈ s.caseEvents t b.taskId)
    (hid : b.supersedes? = some x.artifactId)
    (hcorrected : childrenOf (s.caseEvents t b.taskId) x.artifactId ≠ [])
    (hold : ∀ a ∈ s.caseEvents t b.taskId, a.lesson?.isSome = true → a.eventTime ≤ b.eventTime)
    (result : ImportReport × ExperienceStore) :
    s.importBundle t projections bundle ≠ .ok result := by
  intro hi
  obtain ⟨report, s'⟩ := result
  obtain ⟨ordered, hcheck, -⟩ := (importBundle_eq_ok h.keyed).mp hi
  obtain ⟨hc, -, hcases, -⟩ := (checkBundle_eq_ok h.keyed).mp hcheck
  have hk := h.keyed.caseEvents t b.taskId
  have hcausal := h.caseCausal t b.taskId
  have hexisting := (experienceEvents_perm s t b.taskId).symm
  have hke := hk.perm hexisting
  have hce := hcausal.perm hexisting
  have hrefs := (h.caseLaw hx).refs
  -- what is corrected already is a version of a lesson, and not one of the last
  obtain ⟨c, hchild⟩ := List.exists_mem_of_ne_nil _ hcorrected
  have hxlesson : x.lesson?.isSome = true := by
    obtain ⟨-, hcmem, hcid⟩ := mem_childrenOf.mp hchild
    obtain ⟨d, hd, hdid, hdlesson⟩ := superseded_mem hcausal hk (fun _ hm => hm) hrefs hcmem hcid
    rw [hk.eq hd hx hdid] at hdlesson
    exact hdlesson
  obtain ⟨root, hroot, hlesson, hcorrects⟩ := exists_root hk hcausal
    (fun a ha id hid => superseded_mem hcausal hk (fun _ hm => hm) hrefs ha hid) hx hxlesson
  have htarget : firstExistingCorrectionTarget (s.experienceEvents t b.taskId)
      (bundle.artifacts.filter (·.taskId == b.taskId)) ((s.experienceEvents t b.taskId).length +
        (bundle.artifacts.filter (·.taskId == b.taskId)).length + 1) [] x.artifactId =
      .ok (some x) := by
    rw [firstExistingCorrectionTarget, (byId_eq_some hke).mpr ⟨hexisting.mem_iff.mp hx, rfl⟩]
    rfl
  obtain ⟨heads, hheads, hall⟩ := h.rejectStaleOverride_eq_ok
    ((hc.validateCombinedCase_eq_ok h.keyed).mp (hcases b hbundle)).1
    (List.ne_nil_of_mem (hexisting.mem_iff.mp hx))
  have hreplayed : (replayedOf s bundle).contains b.artifactId = false := by
    rw [contains_replayedOf hc.keyed hbundle, decide_eq_false_iff_not]
    exact hnew
  rcases (rejectStaleCorrection_eq_ok hke hce hheads hreplayed hid htarget
    (hexisting.mem_iff.mp hroot) hlesson (hcorrects.mono fun _ hm => hexisting.mem_iff.mp hm)).mp
    (hall b hbundle rfl) with hhead | ⟨a, ha, hlt⟩
  · have hterminal := (mem_latest.mp ((mem_latest_perm hk hcausal hexisting).mpr hhead)).1
    exact hcorrected ((mem_terminalsOf hk hcausal).mp hterminal).2
  · have hterminal := (mem_latest.mp ((mem_latest_perm hk hcausal hexisting).mpr ha)).1
    have hacorrects := ((mem_terminalsOf hk hcausal).mp hterminal).1
    have halesson := Corrects.isSome_lesson? hacorrects hlesson
    exact absurd (hold a (Corrects.mem hacorrects hroot) halesson) (not_le.mpr hlt)

/-- Another correction of the lesson, after the first. -/
def crashFork : ExperienceArtifact :=
  correctionArtifact crashContext ⟨⟨"y1", "", 6⟩, [6]⟩ "experience-u" "p1" "l1"
    (crashGuidance "more swap")

/-- The case of a store that has only the second correction. -/
def forkedBundle : ExperienceBundleV1 :=
  { correctedBundle with artifacts := correctedBundle.artifacts.dropLast ++ [crashFork] }

theorem forkedBundle_refused :
    (crashStore 5).importBundle "t" crashChunks forkedBundle ≠ .ok crashMerged :=
  have hjournal : Journal (crashStore 5) :=
    (Run.journal (Run.sound crashStore_corrected) crashStore_journal).1
  importBundle_stale (x := crashLearned) (b := crashFork) hjournal (by decide) (by decide) (by decide)
    rfl (by decide) (by decide) crashMerged

end Experience
