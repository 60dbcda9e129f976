/-
# Artifacts by their projection chunks

An artifact is written with the chunks that project it, and `artifact_links` says which.  The
queries for lessons look for the chunks of the artifacts of a role and then for the artifacts of
these chunks (`search_task_projection_chunk_ids` and `resolve_artifacts_for_chunks` of
`store/metadata/sqlite/tasks.rs`).

* `mem_artifactsOfRole` — together they find the artifacts of the role that have a chunk;
* `Run.indexed` — every experience artifact of a run has one, and no chunk has two artifacts, as
  long as the chunk ids that are drawn are new.
-/
import Memd.ExperienceRuns

open Proc (except_bind_eq_ok)

namespace Experience

open ExperienceArtifact

variable {s s' : ExperienceStore} {a b : ExperienceArtifact} {t : TenantId} {role : String}
  {projectId : Option String}

/-- `EXHAUSTIVE_LIMIT`. -/
def exhaustiveLimit : ℕ := 9223372036854775807

namespace ExperienceStore

/-- `search_task_projection_chunk_ids` with a role and a project as filters. -/
def searchTaskProjectionChunkIds (s : ExperienceStore) (t : TenantId) (role : String)
    (projectId : Option String) (limit : ℕ) : List ChunkId :=
  let artifacts := (s.artifacts.filter fun a => a.tenantId == t && a.artifactRole == some role
      && projectId.all fun p => a.projectId == some p).insertionSort
    fun a b => b.timestampCreated ≤ a.timestampCreated
  ((artifacts.flatMap fun a => (s.links.filter (·.1 == a.artifactId)).map (·.2)).dedup).take limit

/-- `resolve_artifacts_for_chunks`: the values of the map, one for each chunk. -/
def resolveArtifactsForChunks (s : ExperienceStore) (t : TenantId) (chunkIds : List ChunkId) :
    List ExperienceArtifact :=
  let rows := (s.links.filter fun link => chunkIds.contains link.2).flatMap fun link =>
    (s.artifacts.filter fun a => a.artifactId == link.1 && a.tenantId == t).map (Prod.mk link.2)
  (rows.foldl (fun found row => Table.insertOrReplace (fun x y => x.1 == y.1) row found) []).map
    (·.2)

/-- The artifacts of a role, by way of their chunks. -/
def artifactsOfRole (s : ExperienceStore) (t : TenantId) (role : String)
    (projectId : Option String) : List ExperienceArtifact :=
  s.resolveArtifactsForChunks t (s.searchTaskProjectionChunkIds t role projectId exhaustiveLimit)

end ExperienceStore

/-! ## What is found -/

/-- No chunk projects two artifacts. -/
def OwnChunks (s : ExperienceStore) : Prop :=
  ∀ x ∈ s.links, ∀ y ∈ s.links, x.2 = y.2 → x.1 = y.1

theorem mem_searchTaskProjectionChunkIds {c : ChunkId} {limit : ℕ}
    (hlimit : s.links.length ≤ limit) :
    c ∈ s.searchTaskProjectionChunkIds t role projectId limit ↔
      ∃ a ∈ s.artifacts, a.tenantId = t ∧ a.artifactRole = some role ∧
        (∀ p ∈ projectId, a.projectId = some p) ∧ (a.artifactId, c) ∈ s.links := by
  have hmem : ∀ artifacts : List ExperienceArtifact,
      c ∈ (artifacts.flatMap fun a => (s.links.filter (·.1 == a.artifactId)).map (·.2)).dedup ↔
        ∃ a ∈ artifacts, (a.artifactId, c) ∈ s.links := by
    intro artifacts
    rw [List.mem_dedup, List.mem_flatMap]
    refine exists_congr fun a => and_congr_right fun _ => ?_
    rw [List.mem_map]
    constructor
    · rintro ⟨link, hlink, rfl⟩
      obtain ⟨hin, hid⟩ := List.mem_filter.mp hlink
      exact (beq_iff_eq.mp hid) ▸ hin
    · exact fun hin => ⟨_, List.mem_filter.mpr ⟨hin, beq_self_eq_true _⟩, rfl⟩
  -- there are no more chunks than links, so the limit cuts nothing off
  have hlength : ∀ artifacts : List ExperienceArtifact,
      (artifacts.flatMap fun a => (s.links.filter (·.1 == a.artifactId)).map (·.2)).dedup.length ≤
        s.links.length := by
    intro artifacts
    have hall : (s.links.map Prod.snd).length = s.links.length := List.length_map Prod.snd
    rw [← hall]
    apply (List.subperm_of_subset (List.nodup_dedup _) _).length_le
    intro x hx
    obtain ⟨a, -, hx⟩ := List.mem_flatMap.mp (List.mem_dedup.mp hx)
    obtain ⟨link, hlink, rfl⟩ := List.mem_map.mp hx
    exact List.mem_map_of_mem (List.mem_of_mem_filter hlink)
  unfold ExperienceStore.searchTaskProjectionChunkIds
  rw [List.take_of_length_le ((hlength _).trans hlimit), hmem]
  simp only [List.mem_insertionSort, List.mem_filter, Bool.and_eq_true, beq_iff_eq,
    Option.all_eq_true, and_assoc]
  rfl

theorem mem_resolveArtifactsForChunks (hk : KeyedIds s.artifacts) (hown : OwnChunks s)
    {chunkIds : List ChunkId} : a ∈ s.resolveArtifactsForChunks t chunkIds ↔
      a ∈ s.artifacts ∧ a.tenantId = t ∧ ∃ c ∈ chunkIds, (a.artifactId, c) ∈ s.links := by
  unfold ExperienceStore.resolveArtifactsForChunks
  generalize hrows : (List.flatMap _ _ : List (ChunkId × ExperienceArtifact)) = rows
  have hrow : ∀ row, row ∈ rows ↔ row.2 ∈ s.artifacts ∧ row.2.tenantId = t ∧
      row.1 ∈ chunkIds ∧ (row.2.artifactId, row.1) ∈ s.links := by
    intro row
    rw [← hrows, List.mem_flatMap]
    constructor
    · rintro ⟨link, hlink, hrow⟩
      obtain ⟨b, hb, rfl⟩ := List.mem_map.mp hrow
      obtain ⟨hin, hchunk⟩ := List.mem_filter.mp hlink
      obtain ⟨hbmem, hbid⟩ := List.mem_filter.mp hb
      rw [Bool.and_eq_true, beq_iff_eq, beq_iff_eq] at hbid
      exact ⟨hbmem, hbid.2, by simpa using hchunk, hbid.1 ▸ hin⟩
    · rintro ⟨hmem, htenant, hchunk, hin⟩
      refine ⟨_, List.mem_filter.mpr ⟨hin, by simpa using hchunk⟩, List.mem_map.mpr ⟨row.2, ?_, rfl⟩⟩
      rw [List.mem_filter]
      simp [hmem, htenant]
  show a ∈ (rows.foldl (fun found row =>
    Table.insertOrReplace (fun x y => x.1 == y.1) row found) []).map Prod.snd ↔ _
  rw [List.mem_map]
  simp only [Table.mem_foldl_insertOrReplace, List.not_mem_nil, false_and, false_or]
  constructor
  · rintro ⟨row, hfind, rfl⟩
    obtain ⟨hmem, htenant, hchunk, hin⟩ :=
      (hrow row).mp (List.mem_reverse.mp (List.mem_of_find?_eq_some hfind))
    exact ⟨hmem, htenant, row.1, hchunk, hin⟩
  · rintro ⟨hmem, htenant, c, hchunk, hin⟩
    -- whichever row of the chunk is kept, it is one of this artifact
    have hmine : (c, a) ∈ rows := (hrow (c, a)).mpr ⟨hmem, htenant, hchunk, hin⟩
    cases hfind : rows.reverse.find? (·.1 == c) with
    | none =>
      have hno := List.find?_eq_none.mp hfind (c, a) (List.mem_reverse.mpr hmine)
      exact absurd (beq_self_eq_true c) hno
    | some row =>
      have hid : row.1 = c := by simpa using List.find?_some hfind
      obtain ⟨hrmem, -, -, hrin⟩ :=
        (hrow row).mp (List.mem_reverse.mp (List.mem_of_find?_eq_some hfind))
      have hsame : row.2 = a := hk.eq hrmem hmem (hown _ hrin _ hin hid)
      exact ⟨row, hid ▸ hfind, hsame⟩

/-- **The artifacts of a role that are found** are those that have a chunk. -/
theorem mem_artifactsOfRole (hk : KeyedIds s.artifacts) (hown : OwnChunks s)
    (hlimit : s.links.length ≤ exhaustiveLimit) : a ∈ s.artifactsOfRole t role projectId ↔
      a ∈ s.artifacts ∧ a.tenantId = t ∧ a.artifactRole = some role ∧
        (∀ p ∈ projectId, a.projectId = some p) ∧ ∃ c, (a.artifactId, c) ∈ s.links := by
  unfold ExperienceStore.artifactsOfRole
  simp only [mem_resolveArtifactsForChunks hk hown, mem_searchTaskProjectionChunkIds hlimit]
  constructor
  · rintro ⟨hmem, htenant, c, ⟨b, hb, -, hrole, hproject, hbin⟩, hin⟩
    obtain rfl : b = a := hk.eq hb hmem (hown _ hbin _ hin rfl)
    exact ⟨hmem, htenant, hrole, hproject, c, hin⟩
  · rintro ⟨hmem, htenant, hrole, hproject, c, hin⟩
    exact ⟨hmem, htenant, c, ⟨a, hmem, htenant, hrole, hproject, hin⟩, hin⟩

/-! ## Every artifact has a chunk -/

/-- Every experience artifact has a chunk, and no chunk projects two artifacts. -/
structure Indexed (s : ExperienceStore) : Prop where
  own : OwnChunks s
  linked : ∀ a ∈ s.experience, ∃ c, (a.artifactId, c) ∈ s.links

theorem Indexed.empty : Indexed {} where
  own _ hx := absurd hx List.not_mem_nil
  linked _ ha := absurd ha List.not_mem_nil

/-- Chunk ids that no artifact has. -/
def NewChunks (s : ExperienceStore) (ids : List ChunkId) : Prop :=
  ∀ c ∈ ids, ∀ x ∈ s.links, x.2 ≠ c

theorem mem_links_insertArtifact {ids : List ChunkId} {x : String × ChunkId} :
    x ∈ (s.insertArtifact a ids).links ↔ (x.1 = a.artifactId ∧ x.2 ∈ ids) ∨
      (x ∈ s.links ∧ (a.artifactKind = .digest → x.1 ≠ a.artifactId)) := by
  show x ∈ ids.foldl (fun links c => Table.insertOrReplace (· == ·) (a.artifactId, c) links)
    (if a.artifactKind = .digest then Table.deleteWhere (·.1 == a.artifactId) s.links
      else s.links) ↔ _
  have hbase : x ∈ (if a.artifactKind = .digest then
      Table.deleteWhere (·.1 == a.artifactId) s.links else s.links) ↔
      x ∈ s.links ∧ (a.artifactKind = .digest → x.1 ≠ a.artifactId) := by
    by_cases hdigest : a.artifactKind = .digest
    · rw [if_pos hdigest, Table.mem_deleteWhere]
      simp [hdigest]
    · rw [if_neg hdigest]
      simp [hdigest]
  rw [← hbase]
  generalize (if a.artifactKind = .digest then
    Table.deleteWhere (·.1 == a.artifactId) s.links else s.links) = links
  induction ids using List.reverseRecOn with
  | nil => simp
  | append_singleton ids c ih =>
    rw [List.foldl_append, List.foldl_cons, List.foldl_nil, Table.mem_insertOrReplace]
    simp only [ih]
    by_cases hx : x = (a.artifactId, c)
    · simp [hx]
    · have hx' : ¬ (x.1 = a.artifactId ∧ x.2 = c) := fun h => hx (Prod.ext h.1 h.2)
      simp only [beq_eq_false_iff_ne, ne_eq, hx, not_false_eq_true, and_true, or_false,
        List.mem_append, List.mem_singleton, and_or_left, hx', or_false]

theorem OwnChunks.insertArtifact (hown : OwnChunks s) {ids : List ChunkId}
    (hnew : NewChunks s ids) : OwnChunks (s.insertArtifact a ids) := by
  intro x hx y hy hsame
  rcases mem_links_insertArtifact.mp hx with ⟨hxa, hxc⟩ | ⟨hx, -⟩ <;>
    rcases mem_links_insertArtifact.mp hy with ⟨hya, hyc⟩ | ⟨hy, -⟩
  · rw [hxa, hya]
  · exact absurd hsame.symm (hnew _ hxc y hy)
  · exact absurd hsame (hnew _ hyc x hx)
  · exact hown x hx y hy hsame

/-- **A write keeps the chunks of the others**, and gives the artifact its own. -/
theorem Indexed.addTaskArtifact (h : Indexed s) {ids : List ChunkId}
    (hnew : NewChunks s ids) (hsome : a.event.isSome = true → ids ≠ [])
    (hadd : s.addTaskArtifact a ids = .ok s') : Indexed s' := by
  have hs : s.insertArtifact a ids = s' := by
    obtain ⟨_, -, hs⟩ := except_bind_eq_ok.mp hadd
    exact Except.ok.inj hs
  subst hs
  refine ⟨h.own.insertArtifact hnew, fun b hb => ?_⟩
  obtain ⟨hmem, hevent⟩ := mem_experience.mp hb
  rw [insertArtifact_artifacts, Table.mem_insertOrReplace] at hmem
  by_cases hid : b.artifactId = a.artifactId
  · -- the artifact itself: what is written over an experience artifact is the same artifact
    have hb : b = a := by
      rcases hmem with ⟨-, hother⟩ | hb
      · exact absurd hid (by simpa using hother)
      · exact hb
    obtain ⟨c, hc⟩ := List.exists_mem_of_ne_nil ids (hsome (hb ▸ hevent))
    exact ⟨c, mem_links_insertArtifact.mpr (.inl ⟨hid, hc⟩)⟩
  · have hmem : b ∈ s.artifacts := by
      rcases hmem with ⟨hmem, -⟩ | hb
      · exact hmem
      · exact absurd (congrArg (·.artifactId) hb) hid
    obtain ⟨c, hc⟩ := h.linked b (mem_experience.mpr ⟨hmem, hevent⟩)
    exact ⟨c, mem_links_insertArtifact.mpr (.inr ⟨hc, fun _ => hid⟩)⟩

/-- Artifacts that are written one after the other, each with new chunks of its own. -/
theorem Indexed.writeAll (h : Indexed s) {projections : String → List ChunkId}
    {l : List ExperienceArtifact} (hk : KeyedIds l)
    (hnew : ∀ a ∈ l, projections a.artifactId ≠ [] ∧ NewChunks s (projections a.artifactId))
    (hapart : ∀ a ∈ l, ∀ b ∈ l, a.artifactId ≠ b.artifactId →
      ∀ c ∈ projections a.artifactId, c ∉ projections b.artifactId)
    (hwrite : s.writeAll projections l = .ok s') : Indexed s' := by
  induction l generalizing s with
  | nil =>
    obtain rfl := Except.ok.inj hwrite
    exact h
  | cons a l ih =>
    obtain ⟨hnotin, hk⟩ := List.nodup_cons.mp hk
    obtain ⟨s₁, hadd, hwrite⟩ := except_bind_eq_ok.mp hwrite
    have hs₁ : s.insertArtifact a (projections a.artifactId) = s₁ := by
      obtain ⟨_, -, hs₁⟩ := except_bind_eq_ok.mp hadd
      exact Except.ok.inj hs₁
    obtain ⟨hne, hfresh⟩ := hnew a List.mem_cons_self
    apply ih (h.addTaskArtifact hfresh (fun _ => hne) hadd) hk _ _ hwrite
    · intro b hb
      have hid : a.artifactId ≠ b.artifactId := by
        intro hid
        exact hnotin (List.mem_map.mpr ⟨b, hb, hid.symm⟩)
      obtain ⟨hneb, hfreshb⟩ := hnew b (List.mem_cons_of_mem a hb)
      refine ⟨hneb, fun c hc x hx => ?_⟩
      rw [← hs₁] at hx
      rcases mem_links_insertArtifact.mp hx with ⟨-, hxc⟩ | ⟨hx, -⟩
      · rintro rfl
        exact hapart a List.mem_cons_self b (List.mem_cons_of_mem a hb) hid _ hxc hc
      · exact hfreshb c hc x hx
    · intro b hb c hc
      exact hapart b (List.mem_cons_of_mem a hb) c (List.mem_cons_of_mem a hc)

/-! ## Runs -/

/-- What a call relies on: the chunk ids it draws are new, at least one for each artifact. -/
def Projects (s : ExperienceStore) : Call → Prop
  | .record _ draw _ | .recordCheck _ draw _ | .recordObservedCheck _ draw _ =>
    draw.projectionIds ≠ [] ∧ NewChunks s draw.projectionIds
  | .addTaskArtifact _ projectionIds => NewChunks s projectionIds
  | .importBundle _ projections bundle =>
    (∀ a ∈ bundle.artifacts,
      projections a.artifactId ≠ [] ∧ NewChunks s (projections a.artifactId)) ∧
    ∀ a ∈ bundle.artifacts, ∀ b ∈ bundle.artifacts, a.artifactId ≠ b.artifactId →
      ∀ c ∈ projections a.artifactId, c ∉ projections b.artifactId

/-- A sound call that draws new chunk ids. -/
def Projected (s : ExperienceStore) (call : Call) : Prop :=
  Sound s call ∧ Projects s call

theorem addTaskArtifact_of_writeArtifact {x : ExperienceArtifact} {draw : Draw}
    (h : s.writeArtifact x draw = .ok (a, s')) :
    a = x ∧ s.addTaskArtifact a draw.projectionIds = .ok s' := by
  obtain ⟨s₁, hadd, hpure⟩ := except_bind_eq_ok.mp h
  obtain ⟨rfl, rfl⟩ := Prod.mk.inj (Except.ok.inj hpure)
  exact ⟨rfl, hadd⟩

/-- A recording writes its artifact with the chunks of the draw. -/
theorem addTaskArtifact_of_record {ctx : ExperienceContext} {draw : Draw} {event : RecordEvent}
    (h : s.record ctx draw event = .ok (a, s')) :
    s.addTaskArtifact a draw.projectionIds = .ok s' := by
  cases event with
  | problem description terms =>
    obtain ⟨_, -, h⟩ := except_bind_eq_ok.mp h
    obtain ⟨_, -, h⟩ := except_bind_eq_ok.mp h
    obtain ⟨_, -, h⟩ := except_bind_eq_ok.mp h
    exact (addTaskArtifact_of_writeArtifact h).2
  | attempt problemId previous action =>
    obtain ⟨_, -, h⟩ := except_bind_eq_ok.mp h
    obtain ⟨_, -, h⟩ := except_bind_eq_ok.mp h
    obtain ⟨_, -, h⟩ := except_bind_eq_ok.mp h
    obtain ⟨_, -, h⟩ := except_bind_eq_ok.mp h
    obtain ⟨_, -, h⟩ := except_bind_eq_ok.mp h
    exact (addTaskArtifact_of_writeArtifact h).2
  | lesson lesson =>
    obtain ⟨_, -, h⟩ := except_bind_eq_ok.mp h
    obtain ⟨_, -, h⟩ := except_bind_eq_ok.mp h
    exact (addTaskArtifact_of_writeArtifact h).2
  | correction problemId supersedesId replacement =>
    obtain ⟨_, -, h⟩ := except_bind_eq_ok.mp h
    obtain ⟨_, -, h⟩ := except_bind_eq_ok.mp h
    obtain ⟨_, -, h⟩ := except_bind_eq_ok.mp h
    obtain ⟨_, -, h⟩ := except_bind_eq_ok.mp h
    obtain ⟨_, -, h⟩ := except_bind_eq_ok.mp h
    obtain ⟨_, -, h⟩ := except_bind_eq_ok.mp h
    obtain ⟨_, -, h⟩ := except_bind_eq_ok.mp h
    exact (addTaskArtifact_of_writeArtifact h).2

theorem addTaskArtifact_of_recordCheck {ctx : ExperienceContext} {draw : Draw}
    {receipt : CheckReceipt} (h : s.recordCheck ctx draw receipt = .ok (a, s')) :
    s.addTaskArtifact a draw.projectionIds = .ok s' := by
  obtain ⟨_, -, h⟩ := except_bind_eq_ok.mp h
  obtain ⟨_, -, h⟩ := except_bind_eq_ok.mp h
  obtain ⟨_, -, h⟩ := except_bind_eq_ok.mp h
  exact (addTaskArtifact_of_writeArtifact h).2

theorem addTaskArtifact_of_recordObservedCheck {ctx : ExperienceContext} {draw : Draw}
    {check : ObservedCheck} (h : s.recordObservedCheck ctx draw check = .ok (a, s')) :
    s.addTaskArtifact a draw.projectionIds = .ok s' := by
  obtain ⟨_, -, h⟩ := except_bind_eq_ok.mp h
  obtain ⟨_, -, h⟩ := except_bind_eq_ok.mp h
  obtain ⟨_, -, h⟩ := except_bind_eq_ok.mp h
  exact (addTaskArtifact_of_writeArtifact h).2

theorem Indexed.perform (h : Indexed s) (hj : Journal s) {call : Call} (hcall : Projected s call)
    (hp : s.perform call = .ok s') : Indexed s' := by
  obtain ⟨hsound, hprojects⟩ := hcall
  cases call with
  | record ctx draw event =>
    obtain ⟨a, hr⟩ := except_map_snd_eq_ok.mp hp
    exact h.addTaskArtifact hprojects.2 (fun _ => hprojects.1) (addTaskArtifact_of_record hr)
  | recordCheck ctx draw receipt =>
    obtain ⟨a, hr⟩ := except_map_snd_eq_ok.mp hp
    exact h.addTaskArtifact hprojects.2 (fun _ => hprojects.1) (addTaskArtifact_of_recordCheck hr)
  | recordObservedCheck ctx draw check =>
    obtain ⟨a, hr⟩ := except_map_snd_eq_ok.mp hp
    exact h.addTaskArtifact hprojects.2 (fun _ => hprojects.1)
      (addTaskArtifact_of_recordObservedCheck hr)
  | addTaskArtifact a projectionIds =>
    refine h.addTaskArtifact hprojects (fun hsome => ?_) hp
    rw [show a.event = none from hsound] at hsome
    exact absurd hsome (by decide)
  | importBundle t projections bundle =>
    obtain ⟨report, hi⟩ := except_map_snd_eq_ok.mp hp
    obtain ⟨ordered, hc, -, hperm, -, hwrite, -, -⟩ := hj.importBundle_spec hi
    have hsub : ∀ a ∈ ordered, a ∈ bundle.artifacts := fun a ha =>
      (mem_pendingOf.mp (hperm.mem_iff.mp ha)).1
    exact h.writeAll ((hc.keyed.pendingOf s).perm hperm.symm) (fun a ha => hprojects.1 a (hsub a ha))
      (fun a ha b hb => hprojects.2 a (hsub a ha) b (hsub b hb)) hwrite

/-- **In every run that draws new chunk ids** each experience artifact has a chunk of its own. -/
theorem Run.indexed (hrun : Run Projected s s') (hj : Journal s) (h : Indexed s) :
    Journal s' ∧ Indexed s' := by
  induction hrun with
  | refl => exact ⟨hj, h⟩
  | tail _ hstep ih =>
    obtain ⟨call, hcall, hp⟩ := hstep
    exact ⟨(ih.1.perform hcall.1 hp).1, ih.2.perform ih.1 hcall hp⟩

end Experience
