/-
# The journal in the tables of a store

The recording calls of experiences work on the artifact tables alone (`ExperienceStore`), the calls
of a store on all tables and the files.  An artifact of the journal is in `task_artifacts` as a row
whose payload is the text of its event (`ExperienceArtifact.row`); how events are written as texts
is a parameter, of which only that different events have different texts is used.

* `InTables` — the tables hold the journal;
* `ensureTaskArtifactWriteSafe_row` — the guards of both give the same answer;
* `InTables.insertTaskArtifactBundle` — the transaction of the one is the write of the other;
* `InRows.addTaskArtifact` — wherever a call of a store stops, the tables hold the journal before
  the write, and the call has failed, or the journal after it.
-/
import Memd.ArtifactStore
import Memd.ProjectionLinks
import Memd.TenantIsolation

namespace Experience

/-- The row of an artifact: its payload is the text of its event. -/
def ExperienceArtifact.row (encode : ExperienceEvent → String) (a : ExperienceArtifact) :
    TaskArtifact :=
  { a.toTaskArtifact with experience := a.event.map encode }

/-- The rows of the artifacts and of the tasks are those of the journal. -/
structure InRows (encode : ExperienceEvent → String) (db : Db) (s : ExperienceStore) : Prop where
  artifacts : db.taskArtifacts = s.artifacts.map (·.row encode)
  tasks : db.tasks = s.tasks
  plain : ∀ a ∈ s.artifacts, a.experience = none

/-- **The tables hold the journal**, with the links to its projection chunks. -/
structure InTables (encode : ExperienceEvent → String) (db : Db) (s : ExperienceStore) : Prop
    extends InRows encode db s where
  links : ∀ id c, (id, c) ∈ s.links ↔
    ∃ kind, (⟨id, c, .retrievalProjection, kind⟩ : ArtifactLink) ∈ db.artifactLinks

section Tables

variable {encode : ExperienceEvent → String} {db db' : Db} {s s' : ExperienceStore}
  {a b : ExperienceArtifact}

/-- Different artifacts have different rows. -/
theorem row_inj (hencode : Function.Injective encode) (ha : a.experience = none)
    (hb : b.experience = none) : a.row encode = b.row encode ↔ a = b := by
  refine ⟨fun h => ?_, fun h => h ▸ rfl⟩
  have hwith : ∀ x : ExperienceArtifact, x.experience = none →
      { x.row encode with experience := none } = x.toTaskArtifact := by
    intro x hx
    have hself : { x.toTaskArtifact with experience := x.experience } = x.toTaskArtifact := rfl
    rw [hx] at hself
    exact hself
  have hrow : a.toTaskArtifact = b.toTaskArtifact := by
    rw [← hwith a ha, ← hwith b hb, h]
  have hevent : a.event.map encode = b.event.map encode :=
    congrArg (fun x : TaskArtifact => x.experience) h
  obtain ⟨x, e⟩ := a
  obtain ⟨y, e'⟩ := b
  obtain rfl : x = y := hrow
  obtain rfl : e = e' := Option.map_injective hencode hevent
  rfl

/-- The guard against an overwrite, on artifacts and on their rows. -/
theorem rejectExperienceArtifactOverwrite_row (hencode : Function.Injective encode)
    (ha : a.experience = none) {existing : Option ExperienceArtifact}
    (hold : ∀ b ∈ existing, b.experience = none) :
    Db.rejectExperienceArtifactOverwrite (existing.map (·.row encode)) (a.row encode) =
      ExperienceStore.rejectExperienceArtifactOverwrite existing a := by
  cases existing with
  | none => rfl
  | some b =>
    have hrow := row_inj hencode (hold b rfl) ha
    have hb : (b.row encode).experience.isSome = b.event.isSome := Option.isSome_map
    have ha' : (a.row encode).experience.isSome = a.event.isSome := Option.isSome_map
    simp only [Option.map_some, Db.rejectExperienceArtifactOverwrite,
      ExperienceStore.rejectExperienceArtifactOverwrite, hrow, hb, ha']
    by_cases heq : b = a
    · simp [heq, demand]
    · cases b.event <;> cases a.event <;> simp [heq, demand] <;> rfl

/-- **The guards give the same answer** on the tables and on the journal. -/
theorem ensureTaskArtifactWriteSafe_row (hencode : Function.Injective encode)
    (h : InRows encode db s) (ha : a.experience = none) :
    db.ensureTaskArtifactWriteSafe (a.row encode) = s.ensureTaskArtifactWriteSafe a := by
  have hfound : db.taskArtifacts.find? (·.artifactId == (a.row encode).artifactId) =
      (s.getTaskArtifactGlobal a.artifactId).map (·.row encode) := by
    rw [h.artifacts, List.find?_map]
    rfl
  have hold : ∀ b ∈ s.getTaskArtifactGlobal a.artifactId, b.experience = none :=
    fun b hb => h.plain b (List.mem_of_find?_eq_some hb)
  have hguard := rejectExperienceArtifactOverwrite_row hencode ha hold
  unfold Db.ensureTaskArtifactWriteSafe ExperienceStore.ensureTaskArtifactWriteSafe
  rw [hfound, hguard, h.tasks]
  rfl

/-- The rows of a write are those of the journal behind it. -/
theorem InRows.write (h : InRows encode db s) (ha : a.experience = none) (ids : List ChunkId)
    (hartifacts : db'.taskArtifacts = (db.writeTaskRows (a.row encode)).taskArtifacts)
    (htasks : db'.tasks = (db.writeTaskRows (a.row encode)).tasks) :
    InRows encode db' (s.insertArtifact a ids) where
  artifacts := by
    rw [hartifacts]
    show Table.insertOrReplace (fun x y => x.artifactId == y.artifactId) (a.row encode)
      db.taskArtifacts = (Table.insertOrReplace (fun x y => x.artifactId == y.artifactId) a
        s.artifacts).map (·.row encode)
    rw [h.artifacts, Table.insertOrReplace, Table.insertOrReplace, List.map_append, List.filter_map]
    rfl
  tasks := by
    rw [htasks]
    show (if a.artifactKind ≠ .digest then
      Db.upsertTask db.tasks (Db.taskRowOf (a.row encode)) else db.tasks) = _
    rw [h.tasks]
    rfl
  plain := by
    intro b hb
    have hmem : b ∈ Table.insertOrReplace (fun x y => x.artifactId == y.artifactId) a s.artifacts := hb
    rcases Table.mem_insertOrReplace.mp hmem with ⟨hb, _⟩ | rfl
    · exact h.plain b hb
    · exact ha

/-- The links of a bundle: those of before, less the old ones of a digest, and the new ones. -/
theorem links_applyBundle (x : TaskArtifact) (ids : List ChunkId) (kinds : List String)
    (id : String) (c : ChunkId) :
    (∃ kind, (⟨id, c, .retrievalProjection, kind⟩ : ArtifactLink) ∈
        (db.applyBundle x ids kinds).artifactLinks) ↔
      (id = x.artifactId ∧ c ∈ ids) ∨
        ((∃ kind, (⟨id, c, .retrievalProjection, kind⟩ : ArtifactLink) ∈ db.artifactLinks) ∧
          (x.artifactKind = .digest → id ≠ x.artifactId)) := by
  have hlast : (∃ kind, Db.lastProjectionKind ids kinds c = some kind) ↔ c ∈ ids := by
    rw [← Option.isSome_iff_exists, Db.lastProjectionKind, Option.isSome_map, List.find?_isSome]
    simp only [List.mem_reverse, List.mem_mapIdx, beq_iff_eq]
    constructor
    · rintro ⟨_, ⟨n, hn, rfl⟩, rfl⟩
      exact List.getElem_mem hn
    · intro hc
      obtain ⟨n, hn, rfl⟩ := List.getElem_of_mem hc
      exact ⟨_, ⟨n, hn, rfl⟩, rfl⟩
  rw [(Db.ownChunks_applyBundle db x ids kinds).artifactLinks]
  simp only [Db.mem_linkProjections]
  constructor
  · rintro ⟨kind, ⟨hmem, hold⟩ | ⟨hid, hkind⟩⟩
    · by_cases hnew : id = x.artifactId ∧ c ∈ ids
      · exact .inl hnew
      · exact .inr ⟨⟨kind, hmem⟩, fun hdigest hid => hold ⟨hid, .inl hdigest⟩⟩
    · exact .inl ⟨hid, hlast.mp ⟨kind, hkind⟩⟩
  · rintro (⟨hid, hc⟩ | ⟨⟨kind, hmem⟩, hdigest⟩)
    · obtain ⟨kind, hkind⟩ := hlast.mpr hc
      exact ⟨kind, .inr ⟨hid, hkind⟩⟩
    · by_cases hnew : id = x.artifactId ∧ c ∈ ids
      · obtain ⟨kind', hkind⟩ := hlast.mpr hnew.2
        exact ⟨kind', .inr ⟨hnew.1, hkind⟩⟩
      · refine ⟨kind, .inl ⟨hmem, ?_⟩⟩
        rintro ⟨hid, hor⟩
        rcases hor with hd | hc
        · exact hdigest hd hid
        · exact hnew ⟨hid, hc⟩

theorem InTables.write (h : InTables encode db s) (ha : a.experience = none) (ids : List ChunkId)
    (kinds : List String) :
    InTables encode (db.applyBundle (a.row encode) ids kinds) (s.insertArtifact a ids) := by
  obtain ⟨hartifacts, htasks⟩ := applyBundle_tables db (a.row encode) ids kinds
  refine ⟨h.toInRows.write ha ids hartifacts htasks, fun id c => ?_⟩
  rw [mem_links_insertArtifact, links_applyBundle]
  exact or_congr Iff.rfl (and_congr_left fun _ => h.links id c)

/-- **The transaction is the write of the journal**: it is refused with the same error, or leaves the
tables with the journal behind the write. -/
theorem InTables.insertTaskArtifactBundle (hencode : Function.Injective encode)
    (h : InTables encode db s) (ha : a.experience = none) (ids : List ChunkId) (kinds : List String) :
    (∃ e, db.insertTaskArtifactBundle (a.row encode) ids kinds = .error e ∧
        s.addTaskArtifact a ids = .error e) ∨
      ∃ db' s', db.insertTaskArtifactBundle (a.row encode) ids kinds = .ok ((), db') ∧
        s.addTaskArtifact a ids = .ok s' ∧ InTables encode db' s' := by
  have hguards := ensureTaskArtifactWriteSafe_row hencode h.toInRows ha
  unfold Db.insertTaskArtifactBundle ExperienceStore.addTaskArtifact
  rw [hguards]
  cases s.ensureTaskArtifactWriteSafe a with
  | error e => exact .inl ⟨e, rfl, rfl⟩
  | ok _ => exact .inr ⟨_, _, rfl, rfl, h.write ha ids kinds⟩

/-- **A call of a store** that writes an artifact of the journal, wherever it stops. -/
theorem InRows.addTaskArtifact {c : Cluster} (hencode : Function.Injective encode)
    (h : InRows encode c.db s) (ha : a.experience = none) (ext : Externals) (call : StoreCall)
    (projections : List PersistentStore.TaskProjection) (ids : List ChunkId) :
    (∃ s', s.addTaskArtifact a ids = .ok s' ∧
        InRows encode (c.addTaskArtifact ext call (a.row encode) projections).2.db s') ∨
      InRows encode (c.addTaskArtifact ext call (a.row encode) projections).2.db s ∧
        ∃ e, (c.addTaskArtifact ext call (a.row encode) projections).1 = .error e := by
  rcases c.addTaskArtifact_tables ext call (a.row encode) projections with hwrote | ⟨hsame, herror⟩
  · have hsafe := (ensureTaskArtifactWriteSafe_row hencode h ha).symm.trans hwrote.safe
    refine .inl ⟨_, ?_, h.write ha ids hwrote.artifacts hwrote.tasks⟩
    rw [ExperienceStore.addTaskArtifact, hsafe]
    rfl
  · exact .inr ⟨⟨hsame.artifacts.trans h.artifacts, hsame.tasks.trans h.tasks, h.plain⟩, herror⟩

end Tables

end Experience
