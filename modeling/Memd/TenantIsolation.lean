/-
# Tenants in shared tables

The task tables, the links and the chunk rows of all tenants live in one database and
are keyed by ids that the tenants share.  `Isolated A` says that a call made for the
tenant `A` leaves the rows of every other tenant alone; for
`insertTaskArtifactBundle`, `hardDeleteChunks` and `addTaskArtifact` the last theorem
says exactly when it does.

A link belongs to the tenant of its chunk.
-/
import Memd.Session
import Memd.StoreSteps
import Memd.WriteSafety

open Store TenantStore PersistentStore

/-! ## The rows of other tenants -/

/-- A `task_events` or `artifact_relations` row of another tenant. -/
def ArtifactSideRow.isForeign (A : TenantId) : ArtifactSideRow → Bool
  | .taskEvent _ tenantId _ _ _ _ _ _ => tenantId != A
  | .relation _ tenantId _ _ => tenantId != A
  | _ => false

namespace Db

/-- The link's chunk belongs to another tenant. -/
def foreignLink (db : Db) (A : TenantId) (l : ArtifactLink) : Bool :=
  db.chunks.any fun r => r.chunkId == l.chunkId && r.tenantId != A

/-- Every row of another tenant is the same before and after. -/
structure Untouched (A : TenantId) (db db' : Db) : Prop where
  taskArtifacts : Table.Spares (·.tenantId != A) db.taskArtifacts db'.taskArtifacts
  tasks : Table.Spares (·.tenantId != A) db.tasks db'.tasks
  challenges : Table.Spares (·.tenantId != A) db.challenges db'.challenges
  side : Table.Spares (·.isForeign A) db.artifactSide db'.artifactSide
  chunks : Table.Spares (·.tenantId != A) db.chunks db'.chunks
  links : ∀ l ∈ db.artifactLinks, db.foreignLink A l → l ∈ db'.artifactLinks

/-! ## The views of a tenant -/

/-- The challenges of a tenant. -/
def challengesOf (db : Db) (t : TenantId) : List ChallengeRow :=
  db.challenges.filter (·.tenantId == t)

/-- What other tenants see of their artifacts, tasks and challenges. -/
def SameViews (A : TenantId) (db db' : Db) : Prop :=
  ∀ B, B ≠ A →
    (∀ artifactId, db'.getTaskArtifact B artifactId = db.getTaskArtifact B artifactId) ∧
    (∀ taskId, db'.listTaskArtifacts B taskId = db.listTaskArtifacts B taskId) ∧
    (∀ projectId limit, db'.listTasks B projectId limit = db.listTasks B projectId limit) ∧
    db'.challengesOf B = db.challengesOf B

/-- A call for the tenant `A` that turns `db` into `db'` leaves the others alone. -/
def Isolated (A : TenantId) (db db' : Db) : Prop :=
  Untouched A db db' ∧ SameViews A db db'

/-- What is untouched looks the same to every reader. -/
theorem Untouched.sameViews {A : TenantId} {db db' : Db} (h : Untouched A db db') :
    SameViews A db db' := by
  intro B hB
  have hne : ∀ t : TenantId, (t == B) = true → (t != A) = true := by
    intro t ht
    rw [beq_iff_eq] at ht
    simpa [ht] using hB
  refine ⟨?_, ?_, ?_, ?_⟩
  · intro artifactId
    have hsame : Table.Spares (fun a => a.tenantId == B && a.artifactId == artifactId)
        db.taskArtifacts db'.taskArtifacts :=
      h.taskArtifacts.of_imp fun a ha => hne _ (Bool.and_eq_true _ _ ▸ ha).1
    rw [getTaskArtifact, getTaskArtifact, ← List.head?_filter, ← List.head?_filter, hsame]
  · intro taskId
    have hsame : Table.Spares (fun a => a.tenantId == B && a.taskId == taskId)
        db.taskArtifacts db'.taskArtifacts :=
      h.taskArtifacts.of_imp fun a ha => hne _ (Bool.and_eq_true _ _ ▸ ha).1
    rw [listTaskArtifacts, listTaskArtifacts, hsame]
  · intro projectId limit
    have hsame : Table.Spares
        (fun r => r.tenantId == B && projectId.all (fun p => r.projectId == some p))
        db.tasks db'.tasks :=
      h.tasks.of_imp fun a ha => hne _ (Bool.and_eq_true _ _ ▸ ha).1
    rw [listTasks, listTasks, hsame]
  · exact h.challenges.of_imp fun c hc => hne _ hc

/-- A tenant is isolated exactly if nothing of the others is touched. -/
theorem isolated_iff {A : TenantId} {db db' : Db} : Isolated A db db' ↔ Untouched A db db' :=
  ⟨And.left, fun h => ⟨h, h.sameViews⟩⟩

/-! ## Steps that only touch the tenant's own chunk rows -/

/-- `db'` differs from `db` in chunk rows of the tenant `A` only. -/
structure OwnChunks (A : TenantId) (db db' : Db) : Prop where
  taskArtifacts : db'.taskArtifacts = db.taskArtifacts
  tasks : db'.tasks = db.tasks
  challenges : db'.challenges = db.challenges
  artifactSide : db'.artifactSide = db.artifactSide
  artifactLinks : db'.artifactLinks = db.artifactLinks
  spares : Table.Spares (·.tenantId != A) db.chunks db'.chunks

section OwnChunks

variable {A : TenantId} {db db' db'' : Db}

theorem OwnChunks.refl (A : TenantId) (db : Db) : OwnChunks A db db :=
  ⟨rfl, rfl, rfl, rfl, rfl, .refl _ _⟩

/-- A step that leaves the database touches nothing. -/
theorem OwnChunks.of_db_eq (h : db' = db) : OwnChunks A db db' :=
  h ▸ .refl A db

/-- Steps on own chunks compose. -/
theorem OwnChunks.trans (h : OwnChunks A db db') (h' : OwnChunks A db' db'') :
    OwnChunks A db db'' :=
  ⟨h'.taskArtifacts.trans h.taskArtifacts, h'.tasks.trans h.tasks,
    h'.challenges.trans h.challenges, h'.artifactSide.trans h.artifactSide,
    h'.artifactLinks.trans h.artifactLinks, h.spares.trans h'.spares⟩

/-- So do loops of them. -/
theorem OwnChunks.foldl {α : Type} {step : Db → α → Db}
    (hstep : ∀ db x, OwnChunks A db (step db x)) (l : List α) (db : Db) :
    OwnChunks A db (l.foldl step db) := by
  induction l generalizing db with
  | nil => exact .refl A db
  | cons x l ih => exact (hstep db x).trans (ih _)

/-- An update whose `WHERE` clause asks for the tenant. -/
theorem OwnChunks.updateChunks (db : Db) {p : ChunkRow → Bool} {f : ChunkRow → ChunkRow}
    (hp : ∀ r, p r = true → r.tenantId = A) (hf : ∀ r, (f r).tenantId = r.tenantId) :
    OwnChunks A db (db.updateChunks p f) := by
  refine ⟨rfl, rfl, rfl, rfl, rfl, (Table.spares_updateWhere fun r => by rw [hf]).mpr ?_⟩
  intro r _ hforeign hpr
  rw [hp r hpr] at hforeign
  simp at hforeign

/-- An insert of a row of the tenant under an id that no other tenant has. -/
theorem OwnChunks.insert {m : ChunkMetadata} (ht : m.tenantId = A)
    (hid : ∀ r ∈ db.chunks, r.tenantId ≠ A → r.chunkId ≠ m.chunkId) :
    OwnChunks A db (db.insert m) := by
  refine ⟨rfl, rfl, rfl, rfl, rfl, (Table.spares_insertOrReplace (by simp [ht])).mpr ?_⟩
  intro r hr hforeign
  have hne : r.tenantId ≠ A := by simpa using hforeign
  simp [ChunkRow.conflicts, ChunkRow.isAt, hid r hr hne, ht, hne]

/-- An insert of own rows touches own chunks only. -/
theorem OwnChunks.insertMany {rows : List ChunkMetadata} (ht : ∀ m ∈ rows, m.tenantId = A)
    (hid : ∀ r ∈ db.chunks, r.tenantId ≠ A → ∀ m ∈ rows, r.chunkId ≠ m.chunkId) :
    OwnChunks A db (db.insertMany rows) := by
  induction rows generalizing db with
  | nil => exact .refl A db
  | cons m rows ih =>
    have hm : OwnChunks A db (db.insert m) := .insert (ht m List.mem_cons_self)
      fun r hr hne => hid r hr hne m List.mem_cons_self
    refine hm.trans (ih (fun m' hm' => ht m' (List.mem_cons_of_mem m hm')) ?_)
    intro r hr hne m' hm'
    have hr' : r ∈ db.chunks := (hm.spares.mem_iff (by simpa using hne)).mp hr
    exact hid r hr' hne m' (List.mem_cons_of_mem m hm')

/-- A link is foreign before and after. -/
theorem OwnChunks.foreignLink_eq (h : OwnChunks A db db') (l : ArtifactLink) :
    db'.foreignLink A l = db.foreignLink A l := by
  have hany : ∀ d : Db, d.foreignLink A l =
      (d.chunks.filter (·.tenantId != A)).any (·.chunkId == l.chunkId) := by
    intro d
    rw [foreignLink, List.any_filter]
    congr 1
    funext r
    exact Bool.and_comm _ _
  rw [hany, hany, h.spares]

/-- Such steps before and after a call do not change what the call does to others. -/
theorem OwnChunks.untouched_iff {db₁ db₂ : Db} (h : OwnChunks A db db₁)
    (h' : OwnChunks A db₂ db') : Untouched A db db' ↔ Untouched A db₁ db₂ := by
  constructor
  · rintro ⟨h₁, h₂, h₃, h₄, h₅, h₆⟩
    rw [h'.taskArtifacts, ← h.taskArtifacts] at h₁
    rw [h'.tasks, ← h.tasks] at h₂
    rw [h'.challenges, ← h.challenges] at h₃
    rw [h'.artifactSide, ← h.artifactSide] at h₄
    refine ⟨h₁, h₂, h₃, h₄, (h.spares.symm.trans h₅).trans h'.spares.symm, ?_⟩
    intro l hl hforeign
    rw [h.foreignLink_eq] at hforeign
    rw [h.artifactLinks] at hl
    rw [← h'.artifactLinks]
    exact h₆ l hl hforeign
  · rintro ⟨h₁, h₂, h₃, h₄, h₅, h₆⟩
    rw [← h'.taskArtifacts, h.taskArtifacts] at h₁
    rw [← h'.tasks, h.tasks] at h₂
    rw [← h'.challenges, h.challenges] at h₃
    rw [← h'.artifactSide, h.artifactSide] at h₄
    refine ⟨h₁, h₂, h₃, h₄, (h.spares.trans h₅).trans h'.spares, ?_⟩
    intro l hl hforeign
    rw [← h.foreignLink_eq] at hforeign
    rw [← h.artifactLinks] at hl
    rw [h'.artifactLinks]
    exact h₆ l hl hforeign

end OwnChunks

/-! ## When a bundle collides with another tenant -/

/-- The projection kind the last entry for a chunk gives it. -/
def lastProjectionKind (projections : List ChunkId) (kinds : List String) (c : ChunkId) :
    Option (Option String) :=
  ((projections.mapIdx fun i p => (p, kinds[i]?)).reverse.find? (·.1 == c)).map (·.2)

/-- What the upsert of the artifact's challenge offers is what the row has already. -/
structure KeepsChallenge (a : TaskArtifact) (c : ChallengeRow) : Prop where
  projectId : ∀ p, a.projectId = some p → c.projectId = some p
  summary : ∀ x, a.eventSummary.or a.goal = some x → c.summary = some x
  status : ∀ x, a.status = some x → c.status = some x
  updatedAtMs : c.updatedAtMs = a.timestampCreated

/-- No row of another tenant has a key that the bundle of the artifact writes with other
values. -/
structure NoCollision (db : Db) (a : TaskArtifact) (projections : List ChunkId)
    (kinds : List String) : Prop where
  taskArtifact : ∀ x ∈ db.taskArtifacts, x.tenantId ≠ a.tenantId → x.artifactId ≠ a.artifactId
  taskEvent : a.artifactKind ≠ .digest → ∀ tenantId taskId kind status summary created observed,
    .taskEvent a.artifactId tenantId taskId kind status summary created observed ∈
      db.artifactSide → tenantId = a.tenantId
  relation : ∀ tenantId related kind, .relation a.artifactId tenantId related kind ∈
      db.artifactSide →
    (a.replyToArtifactId = some related ∧ kind = a.relationKind.getD "reply_to" ∨
      related ∈ a.relatedArtifactIds ∧ kind = a.relationKind.getD "related") →
    tenantId = a.tenantId
  challenge : ∀ c ∈ db.challenges, c.tenantId ≠ a.tenantId → a.challengeId = some c.challengeId →
    KeepsChallenge a c
  link : ∀ l ∈ db.artifactLinks, db.foreignLink a.tenantId l → l.artifactId = a.artifactId →
    a.artifactKind = .digest ∨ l.chunkId ∈ projections →
    lastProjectionKind projections kinds l.chunkId = some l.projectionKind

/-! ## The bundle, table by table -/

section Bundle

variable {db : Db} {a : TaskArtifact} {projections : List ChunkId} {kinds : List String}

/-- Which artifacts write a task event. -/
theorem exists_side_taskEvent {i : String} :
    (∃ y ∈ artifactSideRows a, y.key = ("task_events", [i])) ↔
      a.artifactKind ≠ .digest ∧ i = a.artifactId := by
  constructor
  · rintro ⟨y, hy, hk⟩
    cases y <;> simp [ArtifactSideRow.key] at hk
    subst hk
    by_cases hd : a.artifactKind = .digest
    · simp [artifactSideRows, hd] at hy
    · refine ⟨hd, ?_⟩
      simp only [artifactSideRows, ne_eq, hd, not_false_eq_true, if_true] at hy
      cases hkind : a.artifactKind <;> simp [hkind] at hy <;> exact hy.1
  · rintro ⟨hd, rfl⟩
    refine ⟨.taskEvent a.artifactId a.tenantId a.taskId a.artifactKind a.status a.eventSummary
      a.timestampCreated a.timestampObserved, ?_, rfl⟩
    simp [artifactSideRows, hd]

/-- Which relations an artifact writes. -/
theorem exists_side_relation {i r k : String} :
    (∃ y ∈ artifactSideRows a, y.key = ("artifact_relations", [i, r, k])) ↔
      i = a.artifactId ∧ (a.replyToArtifactId = some r ∧ k = a.relationKind.getD "reply_to" ∨
        r ∈ a.relatedArtifactIds ∧ k = a.relationKind.getD "related") := by
  constructor
  · rintro ⟨y, hy, hk⟩
    cases y <;> simp [ArtifactSideRow.key] at hk
    obtain ⟨rfl, rfl, rfl⟩ := hk
    simp [artifactSideRows] at hy
    rcases hy with ⟨hr, rfl, _, rfl⟩ | ⟨hr, rfl, _, rfl⟩ | hy
    · exact ⟨rfl, .inl ⟨hr, rfl⟩⟩
    · exact ⟨rfl, .inr ⟨hr, rfl⟩⟩
    · cases hkind : a.artifactKind <;> simp [hkind] at hy
  · rintro ⟨rfl, h⟩
    refine ⟨.relation a.artifactId a.tenantId r k, ?_, rfl⟩
    rcases h with ⟨hr, rfl⟩ | ⟨hr, rfl⟩
    · simp [artifactSideRows, hr]
    · simp [artifactSideRows, hr]

/-- The rows an artifact writes beside itself are rows of its own tenant. -/
theorem not_isForeign_artifactSideRows {y : ArtifactSideRow} (hy : y ∈ artifactSideRows a) :
    y.isForeign a.tenantId = false := by
  cases y with
  | taskEvent i t k kind st su cr ob =>
    by_cases hd : a.artifactKind = .digest
    · simp [artifactSideRows, hd] at hy
    · simp only [artifactSideRows, ne_eq, hd, not_false_eq_true, if_true] at hy
      cases hkind : a.artifactKind <;> simp [hkind] at hy <;> simp [ArtifactSideRow.isForeign, hy]
  | relation i t r k =>
    simp [artifactSideRows] at hy
    rcases hy with ⟨_, _, rfl, _⟩ | ⟨_, _, rfl, _⟩ | hy
    · simp [ArtifactSideRow.isForeign]
    · simp [ArtifactSideRow.isForeign]
    · cases hkind : a.artifactKind <;> simp [hkind] at hy
  | _ => rfl

/-- Retiring old projections touches own chunks only. -/
theorem ownChunks_retireOldProjections (db : Db) (a : TaskArtifact) (projections : List ChunkId) :
    OwnChunks a.tenantId db (db.retireOldProjections a projections) := by
  apply OwnChunks.foldl
  intro db old
  apply OwnChunks.updateChunks
  · intro r hr
    rw [Bool.and_eq_true, isRow_iff] at hr
    exact hr.1.1
  · exact fun _ => rfl

/-- So does retiring duplicates. -/
theorem ownChunks_retireDuplicates (db : Db) (a : TaskArtifact) (projections : List ChunkId) :
    OwnChunks a.tenantId db (db.retireDuplicates a projections) := by
  apply OwnChunks.foldl
  intro db c
  apply OwnChunks.updateChunks
  · intro r hr
    simp only [Bool.and_eq_true, beq_iff_eq] at hr
    exact hr.1.1.1.1.1.1
  · exact fun _ => rfl

/-- Apart from chunk rows of the tenant, the bundle writes the task rows and the links. -/
theorem ownChunks_applyBundle (db : Db) (a : TaskArtifact) (projections : List ChunkId)
    (kinds : List String) :
    OwnChunks a.tenantId ((db.writeTaskRows a).linkProjections a projections kinds)
      (db.applyBundle a projections kinds) := by
  by_cases hd : a.artifactKind = .digest
  · have hold := ownChunks_retireOldProjections (db.writeTaskRows a) a projections
    have hdup := ownChunks_retireDuplicates
      (((db.writeTaskRows a).retireOldProjections a projections).linkProjections a projections kinds)
      a projections
    simp only [applyBundle, hd, if_true]
    refine OwnChunks.trans ?_ hdup
    refine ⟨hold.taskArtifacts, hold.tasks, hold.challenges, hold.artifactSide, ?_, hold.spares⟩
    simp only [linkProjections, hold.artifactLinks]
  · simp only [applyBundle, hd, if_false]
    exact .refl _ _

/-- The key of a link. -/
def linkKey (l : ArtifactLink) : String × ChunkId × LinkKind :=
  (l.artifactId, l.chunkId, l.linkKind)

/-- A link is replaced by its key. -/
theorem insertLink_eq : insertLink = fun links l =>
    Table.insertOrReplace (fun x y => linkKey x == linkKey y) l links := by
  funext links l
  have hkey : (fun x y : ArtifactLink => x.artifactId == y.artifactId && x.chunkId == y.chunkId
      && x.linkKind == y.linkKind) = fun x y => linkKey x == linkKey y := by
    funext x y
    rw [Bool.eq_iff_iff]
    simp [linkKey]
  rw [insertLink, hkey]

/-- The link of one projection with its kind. -/
def projectionLink (artifactId : String) (q : ChunkId × Option String) : ArtifactLink :=
  ⟨artifactId, q.1, .retrievalProjection, q.2⟩

/-- The link that a projection writes. -/
theorem find?_projectionLink {l : ArtifactLink} {qs : List (ChunkId × Option String)}
    {artifactId : String} :
    (qs.map (projectionLink artifactId)).find? (linkKey · == linkKey l) = some l ↔
      l.artifactId = artifactId ∧ (qs.find? (·.1 == l.chunkId)).map (·.2) = some l.projectionKind := by
  rw [List.find?_map, Option.map_eq_some_iff, Option.map_eq_some_iff]
  have hkind : l.linkKind = .retrievalProjection := by cases l.linkKind; rfl
  have hpred : (fun q => linkKey (projectionLink artifactId q) == linkKey l) =
      fun q => artifactId == l.artifactId && q.1 == l.chunkId := by
    funext q
    rw [Bool.eq_iff_iff]
    simp [linkKey, projectionLink, hkind]
  show (∃ q, qs.find? (fun q => linkKey (projectionLink artifactId q) == linkKey l) = some q ∧
    projectionLink artifactId q = l) ↔ _
  rw [hpred]
  constructor
  · rintro ⟨q, hq, rfl⟩
    refine ⟨rfl, q, ?_, rfl⟩
    simpa [projectionLink] using hq
  · rintro ⟨rfl, q, hq, hk⟩
    refine ⟨q, by simpa using hq, ?_⟩
    have hc : q.1 = l.chunkId := by simpa using List.find?_some hq
    obtain ⟨i, c, k, pk⟩ := l
    simp only at hk hc hkind
    simp [projectionLink, hk, hc]

/-- The links after the new links of the artifact have been written. -/
theorem mem_linkProjections {l : ArtifactLink} :
    l ∈ (db.linkProjections a projections kinds).artifactLinks ↔
      (l ∈ db.artifactLinks ∧ ¬ (l.artifactId = a.artifactId ∧
        (a.artifactKind = .digest ∨ l.chunkId ∈ projections))) ∨
      (l.artifactId = a.artifactId ∧
        lastProjectionKind projections kinds l.chunkId = some l.projectionKind) := by
  have hkind : l.linkKind = .retrievalProjection := by cases l.linkKind; rfl
  have hnews : (projections.mapIdx fun i c =>
      (⟨a.artifactId, c, .retrievalProjection, kinds[i]?⟩ : ArtifactLink)) =
      (projections.mapIdx fun i p => (p, kinds[i]?)).map (projectionLink a.artifactId) := by
    apply List.ext_getElem?
    intro n
    rw [List.getElem?_map, List.getElem?_mapIdx, List.getElem?_mapIdx, Option.map_map]
    rfl
  have hfree : (∀ y ∈ (projections.mapIdx fun i p => (p, kinds[i]?)).map
      (projectionLink a.artifactId), linkKey y ≠ linkKey l) ↔
      ¬ (l.artifactId = a.artifactId ∧ l.chunkId ∈ projections) := by
    simp only [List.mem_map, List.mem_mapIdx, forall_exists_index, and_imp]
    constructor
    · rintro h ⟨hi, hc⟩
      obtain ⟨n, hn, hget⟩ := List.getElem_of_mem hc
      refine h _ (projections[n], kinds[n]?) n hn rfl rfl ?_
      simp [linkKey, projectionLink, hget, hi, hkind]
    · rintro h y q n hn rfl rfl hk
      simp only [linkKey, projectionLink, Prod.mk.injEq] at hk
      exact h ⟨hk.1.symm, hk.2.1 ▸ List.getElem_mem hn⟩
  rw [linkProjections, hnews, insertLink_eq]
  dsimp only
  rw [Table.mem_foldl_insertOrReplace, hfree, ← List.map_reverse, find?_projectionLink]
  apply or_congr _ Iff.rfl
  by_cases hd : a.artifactKind = .digest
  · simp only [hd, if_true, Table.mem_deleteWhere, hkind]
    simp
    tauto
  · simp [hd]

/-- The upsert of the task row leaves other tenants' tasks alone: the guard has seen that
no other tenant has the task. -/
theorem spares_upsertTask (hkey : Table.Keyed (·.taskId) db.tasks)
    (hsafe : db.ensureTaskArtifactWriteSafe a = .ok ()) (hd : a.artifactKind ≠ .digest) :
    Table.Spares (·.tenantId != a.tenantId) db.tasks (upsertTask db.tasks (taskRowOf a)) := by
  have hguard : ∀ r ∈ db.tasks, r.taskId = a.taskId → r.tenantId = a.tenantId := by
    intro r hr hid
    have hfind : db.tasks.find? (·.taskId == a.taskId) = some r := by
      cases hf : db.tasks.find? (·.taskId == a.taskId) with
      | none => exact absurd (List.find?_eq_none.mp hf r hr) (by simpa using hid)
      | some x =>
        have hx : x.taskId = a.taskId := by simpa using List.find?_some hf
        rw [hkey.eq (List.mem_of_find?_eq_some hf) hr (hx.trans hid.symm)]
    by_contra hne
    simp only [ensureTaskArtifactWriteSafe, hd, ne_eq, not_false_eq_true, if_true, hfind,
      Option.map_some] at hsafe
    cases hg : rejectExperienceArtifactOverwrite
        (db.taskArtifacts.find? (·.artifactId == a.artifactId)) a with
    | error e => simp [hg, bind, Except.bind] at hsafe
    | ok u => simp [hg, bind, Except.bind, rejectCrossTenantTaskWrite, hne] at hsafe
  unfold upsertTask
  split
  · refine (Table.spares_updateWhere fun r => by rfl).mpr ?_
    intro r hr hforeign hid
    rw [hguard r hr (by simpa [taskRowOf] using hid)] at hforeign
    simp at hforeign
  · simp [Table.Spares, taskRowOf]

/-- When the second of two values wins. -/
theorem or_eq_right_iff {α : Type} {x y : Option α} : x.or y = y ↔ ∀ v, x = some v → y = some v := by
  cases x with
  | none => simp
  | some v => simp [eq_comm]

/-- When an upsert leaves foreign challenges alone. -/
theorem spares_upsertChallenge {challengeId : String} {rows : List ChallengeRow} :
    Table.Spares (·.tenantId != a.tenantId) rows (upsertChallenge rows ⟨challengeId, a.tenantId,
        a.projectId, a.eventSummary.or a.goal, a.status, a.timestampCreated⟩) ↔
      ∀ c ∈ rows, c.tenantId ≠ a.tenantId → challengeId = c.challengeId → KeepsChallenge a c := by
  unfold upsertChallenge
  split
  · rw [Table.spares_updateWhere fun r => by rfl]
    apply forall_congr'
    intro c
    apply forall_congr'
    intro _
    obtain ⟨id, t, p, su, st, u⟩ := c
    simp only [bne_iff_ne, beq_iff_eq, ChallengeRow.mk.injEq, true_and, or_eq_right_iff]
    apply forall_congr'
    intro _
    rw [eq_comm]
    apply forall_congr'
    intro _
    exact ⟨fun h => ⟨h.1, h.2.1, h.2.2.1, h.2.2.2.symm⟩,
      fun h => ⟨h.projectId, h.summary, h.status, h.updatedAtMs.symm⟩⟩
  · next hnone =>
    have hid : ∀ c ∈ rows, c.challengeId ≠ challengeId := by simpa using hnone
    refine iff_of_true (by simp [Table.Spares]) ?_
    intro c hc _ heq
    exact absurd heq.symm (hid c hc)

/-- When the rows beside an artifact leave foreign ones alone. -/
theorem spares_artifactSide :
    Table.Spares (·.isForeign a.tenantId) db.artifactSide (db.writeTaskRows a).artifactSide ↔
      (a.artifactKind ≠ .digest → ∀ tenantId taskId kind status summary created observed,
        .taskEvent a.artifactId tenantId taskId kind status summary created observed ∈
          db.artifactSide → tenantId = a.tenantId) ∧
      (∀ tenantId related kind, .relation a.artifactId tenantId related kind ∈ db.artifactSide →
        (a.replyToArtifactId = some related ∧ kind = a.relationKind.getD "reply_to" ∨
          related ∈ a.relatedArtifactIds ∧ kind = a.relationKind.getD "related") →
        tenantId = a.tenantId) := by
  rw [writeTaskRows]
  dsimp only
  rw [Table.spares_foldl_insertOrReplace fun y hy => not_isForeign_artifactSideRows hy]
  constructor
  · intro h
    constructor
    · intro hd tenantId taskId kind status summary created observed hrow
      obtain ⟨y, hy, hk⟩ := exists_side_taskEvent.mpr ⟨hd, rfl⟩
      by_contra hne
      have := h _ hrow (by simpa [ArtifactSideRow.isForeign] using hne) y hy
      rw [hk, beq_eq_false_iff_ne] at this
      exact this rfl
    · intro tenantId related kind hrow hwritten
      obtain ⟨y, hy, hk⟩ := exists_side_relation.mpr ⟨rfl, hwritten⟩
      by_contra hne
      have := h _ hrow (by simpa [ArtifactSideRow.isForeign] using hne) y hy
      rw [hk, beq_eq_false_iff_ne] at this
      exact this rfl
  · rintro ⟨hevent, hrelation⟩ x hx hforeign y hy
    rw [beq_eq_false_iff_ne]
    intro hk
    -- only rows of the two tables belong to a tenant here
    cases x with
    | taskEvent i t k kind st su cr ob =>
      obtain ⟨hd, rfl⟩ := exists_side_taskEvent.mp ⟨y, hy, hk.symm⟩
      rw [hevent hd _ _ _ _ _ _ _ hx] at hforeign
      simp [ArtifactSideRow.isForeign] at hforeign
    | relation i t r k =>
      obtain ⟨rfl, hwritten⟩ := exists_side_relation.mp ⟨y, hy, hk.symm⟩
      rw [hrelation _ _ _ hx hwritten] at hforeign
      simp [ArtifactSideRow.isForeign] at hforeign
    | _ => exact absurd hforeign (by simp [ArtifactSideRow.isForeign])

/-- A bundle leaves the rows of the other tenants alone exactly when it does not collide
with one of them. -/
theorem untouched_applyBundle (hkey : Table.Keyed (·.taskId) db.tasks)
    (hsafe : db.ensureTaskArtifactWriteSafe a = .ok ()) :
    Untouched a.tenantId db (db.applyBundle a projections kinds) ↔
      NoCollision db a projections kinds := by
  rw [OwnChunks.untouched_iff (.refl a.tenantId db) (ownChunks_applyBundle db a projections kinds)]
  have hartifact : Table.Spares (·.tenantId != a.tenantId) db.taskArtifacts
      (db.writeTaskRows a).taskArtifacts ↔
      ∀ x ∈ db.taskArtifacts, x.tenantId ≠ a.tenantId → x.artifactId ≠ a.artifactId := by
    rw [writeTaskRows]
    dsimp only
    rw [Table.spares_insertOrReplace (by simp)]
    simp
  have hchallenge : Table.Spares (·.tenantId != a.tenantId) db.challenges
      (db.writeTaskRows a).challenges ↔ ∀ c ∈ db.challenges, c.tenantId ≠ a.tenantId →
        a.challengeId = some c.challengeId → KeepsChallenge a c := by
    rw [writeTaskRows]
    cases hc : a.challengeId with
    | none => simp [Table.Spares.refl]
    | some challengeId => simpa using spares_upsertChallenge
  have htasks : Table.Spares (·.tenantId != a.tenantId) db.tasks (db.writeTaskRows a).tasks := by
    rw [writeTaskRows]
    dsimp only
    split
    · next hd => exact spares_upsertTask hkey hsafe hd
    · exact .refl _ _
  have hlinks : (∀ l ∈ db.artifactLinks, db.foreignLink a.tenantId l →
      l ∈ ((db.writeTaskRows a).linkProjections a projections kinds).artifactLinks) ↔
      ∀ l ∈ db.artifactLinks, db.foreignLink a.tenantId l → l.artifactId = a.artifactId →
        a.artifactKind = .digest ∨ l.chunkId ∈ projections →
        lastProjectionKind projections kinds l.chunkId = some l.projectionKind := by
    apply forall_congr'
    intro l
    apply forall_congr'
    intro hl
    have hl' : l ∈ (db.writeTaskRows a).artifactLinks := hl
    rw [mem_linkProjections]
    tauto
  constructor
  · rintro ⟨h₁, _, h₃, h₄, _, h₆⟩
    obtain ⟨hevent, hrelation⟩ := spares_artifactSide.mp h₄
    exact ⟨hartifact.mp h₁, hevent, hrelation, hchallenge.mp h₃, hlinks.mp h₆⟩
  · rintro ⟨h₁, h₂, h₃, h₄, h₅⟩
    exact ⟨hartifact.mpr h₁, htasks, hchallenge.mpr h₄, spares_artifactSide.mpr ⟨h₂, h₃⟩,
      .refl _ _, hlinks.mpr h₅⟩

end Bundle

/-! ## Purging -/

/-- One id of `hard_delete_chunks`. -/
def hardDeleteChunk (A : TenantId) (db : Db) (c : ChunkId) : Db :=
  { db with
    artifactLinks := Table.deleteWhere (fun l => l.chunkId == c) db.artifactLinks
    chunks := Table.deleteWhere (fun r => ChunkRow.isRow A c r && r.status == .deleted) db.chunks }

/-- The database without the links of the given chunks. -/
def unlink (db : Db) (ids : List ChunkId) : Db :=
  { db with artifactLinks := db.artifactLinks.filter fun l => !ids.contains l.chunkId }

/-- A purge takes chunk rows of its own tenant, and the links of the listed chunks whosever
they are. -/
theorem ownChunks_hardDeleteChunks (A : TenantId) (ids : List ChunkId) (db : Db) :
    OwnChunks A (db.unlink ids) (db.hardDeleteChunks A ids) := by
  induction ids generalizing db with
  | nil =>
    refine ⟨rfl, rfl, rfl, rfl, ?_, .refl _ _⟩
    simp [hardDeleteChunks, unlink]
  | cons c ids ih =>
    have hstep : OwnChunks A (db.unlink (c :: ids)) ((hardDeleteChunk A db c).unlink ids) := by
      refine ⟨rfl, rfl, rfl, rfl, ?_, ?_⟩
      · simp only [unlink, hardDeleteChunk, Table.deleteWhere, List.filter_filter]
        apply List.filter_congr
        intro l _
        by_cases hc : l.chunkId = c
        · simp [hc]
        · simp [hc, Bool.and_comm]
      · refine Table.spares_deleteWhere.mpr ?_
        intro r _ hforeign
        simp only [bne_iff_ne] at hforeign
        simp [ChunkRow.isRow, hforeign]
    exact hstep.trans (ih _)

/-- When a purge touches nothing foreign. -/
theorem untouched_hardDeleteChunks (db : Db) (A : TenantId) (ids : List ChunkId) :
    Untouched A db (db.hardDeleteChunks A ids) ↔
      ∀ l ∈ db.artifactLinks, db.foreignLink A l → l.chunkId ∉ ids := by
  rw [OwnChunks.untouched_iff (.refl A db) (ownChunks_hardDeleteChunks A ids db)]
  constructor
  · intro h l hl hforeign hid
    have hmem := h.links l hl hforeign
    simp [unlink, hid] at hmem
  · intro h
    refine ⟨.refl _ _, .refl _ _, .refl _ _, .refl _ _, .refl _ _, ?_⟩
    intro l hl hforeign
    have hid := h l hl hforeign
    simpa [unlink, hl] using hid

end Db

/-! ## A whole `addTaskArtifact` call -/

namespace PersistentStore

open Db

variable {A : TenantId} {s s' : Store}

/-- A program all of whose steps leave the other tenants' rows and all task rows alone. -/
def OwnSteps {α : Type} (A : TenantId) (p : StoreProg α) : Prop :=
  p.All fun _ upd => ∀ s : Store, OwnChunks A s.db (upd s).db

/-- A run of own steps touches own chunks only. -/
theorem OwnSteps.run {α : Type} {p : StoreProg α} (hp : OwnSteps A p) {r : Except MemdError α}
    (hrun : p.run s = (r, s')) : OwnChunks A s.db s'.db := by
  have h := Proc.All.run (R := fun s s' : Store => OwnChunks A s.db s'.db)
    (fun s => OwnChunks.refl A s.db) (fun _ _ _ h h' => OwnChunks.trans h h') hp s
  rwa [hrun] at h

/-! ### Steps on segments and the log -/

/-- Steps that leave the database are own steps. -/
theorem ownSteps_of_quiet {α : Type} {p : StoreProg α} (hp : p.All DbQuiet) : OwnSteps A p :=
  hp.mono fun _ _ h s => .of_db_eq (h.db s)

/-- An index outcome is written to own chunks. -/
theorem ownSteps_recordIndexOutcome (ids : List ChunkId) (indexError : Option String) (now : ℤ) :
    OwnSteps A (recordIndexOutcome A ids indexError now) := by
  have hrow : ∀ c r, ChunkRow.isRow A c r = true → r.tenantId = A := fun c r hr =>
    (isRow_iff.mp hr).1
  cases indexError with
  | none =>
    refine Proc.All.modify fun s => ?_
    apply OwnChunks.foldl
    exact fun db c => .updateChunks db (hrow c) fun _ => rfl
  | some e =>
    refine Proc.All.forM (fun c => Proc.All.modify fun s => ?_) ids
    exact .updateChunks s.db (hrow c) fun _ => rfl

/-! ### The batch -/

/-- The rows of a batch are rows of its chunks. -/
theorem storePending_run {ext : Externals} {pending : List MemoryChunk}
    {rows₀ rows : List ChunkMetadata}
    (hrun : Proc.run (pending.foldlM (storePending ext) rows₀) s = (.ok rows, s')) :
    ∀ m ∈ rows, m ∈ rows₀ ∨ ∃ p ∈ pending, m.chunkId = p.chunkId ∧ m.tenantId = p.tenantId := by
  induction pending generalizing rows₀ s with
  | nil =>
    obtain ⟨rfl, rfl⟩ : rows₀ = rows ∧ s = s' := by simpa using hrun
    exact fun m hm => .inl hm
  | cons p pending ih =>
    rw [List.foldlM_cons] at hrun
    obtain ⟨rows₁, s₁, hfirst, hrest⟩ := Proc.run_bind_eq_ok.mp hrun
    obtain ⟨⟨segmentId, ordinal⟩, s₂, _, hret⟩ := Proc.run_bind_eq_ok.mp hfirst
    obtain ⟨rfl, rfl⟩ : rows₀ ++ [metadataRow ext p segmentId ordinal] = rows₁ ∧ s₂ = s₁ := by
      simpa using hret
    intro m hm
    rcases ih hrest m hm with hm | ⟨q, hq, hm⟩
    · rcases List.mem_append.mp hm with hm | hm
      · exact .inl hm
      · obtain rfl := List.mem_singleton.mp hm
        exact .inr ⟨p, List.mem_cons_self, rfl, rfl⟩
    · exact .inr ⟨q, List.mem_cons_of_mem p hq, hm⟩

/-- What a batch leaves behind. -/
theorem storeBatch_run {ext : Externals} {pending : List MemoryChunk} {now : ℤ}
    {r : Unit} (hrun : (storeBatch ext A pending now).run s = (.ok r, s'))
    (ht : ∀ p ∈ pending, p.tenantId = A)
    (hid : ∀ r ∈ s.db.chunks, r.tenantId ≠ A → ∀ p ∈ pending, r.chunkId ≠ p.chunkId) :
    OwnChunks A s.db s'.db := by
  obtain ⟨rows, s₁, hrows, hrun⟩ := Proc.run_bind_eq_ok.mp hrun
  have h₁ := (ownSteps_of_quiet (A := A) (quiet_storePending ext pending [])).run hrows
  have hrow : ∀ m ∈ rows, ∃ p ∈ pending, m.chunkId = p.chunkId ∧ m.tenantId = p.tenantId := by
    intro m hm
    rcases storePending_run hrows m hm with h | h
    · exact absurd h (by simp)
    · exact h
  refine h₁.trans ?_
  have hinsert : OwnChunks A s₁.db (s₁.db.insertMany rows) := by
    apply OwnChunks.insertMany
    · intro m hm
      obtain ⟨p, hp, _, hmt⟩ := hrow m hm
      exact hmt.trans (ht p hp)
    · intro r hr hne m hm
      obtain ⟨p, hp, hmc, _⟩ := hrow m hm
      rw [hmc]
      exact hid r ((h₁.spares.mem_iff (by simpa using hne)).mp hr) hne p hp
  have hmark : OwnChunks A (s₁.db.insertMany rows)
      ((s₁.db.insertMany rows).markIndexPending A (rows.map (·.chunkId)) now) := by
    apply OwnChunks.foldl
    exact fun db c => .updateChunks db (fun r hr => (isRow_iff.mp hr).1) fun _ => rfl
  have hs' : s'.db = ((flushActive s₁).db.insertMany rows).markIndexPending A
      (rows.map (·.chunkId)) now := by
    have : s' = withDb (·.markIndexPending A (rows.map (·.chunkId)) now)
        (withDb (·.insertMany rows) (flushActive s₁)) := (congrArg Prod.snd hrun).symm
    rw [this]
    rfl
  rw [hs', flushActive_db]
  exact hinsert.trans hmark

/-! ### The call -/

/-- Ids at some positions are among the ids. -/
theorem idsAt_subset {ids out : List ChunkId} {msg : String} {positions : List ℕ}
    (h : idsAt ids msg positions = .ok out) : ∀ c ∈ out, c ∈ ids := by
  induction positions generalizing out with
  | nil =>
    obtain rfl : [] = out := Except.ok.inj h
    exact fun c hc => absurd hc (by simp)
  | cons pos positions ih =>
    unfold idsAt at h
    cases hpos : ids[pos]? with
    | none => simp [hpos] at h
    | some c =>
      cases hrest : idsAt ids msg positions with
      | error e => simp [hpos, hrest, Except.map] at h
      | ok rest =>
        obtain rfl : c :: rest = out := by simpa [hpos, hrest, Except.map] using h
        intro c' hc'
        rcases List.mem_cons.mp hc' with rfl | hc'
        · exact List.mem_of_getElem? hpos
        · exact ih hrest c' hc'

/-- A bundle that goes through has passed the guards. -/
theorem insertTaskArtifactBundle_run {p : TaskArtifactWalPayload} {r : Unit}
    (hrun : (TenantStore.insertTaskArtifactBundle p).run s = (.ok r, s')) :
    s.db.ensureTaskArtifactWriteSafe p.artifact = .ok () ∧
      s'.db = s.db.applyBundle p.artifact p.projectionChunkIds p.projectionKinds := by
  rw [TenantStore.insertTaskArtifactBundle, transactDb, Proc.transact, Proc.run_perform,
    Db.insertTaskArtifactBundle] at hrun
  cases hsafe : s.db.ensureTaskArtifactWriteSafe p.artifact with
  | error e => simp [hsafe, Except.map, Proc.commit] at hrun
  | ok _ =>
    refine ⟨rfl, ?_⟩
    rw [hsafe] at hrun
    exact (congrArg (fun x : Except MemdError Unit × Store => x.2.db) hrun).symm

/-- A run of a computation that touches no state. -/
theorem ofExcept_run {α : Type} {x : Except MemdError α} {r : α}
    (hrun : (Proc.ofExcept x : StoreProg α).run s = (.ok r, s')) : x = .ok r ∧ s = s' := by
  cases x with
  | ok a =>
    obtain ⟨rfl, rfl⟩ : a = r ∧ s = s' := by simpa [Proc.ofExcept] using hrun
    exact ⟨rfl, rfl⟩
  | error e => simp [Proc.ofExcept, Proc.run] at hrun

/-- Chunks that are prepared belong to their tenants. -/
theorem preparePendingChunks_run {ext : Externals} {chunks pending : List MemoryChunk}
    (hrun : (preparePendingChunks ext chunks false).run s = (.ok pending, s')) :
    ∃ n, s' = { s with nextId := n } ∧ Stamped ext chunks pending ∧ NewIds s.nextId pending s' := by
  have hsafe : Proc.Safe (fun _ _ => True) Keeps (fun _ => True) _
      (preparePendingChunks ext chunks false) s :=
    safe_preparePendingChunks ext chunks fun _ _ => trivial
  have h := (hsafe.run trivial).1
  rw [hrun] at h
  obtain ⟨pending', n, hp, _, hs', hstamped, hnew⟩ := h
  obtain rfl : pending = pending' := Except.ok.inj hp
  exact ⟨n, hs', hstamped, hnew⟩

/-- What a successful `addTaskArtifact` does, seen by the other tenants: its bundle, on a
database in which nothing of theirs has changed, with projections under new ids. -/
theorem addTaskArtifact_run {ext : Externals} {a : TaskArtifact} {projections : List TaskProjection}
    {indexError : Option String} {now : ℤ} {ids : List ChunkId}
    (hids : ∀ r ∈ s.db.chunks, r.chunkId < s.nextId)
    (hrun : (addTaskArtifact ext a projections indexError now).run s = (.ok ids, s')) :
    ∃ db₁ projectionIds kinds, OwnChunks a.tenantId s.db db₁ ∧
      db₁.ensureTaskArtifactWriteSafe a = .ok () ∧ (∀ c ∈ projectionIds, s.nextId ≤ c) ∧
      OwnChunks a.tenantId (db₁.applyBundle a projectionIds kinds) s'.db := by
  obtain ⟨safe, s₀, hread, hcall⟩ := Proc.run_bind_eq_ok.mp hrun
  obtain ⟨_, s₁, hguard, hbody⟩ := Proc.run_bind_eq_ok.mp hcall
  obtain rfl : s = s₀ := congrArg Prod.snd hread
  obtain ⟨_, rfl⟩ := ofExcept_run hguard
  clear hrun hcall hread
  by_cases hnone : projections = []
  · rw [if_pos hnone] at hbody
    exact absurd hbody (by simp [Proc.run])
  by_cases hsame : projections.any (·.chunk.tenantId ≠ a.tenantId)
  · rw [if_neg hnone, if_pos hsame] at hbody
    exact absurd hbody (by simp [Proc.run])
  rw [if_neg hnone, if_neg hsame] at hbody
  generalize hexp : expandChunksForAdd ext (projections.map (·.chunk)) = expansion at hbody
  obtain ⟨expanded, positions⟩ := expansion
  -- the ids of the batch are new, its chunks the tenant's own
  obtain ⟨pending, s₁, hprep, hrun⟩ := Proc.run_bind_eq_ok.mp hbody
  obtain ⟨n, rfl, hstamped, hnew⟩ := preparePendingChunks_run hprep
  have ht : ∀ p ∈ pending, p.tenantId = a.tenantId := by
    intro p hp
    obtain ⟨part, hpart, hpt⟩ := hstamped.mem hp
    obtain ⟨chunk, hc, hct⟩ := mem_expandChunksForAdd
      (show part ∈ (expandChunksForAdd ext (projections.map (·.chunk))).1 by rw [hexp]; exact hpart)
    obtain ⟨proj, hproj, rfl⟩ := List.mem_map.mp hc
    rw [hpt, hct]
    by_contra hne
    exact hsame (List.any_eq_true.mpr ⟨proj, hproj, by simpa using hne⟩)
  obtain ⟨projectionIds, s₂, hpos, hrun⟩ := Proc.run_bind_eq_ok.mp hrun
  obtain ⟨hidsAt, rfl⟩ := ofExcept_run hpos
  have hfresh : ∀ c ∈ projectionIds, s.nextId ≤ c := by
    intro c hc
    obtain ⟨p, hp, rfl⟩ := List.mem_map.mp (idsAt_subset hidsAt c hc)
    exact (hnew.bounds p hp).1
  -- the log append, the batch, the bundle, the bookkeeping
  obtain ⟨_, s₃, hlog, hrun⟩ := Proc.run_bind_eq_ok.mp hrun
  obtain ⟨_, s₄, hbatch, hrun⟩ := Proc.run_bind_eq_ok.mp hrun
  obtain ⟨_, s₅, hbundle, hrun⟩ := Proc.run_bind_eq_ok.mp hrun
  obtain ⟨_, s₆, hindex, hrun⟩ := Proc.run_bind_eq_ok.mp hrun
  obtain ⟨_, s₇, hcheck, hrun⟩ := Proc.run_bind_eq_ok.mp hrun
  obtain rfl : s₇ = s' := congrArg Prod.snd hrun
  have hdb₃ : s₃.db = s.db :=
    (congrArg (fun x : Except MemdError Unit × Store => x.2.db) hlog).symm
  have h₄ : OwnChunks a.tenantId s.db s₄.db := by
    rw [← hdb₃]
    refine storeBatch_run hbatch ht ?_
    rw [hdb₃]
    intro r hr _ p hp
    exact Nat.ne_of_lt (Nat.lt_of_lt_of_le (hids r hr) (hnew.bounds p hp).1)
  obtain ⟨hok, h₅⟩ := insertTaskArtifactBundle_run hbundle
  refine ⟨s₄.db, projectionIds, projections.map (·.kind), h₄, hok, hfresh, ?_⟩
  rw [← h₅]
  exact ((ownSteps_recordIndexOutcome _ indexError now).run hindex).trans
    ((ownSteps_of_quiet (quiet_checkpointAfterBatch _)).run hcheck)

end PersistentStore

/-! ## Isolation -/

namespace Db

/-- With new ids for the projections, a collision is a collision without projections. -/
theorem noCollision_iff_of_fresh {db db₁ : Db} {a : TaskArtifact} {projections : List ChunkId}
    {kinds : List String} {n : ℕ} (h : OwnChunks a.tenantId db db₁)
    (hids : ∀ r ∈ db.chunks, r.chunkId < n) (hfresh : ∀ c ∈ projections, n ≤ c) :
    NoCollision db₁ a projections kinds ↔ NoCollision db a [] [] := by
  have hnot : ∀ l, db.foreignLink a.tenantId l = true → l.chunkId ∉ projections := by
    intro l hl hc
    obtain ⟨r, hr, hp⟩ := List.any_eq_true.mp hl
    rw [Bool.and_eq_true, beq_iff_eq] at hp
    have hlt := hids r hr
    rw [hp.1] at hlt
    exact absurd (hfresh _ hc) (Nat.not_le.mpr hlt)
  have hlast : ∀ l, db.foreignLink a.tenantId l = true →
      lastProjectionKind projections kinds l.chunkId = none := by
    intro l hl
    rw [lastProjectionKind, Option.map_eq_none_iff, List.find?_eq_none]
    intro q hq hqc
    rw [List.mem_reverse, List.mem_mapIdx] at hq
    obtain ⟨i, hi, rfl⟩ := hq
    simp only [beq_iff_eq] at hqc
    exact hnot l hl (hqc ▸ List.getElem_mem hi)
  have hlink : (∀ l ∈ db.artifactLinks, db.foreignLink a.tenantId l → l.artifactId = a.artifactId →
      a.artifactKind = .digest ∨ l.chunkId ∈ projections →
      lastProjectionKind projections kinds l.chunkId = some l.projectionKind) ↔
      (∀ l ∈ db.artifactLinks, db.foreignLink a.tenantId l → l.artifactId = a.artifactId →
      a.artifactKind = .digest ∨ l.chunkId ∈ [] →
      lastProjectionKind [] [] l.chunkId = some l.projectionKind) := by
    apply forall_congr'
    intro l
    apply forall_congr'
    intro _
    apply forall_congr'
    intro hl
    rw [hlast l hl]
    simp [hnot l hl, lastProjectionKind]
  constructor
  · rintro ⟨h₁, h₂, h₃, h₄, h₅⟩
    rw [h.taskArtifacts] at h₁
    rw [h.artifactSide] at h₂ h₃
    rw [h.challenges] at h₄
    simp only [h.artifactLinks, h.foreignLink_eq] at h₅
    exact ⟨h₁, h₂, h₃, h₄, hlink.mp h₅⟩
  · rintro ⟨h₁, h₂, h₃, h₄, h₅⟩
    rw [← h.taskArtifacts] at h₁
    rw [← h.artifactSide] at h₂ h₃
    rw [← h.challenges] at h₄
    refine ⟨h₁, h₂, h₃, h₄, ?_⟩
    simpa only [h.artifactLinks, h.foreignLink_eq] using hlink.mpr h₅

/-- **Exactly when the writes of one tenant leave the others alone.**  A bundle does when no
row of another tenant has a key the bundle writes with other values, a purge when no link of
another tenant's chunk is listed, and a whole `addTaskArtifact` when its bundle, whose
projections have new ids, does. -/
theorem isolated_iff_noCollision (db : Db) (hkey : Table.Keyed (·.taskId) db.tasks) :
    (∀ a projections kinds db',
      db.insertTaskArtifactBundle a projections kinds = .ok ((), db') →
      (Isolated a.tenantId db db' ↔ NoCollision db a projections kinds)) ∧
    (∀ A ids, Isolated A db (db.hardDeleteChunks A ids) ↔
      ∀ l ∈ db.artifactLinks, db.foreignLink A l → l.chunkId ∉ ids) ∧
    (∀ (ext : Externals) (s s' : Store) a projections indexError now ids, s.db = db →
      (∀ r ∈ db.chunks, r.chunkId < s.nextId) →
      (addTaskArtifact ext a projections indexError now).run s = (.ok ids, s') →
      (Isolated a.tenantId db s'.db ↔ NoCollision db a [] [])) := by
  refine ⟨?_, ?_, ?_⟩
  · intro a projections kinds db' hbundle
    rw [insertTaskArtifactBundle] at hbundle
    cases hsafe : db.ensureTaskArtifactWriteSafe a with
    | error e => simp [hsafe] at hbundle
    | ok _ =>
      obtain rfl : db.applyBundle a projections kinds = db' := by simpa [hsafe] using hbundle
      rw [isolated_iff, untouched_applyBundle hkey hsafe]
  · intro A ids
    rw [isolated_iff, untouched_hardDeleteChunks]
  · rintro ext s s' a projections indexError now ids rfl hids hrun
    obtain ⟨db₁, projectionIds, kinds, h₁, hsafe, hfresh, h₂⟩ := addTaskArtifact_run hids hrun
    have hkey₁ : Table.Keyed (·.taskId) db₁.tasks := by
      rw [h₁.tasks]
      exact hkey
    rw [isolated_iff, h₁.untouched_iff h₂, untouched_applyBundle hkey₁ hsafe,
      noCollision_iff_of_fresh h₁ hids hfresh]

/-! ### Two tenants with a project of the same name -/

/-- The project brief of a tenant's project. -/
def projectBrief (t : TenantId) (projectId : String) (now : ℤ) : TaskArtifact :=
  let identity := stableDigestIdentity "project_brief" projectId
  { artifactId := identity.1, artifactKind := .digest, taskId := identity.2.1, tenantId := t,
    projectId := some projectId, digestKey := some identity.2.2, timestampCreated := now }

/-- The tenant `b` has a brief of its project `p`. -/
def briefOfB : Db := { taskArtifacts := [projectBrief "b" "p" 1] }

/-- The projection chunk of a brief. -/
def briefProjection (t : TenantId) : TaskProjection :=
  ⟨"digest", { chunkId := 0, tenantId := t, text := "a" }⟩

/-- A brief of another project of the tenant `a` leaves `b` alone. -/
theorem isolated_otherProject :
    Isolated "a" briefOfB (briefOfB.applyBundle (projectBrief "a" "q" 2) [0] ["digest"]) ∧
    Isolated "a" briefOfB (briefOfB.hardDeleteChunks "a" [0]) ∧
    Isolated "a" briefOfB ((addTaskArtifact sampleExternals (projectBrief "a" "q" 2)
      [briefProjection "a"] none 2).run { db := briefOfB }).2.db := by
  have hfree : ∀ projections kinds,
      NoCollision briefOfB (projectBrief "a" "q" 2) projections kinds := by
    intro projections kinds
    refine ⟨?_, ?_, ?_, ?_, ?_⟩
    · simp only [briefOfB, List.mem_singleton, forall_eq]
      decide
    · simp [briefOfB]
    · simp [briefOfB]
    · simp [briefOfB]
    · simp [briefOfB]
  obtain ⟨hbundle, hpurge, hcall⟩ := isolated_iff_noCollision briefOfB (.nil _)
  refine ⟨(hbundle (projectBrief "a" "q" 2) [0] ["digest"] _ rfl).mpr (hfree _ _), ?_, ?_⟩
  · exact (hpurge "a" [0]).mpr (by simp [briefOfB])
  · have hids : ∀ r ∈ briefOfB.chunks, r.chunkId < ({ db := briefOfB } : Store).nextId := by
      simp [briefOfB]
    exact (hcall sampleExternals { db := briefOfB } _ (projectBrief "a" "q" 2)
      [briefProjection "a"] none 2 [0] rfl hids (Prod.ext (by decide) rfl)).mpr (hfree _ _)

/-- A brief of the tenant `a` for a project of the same name replaces the brief of `b`. -/
theorem brief_replaces_other_tenants_brief :
    briefOfB.insertTaskArtifactBundle (projectBrief "a" "p" 2) [0] ["digest"] =
      .ok ((), briefOfB.applyBundle (projectBrief "a" "p" 2) [0] ["digest"]) ∧
    briefOfB.getTaskArtifact "b" (projectBrief "b" "p" 1).artifactId =
      some (projectBrief "b" "p" 1) ∧
    (briefOfB.applyBundle (projectBrief "a" "p" 2) [0] ["digest"]).getTaskArtifact "b"
      (projectBrief "b" "p" 1).artifactId = none ∧
    ¬ Isolated "a" briefOfB (briefOfB.applyBundle (projectBrief "a" "p" 2) [0] ["digest"]) := by
  have hafter : (briefOfB.applyBundle (projectBrief "a" "p" 2) [0] ["digest"]).getTaskArtifact "b"
      (projectBrief "b" "p" 1).artifactId = none := by decide
  have hbefore : briefOfB.getTaskArtifact "b" (projectBrief "b" "p" 1).artifactId =
      some (projectBrief "b" "p" 1) := by decide
  refine ⟨by decide, hbefore, hafter, ?_⟩
  intro h
  have hview := (h.2 "b" (by decide)).1 (projectBrief "b" "p" 1).artifactId
  rw [hbefore, hafter] at hview
  exact absurd hview (by simp)

end Db
