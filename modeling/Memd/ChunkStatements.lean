/-
# Statements on the `chunks` table

Every SQL statement of `chunks.rs` and `lifecycle.rs` that the modelled code runs, as
a function of the database, with its `WHERE` clause written out.  A chunk row is
`Live` when its status is not `'deleted'`.

The statements that only touch the overlay of rows are `Overlay`s: they keep every
row's identity and location and never bring a deleted row back.
-/
import Memd.Database

namespace ChunkRow

/-- `tenant_id = t AND chunk_id = c`. -/
def isRow (t : TenantId) (c : ChunkId) (r : ChunkRow) : Bool :=
  r.tenantId == t && r.chunkId == c

/-- `status != 'deleted'`. -/
def isLive (r : ChunkRow) : Bool :=
  r.status != .deleted

/-- The row is at the given location of its tenant. -/
def isAt (t : TenantId) (segmentId ordinal : ℕ) (r : ChunkRow) : Bool :=
  r.tenantId == t && r.segmentId == segmentId && r.ordinal == ordinal

/-- Which rows an insert replaces: same primary key, or same location in the tenant. -/
def conflicts (r new : ChunkRow) : Bool :=
  r.chunkId == new.chunkId || r.isAt new.tenantId new.segmentId new.ordinal

end ChunkRow

namespace Db

open ChunkRow

/-! ## Reading -/

/-- The row of a chunk, deleted or not. -/
def row (db : Db) (t : TenantId) (c : ChunkId) : Option ChunkRow :=
  db.chunks.find? fun r => isRow t c r

/-- `MetadataStore::get`. -/
def get (db : Db) (t : TenantId) (c : ChunkId) : Option ChunkMetadata :=
  (db.chunks.find? fun r => isRow t c r && isLive r).map (·.toChunkMetadata)

/-- `MetadataStore::list`: newest first. -/
def list (db : Db) (t : TenantId) (limit offset : ℕ) : List ChunkMetadata :=
  (((db.chunks.filter fun r =>
      r.tenantId == t && r.status != .candidate && r.status != .deleted).mergeSort
      fun a b => decide (b.timestampCreated ≤ a.timestampCreated)).drop offset |>.take limit).map
    (·.toChunkMetadata)

/-- `MetadataStore::get_by_segment`: in ordinal order. -/
def getBySegment (db : Db) (t : TenantId) (segmentId : ℕ) : List ChunkMetadata :=
  ((db.chunks.filter fun r => r.tenantId == t && r.segmentId == segmentId).mergeSort
    fun a b => decide (a.ordinal ≤ b.ordinal)).map (·.toChunkMetadata)

/-! ## Inserting and deleting -/

/-- `UPDATE chunks SET f WHERE p`. -/
def updateChunks (db : Db) (p : ChunkRow → Bool) (f : ChunkRow → ChunkRow) : Db :=
  { db with chunks := Table.updateWhere p f db.chunks }

/-- One row of `insert_many`; the index columns take their defaults. -/
def insert (db : Db) (m : ChunkMetadata) : Db :=
  { db with chunks := Table.insertOrReplace conflicts { toChunkMetadata := m } db.chunks }

/-- `MetadataStore::insert_many`, one transaction. -/
def insertMany (db : Db) (rows : List ChunkMetadata) : Db :=
  rows.foldl insert db

/-- `MetadataStore::mark_deleted`. -/
def markDeleted (db : Db) (t : TenantId) (c : ChunkId) : Db :=
  db.updateChunks (fun r => isRow t c r && isLive r) fun r => { r with status := .deleted }

/-- `hard_delete_chunks`: only rows that are already soft-deleted go; the links of
every listed chunk go. -/
def hardDeleteChunks (db : Db) (t : TenantId) (ids : List ChunkId) : Db :=
  ids.foldl (fun db c =>
    { db with
      artifactLinks := Table.deleteWhere (fun l => l.chunkId == c) db.artifactLinks
      chunks := Table.deleteWhere (fun r => isRow t c r && r.status == .deleted) db.chunks }) db

/-- One relocation of `update_chunk_locations`: the number of rows it matched, or the
violation of `UNIQUE(tenant_id, segment_id, ordinal)`. -/
def updateChunkLocation (db : Db) (t : TenantId) (c : ChunkId) (segmentId ordinal : ℕ) :
    Except MemdError (ℕ × Db) :=
  let matched := db.chunks.filter fun r => isRow t c r && isLive r
  if matched ≠ [] ∧ db.chunks.any fun r => isAt t segmentId ordinal r && !isRow t c r then
    .error (.storageError
      "UNIQUE constraint failed: chunks.tenant_id, chunks.segment_id, chunks.ordinal")
  else
    .ok (matched.length, db.updateChunks (fun r => isRow t c r && isLive r)
      fun r => { r with segmentId := segmentId, ordinal := ordinal })

/-- `update_chunk_locations`, one transaction: every relocation must find its row. -/
def updateChunkLocations (db : Db) (t : TenantId) (relocations : List (ChunkId × ℕ × ℕ)) :
    Except MemdError (Unit × Db) := do
  let (updated, db') ← relocations.foldlM (fun (acc : ℕ × Db) r => do
    let (n, db') ← acc.2.updateChunkLocation t r.1 r.2.1 r.2.2
    pure (acc.1 + n, db')) (0, db)
  if updated ≠ relocations.length then
    throw (.storageError
      s!"segment rewrite location update matched {updated} of {relocations.length} rows")
  pure ((), db')

/-! ## Index columns -/

/-- `mark_index_pending`. -/
def markIndexPending (db : Db) (t : TenantId) (ids : List ChunkId) (now : ℤ) : Db :=
  ids.foldl (fun db c => db.updateChunks (isRow t c) fun r =>
    { r with indexState := .pending, indexAttempts := 0, indexLastError := none,
             indexedAtMs := none, indexUpdatedAtMs := now }) db

/-- `mark_indexed`. -/
def markIndexed (db : Db) (t : TenantId) (ids : List ChunkId) (now : ℤ) : Db :=
  ids.foldl (fun db c => db.updateChunks (isRow t c) fun r =>
    { r with indexState := .indexed, indexLastError := none, indexedAtMs := some now,
             indexUpdatedAtMs := now }) db

/-- `mark_index_failed`. -/
def markIndexFailed (db : Db) (t : TenantId) (c : ChunkId) (error : String) (now : ℤ) : Db :=
  db.updateChunks (isRow t c) fun r =>
    { r with indexState := .failed, indexAttempts := r.indexAttempts + 1,
             indexLastError := some error, indexUpdatedAtMs := now }

/-! ## The lifecycle overlay -/

/-- The row after the `SET` clause of `update_lifecycle_counted`. -/
def applyDelta (delta : LifecycleDelta) (r : ChunkRow) : ChunkRow :=
  { r with
    status := delta.status.getD r.status
    lifecycle := { r.lifecycle with
      tier := delta.tier.getD r.lifecycle.tier
      supersedes := delta.supersedes.or r.lifecycle.supersedes
      supersededBy := delta.supersededBy.or r.lifecycle.supersededBy
      expiresAtMs := delta.expiresAtMs.getD r.lifecycle.expiresAtMs
      reviewAfterMs := delta.reviewAfterMs.getD r.lifecycle.reviewAfterMs
      lifecycleUpdatedAtMs := delta.lifecycleUpdatedAtMs.getD r.lifecycle.lifecycleUpdatedAtMs } }

/-- `update_lifecycle_counted`: the number of rows matched, and the database. -/
def updateLifecycleCounted (db : Db) (t : TenantId) (c : ChunkId) (delta : LifecycleDelta) :
    ℕ × Db :=
  ((db.chunks.filter fun r => isRow t c r && isLive r).length,
   db.updateChunks (fun r => isRow t c r && isLive r) (applyDelta delta))

/-- The first `UPDATE` of `atomic_supersede_lifecycle`. -/
def linkOld (db : Db) (t : TenantId) (old new : ChunkId) (now : ℤ) : Db :=
  db.updateChunks (fun r => isRow t old r && r.lifecycle.supersededBy.isNone) fun r =>
    { r with
      status := .superseded
      lifecycle := { r.lifecycle with supersededBy := some new, lifecycleUpdatedAtMs := now } }

/-- The second `UPDATE` of `atomic_supersede_lifecycle`. -/
def linkNew (db : Db) (t : TenantId) (old new : ChunkId) (now : ℤ) : Db :=
  db.updateChunks (isRow t new) fun r =>
    { r with lifecycle := { r.lifecycle with supersedes := some old, lifecycleUpdatedAtMs := now } }

/-- `atomic_supersede_lifecycle`: both sides of the edge, or nothing. -/
def atomicSupersede (db : Db) (t : TenantId) (old new : ChunkId) (now : ℤ) :
    Except MemdError (Unit × Db) :=
  let oldRows := (db.chunks.filter fun r =>
    isRow t old r && r.lifecycle.supersededBy.isNone).length
  if oldRows ≠ 1 then
    .error (.validationError s!"atomic_supersede: old chunk {old} is not current head or missing in tenant {t} (rows={oldRows})")
  else
    let db₁ := db.linkOld t old new now
    let newRows := (db₁.chunks.filter (isRow t new)).length
    if newRows ≠ 1 then
      .error (.storageError s!"atomic_supersede: new chunk {new} not found in tenant {t} (rows={newRows})")
    else .ok ((), db₁.linkNew t old new now)

/-- `list_expired_before`. -/
def listExpiredBefore (db : Db) (t : TenantId) (now : ℤ) : List ChunkId :=
  (db.chunks.filter fun r => r.tenantId == t
    && (r.lifecycle.expiresAtMs.any fun e => decide (e ≤ now))
    && (r.status == .draft || r.status == .final)).map (·.chunkId)

/-- `mark_expired_if_final`. -/
def markExpiredIfFinal (db : Db) (t : TenantId) (c : ChunkId) (now : ℤ) : Db :=
  db.updateChunks (fun r => isRow t c r && r.status == .final
      && r.lifecycle.expiresAtMs.any fun e => decide (e ≤ now)) fun r =>
    { r with status := .expired, lifecycle := { r.lifecycle with lifecycleUpdatedAtMs := now } }

/-- `list_stale_superseded`. -/
def listStaleSuperseded (db : Db) (t : TenantId) (olderThan : ℤ) : List ChunkId :=
  (db.chunks.filter fun r => r.tenantId == t
    && (r.status == .superseded || r.status == .expired) && r.lifecycle.tier != .history
    && decide (r.lifecycle.lifecycleUpdatedAtMs < olderThan)).map (·.chunkId)

/-- `promote_to_history_if_stale`. -/
def promoteToHistoryIfStale (db : Db) (t : TenantId) (c : ChunkId) (olderThan now : ℤ) : Db :=
  db.updateChunks (fun r => isRow t c r && (r.status == .superseded || r.status == .expired)
      && r.lifecycle.tier != .history
      && decide (r.lifecycle.lifecycleUpdatedAtMs < olderThan)) fun r =>
    { r with lifecycle := { r.lifecycle with tier := .history, lifecycleUpdatedAtMs := now } }

/-! ## Rows and reads -/

theorem isRow_iff {t : TenantId} {c : ChunkId} {r : ChunkRow} :
    isRow t c r = true ↔ r.tenantId = t ∧ r.chunkId = c := by
  simp [isRow]

theorem isLive_iff {r : ChunkRow} : isLive r = true ↔ r.status ≠ .deleted := by
  simp [isLive]

/-- A successful read found a row that is not deleted. -/
theorem exists_row_of_get {db : Db} {t : TenantId} {c : ChunkId} {m : ChunkMetadata}
    (h : db.get t c = some m) : ∃ r ∈ db.chunks,
      r.tenantId = t ∧ r.chunkId = c ∧ r.status ≠ .deleted ∧ r.toChunkMetadata = m := by
  obtain ⟨r, hr, rfl⟩ := Option.map_eq_some_iff.mp h
  have hp := List.find?_some hr
  rw [Bool.and_eq_true, isRow_iff, isLive_iff] at hp
  exact ⟨r, List.mem_of_find?_eq_some hr, hp.1.1, hp.1.2, hp.2, rfl⟩

/-- A read that finds nothing: every row of the chunk is deleted. -/
theorem get_eq_none_iff {db : Db} {t : TenantId} {c : ChunkId} :
    db.get t c = none ↔ ∀ r ∈ db.chunks, r.tenantId = t → r.chunkId = c → r.status = .deleted := by
  rw [get, Option.map_eq_none_iff, List.find?_eq_none]
  constructor
  · intro h r hr ht hc
    by_contra hlive
    exact h r hr (by rw [Bool.and_eq_true, isRow_iff, isLive_iff]; exact ⟨⟨ht, hc⟩, hlive⟩)
  · intro h r hr hp
    rw [Bool.and_eq_true, isRow_iff, isLive_iff] at hp
    exact hp.2 (h r hr hp.1.1 hp.1.2)

/-! ## The keys of the table -/

/-- `PRIMARY KEY(chunk_id)` and `UNIQUE(tenant_id, segment_id, ordinal)`. -/
structure ChunkKeys (db : Db) : Prop where
  ids : Table.Keyed (·.chunkId) db.chunks
  locations : Table.Keyed (fun r => (r.tenantId, r.segmentId, r.ordinal)) db.chunks

theorem mem_insert {db : Db} {m : ChunkMetadata} {x : ChunkRow} :
    x ∈ (db.insert m).chunks ↔
      (x ∈ db.chunks ∧ x.chunkId ≠ m.chunkId ∧
        ¬ (x.tenantId = m.tenantId ∧ x.segmentId = m.segmentId ∧ x.ordinal = m.ordinal)) ∨
      x = { toChunkMetadata := m } := by
  rw [insert, Table.mem_insertOrReplace]
  simp only [conflicts, isAt, Bool.or_eq_false_iff, Bool.and_eq_false_iff, beq_eq_false_iff_ne]
  tauto

theorem ChunkKeys.insert {db : Db} (h : ChunkKeys db) (m : ChunkMetadata) :
    ChunkKeys (db.insert m) where
  ids := by
    apply h.ids.insertOrReplace
    intro r _ hk
    simp [conflicts, show r.chunkId = m.chunkId from hk]
  locations := by
    apply h.locations.insertOrReplace
    intro r _ hk
    obtain ⟨h₁, h₂, h₃⟩ : r.tenantId = m.tenantId ∧ r.segmentId = m.segmentId ∧
      r.ordinal = m.ordinal := by simpa [Prod.mk.injEq] using hk
    simp [conflicts, isAt, h₁, h₂, h₃]

theorem mem_updateChunks {db : Db} {p : ChunkRow → Bool} {f : ChunkRow → ChunkRow} {x : ChunkRow} :
    x ∈ (db.updateChunks p f).chunks ↔ ∃ r ∈ db.chunks, x = if p r then f r else r :=
  Table.mem_updateWhere

/-! ## Overlays -/

/-- `r'` is `r` with other overlay columns: same chunk, same place, deleted iff `r` is. -/
structure OverlayRow (r r' : ChunkRow) : Prop where
  chunkId : r'.chunkId = r.chunkId
  tenantId : r'.tenantId = r.tenantId
  segmentId : r'.segmentId = r.segmentId
  ordinal : r'.ordinal = r.ordinal
  deleted : r'.status = .deleted ↔ r.status = .deleted

theorem OverlayRow.refl (r : ChunkRow) : OverlayRow r r :=
  ⟨rfl, rfl, rfl, rfl, Iff.rfl⟩

/-- `db'` is `db` with other overlay columns. -/
def Overlay (db db' : Db) : Prop :=
  ∃ f : ChunkRow → ChunkRow, (∀ r, OverlayRow r (f r)) ∧ db'.chunks = db.chunks.map f

theorem Overlay.refl (db : Db) : Overlay db db :=
  ⟨id, OverlayRow.refl, (List.map_id _).symm⟩

theorem Overlay.of_chunks_eq {db db' : Db} (h : db'.chunks = db.chunks) : Overlay db db' :=
  ⟨id, OverlayRow.refl, by rw [h, List.map_id]⟩

theorem Overlay.trans {db₁ db₂ db₃ : Db} (h₁ : Overlay db₁ db₂) (h₂ : Overlay db₂ db₃) :
    Overlay db₁ db₃ := by
  obtain ⟨f, hf, e₁⟩ := h₁
  obtain ⟨g, hg, e₂⟩ := h₂
  refine ⟨g ∘ f, ?_, by rw [e₂, e₁, List.map_map]⟩
  intro r
  exact ⟨(hg _).chunkId.trans (hf r).chunkId, (hg _).tenantId.trans (hf r).tenantId,
    (hg _).segmentId.trans (hf r).segmentId, (hg _).ordinal.trans (hf r).ordinal,
    (hg _).deleted.trans (hf r).deleted⟩

/-- An update whose `SET` clause is an overlay wherever its `WHERE` clause matches. -/
theorem Overlay.updateChunks (db : Db) {p : ChunkRow → Bool} {f : ChunkRow → ChunkRow}
    (hf : ∀ r, p r = true → OverlayRow r (f r)) : Overlay db (db.updateChunks p f) := by
  refine ⟨fun r => if p r then f r else r, ?_, rfl⟩
  intro r
  by_cases hp : p r
  · simpa [hp] using hf r hp
  · simpa [hp] using OverlayRow.refl r

/-- A loop of overlays is an overlay. -/
theorem Overlay.foldl {α : Type} {step : Db → α → Db} (hstep : ∀ db a, Overlay db (step db a))
    (l : List α) (db : Db) : Overlay db (l.foldl step db) := by
  induction l generalizing db with
  | nil => exact .refl db
  | cons a l ih => exact (hstep db a).trans (ih _)

theorem Overlay.mem {db db' : Db} (h : Overlay db db') {x : ChunkRow} (hx : x ∈ db'.chunks) :
    ∃ r ∈ db.chunks, OverlayRow r x := by
  obtain ⟨f, hf, e⟩ := h
  rw [e] at hx
  obtain ⟨r, hr, rfl⟩ := List.mem_map.mp hx
  exact ⟨r, hr, hf r⟩

theorem Overlay.mem_of_mem {db db' : Db} (h : Overlay db db') {r : ChunkRow}
    (hr : r ∈ db.chunks) : ∃ x ∈ db'.chunks, OverlayRow r x := by
  obtain ⟨f, hf, e⟩ := h
  exact ⟨f r, by rw [e]; exact List.mem_map_of_mem hr, hf r⟩

theorem ChunkKeys.overlay {db db' : Db} (h : ChunkKeys db) (ho : Overlay db db') :
    ChunkKeys db' := by
  obtain ⟨f, hf, e⟩ := ho
  constructor
  · have : db'.chunks.map (·.chunkId) = db.chunks.map (·.chunkId) := by
      rw [e, List.map_map]
      exact List.map_congr_left fun r _ => (hf r).chunkId
    rw [Table.Keyed, this]
    exact h.ids
  · have : db'.chunks.map (fun r => (r.tenantId, r.segmentId, r.ordinal)) =
        db.chunks.map (fun r => (r.tenantId, r.segmentId, r.ordinal)) := by
      rw [e, List.map_map]
      apply List.map_congr_left
      intro r _
      simp [(hf r).tenantId, (hf r).segmentId, (hf r).ordinal]
    rw [Table.Keyed, this]
    exact h.locations

theorem overlay_markIndexPending (db : Db) (t : TenantId) (ids : List ChunkId) (now : ℤ) :
    Overlay db (db.markIndexPending t ids now) := by
  apply Overlay.foldl
  intro db c
  apply Overlay.updateChunks
  intro r _
  exact ⟨rfl, rfl, rfl, rfl, Iff.rfl⟩

theorem overlay_markIndexed (db : Db) (t : TenantId) (ids : List ChunkId) (now : ℤ) :
    Overlay db (db.markIndexed t ids now) := by
  apply Overlay.foldl
  intro db c
  apply Overlay.updateChunks
  intro r _
  exact ⟨rfl, rfl, rfl, rfl, Iff.rfl⟩

theorem overlay_markIndexFailed (db : Db) (t : TenantId) (c : ChunkId) (e : String) (now : ℤ) :
    Overlay db (db.markIndexFailed t c e now) := by
  apply Overlay.updateChunks
  intro r _
  exact ⟨rfl, rfl, rfl, rfl, Iff.rfl⟩

end Db
