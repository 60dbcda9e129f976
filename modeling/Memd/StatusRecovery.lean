/-
# Statuses across crashes and recoveries

The status of a chunk is a column of its row.  The log tells of adds and deletes only: a
replayed Add record gives a chunk that has no live row a new one, a replayed Delete record
marks the row deleted, and everything else a recovery leaves alone.  So the statuses survive
when the log and the rows agree on what is deleted (`Settled`).

* `Steady` — what holds of the rows, with the records `rest` still to be replayed;
* `safe_openTenant_steady` — reopening keeps it, wherever it fails or is cut off;
* `Settled.survives` — after any sequence of crashes and reopenings every chunk has the
  status it had.
-/
import Memd.AddRun

open Proc Store TenantStore PersistentStore

/-! ## Steps on segments, failing ones included -/

/-- A step on segments: database and log stay, no spent location is given back. -/
structure Store.Moves (s s' : Store) : Prop where
  db : s'.db = s.db
  wal : s'.wal = s.wal
  spent : ∀ l, s.Spent l → s'.Spent l
  active : s.ActiveDir → s'.ActiveDir

section Moves

variable {s s' s'' : Store}

theorem Store.Moves.refl (s : Store) : Moves s s :=
  ⟨rfl, rfl, fun _ h => h, fun h => h⟩

/-- Steps on files and handle compose. -/
theorem Store.Moves.trans (h : Moves s s') (h' : Moves s' s'') : Moves s s'' :=
  ⟨h'.db.trans h.db, h'.wal.trans h.wal, fun l hl => h'.spent l (h.spent l hl),
    fun ha => h'.active (h.active ha)⟩

/-- Adding to the files is such a step. -/
theorem Store.Grows.moves (h : Grows s s') : Moves s s' :=
  ⟨h.db, h.wal, h.advances.spent, h.advances.active⟩

/-- Without an open segment only the directories count. -/
theorem Store.Spent.closed {l : ℕ × ℕ} (h : s.Spent l) (hd : s'.segmentDirs = s.segmentDirs)
    (ha : s'.handle.activeSegment = none) : s'.Spent l := by
  refine ⟨hd ▸ h.1, fun a ha' => ?_⟩
  rw [ha] at ha'
  exact absurd ha' (by simp)

/-- Without an active segment there is nothing to show about its directory. -/
theorem activeDir_of_none (h : s.handle.activeSegment = none) : s.ActiveDir := by
  intro a ha
  rw [h] at ha
  exact absurd ha (by simp)

/-- Sealing, also where it fails and leaves the slot empty. -/
theorem moves_sealActive (s : Store) (a : ActiveSegment) : Moves s (s.sealActive a).2 := by
  unfold sealActive
  split
  · exact ⟨rfl, rfl, fun l hl => hl.closed rfl rfl, fun _ => activeDir_of_none rfl⟩
  · refine ⟨rfl, rfl, fun l hl => ?_, fun _ => activeDir_of_none rfl⟩
    exact ⟨exists_le_updateDir (fun _ => rfl) hl.1, by simp [load, updateDir, setActive]⟩

/-- A rotation moves files only, whatever fails in it. -/
theorem moves_rotateIfFull (maxChunks : ℕ) (s : Store) : Moves s (rotateIfFull maxChunks s).2 := by
  unfold rotateIfFull
  split
  · split
    · exact .refl s
    · exact moves_sealActive s _
  · exact .refl s

/-- So does a finalization. -/
theorem moves_finalizeActive (s : Store) : Moves s (finalizeActive s).2 := by
  unfold finalizeActive
  split
  · exact .refl s
  · split
    · exact moves_sealActive s _
    · exact ⟨rfl, rfl, fun l hl => hl.closed rfl rfl, fun _ => activeDir_of_none rfl⟩

/-- So does a tombstone. -/
theorem moves_tombstone (segmentId ordinal : ℕ) (s : Store) :
    Moves s (tombstone segmentId ordinal s) := by
  unfold tombstone
  split
  · exact ⟨rfl, rfl, fun l hl => ⟨exists_le_updateDir (fun _ => rfl) hl.1, hl.2⟩,
      fun h a ha => exists_updateDir (fun _ => rfl) (h a ha)⟩
  · exact .refl s

/-- An append, if there is a segment to append to, takes a location that was not spent. -/
theorem moves_appendToActive (msg : String) (chunk : MemoryChunk) (s : Store) :
    Moves s (appendToActive msg chunk s).2 ∧
      ∀ l, (appendToActive msg chunk s).1 = .ok l → ¬ s.Spent l ∧
        (s.ActiveDir → (appendToActive msg chunk s).2.Spent l) := by
  cases ha : s.handle.activeSegment with
  | none =>
    simp only [appendToActive, ha]
    exact ⟨.refl s, fun l h => absurd h (by simp)⟩
  | some a =>
    obtain ⟨hr, hgrows, _, _, hissued⟩ := appendToActive_spec msg chunk ha
    refine ⟨hgrows.moves, fun l hl => ?_⟩
    rw [hr] at hl
    obtain rfl : (a.id, a.chunks.length) = l := Except.ok.inj hl
    exact ⟨fun h => Nat.lt_irrefl _ (h.2 a ha rfl), fun h => (hissued h).spent⟩

end Moves

/-! ## The rows and the log -/

/-- `mark_deleted` of a chunk, on one row. -/
def ChunkMetadata.deletedIn (t : TenantId) (c : ChunkId) (m : ChunkMetadata) : ChunkMetadata :=
  if m.tenantId = t ∧ m.chunkId = c ∧ m.status ≠ .deleted then { m with status := .deleted } else m

/-- A delete keeps the id, the tenant and the location. -/
theorem ChunkMetadata.deletedIn_frame (t : TenantId) (c : ChunkId) (m : ChunkMetadata) :
    (m.deletedIn t c).chunkId = m.chunkId ∧ (m.deletedIn t c).tenantId = m.tenantId ∧
      (m.deletedIn t c).segmentId = m.segmentId ∧ (m.deletedIn t c).ordinal = m.ordinal := by
  unfold deletedIn
  split <;> exact ⟨rfl, rfl, rfl, rfl⟩

namespace Db

/-- The status of a chunk. -/
def statusOf (db : Db) (c : ChunkId) : Option ChunkStatus :=
  (db.metadata.find? (·.chunkId == c)).map (·.status)

/-- The rows are those of the table. -/
theorem mem_metadata {db : Db} {m : ChunkMetadata} :
    m ∈ db.metadata ↔ ∃ r ∈ db.chunks, r.toChunkMetadata = m :=
  List.mem_map

/-- A row that is found is one of the tenant with this id, and not deleted. -/
theorem mem_metadata_of_get {db : Db} {t : TenantId} {c : ChunkId} {m : ChunkMetadata}
    (h : db.get t c = some m) :
    m ∈ db.metadata ∧ m.tenantId = t ∧ m.chunkId = c ∧ m.status ≠ .deleted := by
  obtain ⟨r, hr, ht, hc, hlive, rfl⟩ := exists_row_of_get h
  exact ⟨mem_metadata.mpr ⟨r, hr, rfl⟩, ht, hc, hlive⟩

/-- A chunk that is not found is deleted or not there. -/
theorem deleted_of_get_none {db : Db} {t : TenantId} {c : ChunkId} (h : db.get t c = none)
    {m : ChunkMetadata} (hm : m ∈ db.metadata) (ht : m.tenantId = t) (hc : m.chunkId = c) :
    m.status = .deleted := by
  obtain ⟨r, hr, rfl⟩ := mem_metadata.mp hm
  exact get_eq_none_iff.mp h r hr ht hc

/-- What a delete does to the rows. -/
theorem metadata_markDeleted (db : Db) (t : TenantId) (c : ChunkId) :
    (db.markDeleted t c).metadata = db.metadata.map (ChunkMetadata.deletedIn t c) := by
  rw [metadata, metadata, markDeleted, updateChunks, Table.updateWhere, List.map_map, List.map_map]
  apply List.map_congr_left
  intro r _
  rw [Function.comp_apply, Function.comp_apply, ChunkMetadata.deletedIn]
  by_cases h : r.tenantId = t ∧ r.chunkId = c ∧ r.status ≠ .deleted
  · rw [if_pos h, if_pos (by simpa [ChunkRow.isRow, ChunkRow.isLive, and_assoc] using h)]
  · rw [if_neg h, if_neg (by simpa [ChunkRow.isRow, ChunkRow.isLive, and_assoc] using h)]

/-- The rows of a bundle that is no digest stay. -/
theorem metadata_applyBundle (db : Db) {a : TaskArtifact} (h : a.artifactKind ≠ .digest)
    (projections : List ChunkId) (kinds : List String) :
    (db.applyBundle a projections kinds).metadata = db.metadata := by
  simp only [applyBundle, h, if_false]
  rfl

end Db

variable {t : TenantId} {ref : ChunkId → Option ChunkStatus} {rest : List LogRecord} {s s' : Store}

/-- What the log says about the statuses `ref`: an added chunk is the tenant's and has a
status, and if it is deleted a Delete record follows; a deleted one is deleted. -/
structure LogAgrees (t : TenantId) (ref : ChunkId → Option ChunkStatus) (records : List LogRecord) :
    Prop where
  adds : ∀ pre p post, records = pre ++ .add p :: post → p.tenantId = t ∧
    ∃ st, ref p.chunkId = some st ∧ (st ≠ .deleted ∨ .delete p.chunkId ∈ post)
  deletes : ∀ c, .delete c ∈ records → ∀ st, ref c = some st → st = .deleted
  digests : ∀ p, .taskArtifact p ∈ records → p.artifact.artifactKind ≠ .digest

/-- The rows have the statuses `ref`, but for deletes that are still to be replayed. -/
structure Steady (t : TenantId) (ref : ChunkId → Option ChunkStatus) (rest : List LogRecord)
    (s : Store) : Prop where
  rows : ∀ m ∈ s.db.metadata, ref m.chunkId = some m.status ∨ (m.tenantId = t ∧
    ref m.chunkId = some .deleted ∧ m.status ≠ .deleted ∧ .delete m.chunkId ∈ rest)
  all : ∀ c st, ref c = some st → ∃ m ∈ s.db.metadata, m.chunkId = c
  log : LogAgrees t ref s.recordsForRecovery
  tenants : ∀ p, .add p ∈ s.recordsForRecovery → ∀ m ∈ s.db.metadata, m.chunkId = p.chunkId →
    m.tenantId = t
  spent : ∀ m ∈ s.db.metadata, m.tenantId = t → s.Spent (m.segmentId, m.ordinal)
  active : s.ActiveDir

/-- More records may be left to be replayed. -/
theorem Steady.mono (h : Steady t ref rest s) {rest' : List LogRecord}
    (hr : ∀ r ∈ rest, r ∈ rest') : Steady t ref rest' s := by
  refine { h with rows := fun m hm => ?_ }
  rcases h.rows m hm with hst | ⟨ht, hdel, hlive, hmem⟩
  · exact .inl hst
  · exact .inr ⟨ht, hdel, hlive, hr _ hmem⟩

/-- Steps on files keep rows and log in agreement. -/
theorem Steady.moves (h : Steady t ref rest s) (hs : Moves s s') : Steady t ref rest s' := by
  have hrec : s'.recordsForRecovery = s.recordsForRecovery := by
    rw [recordsForRecovery, recordsForRecovery, hs.wal]
  exact
    { rows := hs.db ▸ h.rows
      all := hs.db ▸ h.all
      log := hrec ▸ h.log
      tenants := by rw [hrec, hs.db]; exact h.tenants
      spent := fun m hm ht => hs.spent _ (h.spent m (hs.db ▸ hm) ht)
      active := hs.active h.active }

/-- What a crash may find: every record is still to be replayed. -/
def CrashSteady (t : TenantId) (ref : ChunkId → Option ChunkStatus) (s : Store) : Prop :=
  Steady t ref s.recordsForRecovery s

/-- Also for a store that has crashed. -/
theorem CrashSteady.moves (h : CrashSteady t ref s) (hs : Moves s s') : CrashSteady t ref s' := by
  have hrec : s'.recordsForRecovery = s.recordsForRecovery := by
    rw [recordsForRecovery, recordsForRecovery, hs.wal]
  rw [CrashSteady, hrec]
  exact Steady.moves h hs

/-- Between two replays: the records in `rest` are still to come. -/
structure Midway (t : TenantId) (ref : ChunkId → Option ChunkStatus) (rest : List LogRecord)
    (s : Store) : Prop where
  steady : Steady t ref rest s
  suffix : ∃ done, s.recordsForRecovery = done ++ rest

/-- A replay that is cut off leaves a store that can be replayed. -/
theorem Midway.crash (h : Midway t ref rest s) : CrashSteady t ref s := by
  obtain ⟨done, hsplit⟩ := h.suffix
  apply h.steady.mono
  intro r hr
  rw [hsplit]
  exact List.mem_append_right _ hr

/-- Steps on files keep a replay where it is. -/
theorem Midway.moves (h : Midway t ref rest s) (hs : Moves s s') : Midway t ref rest s' := by
  refine ⟨h.steady.moves hs, ?_⟩
  rw [recordsForRecovery, hs.wal]
  exact h.suffix

/-- A record that no row waits for is done. -/
theorem Midway.tail {r : LogRecord} (h : Midway t ref (r :: rest) s)
    (hr : ∀ c, r = .delete c → ∀ m ∈ s.db.metadata, m.tenantId = t → m.chunkId = c →
      m.status = .deleted) : Midway t ref rest s := by
  obtain ⟨done, hsplit⟩ := h.suffix
  refine ⟨{ h.steady with rows := fun m hm => ?_ }, done ++ [r], by simp [hsplit]⟩
  rcases h.steady.rows m hm with hst | ⟨ht, hdel, hlive, hmem⟩
  · exact .inl hst
  · rcases List.mem_cons.mp hmem with hc | hmem
    · exact absurd (hr m.chunkId hc.symm m hm ht rfl) hlive
    · exact .inr ⟨ht, hdel, hlive, hmem⟩

/-! ## Midway a record -/

section Replay

variable {A : StoreStep → Store → Prop}

/-- Every step is allowed. -/
def anyStep : Store → Store → Prop := fun _ _ => True

theorem anyStep_refl (s : Store) : anyStep s s := trivial

/-- A payload goes to a location that was not spent, by steps on segments only. -/
theorem safe_storePayload_moves {I : Store → Prop} (hI : ∀ s', Moves s s' → I s') (msg : String)
    (chunk : MemoryChunk) :
    Safe A anyStep I
      (fun r s' => Moves s s' ∧ ∀ l, r = .ok l → ¬ s.Spent l ∧ (s.ActiveDir → s'.Spent l))
      (storePayload msg chunk) s := by
  refine Safe.read_bind anyStep_refl fun _ => ?_
  refine Safe.bind (Q := fun _ s' => Moves s s') ?_ ?_ ?_
  · refine Safe.bind (Q := fun _ s' => Moves s s') (Safe.perform fun _ _ => ?_) ?_ ?_
    · exact ⟨trivial, hI _ (moves_rotateIfFull _ s), fun _ => moves_rotateIfFull _ s⟩
    · intro _ s₁ _ h₁
      have h₂ := h₁.trans (grows_createIfNone (s := s₁)).moves
      exact Safe.modify fun _ _ => ⟨trivial, hI _ h₂, fun _ => h₂⟩
    · exact fun _ _ _ h₁ => h₁
  · intro _ s₁ _ h₁
    obtain ⟨happend, hloc⟩ := moves_appendToActive msg chunk s₁
    refine Safe.perform fun _ _ => ⟨trivial, hI _ (h₁.trans happend), fun _ => ?_⟩
    refine ⟨h₁.trans happend, fun l hl => ?_⟩
    obtain ⟨hfree, hspent⟩ := hloc l hl
    exact ⟨fun hs => hfree (h₁.spent l hs), fun ha => hspent (h₁.active ha)⟩
  · exact fun e s₁ _ h₁ => ⟨h₁, fun l hl => absurd hl (by simp)⟩

/-- The row a replayed Add record writes has the status of the chunk, but for a delete that
is still to come. -/
theorem Steady.replayedRow (ext : Externals) {chunk : MemoryChunk} {done : List LogRecord}
    (h : Steady t ref (.add chunk :: rest) s)
    (hsplit : s.recordsForRecovery = done ++ .add chunk :: rest) (l : ℕ × ℕ) :
    ∃ m, TenantStore.replayedRow ext chunk (s.db.get chunk.tenantId chunk.chunkId) l.1 l.2 = m ∧
      m.chunkId = chunk.chunkId ∧ m.tenantId = t ∧ (m.segmentId, m.ordinal) = l ∧
      (ref m.chunkId = some m.status ∨
        (ref m.chunkId = some .deleted ∧ m.status ≠ .deleted ∧ .delete m.chunkId ∈ rest)) := by
  obtain ⟨htenant, st, href, hst⟩ := h.log.adds done chunk rest hsplit
  cases hget : s.db.get chunk.tenantId chunk.chunkId with
  | some m =>
    -- the row itself, at another place
    obtain ⟨hm, hmt, hmc, hlive⟩ := Db.mem_metadata_of_get hget
    refine ⟨_, rfl, hmc, hmt.trans htenant, rfl, ?_⟩
    rcases h.rows m hm with hsame | ⟨_, hdel, _, hmem⟩
    · exact .inl hsame
    · have hmem' : .delete m.chunkId ∈ rest := by simpa using hmem
      exact .inr ⟨hdel, hlive, hmem'⟩
  | none =>
    -- a new row: the chunk is deleted, and its Delete record follows
    refine ⟨_, rfl, rfl, htenant, rfl, ?_⟩
    obtain ⟨m, hm, hmc⟩ := h.all _ _ href
    have hrec : .add chunk ∈ s.recordsForRecovery := by simp [hsplit]
    have hdeleted : m.status = .deleted := by
      refine Db.deleted_of_get_none hget hm ?_ hmc
      exact (h.tenants chunk hrec m hm hmc).trans htenant.symm
    have href' : ref chunk.chunkId = some .deleted := by
      rcases h.rows m hm with hsame | ⟨_, _, hlive, _⟩
      · rw [← hmc, hsame, hdeleted]
      · exact absurd hdeleted hlive
    obtain rfl : .deleted = st := Option.some.inj (href'.symm.trans href)
    by_cases hstatus : chunk.status = .deleted
    · exact .inl (href'.trans (congrArg some hstatus.symm))
    · exact .inr ⟨href', hstatus, hst.resolve_left (by simp)⟩

/-- The row takes the place of the chunk's own one, if it has one. -/
theorem Midway.insert {chunk : MemoryChunk} {m : ChunkMetadata}
    (h : Midway t ref (.add chunk :: rest) s) (hid : m.chunkId = chunk.chunkId)
    (ht : m.tenantId = t) (hspent : s.Spent (m.segmentId, m.ordinal))
    (hfree : ∀ n ∈ s.db.metadata, n.tenantId = t →
      (n.segmentId, n.ordinal) ≠ (m.segmentId, m.ordinal))
    (hst : ref m.chunkId = some m.status ∨
      (ref m.chunkId = some .deleted ∧ m.status ≠ .deleted ∧ .delete m.chunkId ∈ rest)) :
    Midway t ref rest (withDb (·.insert m) s) := by
  obtain ⟨done, hsplit⟩ := h.suffix
  have hrows : (withDb (·.insert m) s).db.metadata =
      (s.db.metadata.filter fun r => !r.conflicts m) ++ [m] := Db.metadata_insert s.db m
  -- only the chunk's own row goes
  have hkept : ∀ n ∈ s.db.metadata, n.chunkId ≠ m.chunkId →
      n ∈ (withDb (·.insert m) s).db.metadata := by
    intro n hn hne
    rw [hrows]
    refine List.mem_append_left _ (List.mem_filter.mpr ⟨hn, ?_⟩)
    have hloc := hfree n hn
    rw [Ne, Prod.mk.injEq] at hloc
    simp only [ChunkMetadata.conflicts, ht, Bool.not_eq_true', Bool.or_eq_false_iff,
      Bool.and_eq_false_iff, beq_eq_false_iff_ne]
    exact ⟨hne, by tauto⟩
  have hmem : ∀ n ∈ (withDb (·.insert m) s).db.metadata, n ∈ s.db.metadata ∨ n = m := by
    intro n hn
    rw [hrows] at hn
    rcases List.mem_append.mp hn with hn | hn
    · exact .inl (List.mem_filter.mp hn).1
    · exact .inr (List.mem_singleton.mp hn)
  refine ⟨⟨?_, ?_, h.steady.log, ?_, ?_, h.steady.active⟩, done ++ [.add chunk], by
    show s.recordsForRecovery = _
    simp [hsplit]⟩
  · intro n hn
    rcases hmem n hn with hn | rfl
    · rcases h.steady.rows n hn with hsame | ⟨hnt, hdel, hlive, hrest⟩
      · exact .inl hsame
      · exact .inr ⟨hnt, hdel, hlive, by simpa using hrest⟩
    · exact hst.imp_right fun hdel => ⟨ht, hdel⟩
  · intro c st href
    obtain ⟨n, hn, rfl⟩ := h.steady.all c st href
    by_cases hne : n.chunkId = m.chunkId
    · exact ⟨m, by rw [hrows]; simp, hne.symm⟩
    · exact ⟨n, hkept n hn hne, rfl⟩
  · intro p hp n hn hnid
    rcases hmem n hn with hn | rfl
    · exact h.steady.tenants p hp n hn hnid
    · exact ht
  · intro n hn hnt
    rcases hmem n hn with hn | rfl
    · exact h.steady.spent n hn hnt
    · exact hspent

/-- Replaying an Add record keeps the statuses. -/
theorem safe_replayAdd_steady (ext : Externals) {chunk : MemoryChunk}
    (h : Midway t ref (.add chunk :: rest) s) :
    Safe A anyStep (CrashSteady t ref)
      (fun r s' => ∀ b, r = .ok b → Midway t ref rest s') (replayAdd ext chunk) s := by
  refine Safe.read_bind anyStep_refl fun _ => ?_
  refine Safe.read_bind anyStep_refl fun _ => ?_
  split
  · exact Safe.ret fun _ b _ => h.tail fun c hc => absurd hc (by simp)
  · refine Safe.bind (safe_storePayload_moves (fun _ hs => h.crash.moves hs) _ chunk) ?_ ?_
    · rintro l s₁ _ ⟨hmoves, hloc⟩
      obtain ⟨hfree, hissued⟩ := hloc l rfl
      have hspent := hissued h.steady.active
      obtain ⟨done, hsplit⟩ := h.suffix
      obtain ⟨m, hrow, hid, ht, hat, hst⟩ := h.steady.replayedRow ext hsplit l
      dsimp only
      rw [hrow]
      have h₁ : Midway t ref rest (withDb (·.insert m) s₁) := by
        refine (h.moves hmoves).insert hid ht (by rw [hat]; exact hspent) ?_ hst
        rw [hmoves.db, hat]
        rintro n hn hnt rfl
        exact hfree (h.steady.spent n hn hnt)
      refine Safe.modify_bind fun _ _ => ⟨trivial, h₁.crash, ?_⟩
      exact Safe.ret fun _ b _ => h₁
    · exact fun e s₁ _ _ b hb => absurd hb (by simp)

/-- A replayed delete is done. -/
theorem Midway.markDeleted {c : ChunkId} (h : Midway t ref (.delete c :: rest) s) :
    Midway t ref rest (withDb (·.markDeleted t c) s) := by
  obtain ⟨done, hsplit⟩ := h.suffix
  have hrec : .delete c ∈ s.recordsForRecovery := by simp [hsplit]
  have hrows : (withDb (·.markDeleted t c) s).db.metadata =
      s.db.metadata.map (ChunkMetadata.deletedIn t c) := Db.metadata_markDeleted s.db t c
  refine ⟨⟨?_, ?_, h.steady.log, ?_, ?_, h.steady.active⟩, done ++ [.delete c], by
    show s.recordsForRecovery = _
    simp [hsplit]⟩
  · intro n hn
    rw [hrows] at hn
    obtain ⟨m, hm, rfl⟩ := List.mem_map.mp hn
    unfold ChunkMetadata.deletedIn
    by_cases hc : m.tenantId = t ∧ m.chunkId = c ∧ m.status ≠ .deleted
    · rw [if_pos hc]
      refine .inl ?_
      show ref m.chunkId = some .deleted
      rcases h.steady.rows m hm with hsame | ⟨_, hdel, _, _⟩
      · rw [hsame, h.steady.log.deletes c hrec m.status (hc.2.1 ▸ hsame)]
      · exact hdel
    · rw [if_neg hc]
      rcases h.steady.rows m hm with hsame | ⟨ht, hdel, hlive, hrest⟩
      · exact .inl hsame
      · refine .inr ⟨ht, hdel, hlive, ?_⟩
        rcases List.mem_cons.mp hrest with heq | hrest
        · exact absurd ⟨ht, LogRecord.delete.inj heq, hlive⟩ hc
        · exact hrest
  · intro d st href
    obtain ⟨m, hm, rfl⟩ := h.steady.all d st href
    rw [hrows]
    exact ⟨_, List.mem_map_of_mem hm, (m.deletedIn_frame t c).1⟩
  · intro p hp n hn
    rw [hrows] at hn
    obtain ⟨m, hm, rfl⟩ := List.mem_map.mp hn
    obtain ⟨hid, htenant, _⟩ := m.deletedIn_frame t c
    rw [hid, htenant]
    exact h.steady.tenants p hp m hm
  · intro n hn
    rw [hrows] at hn
    obtain ⟨m, hm, rfl⟩ := List.mem_map.mp hn
    obtain ⟨_, htenant, hseg, hord⟩ := m.deletedIn_frame t c
    rw [htenant, hseg, hord]
    exact h.steady.spent m hm

/-- Replaying a Delete record keeps the statuses. -/
theorem safe_replayDelete_steady {c : ChunkId} (h : Midway t ref (.delete c :: rest) s) :
    Safe A anyStep (CrashSteady t ref) (fun r s' => r = .ok () → Midway t ref rest s')
      (replayDelete t c) s := by
  refine Safe.read_bind anyStep_refl fun _ => ?_
  cases hget : s.db.get t c with
  | none =>
    refine Safe.ret fun _ _ => h.tail ?_
    rintro d hd m hm ht hc
    obtain rfl := LogRecord.delete.inj hd
    exact Db.deleted_of_get_none hget hm ht hc
  | some m =>
    have h₁ := h.markDeleted
    have h₂ := h₁.moves (moves_tombstone m.segmentId m.ordinal _)
    refine Safe.modify_bind fun _ _ => ⟨trivial, h₁.crash, ?_⟩
    exact Safe.modify fun _ _ => ⟨trivial, h₂.crash, fun _ _ => h₂⟩

/-- A bundle that is no digest writes other tables. -/
theorem safe_replayArtifact_steady {p : TaskArtifactWalPayload}
    (h : Midway t ref (.taskArtifact p :: rest) s) :
    Safe A anyStep (CrashSteady t ref) (fun _ s' => Midway t ref rest s')
      (insertTaskArtifactBundle p) s := by
  have h₀ : Midway t ref rest s := h.tail fun c hc => absurd hc (by simp)
  obtain ⟨done, hsplit⟩ := h.suffix
  have hkind := h.steady.log.digests p (by simp [hsplit])
  have hrows := Db.metadata_applyBundle s.db hkind p.projectionChunkIds p.projectionKinds
  have h₁ : Midway t ref rest { s with
      db := s.db.applyBundle p.artifact p.projectionChunkIds p.projectionKinds } := by
    refine ⟨⟨?_, ?_, h₀.steady.log, ?_, ?_, h₀.steady.active⟩, h₀.suffix⟩
    · rw [hrows]
      exact h₀.steady.rows
    · rw [hrows]
      exact h₀.steady.all
    · rw [hrows]
      exact h₀.steady.tenants
    · rw [hrows]
      exact h₀.steady.spent
  refine Safe.perform fun _ _ => ?_
  cases hsafe : s.db.ensureTaskArtifactWriteSafe p.artifact with
  | error e =>
    simp only [Db.insertTaskArtifactBundle, hsafe, Except.map, Proc.commit]
    exact ⟨trivial, h₀.crash, fun _ => h₀⟩
  | ok _ =>
    simp only [Db.insertTaskArtifactBundle, hsafe, Except.map, Proc.commit]
    exact ⟨trivial, h₁.crash, fun _ => h₁⟩

/-- So does replaying any record. -/
theorem safe_replayRecord_steady (ext : Externals) (adds : ℕ) {r : LogRecord}
    (h : Midway t ref (r :: rest) s) :
    Safe A anyStep (CrashSteady t ref) (fun out s' => ∀ n, out = .ok n → Midway t ref rest s')
      (replayRecord ext t adds r) s := by
  cases r with
  | add chunk =>
    refine Safe.bind (safe_replayAdd_steady ext h) ?_ ?_
    · exact fun b s₁ _ h₁ => Safe.ret fun _ n _ => h₁ b rfl
    · exact fun e s₁ _ _ n hn => absurd hn (by simp)
  | delete c =>
    refine Safe.bind (safe_replayDelete_steady h) ?_ ?_
    · exact fun _ s₁ _ h₁ => Safe.ret fun _ n _ => h₁ rfl
    · exact fun e s₁ _ _ n hn => absurd hn (by simp)
  | taskArtifact p =>
    refine Safe.bind (safe_replayArtifact_steady h) ?_ ?_
    · exact fun _ s₁ _ h₁ => Safe.ret fun _ n _ => h₁
    · exact fun e s₁ _ _ n hn => absurd hn (by simp)
  | checkpoint => exact Safe.ret fun _ n _ => h.tail fun c hc => absurd hc (by simp)

end Replay

/-! ## Recovery -/

section Recovery

variable {A : StoreStep → Store → Prop}

/-- With all records replayed the log can go. -/
theorem Steady.truncate (h : Steady t ref [] s) : Steady t ref [] { s with wal := [] } where
  rows := h.rows
  all := h.all
  log := by
    refine ⟨fun pre p post hsplit => ?_, fun c hc => ?_, fun p hp => ?_⟩
    · exact absurd hsplit.symm (by simp [recordsForRecovery])
    · exact absurd hc (by simp [recordsForRecovery])
    · exact absurd hp (by simp [recordsForRecovery])
  tenants p hp := absurd hp (by simp [recordsForRecovery])
  spent := h.spent
  active := h.active

/-- **A replay that comes to its end** leaves the statuses as they were. -/
theorem safe_recoverFromWal_steady (ext : Externals) (h : CrashSteady t ref s) :
    Safe A anyStep (CrashSteady t ref) (fun r s' => r = .ok () → Steady t ref [] s')
      (recoverFromWal ext t) s := by
  have hdone : ∀ {s' : Store}, Steady t ref [] s' → CrashSteady t ref s' :=
    fun h' => h'.mono (by simp)
  refine Safe.read_bind anyStep_refl fun _ => ?_
  split
  · rename_i hnil
    refine Safe.ret fun _ _ => ?_
    rw [← hnil]
    exact h
  refine Safe.bind (Q := fun r s' => ∀ n, r = .ok n → Steady t ref [] s') ?_ ?_ ?_
  · refine Safe.foldlM (P := fun _ rest s' => Midway t ref rest s') ?_ ?_ _ _ h
      ⟨h, [], rfl⟩
    · intro adds r rest s₁ _ h₁
      refine (safe_replayRecord_steady ext adds h₁).post ?_
      intro out s₂ _ h₂
      cases out with
      | ok n => exact h₂ n rfl
      | error e => exact fun n hn => absurd hn (by simp)
    · exact fun adds s₁ _ h₁ n _ => h₁.steady
  · intro adds s₁ _ h₁
    have h₁ := h₁ adds rfl
    have htruncate : ∀ {s' : Store}, Steady t ref [] s' →
        Safe A anyStep (CrashSteady t ref) (fun r s' => r = .ok () → Steady t ref [] s')
          (.modify .walTruncate fun s => { s with wal := [] } : StoreProg Unit) s' := by
      intro s' h'
      exact Safe.modify fun _ _ => ⟨trivial, hdone h'.truncate, fun _ _ => h'.truncate⟩
    split
    · refine Safe.bind (Q := fun _ s' => Steady t ref [] s') (Safe.perform fun _ _ => ?_) ?_ ?_
      · have h₂ := h₁.moves (moves_finalizeActive s₁)
        exact ⟨trivial, hdone h₂, fun _ => h₂⟩
      · exact fun _ s₂ _ h₂ => htruncate h₂
      · exact fun e s₂ _ _ hr => absurd hr (by simp)
    · exact htruncate h₁
  · exact fun e s₁ _ _ hr => absurd hr (by simp)

/-- A crash keeps the agreement of rows and log. -/
theorem CrashSteady.closed (h : CrashSteady t ref s) {s' : Store} (hdb : s'.db = s.db)
    (hwal : s'.wal = s.wal) (hd : s'.segmentDirs = s.segmentDirs)
    (ha : s'.handle.activeSegment = none) : CrashSteady t ref s' :=
  h.moves ⟨hdb, hwal, fun _ hl => hl.closed hd ha, fun _ => activeDir_of_none ha⟩

/-- A finalization on the way moves files only. -/
theorem safe_finalizeIfAboveThreshold_moves {I : Store → Prop} (hI : ∀ s', Moves s s' → I s') :
    Safe A anyStep I (fun _ _ => True) finalizeActiveSegmentIfAboveThreshold s := by
  have hseal : Safe A anyStep I (fun _ _ => True) (finalizeActiveSegment .finalizeSegment) s :=
    Safe.perform fun _ _ => ⟨trivial, hI _ (moves_finalizeActive s), fun _ => trivial⟩
  refine Safe.read_bind anyStep_refl fun _ => ?_
  split
  · exact hseal
  refine Safe.read_bind anyStep_refl fun _ => ?_
  split
  · exact Safe.ret fun _ => trivial
  · exact hseal

/-- **An open that goes through** leaves the statuses as they were. -/
theorem safe_openTenant_steady (ext : Externals) (h : CrashSteady t ref s) (cfg : StoreConfig) :
    Safe A anyStep (CrashSteady t ref) (fun r s' => r = .ok () → Steady t ref [] s')
      (openTenant ext t cfg) s := by
  have h₁ : CrashSteady t ref (loadSegments cfg s) := h.closed rfl rfl rfl rfl
  refine Safe.modify_bind fun _ _ => ⟨trivial, h₁, ?_⟩
  refine Safe.bind (Q := fun r s' => CrashSteady t ref s' ∧
    (r = .ok (.ok ()) → Steady t ref [] s')) ?_ ?_ ?_
  · refine Safe.attempt ((safe_recoverFromWal_steady ext h₁).post ?_)
    exact fun r s₂ h₂ hr => ⟨h₂, fun hok => hr (by simpa using hok)⟩
  · rintro outcome s₂ _ ⟨h₂, hok⟩
    cases outcome with
    | ok _ => exact Safe.ret fun _ _ => hok rfl
    | error e =>
      -- the handle is dropped, which may finalize what recovery had appended
      refine Safe.bind (Q := fun _ _ => True) (Safe.attempt (Safe.post
        (safe_finalizeIfAboveThreshold_moves fun _ hs => h₂.moves hs) fun _ _ _ _ => trivial)) ?_ ?_
      · exact fun _ s₃ _ _ => Safe.fail fun _ hr => absurd hr (by simp)
      · exact fun e s₃ _ _ hr => absurd hr (by simp)
  · exact fun e s₂ _ _ hr => absurd hr (by simp)

end Recovery

/-! ## Crashes and reopenings -/

namespace Db

/-- A status belongs to a row. -/
theorem mem_of_statusOf {db : Db} {c : ChunkId} {st : ChunkStatus} (h : db.statusOf c = some st) :
    ∃ m ∈ db.metadata, m.chunkId = c ∧ m.status = st := by
  obtain ⟨m, hm, rfl⟩ := Option.map_eq_some_iff.mp h
  exact ⟨m, List.mem_of_find?_eq_some hm, by simpa using List.find?_some hm, rfl⟩

/-- Rows with the statuses `ref` and a row for every status: the statuses are `ref`. -/
theorem statusOf_eq {db : Db} {ref : ChunkId → Option ChunkStatus}
    (hrows : ∀ m ∈ db.metadata, ref m.chunkId = some m.status)
    (hall : ∀ c st, ref c = some st → ∃ m ∈ db.metadata, m.chunkId = c) : db.statusOf = ref := by
  funext c
  cases href : ref c with
  | none =>
    rw [statusOf, Option.map_eq_none_iff, List.find?_eq_none]
    intro m hm hc
    have hrow := hrows m hm
    rw [show m.chunkId = c by simpa using hc, href] at hrow
    exact absurd hrow (by simp)
  | some st =>
    obtain ⟨m, hm, hc⟩ := hall c st href
    cases hfind : db.statusOf c with
    | none =>
      rw [statusOf, Option.map_eq_none_iff, List.find?_eq_none] at hfind
      exact absurd (show (m.chunkId == c) = true by simpa using hc) (hfind m hm)
    | some st' =>
      obtain ⟨n, hn, hnc, rfl⟩ := mem_of_statusOf hfind
      rw [← hrows n hn, hnc, href]

/-- With one row for each chunk, the status is that of the row. -/
theorem statusOf_of_mem {db : Db} (hids : (db.metadata.map (·.chunkId)).Nodup) {m : ChunkMetadata}
    (hm : m ∈ db.metadata) : db.statusOf m.chunkId = some m.status := by
  cases hfind : db.statusOf m.chunkId with
  | none =>
    rw [statusOf, Option.map_eq_none_iff, List.find?_eq_none] at hfind
    exact absurd (show (m.chunkId == m.chunkId) = true by simp) (hfind m hm)
  | some st =>
    obtain ⟨n, hn, hnc, rfl⟩ := mem_of_statusOf hfind
    rw [List.inj_on_of_nodup_map hids hn hm hnc]

end Db

/-- Rows and log agree on the statuses, and no location of a row will be handed out again. -/
structure Settled (t : TenantId) (s : Store) : Prop where
  ids : (s.db.metadata.map (·.chunkId)).Nodup
  log : LogAgrees t s.db.statusOf s.recordsForRecovery
  tenants : ∀ p, .add p ∈ s.recordsForRecovery → ∀ m ∈ s.db.metadata, m.chunkId = p.chunkId →
    m.tenantId = t
  spent : ∀ m ∈ s.db.metadata, m.tenantId = t → s.Spent (m.segmentId, m.ordinal)
  active : s.ActiveDir

/-- A settled store is steady about its own statuses. -/
theorem Settled.steady (h : Settled t s) : Steady t s.db.statusOf [] s where
  rows m hm := .inl (Db.statusOf_of_mem h.ids hm)
  all c st hc := by
    obtain ⟨m, hm, hid, _⟩ := Db.mem_of_statusOf hc
    exact ⟨m, hm, hid⟩
  log := h.log
  tenants := h.tenants
  spent := h.spent
  active := h.active

/-- With nothing left to be replayed, the rows have the statuses. -/
theorem Steady.statusOf (h : Steady t ref [] s) : s.db.statusOf = ref := by
  refine Db.statusOf_eq (fun m hm => ?_) h.all
  rcases h.rows m hm with hst | ⟨_, _, _, hmem⟩
  · exact hst
  · exact absurd hmem (by simp)

/-- Nothing but crashes and reopenings of the tenant. -/
def restarts (ext : Externals) (t : TenantId) :
    System StoreStep Store MemdError Empty Empty StoreConfig where
  prog := nofun
  boot cfg := openTenant ext t cfg
  crash := Store.crash
  admits _ _ := false

/-- Whatever crashes and recoveries follow, when the store is open again every chunk has the
status it has now. -/
def StatusesSurvive (ext : Externals) (t : TenantId) (s : Store) : Prop :=
  ∀ c, (restarts ext t).Reach (fun _ _ => True) ⟨s, .up [], []⟩ c → ∀ pool, c.mode = .up pool →
    c.store.db.statusOf = s.db.statusOf

/-- Restarts keep the statuses, wherever they are cut off. -/
theorem serial_restarts (ext : Externals) (t : TenantId) (ref : ChunkId → Option ChunkStatus) :
    System.Serial (restarts ext t) (fun _ _ => True) anyStep (fun s _ => Steady t ref [] s)
      (fun s _ => CrashSteady t ref s) where
  refl := anyStep_refl
  crashStep _ := trivial
  admits _ _ h := absurd h (by simp [restarts])
  crash _ _ h := h.closed rfl rfl rfl rfl
  crashed _ _ h := h
  up _ _ h := h.mono (by simp)
  call _ _ op := nomatch op
  boot _ _ cfg h := safe_openTenant_steady ext h cfg

/-- **Statuses survive** crashes and recoveries when rows and log agree. -/
theorem Settled.survives (h : Settled t s) (ext : Externals) : StatusesSurvive ext t s := by
  intro c hrun pool hup
  have hinv := System.reach_serial (serial_restarts ext t s.db.statusOf)
    (show System.SerialInv _ _ _ _ ⟨s, .up [], []⟩ from h.steady) hrun
  exact (hinv.up hup).statusOf
