/-
# An add, run to its end

What `addChunks` leaves behind when nothing interrupts it and no finalization fails: the
parts of the chunk under the next ids, one row per part at a location that was not in use,
the Add records at the end of the log.

`Used` says which locations the store will not hand out any more: those behind the write
position of the active segment and those in other segments below the next id.

* `addChunk_yields` — the run of an add of one chunk;
* `addChunkWithLifecycle_yields` — the same with the initial lifecycle overlay.
-/
import Memd.Lifecycle
import Memd.WriteSafety

open Proc TenantStore PersistentStore

namespace Store

/-! ## Locations in use -/

/-- The location lies in an older segment, or behind the write position of the active one. -/
def Used (s : Store) (l : ℕ × ℕ) : Prop :=
  (l.1 < s.nextSegmentId ∧ ∀ a, s.handle.activeSegment = some a → a.id ≠ l.1) ∨
    ∃ a, s.handle.activeSegment = some a ∧ a.id = l.1 ∧ l.2 < a.chunks.length

/-- The location is not handed out again, not even after a crash: its segment lies below the
highest directory and, where it is still open, is filled beyond the location. -/
def Spent (s : Store) (l : ℕ × ℕ) : Prop :=
  (∃ d ∈ s.segmentDirs, l.1 ≤ d.id) ∧
    ∀ a, s.handle.activeSegment = some a → a.id = l.1 → l.2 < a.chunks.length

/-- No location is given back, and the active segment keeps its directory. -/
structure Advances (s s' : Store) : Prop where
  used : ∀ l, s.Used l → s'.Used l
  issued : ∀ l, s.Issued l → s'.Issued l
  spent : ∀ l, s.Spent l → s'.Spent l
  active : s.ActiveDir → s'.ActiveDir

/-- What steps on segments do: database, log, ids and the count of writes stay. -/
structure Grows (s s' : Store) : Prop where
  db : s'.db = s.db
  nextId : s'.nextId = s.nextId
  wal : s'.wal = s.wal
  config : s'.handle.config = s.handle.config
  counter : s'.handle.writesSinceCheckpoint = s.handle.writesSinceCheckpoint
  advances : Advances s s'

variable {s s' s'' : Store}

theorem Advances.refl (s : Store) : Advances s s :=
  ⟨fun _ h => h, fun _ h => h, fun _ h => h, fun h => h⟩

/-- Stores that have gone on may go on again. -/
theorem Advances.trans (h : Advances s s') (h' : Advances s' s'') : Advances s s'' :=
  ⟨fun l hl => h'.used l (h.used l hl), fun l hl => h'.issued l (h.issued l hl),
    fun l hl => h'.spent l (h.spent l hl), fun ha => h'.active (h.active ha)⟩

/-- The other parts of the store do not matter. -/
theorem Advances.congr (h : Advances s s') {s₂ : Store} (hd : s₂.segmentDirs = s'.segmentDirs)
    (ha : s₂.handle.activeSegment = s'.handle.activeSegment)
    (hs : s₂.handle.segments = s'.handle.segments) : Advances s s₂ := by
  have hnext : s₂.nextSegmentId = s'.nextSegmentId := by rw [nextSegmentId, nextSegmentId, hd, hs]
  refine ⟨fun l hl => ?_, fun l hl => ?_, fun l hl => ?_, fun hact => ?_⟩
  · have hused := h.used l hl
    rw [Used, ← hnext, ← ha] at hused
    exact hused
  · have hissued := h.issued l hl
    rw [Issued, ← hd, ← ha] at hissued
    exact hissued
  · have hspent := h.spent l hl
    rw [Spent, ← hd, ← ha] at hspent
    exact hspent
  · have hactive := h.active hact
    rw [ActiveDir, ← hd, ← ha] at hactive
    exact hactive

theorem Grows.refl (s : Store) : Grows s s :=
  ⟨rfl, rfl, rfl, rfl, rfl, .refl s⟩

/-- Steps that only add to the files compose. -/
theorem Grows.trans (h : Grows s s') (h' : Grows s' s'') : Grows s s'' :=
  ⟨h'.db.trans h.db, h'.nextId.trans h.nextId, h'.wal.trans h.wal, h'.config.trans h.config,
    h'.counter.trans h.counter, h.advances.trans h'.advances⟩

/-- A location that has been handed out is in use. -/
theorem Issued.used {l : ℕ × ℕ} (h : s.Issued l) : s.Used l := by
  obtain ⟨⟨d, hd, hid⟩, hact⟩ := h
  by_cases ha : ∃ a, s.handle.activeSegment = some a ∧ a.id = l.1
  · obtain ⟨a, ha, haid⟩ := ha
    exact .inr ⟨a, ha, haid, hact a ha haid⟩
  · exact .inl ⟨hid ▸ lt_nextSegmentId hd, fun a ha' hid' => ha ⟨a, ha', hid'⟩⟩

/-- A location that was handed out is not handed out again. -/
theorem Issued.spent {l : ℕ × ℕ} (h : s.Issued l) : s.Spent l := by
  obtain ⟨⟨d, hd, hid⟩, hact⟩ := h
  exact ⟨⟨d, hd, Nat.le_of_eq hid.symm⟩, hact⟩

/-- A spent location is in use. -/
theorem Spent.used {l : ℕ × ℕ} (h : s.Spent l) : s.Used l := by
  obtain ⟨⟨d, hd, hle⟩, hact⟩ := h
  by_cases ha : ∃ a, s.handle.activeSegment = some a ∧ a.id = l.1
  · obtain ⟨a, ha, haid⟩ := ha
    exact .inr ⟨a, ha, haid, hact a ha haid⟩
  · exact .inl ⟨Nat.lt_of_le_of_lt hle (lt_nextSegmentId hd), fun a ha' hid' => ha ⟨a, ha', hid'⟩⟩

/-! ## Steps on segments -/

/-- Sealing works while no finalization fails. -/
theorem sealActive_ok {a : ActiveSegment} (hf : s.handle.config.finalizeFails = []) :
    (s.sealActive a).1 = .ok () := by
  simp [sealActive, hf]

/-- An update of a directory keeps all ids. -/
theorem ids_updateDir (s : Store) (id : ℕ) {f : SegmentDir → SegmentDir}
    (hf : ∀ d, (f d).id = d.id) :
    (s.updateDir id f).segmentDirs.map (·.id) = s.segmentDirs.map (·.id) := by
  rw [updateDir, Table.updateWhere, List.map_map]
  apply List.map_congr_left
  intro d _
  rw [Function.comp_apply]
  split
  · exact hf d
  · rfl

/-- A directory stays where another one, or its own files, are rewritten. -/
theorem exists_updateDir {id k : ℕ} {f : SegmentDir → SegmentDir} (hf : ∀ d, (f d).id = d.id)
    (h : ∃ d ∈ s.segmentDirs, d.id = k) : ∃ d ∈ (s.updateDir id f).segmentDirs, d.id = k := by
  have hmem : k ∈ (s.updateDir id f).segmentDirs.map (·.id) := by
    rw [ids_updateDir s id hf]
    exact List.mem_map.mpr h
  exact List.mem_map.mp hmem

/-- A directory with an id from `k` on stays one. -/
theorem exists_le_updateDir {id k : ℕ} {f : SegmentDir → SegmentDir} (hf : ∀ d, (f d).id = d.id)
    (h : ∃ d ∈ s.segmentDirs, k ≤ d.id) : ∃ d ∈ (s.updateDir id f).segmentDirs, k ≤ d.id := by
  obtain ⟨d, hd, hle⟩ := h
  obtain ⟨e, he, heq⟩ : ∃ e ∈ (s.updateDir id f).segmentDirs, e.id = d.id :=
    exists_updateDir hf ⟨d, hd, rfl⟩
  exact ⟨e, he, heq ▸ hle⟩

/-- Sealing the active segment only adds to the files. -/
theorem grows_sealActive {a : ActiveSegment} (ha : s.handle.activeSegment = some a)
    (hf : s.handle.config.finalizeFails = []) : Grows s (s.sealActive a).2 := by
  rw [sealActive, hf, if_neg (by simp)]
  refine ⟨rfl, rfl, rfl, rfl, rfl, ?_, ?_, ?_, ?_⟩
  · rintro l (⟨hl, _⟩ | ⟨b, hb, hid, _⟩)
    · refine .inl ⟨Nat.lt_of_lt_of_le hl (nextSegmentId_le ?_), by
        simp [load, updateDir, setActive]⟩
      intro id hmem
      rw [load, ids_updateDir]
      · rw [← List.append_assoc]
        exact List.mem_append_left _ hmem
      · exact fun _ => rfl
    · obtain rfl : a = b := Option.some.inj (ha.symm.trans hb)
      refine .inl ⟨lt_nextSegmentId_of_mem (List.mem_append_right _ ?_), by
        simp [load, updateDir, setActive]⟩
      simp [load, hid]
  · rintro l ⟨hdir, _⟩
    exact ⟨exists_updateDir (fun _ => rfl) hdir, by simp [load, updateDir, setActive]⟩
  · rintro l ⟨hdir, _⟩
    exact ⟨exists_le_updateDir (fun _ => rfl) hdir, by simp [load, updateDir, setActive]⟩
  · intro _ b hb
    exact absurd hb (by simp [load, updateDir, setActive])

/-- A rotation works, and only adds to the files. -/
theorem rotateIfFull_spec (maxChunks : ℕ) (hf : s.handle.config.finalizeFails = []) :
    (rotateIfFull maxChunks s).1 = .ok () ∧ Grows s (rotateIfFull maxChunks s).2 := by
  unfold rotateIfFull
  split
  · rename_i a ha
    split
    · exact ⟨rfl, .refl s⟩
    · exact ⟨sealActive_ok hf, grows_sealActive ha hf⟩
  · exact ⟨rfl, .refl s⟩

/-- Opening an active segment only adds to the files. -/
theorem grows_createIfNone : Grows s s.createIfNone := by
  unfold createIfNone
  split
  · exact .refl s
  · rename_i hnone
    refine ⟨rfl, rfl, rfl, rfl, rfl, ?_, ?_, ?_, ?_⟩
    · rintro l (⟨hl, _⟩ | ⟨b, hb, _⟩)
      · refine .inl ⟨Nat.lt_of_lt_of_le hl (nextSegmentId_le ?_), ?_⟩
        · intro id hmem
          simp only [List.map_append, List.mem_append] at hmem ⊢
          tauto
        · rintro b ⟨⟩
          exact (Nat.ne_of_lt hl).symm
      · exact absurd hb (by simp [hnone])
    · rintro l ⟨⟨d, hd, hid⟩, _⟩
      refine ⟨⟨d, List.mem_append_left _ hd, hid⟩, ?_⟩
      rintro b ⟨⟩ hb
      exact absurd (hid.trans hb.symm) (Nat.ne_of_lt (lt_nextSegmentId hd))
    · rintro l ⟨⟨d, hd, hle⟩, _⟩
      refine ⟨⟨d, List.mem_append_left _ hd, hle⟩, ?_⟩
      rintro b ⟨⟩ hb
      exact absurd hb.symm (Nat.ne_of_lt (Nat.lt_of_le_of_lt hle (lt_nextSegmentId hd)))
    · rintro _ b ⟨⟩
      exact ⟨_, List.mem_append_right _ (List.mem_singleton_self _), rfl⟩

/-- There is an active segment behind it. -/
theorem active_createIfNone (s : Store) : ∃ a, s.createIfNone.handle.activeSegment = some a := by
  unfold createIfNone
  split
  · rename_i a ha
    exact ⟨a, ha⟩
  · exact ⟨_, rfl⟩

/-- An append takes a location that was not in use. -/
theorem appendToActive_spec (msg : String) (chunk : MemoryChunk) {a : ActiveSegment}
    (ha : s.handle.activeSegment = some a) :
    (appendToActive msg chunk s).1 = .ok (a.id, a.chunks.length) ∧
      Grows s (appendToActive msg chunk s).2 ∧ ¬ s.Used (a.id, a.chunks.length) ∧
      (appendToActive msg chunk s).2.Used (a.id, a.chunks.length) ∧
      (s.ActiveDir → (appendToActive msg chunk s).2.Issued (a.id, a.chunks.length)) := by
  simp only [appendToActive, ha]
  refine ⟨trivial, ⟨rfl, rfl, rfl, rfl, rfl, ?_, ?_, ?_, ?_⟩, ?_, ?_, ?_⟩
  · rintro l (⟨hl, hne⟩ | ⟨b, hb, hid, hlt⟩)
    · refine .inl ⟨hl, ?_⟩
      rintro b ⟨⟩
      exact hne a ha
    · obtain rfl : a = b := Option.some.inj (ha.symm.trans hb)
      refine .inr ⟨_, rfl, hid, ?_⟩
      rw [List.length_append]
      exact Nat.lt_add_right _ hlt
  iterate 2
    · rintro l ⟨hdir, hact⟩
      refine ⟨hdir, ?_⟩
      rintro b ⟨⟩ hb
      rw [List.length_append]
      exact Nat.lt_add_right _ (hact a ha hb)
  · rintro hdir b ⟨⟩
    exact hdir a ha
  · rintro (⟨_, hne⟩ | ⟨b, hb, _, hlt⟩)
    · exact hne a ha rfl
    · obtain rfl : a = b := Option.some.inj (ha.symm.trans hb)
      exact absurd hlt (Nat.lt_irrefl _)
  · exact .inr ⟨_, rfl, rfl, by simp⟩
  · intro hdir
    refine ⟨hdir a ha, ?_⟩
    rintro b ⟨⟩ _
    simp

/-- A flush only adds to the files. -/
theorem grows_flushActive : Grows s s.flushActive := by
  unfold flushActive
  split
  · exact .refl s
  · rename_i a ha
    refine ⟨rfl, rfl, rfl, rfl, rfl, ?_, ?_, ?_, ?_⟩
    · rintro l (⟨hl, hne⟩ | h)
      · refine .inl ⟨Nat.lt_of_lt_of_le hl (nextSegmentId_le ?_), hne⟩
        intro id hmem
        rw [ids_updateDir]
        · exact hmem
        · exact fun _ => rfl
      · exact .inr h
    · rintro l ⟨hdir, hact⟩
      exact ⟨exists_updateDir (fun _ => rfl) hdir, hact⟩
    · rintro l ⟨hdir, hact⟩
      exact ⟨exists_le_updateDir (fun _ => rfl) hdir, hact⟩
    · intro hdir b hb
      exact exists_updateDir (fun _ => rfl) (hdir b hb)

/-- A finalization works, and only adds to the files. -/
theorem finalizeActive_spec (hf : s.handle.config.finalizeFails = []) :
    s.finalizeActive.1 = .ok () ∧ Grows s s.finalizeActive.2 := by
  unfold finalizeActive
  split
  · exact ⟨rfl, .refl s⟩
  · rename_i a ha
    split
    · exact ⟨sealActive_ok hf, grows_sealActive ha hf⟩
    · rename_i hempty
      refine ⟨rfl, ⟨rfl, rfl, rfl, rfl, rfl, ?_, ?_, ?_, ?_⟩⟩
      · rintro l (⟨hl, _⟩ | ⟨b, hb, _, hlt⟩)
        · exact .inl ⟨hl, by simp [setActive]⟩
        · obtain rfl : a = b := Option.some.inj (ha.symm.trans hb)
          exact absurd (Nat.zero_lt_of_lt hlt) hempty
      iterate 2
        · rintro l ⟨hdir, _⟩
          exact ⟨hdir, by simp [setActive]⟩
      · intro _ b hb
        exact absurd hb (by simp [setActive])

end Store

open Store

/-! ## Storing a batch -/

variable {s : Store}

/-- A payload is stored at a location that was not used before. -/
theorem storePayload_yields (hf : s.handle.config.finalizeFails = []) (msg : String)
    (chunk : MemoryChunk) :
    Yields (fun l s' => Grows s s' ∧ ¬ s.Used l ∧ s'.Used l ∧ (s.ActiveDir → s'.Issued l))
      (storePayload msg chunk) s := by
  refine Yields.bind (Yields.read (Q := fun _ s' => s = s') rfl) ?_
  rintro maxChunks _ rfl
  obtain ⟨hok, hrotate⟩ := rotateIfFull_spec maxChunks hf
  refine Yields.bind (Q := fun _ s' => Grows s s' ∧ ∃ a, s'.handle.activeSegment = some a) ?_ ?_
  · refine Yields.bind (Yields.perform (Q := fun _ s' => Grows s s') hok hrotate) ?_
    rintro _ s₁ h₁
    exact Yields.modify ⟨h₁.trans grows_createIfNone, active_createIfNone s₁⟩
  · rintro _ s₁ ⟨h₁, a, ha⟩
    obtain ⟨hr, hgrows, hfree, hused, hissued⟩ := appendToActive_spec msg chunk ha
    refine Yields.perform hr ⟨h₁.trans hgrows, ?_, hused, fun h => hissued (h₁.advances.active h)⟩
    exact fun h => hfree (h₁.advances.used _ h)

/-- The rows of a batch stored at the given locations. -/
def rowsAt (ext : Externals) (pending : List MemoryChunk) (locs : List (ℕ × ℕ)) :
    List ChunkMetadata :=
  List.zipWith (fun p l => metadataRow ext p l.1 l.2) pending locs

/-- Locations a batch was given in a run from `s` to `s'`. -/
structure NewLocations (n : ℕ) (locs : List (ℕ × ℕ)) (s s' : Store) : Prop where
  length : locs.length = n
  nodup : locs.Nodup
  free : ∀ l ∈ locs, ¬ s.Used l
  used : ∀ l ∈ locs, s'.Used l
  issued : s.ActiveDir → ∀ l ∈ locs, s'.Issued l

/-- New locations stay new while the store goes on. -/
theorem NewLocations.advances {n : ℕ} {locs : List (ℕ × ℕ)} {s s' s'' : Store}
    (h : NewLocations n locs s s') (hs : Advances s' s'') : NewLocations n locs s s'' :=
  ⟨h.length, h.nodup, h.free, fun l hl => hs.used l (h.used l hl),
    fun ha l hl => hs.issued l (h.issued ha l hl)⟩

/-- The payloads of a batch are stored at new locations, one each. -/
theorem storePending_yields (ext : Externals) (hf : s.handle.config.finalizeFails = [])
    (pending : List MemoryChunk) :
    Yields (fun rows s' => Grows s s' ∧ ∃ locs, NewLocations pending.length locs s s' ∧
      rows = rowsAt ext pending locs) (pending.foldlM (storePending ext) []) s := by
  -- the chunks in `done` have their rows
  let P : List ChunkMetadata → List MemoryChunk → Store → Prop := fun rows rest s' =>
    Grows s s' ∧ ∃ done locs, pending = done ++ rest ∧ NewLocations done.length locs s s' ∧
      rows = rowsAt ext done locs
  refine Yields.post (Yields.foldlM (P := P) ?_ pending [] ?_) ?_
  · rintro rows p rest s₁ ⟨hgrows, done, locs, hsplit, hlocs, rfl⟩
    have hf₁ : s₁.handle.config.finalizeFails = [] := by rw [hgrows.config]; exact hf
    refine Yields.bind (storePayload_yields hf₁ _ p) ?_
    rintro l s₂ ⟨hgrows₂, hfree, hused, hissued⟩
    refine Yields.ret ⟨hgrows.trans hgrows₂, done ++ [p], locs ++ [l], by simp [hsplit], ?_, ?_⟩
    · refine ⟨by simp [hlocs.length], ?_, ?_, ?_, ?_⟩
      · rw [List.nodup_append]
        refine ⟨hlocs.nodup, by simp, ?_⟩
        rintro l₁ h₁ l₂ h₂ rfl
        obtain rfl := List.mem_singleton.mp h₂
        exact hfree (hlocs.used _ h₁)
      · intro l' hl'
        rcases List.mem_append.mp hl' with hl' | hl'
        · exact hlocs.free l' hl'
        · obtain rfl := List.mem_singleton.mp hl'
          exact fun h => hfree (hgrows.advances.used _ h)
      · intro l' hl'
        rcases List.mem_append.mp hl' with hl' | hl'
        · exact hgrows₂.advances.used _ (hlocs.used l' hl')
        · obtain rfl := List.mem_singleton.mp hl'
          exact hused
      · intro hactive l' hl'
        rcases List.mem_append.mp hl' with hl' | hl'
        · exact hgrows₂.advances.issued _ (hlocs.issued hactive l' hl')
        · obtain rfl := List.mem_singleton.mp hl'
          exact hissued (hgrows.advances.active hactive)
    · rw [rowsAt, rowsAt, List.zipWith_append hlocs.length.symm]
      rfl
  · exact ⟨.refl s, [], [], rfl, ⟨rfl, List.nodup_nil, by simp, by simp, by simp⟩, rfl⟩
  · rintro rows s' ⟨hgrows, done, locs, hsplit, hlocs, rfl⟩
    obtain rfl : pending = done := by simpa using hsplit
    exact ⟨hgrows, locs, hlocs, rfl⟩

/-! ## The rows of the table without their index columns -/

namespace Db

/-- The rows without their overlay of text and index state. -/
def metadata (db : Db) : List ChunkMetadata :=
  db.chunks.map (·.toChunkMetadata)

/-- An update of the overlay leaves the rows as they are. -/
theorem metadata_updateChunks {db : Db} {p : ChunkRow → Bool} {f : ChunkRow → ChunkRow}
    (hf : ∀ r, (f r).toChunkMetadata = r.toChunkMetadata) :
    (db.updateChunks p f).metadata = db.metadata := by
  rw [metadata, metadata, updateChunks, Table.updateWhere, List.map_map]
  apply List.map_congr_left
  intro r _
  by_cases hp : p r <;> simp [hp, hf]

/-- So do such updates one after the other. -/
theorem metadata_foldl {α : Type} {step : Db → α → Db}
    (hstep : ∀ db a, (step db a).metadata = db.metadata) (l : List α) (db : Db) :
    (l.foldl step db).metadata = db.metadata := by
  induction l generalizing db with
  | nil => rfl
  | cons a l ih => rw [List.foldl_cons, ih, hstep]

/-- Announcing index jobs leaves the rows as they are. -/
theorem metadata_markIndexPending (db : Db) (t : TenantId) (ids : List ChunkId) (now : ℤ) :
    (db.markIndexPending t ids now).metadata = db.metadata := by
  apply metadata_foldl
  intro db c
  exact metadata_updateChunks fun _ => rfl

/-- So does finishing them. -/
theorem metadata_markIndexed (db : Db) (t : TenantId) (ids : List ChunkId) (now : ℤ) :
    (db.markIndexed t ids now).metadata = db.metadata := by
  apply metadata_foldl
  intro db c
  exact metadata_updateChunks fun _ => rfl

/-- So does a failed job. -/
theorem metadata_markIndexFailed (db : Db) (t : TenantId) (c : ChunkId) (e : String) (now : ℤ) :
    (db.markIndexFailed t c e now).metadata = db.metadata :=
  metadata_updateChunks fun _ => rfl

end Db

/-! ## Adding a chunk -/

/-- Parts under consecutive ids. -/
def stampFrom (ext : Externals) (n : ℕ) (parts : List MemoryChunk) : List MemoryChunk :=
  (parts.zipIdx n).map fun x => stamp ext x.1 x.2

/-- Stamping keeps the number of parts. -/
@[simp] theorem length_stampFrom (ext : Externals) (n : ℕ) (parts : List MemoryChunk) :
    (stampFrom ext n parts).length = parts.length := by
  simp [stampFrom]

/-- The parts are stamped with consecutive ids. -/
theorem ids_stampFrom (ext : Externals) (n : ℕ) (parts : List MemoryChunk) :
    (stampFrom ext n parts).map (·.chunkId) = List.range' n parts.length := by
  induction parts generalizing n with
  | nil => rfl
  | cons p parts ih =>
    rw [stampFrom, List.zipIdx_cons, List.map_cons, List.map_cons, List.length_cons,
      List.range'_succ]
    exact congrArg (n :: ·) (ih (n + 1))

/-- An add takes as many ids as it has parts. -/
theorem preparePendingChunks_yields (ext : Externals) (chunks : List MemoryChunk) (s : Store) :
    Yields (fun pending s' => pending = stampFrom ext s.nextId chunks ∧
      s' = { s with nextId := s.nextId + chunks.length })
      (preparePendingChunks ext chunks false) s := by
  let P : List MemoryChunk → List MemoryChunk → Store → Prop := fun pending rest s' =>
    ∃ done, chunks = done ++ rest ∧ pending = stampFrom ext s.nextId done ∧
      s' = { s with nextId := s.nextId + done.length }
  refine Yields.post (Yields.foldlM (P := P) ?_ chunks [] ⟨[], rfl, rfl, rfl⟩) ?_
  · rintro _ chunk rest _ ⟨done, hsplit, rfl, rfl⟩
    refine Yields.bind (Yields.perform (a := s.nextId + done.length)
      (Q := fun id s' => id = s.nextId + done.length ∧
        s' = { s with nextId := s.nextId + (done.length + 1) }) rfl ⟨rfl, rfl⟩) ?_
    rintro _ _ ⟨rfl, rfl⟩
    refine Yields.ret ⟨done ++ [chunk], by simp [hsplit], ?_, by simp⟩
    simp [stampFrom, List.zipIdx_append, stamp]
  · rintro pending s' ⟨done, hsplit, hpending, hs'⟩
    obtain rfl : chunks = done := by simpa using hsplit
    exact ⟨hpending, hs'⟩

/-- What the bookkeeping behind a batch may change: index columns, and the log by `k` checkpoints
with `count` writes counted behind the last one. -/
structure Settles (k count : ℕ) (s s' : Store) : Prop where
  metadata : s'.db.metadata = s.db.metadata
  nextId : s'.nextId = s.nextId
  config : s'.handle.config = s.handle.config
  advances : Advances s s'
  wal : s'.wal = s.wal ++ List.replicate k .checkpoint
  counter : s'.handle.writesSinceCheckpoint = count

theorem Settles.refl (s : Store) : Settles 0 s.handle.writesSinceCheckpoint s s :=
  ⟨rfl, rfl, rfl, .refl s, by simp, rfl⟩

/-- The checkpoints and the counter of steps one after the other. -/
theorem Settles.trans {k k' c c' : ℕ} {s s' s'' : Store} (h : Settles k c s s')
    (h' : Settles k' c' s' s'') : Settles (k + k') c' s s'' := by
  refine ⟨h'.metadata.trans h.metadata, h'.nextId.trans h.nextId, h'.config.trans h.config,
    h.advances.trans h'.advances, ?_, h'.counter⟩
  rw [h'.wal, h.wal, List.append_assoc, List.replicate_append_replicate]

/-- Steps on the files write no checkpoint and do not count. -/
theorem Store.Grows.settles {s s' : Store} (h : Grows s s') :
    Settles 0 s.handle.writesSinceCheckpoint s s' :=
  ⟨by rw [h.db], h.nextId, h.config, h.advances, by simp [h.wal], h.counter⟩

/-- Neither does a statement that leaves the rows as they are. -/
theorem settles_withDb {s : Store} {f : Db → Db} (h : (f s.db).metadata = s.db.metadata) :
    Settles 0 s.handle.writesSinceCheckpoint s (withDb f s) :=
  ⟨h, rfl, rfl, (Advances.refl s).congr rfl rfl rfl, by simp [withDb], rfl⟩

/-- Recording an index outcome leaves rows, files and counter. -/
theorem recordIndexOutcome_yields (t : TenantId) (ids : List ChunkId) (indexError : Option String)
    (now : ℤ) (s : Store) :
    Yields (fun _ s' => Settles 0 s.handle.writesSinceCheckpoint s s')
      (recordIndexOutcome t ids indexError now) s := by
  cases indexError with
  | none => exact Yields.modify (settles_withDb (Db.metadata_markIndexed _ t ids now))
  | some e =>
    refine Yields.forM (P := fun _ s' => Settles 0 s.handle.writesSinceCheckpoint s s') ?_ ids (.refl s)
    intro c rest s₁ h₁
    have hmark : Settles 0 s₁.handle.writesSinceCheckpoint s₁
        (withDb (·.markIndexFailed t c e now) s₁) :=
      settles_withDb (Db.metadata_markIndexFailed s₁.db t c e now)
    have h₂ := h₁.trans hmark
    rw [h₁.counter] at h₂
    exact Yields.modify h₂

/-- The checkpoints that fall due with `writes` more writes; none without an interval. -/
def dueCheckpoints (interval count writes : ℕ) : ℕ :=
  (count + writes) / interval

/-- The writes counted behind the last checkpoint after `writes` more. -/
def countedWrites (interval count writes : ℕ) : ℕ :=
  if interval = 0 then count else (count + writes) % interval

/-- The checkpoints a batch of `writes` brings to a store. -/
def Store.due (s : Store) (writes : ℕ) : ℕ :=
  dueCheckpoints s.handle.config.walCheckpointInterval s.handle.writesSinceCheckpoint writes

/-- What the store counts behind a batch of `writes`. -/
def Store.counted (s : Store) (writes : ℕ) : ℕ :=
  countedWrites s.handle.config.walCheckpointInterval s.handle.writesSinceCheckpoint writes

/-- What a batch does to the counter, and whether a checkpoint is due. -/
theorem checkpointAfterBatch_yields {writes : ℕ} (hpos : writes ≠ 0)
    (hf : s.handle.config.finalizeFails = []) :
    Yields (fun _ s' => Settles (s.due writes) (s.counted writes) s s')
      (checkpointAfterBatch writes) s := by
  refine Yields.bind (Yields.read (Q := fun n s' => n = s.handle.config.walCheckpointInterval ∧ s = s')
    ⟨rfl, rfl⟩) ?_
  rintro _ _ ⟨rfl, rfl⟩
  generalize hdue : s.due writes = due
  generalize hcount : s.counted writes = count
  unfold Store.due dueCheckpoints at hdue
  unfold Store.counted countedWrites at hcount
  generalize s.handle.config.walCheckpointInterval = interval at hdue hcount ⊢
  by_cases hinterval : interval = 0
  · rw [if_pos hinterval] at hcount
    rw [hinterval, Nat.div_zero] at hdue
    rw [if_pos (.inl hinterval), ← hdue, ← hcount]
    exact Yields.ret (.refl s)
  rw [if_neg hinterval] at hcount
  rw [if_neg (show ¬ (interval = 0 ∨ writes = 0) by simp [hinterval, hpos])]
  refine Yields.bind (Yields.perform (a := due) (Q := fun k s' => due = k ∧ Settles 0 count s s') ?_
    ⟨rfl, rfl, rfl, rfl, (Advances.refl s).congr rfl rfl rfl, by simp [countWrites], hcount⟩) ?_
  · exact congrArg Except.ok hdue
  rintro _ s₁ ⟨rfl, h₁⟩
  have hf₁ : s₁.handle.config.finalizeFails = [] := by rw [h₁.config]; exact hf
  split
  · rename_i hnone
    rw [hnone]
    exact Yields.ret h₁
  obtain ⟨hok, hgrows⟩ := finalizeActive_spec hf₁
  have hfinal := h₁.trans hgrows.settles
  rw [h₁.counter] at hfinal
  refine Yields.bind (Yields.perform (Q := fun _ s' => Settles 0 count s s') hok hfinal) ?_
  rintro _ s₂ h₂
  -- `rest` is as long as there are checkpoints still to be written
  let P : List Unit → Store → Prop := fun rest s' => ∃ k, k + rest.length = due ∧ Settles k count s s'
  refine Yields.post (Yields.forM (P := P) ?_ _ ⟨0, by simp, h₂⟩) ?_
  · rintro _ rest s₃ ⟨k, hk, h₃⟩
    have hstep : Settles 1 s₃.handle.writesSinceCheckpoint s₃ (logAppend [.checkpoint] s₃) :=
      ⟨rfl, rfl, rfl, (Advances.refl s₃).congr rfl rfl rfl, rfl, rfl⟩
    have h₄ := h₃.trans hstep
    rw [h₃.counter] at h₄
    refine Yields.modify ⟨k + 1, ?_, h₄⟩
    rw [List.length_cons] at hk
    omega
  · rintro _ s' ⟨k, hk, h'⟩
    rw [← show k = due from hk]
    exact h'

/-- What the add of a chunk leaves behind: the parts under the next ids, at new locations, and `k`
checkpoints behind their records. -/
structure AddedAt (ext : Externals) (chunk : MemoryChunk) (locs : List (ℕ × ℕ)) (k count : ℕ)
    (s s' : Store) : Prop where
  locations : NewLocations (splitForAdd ext chunk).length locs s s'
  metadata : s'.db.metadata =
    (s.db.insertMany (rowsAt ext (stampFrom ext s.nextId (splitForAdd ext chunk)) locs)).metadata
  nextId : s'.nextId = s.nextId + (splitForAdd ext chunk).length
  config : s'.handle.config = s.handle.config
  advances : Advances s s'
  wal : s'.wal = s.wal ++ (stampFrom ext s.nextId (splitForAdd ext chunk)).map .add
    ++ List.replicate k .checkpoint
  counter : s'.handle.writesSinceCheckpoint = count

/-- The bookkeeping behind the batch changes nothing of it. -/
theorem AddedAt.settles {ext : Externals} {chunk : MemoryChunk} {locs : List (ℕ × ℕ)}
    {k k' c c' : ℕ} {s s' s'' : Store} (h : AddedAt ext chunk locs k c s s')
    (h' : Settles k' c' s' s'') : AddedAt ext chunk locs (k + k') c' s s'' := by
  refine ⟨h.locations.advances h'.advances, h'.metadata.trans h.metadata,
    h'.nextId.trans h.nextId, h'.config.trans h.config, h.advances.trans h'.advances, ?_, h'.counter⟩
  rw [h'.wal, h.wal, List.append_assoc, List.replicate_append_replicate]

/-- The ids of the parts of a chunk. -/
def partIds (ext : Externals) (n : ℕ) (chunk : MemoryChunk) : List ChunkId :=
  List.range' n (splitForAdd ext chunk).length

/-- The first part has the next id. -/
theorem head_partIds (ext : Externals) (n : ℕ) (chunk : MemoryChunk) :
    (partIds ext n chunk)[0]? = some n := by
  have hpos : 0 < (splitForAdd ext chunk).length :=
    List.length_pos_of_ne_nil (splitForAdd_ne_nil ext chunk)
  simp [partIds, hpos]

/-- **An add of a chunk** runs to its end: its parts are logged, stored and counted. -/
theorem addChunk_yields (ext : Externals) (t : TenantId) (chunk : MemoryChunk)
    (indexError : Option String) (now : ℤ) (hf : s.handle.config.finalizeFails = []) :
    Yields (fun r s' => r = ⟨[s.nextId], partIds ext s.nextId chunk⟩ ∧
      ∃ locs, AddedAt ext chunk locs (s.due (splitForAdd ext chunk).length)
        (s.counted (splitForAdd ext chunk).length) s s')
      (addChunks ext t [chunk] false indexError now) s := by
  show Yields _ ((preparePendingChunks ext (splitForAdd ext chunk) false).bind _) s
  refine Yields.bind (preparePendingChunks_yields ext (splitForAdd ext chunk) s) ?_
  rintro _ _ ⟨rfl, rfl⟩
  set parts := splitForAdd ext chunk with hparts
  set pending := stampFrom ext s.nextId parts with hpending
  have hlen : pending.length = parts.length := length_stampFrom ext s.nextId parts
  have hids : pending.map (·.chunkId) = partIds ext s.nextId chunk :=
    ids_stampFrom ext s.nextId parts
  -- the log append
  refine Yields.bind (Yields.modify (Q := fun _ s' => s' =
    { s with nextId := s.nextId + parts.length, wal := s.wal ++ pending.map .add }) rfl) ?_
  rintro _ s₁ rfl
  -- the segment appends, the flush and the metadata transaction
  refine Yields.bind (Q := fun _ s' => ∃ locs,
    AddedAt ext chunk locs 0 s.handle.writesSinceCheckpoint s s') ?_ ?_
  · refine Yields.bind (storePending_yields ext (by exact hf) pending) ?_
    rintro rows s₂ ⟨hgrows, locs, hlocs, rfl⟩
    refine Yields.bind (Yields.modify (Q := fun _ s' => Grows s₂ s') grows_flushActive) ?_
    rintro _ s₃ hflush
    have hgrows₃ := hgrows.trans hflush
    refine Yields.bind (Yields.modify (Q := fun _ s' => s' =
      withDb (·.insertMany (rowsAt ext pending locs)) s₃) rfl) ?_
    rintro _ s₄ rfl
    refine Yields.modify ⟨locs, ?_⟩
    -- the log append in front, the insert and the announcement leave the segments alone
    have hfront : Advances s { s with
        nextId := s.nextId + parts.length, wal := s.wal ++ pending.map .add } :=
      (Advances.refl s).congr rfl rfl rfl
    have hadv : Advances s s₃ := hfront.trans hgrows₃.advances
    refine ⟨?_, ?_, hgrows₃.nextId, hgrows₃.config, hadv.congr rfl rfl rfl, ?_, hgrows₃.counter⟩
    · rw [hlen] at hlocs
      have hlocs₃ := (hlocs.advances hflush.advances).advances
        ((Advances.refl s₃).congr rfl rfl rfl :
          Advances s₃ (withDb (·.insertMany (rowsAt ext pending locs)) s₃))
      exact ⟨hlocs₃.length, hlocs₃.nodup, hlocs₃.free, hlocs₃.used, hlocs₃.issued⟩
    · rw [withDb, Db.metadata_markIndexPending, withDb, hgrows₃.db]
    · simp [withDb, hgrows₃.wal, hpending, hparts]
  · rintro _ s₂ ⟨locs, h₂⟩
    have hf₂ : s₂.handle.config.finalizeFails = [] := by rw [h₂.config]; exact hf
    refine Yields.bind (recordIndexOutcome_yields t _ indexError now s₂) ?_
    rintro _ s₃ h₃
    have hf₃ : s₃.handle.config.finalizeFails = [] := by rw [h₃.config]; exact hf₂
    have hpos : pending.length ≠ 0 := by
      rw [hlen]
      exact fun h => splitForAdd_ne_nil ext chunk (List.length_eq_zero_iff.mp h)
    refine Yields.bind (checkpointAfterBatch_yields hpos hf₃) ?_
    rintro _ s₄ h₄
    have hdue : s₃.due pending.length = s.due parts.length := by
      rw [Store.due, h₃.counter, h₂.counter, h₃.config, h₂.config, hlen, Store.due]
    have hcounted : s₃.counted pending.length = s.counted parts.length := by
      rw [Store.counted, h₃.counter, h₂.counter, h₃.config, h₂.config, hlen, Store.counted]
    rw [hdue, hcounted] at h₄
    refine Yields.bind (Yields.ofExcept (a := [s.nextId])
      (Q := fun ids s' => ids = [s.nextId] ∧ s₄ = s') ?_ ⟨rfl, rfl⟩) ?_
    · rw [hids]
      simp [idsAt, head_partIds, Except.map]
    · rintro _ _ ⟨rfl, rfl⟩
      refine Yields.ret ⟨by rw [hids], locs, ?_⟩
      have hadded := h₂.settles (h₃.trans h₄)
      rwa [Nat.zero_add, Nat.zero_add] at hadded

/-! ## The rows of an add -/

namespace ChunkMetadata

/-- Would an insert of `new` evict the row? -/
def conflicts (m new : ChunkMetadata) : Bool :=
  m.chunkId == new.chunkId || (m.tenantId == new.tenantId && m.segmentId == new.segmentId
    && m.ordinal == new.ordinal)

/-- The row after the `SET` clause of `update_lifecycle`. -/
def overlay (delta : LifecycleDelta) (m : ChunkMetadata) : ChunkMetadata :=
  { m with
    status := delta.status.getD m.status
    lifecycle := { m.lifecycle with
      tier := delta.tier.getD m.lifecycle.tier
      supersedes := delta.supersedes.or m.lifecycle.supersedes
      supersededBy := delta.supersededBy.or m.lifecycle.supersededBy
      expiresAtMs := delta.expiresAtMs.getD m.lifecycle.expiresAtMs
      reviewAfterMs := delta.reviewAfterMs.getD m.lifecycle.reviewAfterMs
      lifecycleUpdatedAtMs := delta.lifecycleUpdatedAtMs.getD m.lifecycle.lifecycleUpdatedAtMs } }

/-- `update_lifecycle` of the chunks in `ids`, on one row. -/
def overlayIn (t : TenantId) (ids : List ChunkId) (delta : LifecycleDelta) (m : ChunkMetadata) :
    ChunkMetadata :=
  if m.tenantId = t ∧ m.chunkId ∈ ids ∧ m.status ≠ .deleted then m.overlay delta else m

end ChunkMetadata

/-- The rows an insert of `rows` leaves in the table. -/
def keptRows (rows ms : List ChunkMetadata) : List ChunkMetadata :=
  ms.filter fun m => rows.all fun n => !m.conflicts n

namespace Db

/-- An insert replaces the rows it conflicts with. -/
theorem metadata_insert (db : Db) (m : ChunkMetadata) :
    (db.insert m).metadata = (db.metadata.filter fun r => !r.conflicts m) ++ [m] := by
  rw [metadata, metadata, insert, Table.insertOrReplace, List.map_append, List.filter_map]
  rfl

/-- An insert of rows that do not evict each other. -/
theorem metadata_insertMany (db : Db) {rows : List ChunkMetadata}
    (hrows : rows.Pairwise fun m n => m.conflicts n = false) :
    (db.insertMany rows).metadata = keptRows rows db.metadata ++ rows := by
  induction rows generalizing db with
  | nil => simp [insertMany, keptRows]
  | cons m rows ih =>
    obtain ⟨hm, hrows⟩ := List.pairwise_cons.mp hrows
    have hkept : keptRows rows [m] = [m] := by
      rw [keptRows, List.filter_eq_self]
      intro x hx
      obtain rfl := List.mem_singleton.mp hx
      rw [List.all_eq_true]
      intro n hn
      simp [hm n hn]
    have happend : keptRows rows ((db.metadata.filter fun r => !r.conflicts m) ++ [m]) =
        keptRows (m :: rows) db.metadata ++ [m] := by
      rw [keptRows, List.filter_append, ← keptRows, ← keptRows, hkept, keptRows, keptRows,
        List.filter_filter]
      congr 1
      apply List.filter_congr
      intro r _
      rw [List.all_cons, Bool.and_comm]
    show ((db.insert m).insertMany rows).metadata = _
    rw [ih _ hrows, metadata_insert, happend, List.append_assoc]
    rfl

/-- A lifecycle update overlays the row of its chunk. -/
theorem metadata_updateLifecycle (db : Db) (t : TenantId) (c : ChunkId) (delta : LifecycleDelta) :
    (db.updateLifecycleCounted t c delta).2.metadata =
      db.metadata.map (ChunkMetadata.overlayIn t [c] delta) := by
  rw [metadata, metadata, updateLifecycleCounted, updateChunks, Table.updateWhere, List.map_map,
    List.map_map]
  apply List.map_congr_left
  intro r _
  simp only [Function.comp_apply, ChunkMetadata.overlayIn, List.mem_singleton]
  by_cases h : r.tenantId = t ∧ r.chunkId = c ∧ r.status ≠ .deleted
  · rw [if_pos h, if_pos (by simpa [ChunkRow.isRow, ChunkRow.isLive, and_assoc] using h)]
    rfl
  · rw [if_neg h, if_neg (by simpa [ChunkRow.isRow, ChunkRow.isLive, and_assoc] using h)]

/-- The overlay of several chunks, each updated once. -/
theorem metadata_updateLifecycles (db : Db) (t : TenantId) (delta : LifecycleDelta)
    {ids : List ChunkId} (hids : ids.Nodup) :
    (ids.foldl (fun db c => (db.updateLifecycleCounted t c delta).2) db).metadata =
      db.metadata.map (ChunkMetadata.overlayIn t ids delta) := by
  induction ids generalizing db with
  | nil =>
    rw [List.foldl_nil]
    refine (List.map_id _).symm.trans (List.map_congr_left ?_)
    intro m _
    simp [ChunkMetadata.overlayIn]
  | cons c ids ih =>
    obtain ⟨hc, hids⟩ := List.nodup_cons.mp hids
    rw [List.foldl_cons, ih _ hids, metadata_updateLifecycle, List.map_map]
    apply List.map_congr_left
    intro m _
    rw [Function.comp_apply]
    by_cases hm : m.tenantId = t ∧ m.chunkId = c ∧ m.status ≠ .deleted
    · -- the row of `c` is not touched again
      have hfirst : m.overlayIn t [c] delta = m.overlay delta := if_pos (by simpa using hm)
      have hlater : (m.overlay delta).overlayIn t ids delta = m.overlay delta := by
        refine if_neg fun h => hc ?_
        have hid : (m.overlay delta).chunkId = c := hm.2.1
        exact hid ▸ h.2.1
      have hall : m.overlayIn t (c :: ids) delta = m.overlay delta :=
        if_pos ⟨hm.1, by simp [hm.2.1], hm.2.2⟩
      rw [hfirst, hlater, hall]
    · have hfirst : m.overlayIn t [c] delta = m := if_neg (by simpa using hm)
      rw [hfirst, ChunkMetadata.overlayIn, ChunkMetadata.overlayIn]
      by_cases hin : m.tenantId = t ∧ m.chunkId ∈ ids ∧ m.status ≠ .deleted
      · rw [if_pos hin, if_pos ⟨hin.1, List.mem_cons_of_mem c hin.2.1, hin.2.2⟩]
      · rw [if_neg hin, if_neg]
        rintro ⟨ht, hmem, hlive⟩
        rcases List.mem_cons.mp hmem with hmem | hmem
        · exact hm ⟨ht, hmem, hlive⟩
        · exact hin ⟨ht, hmem, hlive⟩

end Db

/-! ### Rows at new locations -/

/-- The rows have the ids of the chunks. -/
theorem ids_rowsAt (ext : Externals) {pending : List MemoryChunk} {locs : List (ℕ × ℕ)}
    (h : locs.length = pending.length) :
    (rowsAt ext pending locs).map (·.chunkId) = pending.map (·.chunkId) := by
  induction pending generalizing locs with
  | nil => simp [rowsAt]
  | cons p pending ih =>
    cases locs with
    | nil => exact absurd h (by simp)
    | cons l locs =>
      rw [rowsAt, List.zipWith_cons_cons, List.map_cons, List.map_cons]
      exact congrArg _ (ih (by simpa using h))

/-- They are at the locations given. -/
theorem locations_rowsAt (ext : Externals) {pending : List MemoryChunk} {locs : List (ℕ × ℕ)}
    (h : locs.length = pending.length) :
    (rowsAt ext pending locs).map (fun m => (m.segmentId, m.ordinal)) = locs := by
  induction pending generalizing locs with
  | nil => simpa [rowsAt, eq_comm] using h
  | cons p pending ih =>
    cases locs with
    | nil => exact absurd h (by simp)
    | cons l locs =>
      rw [rowsAt, List.zipWith_cons_cons, List.map_cons]
      exact congrArg _ (ih (by simpa using h))

/-- Each row is one of a chunk at a location. -/
theorem mem_rowsAt {ext : Externals} {pending : List MemoryChunk} {locs : List (ℕ × ℕ)}
    {m : ChunkMetadata} (h : m ∈ rowsAt ext pending locs) :
    ∃ p ∈ pending, ∃ l ∈ locs, m = metadataRow ext p l.1 l.2 := by
  induction pending generalizing locs with
  | nil => exact absurd h (by simp [rowsAt])
  | cons p pending ih =>
    cases locs with
    | nil => exact absurd h (by simp [rowsAt])
    | cons l locs =>
      rw [rowsAt, List.zipWith_cons_cons] at h
      rcases List.mem_cons.mp h with rfl | h
      · exact ⟨p, List.mem_cons_self, l, List.mem_cons_self, rfl⟩
      · obtain ⟨q, hq, k, hk, rfl⟩ := ih h
        exact ⟨q, List.mem_cons_of_mem p hq, k, List.mem_cons_of_mem l hk, rfl⟩

/-- Rows with different ids and locations do not evict each other. -/
theorem pairwise_conflicts {rows : List ChunkMetadata} (hids : (rows.map (·.chunkId)).Nodup)
    (hlocs : (rows.map fun m => (m.segmentId, m.ordinal)).Nodup) :
    rows.Pairwise fun m n => m.conflicts n = false := by
  have hid : rows.Pairwise fun m n => m.chunkId ≠ n.chunkId := List.pairwise_map.mp hids
  have hloc : rows.Pairwise fun m n => (m.segmentId, m.ordinal) ≠ (n.segmentId, n.ordinal) :=
    List.pairwise_map.mp hlocs
  refine (hid.and hloc).imp ?_
  rintro m n ⟨h₁, h₂⟩
  have h₃ : m.segmentId = n.segmentId → m.ordinal ≠ n.ordinal :=
    fun hs ho => h₂ (Prod.ext hs ho)
  simp only [ChunkMetadata.conflicts, Bool.or_eq_false_iff, Bool.and_eq_false_iff,
    beq_eq_false_iff_ne]
  exact ⟨h₁, by tauto⟩

/-- The delta `add_chunk_with_lifecycle` writes. -/
def stampedDelta (initial : LifecycleDelta) (now : ℤ) : LifecycleDelta :=
  { initial with lifecycleUpdatedAtMs := some (initial.lifecycleUpdatedAtMs.getD now) }

/-- A freshly inserted row under its initial overlay. -/
def initialRow (initial : LifecycleDelta) (now : ℤ) (m : ChunkMetadata) : ChunkMetadata :=
  if initial.isEmpty ∨ m.status = .deleted then m else m.overlay (stampedDelta initial now)

/-- The rows of a chunk added with an overlay, at the given locations. -/
def addedRows (ext : Externals) (chunk : MemoryChunk) (initial : LifecycleDelta) (now : ℤ) (n : ℕ)
    (locs : List (ℕ × ℕ)) : List ChunkMetadata :=
  (rowsAt ext (stampFrom ext n (splitForAdd ext chunk)) locs).map (initialRow initial now)

/-- What `add_chunk_with_lifecycle` leaves behind. -/
structure Written (ext : Externals) (chunk : MemoryChunk) (initial : LifecycleDelta) (now : ℤ)
    (locs : List (ℕ × ℕ)) (s s' : Store) : Prop where
  locations : NewLocations (splitForAdd ext chunk).length locs s s'
  metadata : s'.db.metadata =
    keptRows (rowsAt ext (stampFrom ext s.nextId (splitForAdd ext chunk)) locs) s.db.metadata
      ++ addedRows ext chunk initial now s.nextId locs
  nextId : s'.nextId = s.nextId + (splitForAdd ext chunk).length
  config : s'.handle.config = s.handle.config
  advances : Advances s s'
  wal : s'.wal = s.wal ++ (stampFrom ext s.nextId (splitForAdd ext chunk)).map .add
    ++ List.replicate (s.due (splitForAdd ext chunk).length) .checkpoint
  counter : s'.handle.writesSinceCheckpoint = s.counted (splitForAdd ext chunk).length

/-- The initial lifecycle is laid over the rows of all parts. -/
theorem applyInitialDelta_yields (t : TenantId) {ids : List ChunkId} (hids : ids.Nodup)
    (initial : LifecycleDelta) (now : ℤ) (s : Store) :
    Yields (fun _ s' => ∃ db', s' = { s with db := db' } ∧ db'.metadata =
      if initial.isEmpty then s.db.metadata
      else s.db.metadata.map (ChunkMetadata.overlayIn t ids (stampedDelta initial now)))
      (applyInitialDelta t ids initial [] now) s := by
  unfold applyInitialDelta
  split
  · exact Yields.ret ⟨s.db, rfl, rfl⟩
  let updated (done : List ChunkId) : Db :=
    done.foldl (fun db c => (db.updateLifecycleCounted t c (stampedDelta initial now)).2) s.db
  -- the chunks in `done` have been updated
  let P : List (ChunkId × ℕ) → Store → Prop := fun rest s' =>
    ∃ done, ids.zipIdx = done ++ rest ∧ s' = { s with db := updated (done.map (·.1)) }
  refine Yields.post (Yields.forM (P := P) ?_ ids.zipIdx ⟨[], rfl, rfl⟩) ?_
  · rintro part rest _ ⟨done, hsplit, rfl⟩
    have hupdated : updated ((done ++ [part]).map (·.1)) = ((updated (done.map (·.1)))
        |>.updateLifecycleCounted t part.1 (stampedDelta initial now)).2 := by
      simp [updated]
    refine Yields.bind (Yields.perform (Q := fun _ s' => P rest s') rfl ?_) fun _ _ h => .ret h
    exact ⟨done ++ [part], by simp [hsplit], by rw [hupdated]; rfl⟩
  · rintro _ s' ⟨done, hsplit, rfl⟩
    refine ⟨_, rfl, ?_⟩
    have hdone : done.map (·.1) = ids := by
      rw [List.append_nil] at hsplit
      rw [← hsplit, List.zipIdx_map_fst]
    rw [hdone]
    exact Db.metadata_updateLifecycles s.db t _ hids

/-- What an insert leaves in the table has other ids. -/
theorem not_mem_of_keptRows {rows ms : List ChunkMetadata} {m : ChunkMetadata}
    (h : m ∈ keptRows rows ms) : m.chunkId ∉ rows.map (·.chunkId) := by
  intro hmem
  obtain ⟨n, hn, hid⟩ := List.mem_map.mp hmem
  have hall := List.all_eq_true.mp (List.mem_filter.mp h).2 n hn
  simp [ChunkMetadata.conflicts, hid] at hall

/-- **An add with a lifecycle** runs to its end, and writes what `Written` says. -/
theorem addChunkWithLifecycle_yields (ext : Externals) {t : TenantId} {chunk : MemoryChunk}
    (ht : chunk.tenantId = t) (initial : LifecycleDelta) (indexError : Option String) (now : ℤ)
    (hf : s.handle.config.finalizeFails = []) :
    Yields (fun r s' => r = (s.nextId, partIds ext s.nextId chunk) ∧
      ∃ locs, Written ext chunk initial now locs s s')
      (addChunkWithLifecycleAndStoredIds ext t chunk initial [] indexError now) s := by
  refine Yields.bind (Q := fun r s' => r = (s.nextId, partIds ext s.nextId chunk) ∧
    ∃ locs, AddedAt ext chunk locs (s.due (splitForAdd ext chunk).length)
      (s.counted (splitForAdd ext chunk).length) s s') ?_ ?_
  · refine Yields.bind (addChunk_yields ext t chunk indexError now hf) ?_
    rintro _ s' ⟨rfl, h⟩
    exact Yields.ret ⟨rfl, h⟩
  rintro _ s' ⟨rfl, locs, h⟩
  set pending := stampFrom ext s.nextId (splitForAdd ext chunk) with hpending
  have hlen : locs.length = pending.length := by
    rw [h.locations.length, hpending, length_stampFrom]
  have hids : (rowsAt ext pending locs).map (·.chunkId) = partIds ext s.nextId chunk := by
    rw [ids_rowsAt ext hlen, hpending, ids_stampFrom, partIds]
  have hnodup : (partIds ext s.nextId chunk).Nodup := List.nodup_range'
  have hrows : s'.db.metadata =
      keptRows (rowsAt ext pending locs) s.db.metadata ++ rowsAt ext pending locs := by
    rw [h.metadata]
    apply Db.metadata_insertMany
    apply pairwise_conflicts
    · rw [hids]
      exact hnodup
    · rw [locations_rowsAt ext hlen]
      exact h.locations.nodup
  refine Yields.bind (applyInitialDelta_yields t hnodup initial now s') ?_
  rintro _ _ ⟨db', rfl, hdb'⟩
  refine Yields.ret ⟨rfl, locs, h.locations.advances ((Advances.refl s').congr rfl rfl rfl), ?_,
    h.nextId, h.config, h.advances.congr rfl rfl rfl, h.wal, h.counter⟩
  show db'.metadata = _
  rw [hdb', hrows, addedRows]
  -- the rows that were there have other ids, the new ones are all updated
  have hold : ∀ m ∈ keptRows (rowsAt ext pending locs) s.db.metadata,
      m.overlayIn t (partIds ext s.nextId chunk) (stampedDelta initial now) = m := by
    intro m hm
    refine if_neg fun hin => not_mem_of_keptRows hm ?_
    rw [hids]
    exact hin.2.1
  have hnew : ∀ m ∈ rowsAt ext pending locs, m.tenantId = t ∧ m.chunkId ∈ partIds ext s.nextId chunk := by
    intro m hm
    refine ⟨?_, hids ▸ List.mem_map_of_mem hm⟩
    obtain ⟨p, hp, l, _, rfl⟩ := mem_rowsAt hm
    obtain ⟨x, hx, rfl⟩ := List.mem_map.mp hp
    obtain ⟨text, tags, hpart⟩ := mem_splitForAdd (List.fst_mem_of_mem_zipIdx hx)
    show x.1.tenantId = t
    rw [hpart]
    exact ht
  by_cases hempty : initial.isEmpty = true
  · rw [if_pos hempty]
    congr 1
    refine (List.map_id _).symm.trans (List.map_congr_left fun m _ => ?_)
    simp [initialRow, hempty]
  · rw [if_neg hempty, List.map_append]
    congr 1
    · exact (List.map_congr_left hold).trans (List.map_id _)
    · apply List.map_congr_left
      intro m hm
      obtain ⟨htm, hidm⟩ := hnew m hm
      by_cases hdel : m.status = .deleted
      · rw [initialRow, if_pos (.inr hdel)]
        exact if_neg fun h => h.2.2 hdel
      · rw [initialRow, if_neg (by simp [hempty, hdel])]
        exact if_pos ⟨htm, hidm, hdel⟩
