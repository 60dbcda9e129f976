/-
# The write path keeps the invariant

For every program of the write path, from the segment append up to a whole
`addChunks`, `addTaskArtifact` or `deleteChunk` call: each of its steps keeps the
invariant of the store, whatever crash interrupts it, and a call that returns has
stored what it was given.
-/
import Memd.StoreInvariant

open Store TenantStore PersistentStore Proc

variable {T : TenantId} {K : Ledger}
  {A : StoreStep → Store → Prop} {I : Store → Prop} {s : Store}

/-! ## Segment programs -/

theorem safe_getOrCreateActiveSegment (hl : s.Layout) (hI : ∀ s', SegStep s s' → I s')
    (maxChunks : ℕ) :
    Safe A Keeps I (fun r s' => r = .ok () ∧ SegStep s s' ∧ ∃ a, s'.handle.activeSegment = some a)
      (getOrCreateActiveSegment maxChunks) s := by
  obtain ⟨hr, h₁⟩ := segStep_rotateIfFull hl maxChunks
  obtain ⟨h₂, ha⟩ := segStep_createIfNone h₁.layout
  refine Safe.perform_bind hr fun _ _ => ⟨h₁.keeps, hI _ h₁, ?_⟩
  exact Safe.modify fun _ _ => ⟨h₂.keeps, hI _ (h₁.trans h₂), fun _ => ⟨rfl, h₁.trans h₂, ha⟩⟩

/-- Storing a logged payload makes it readable at the location returned. -/
theorem safe_storePayload (hl : s.Layout) (hI : ∀ s', SegStep s s' → I s') {chunk : MemoryChunk}
    (hadd : .add chunk ∈ s.recordsForRecovery) (msg : String) :
    Safe A Keeps I (fun r s' => ∃ segmentId ordinal, r = .ok (segmentId, ordinal) ∧ SegStep s s' ∧
      Located [] s' chunk segmentId ordinal) (storePayload msg chunk) s := by
  refine Safe.read_bind Keeps.refl fun _ => ?_
  refine Safe.bind (safe_getOrCreateActiveSegment hl hI _) ?_ ?_
  · rintro _ s₁ _ ⟨_, h₁, a, ha⟩
    have hadd₁ : .add chunk ∈ s₁.recordsForRecovery := by
      rw [h₁.recordsForRecovery]
      exact hadd
    obtain ⟨hr, h₂, hin⟩ := segStep_appendToActive h₁.layout ha hadd₁ msg
    refine Safe.perform fun _ _ => ⟨h₂.keeps, hI _ (h₁.trans h₂), fun _ => ?_⟩
    refine ⟨_, _, hr, h₁.trans h₂, .inr ⟨?_, .inl hin⟩⟩
    rw [h₂.recordsForRecovery]
    exact hadd₁
  · rintro e s₁ _ ⟨h, _⟩
    exact absurd h (by simp)

theorem safe_finalizeActiveSegment (hl : s.Layout) (hI : ∀ s', SegStep s s' → I s')
    (l : StoreStep) :
    Safe A Keeps I (fun r s' => r = .ok () ∧ SegStep s s' ∧ s'.handle.activeSegment = none)
      (finalizeActiveSegment l) s := by
  obtain ⟨hr, h₁, ha⟩ := segStep_finalizeActive hl
  exact Safe.perform fun _ _ => ⟨h₁.keeps, hI _ h₁, fun _ => ⟨hr, h₁, ha⟩⟩

theorem safe_finalizeActiveSegmentIfAboveThreshold (hl : s.Layout)
    (hI : ∀ s', SegStep s s' → I s') :
    Safe A Keeps I (fun r s' => r = .ok () ∧ SegStep s s') finalizeActiveSegmentIfAboveThreshold s := by
  have hfin := (safe_finalizeActiveSegment (A := A) hl hI .finalizeSegment).post
    (R := fun r s' => r = .ok () ∧ SegStep s s') fun r s' _ h => ⟨h.1, h.2.1⟩
  refine Safe.read_bind Keeps.refl fun _ => ?_
  split
  · exact hfin
  · refine Safe.read_bind Keeps.refl fun _ => ?_
    split
    · exact Safe.ret fun _ => ⟨rfl, .refl hl⟩
    · exact hfin

/-! ## Preparing a batch -/

/-- What `prepare_pending_chunks` makes of a chunk once it has an id. -/
def stamp (ext : Externals) (chunk : MemoryChunk) (id : ChunkId) : MemoryChunk :=
  { chunk with chunkId := id, hash := ext.sha256Hex chunk.text }

/-- The prepared chunks are the given ones under the ids. -/
def Stamped (ext : Externals) (chunks pending : List MemoryChunk) : Prop :=
  List.Forall₂ (fun chunk p => p = stamp ext chunk p.chunkId) chunks pending

/-- A prepared batch: distinct ids handed out from `n` on. -/
structure NewIds (n : ℕ) (pending : List MemoryChunk) (s : Store) : Prop where
  nodup : (pending.map (·.chunkId)).Nodup
  bounds : ∀ p ∈ pending, n ≤ p.chunkId ∧ p.chunkId < s.nextId

theorem safe_preparePendingChunks (ext : Externals) (chunks : List MemoryChunk)
    (hI : ∀ n, s.nextId ≤ n → I { s with nextId := n }) :
    Safe A Keeps I (fun r s' => ∃ pending n, r = .ok pending ∧ s.nextId ≤ n ∧
        s' = { s with nextId := n } ∧ Stamped ext chunks pending ∧ NewIds s.nextId pending s')
      (preparePendingChunks ext chunks false) s := by
  -- the chunks before `rest` have been prepared
  let P : List MemoryChunk → List MemoryChunk → Store → Prop := fun pending rest s' =>
    ∃ done n, chunks = done ++ rest ∧ s.nextId ≤ n ∧ s' = { s with nextId := n } ∧
      Stamped ext done pending ∧ NewIds s.nextId pending s'
  refine Safe.foldlM (P := P) ?_ ?_ chunks [] ?_ ?_
  · rintro pending chunk rest s₁ _ ⟨done, n, hsplit, hn, rfl, hst, hids⟩
    refine Safe.perform_bind (a := n) rfl fun _ _ =>
      ⟨.of_eq rfl rfl, hI (n + 1) (Nat.le_succ_of_le hn), ?_⟩
    refine Safe.ret fun _ => ?_
    refine ⟨done ++ [chunk], n + 1, by simp [hsplit], Nat.le_succ_of_le hn, rfl, ?_, ?_, ?_⟩
    · exact List.rel_append hst (.cons rfl .nil)
    · rw [List.map_append, List.nodup_append]
      refine ⟨hids.nodup, by simp, ?_⟩
      intro x hx y hy
      obtain ⟨p, hp, rfl⟩ := List.mem_map.mp hx
      obtain rfl : y = n := by simpa using hy
      exact Nat.ne_of_lt (hids.bounds p hp).2
    · intro p hp
      rcases List.mem_append.mp hp with hp | hp
      · obtain ⟨h₁, h₂⟩ := hids.bounds p hp
        exact ⟨h₁, Nat.lt_succ_of_lt h₂⟩
      · obtain rfl := List.mem_singleton.mp hp
        exact ⟨hn, Nat.lt_succ_self n⟩
  · rintro pending s₁ _ ⟨done, n, hsplit, hn, rfl, hst, hids⟩
    obtain rfl : chunks = done := by simpa using hsplit
    exact ⟨pending, n, rfl, hn, rfl, hst, hids⟩
  · exact hI s.nextId (Nat.le_refl _)
  · exact ⟨[], s.nextId, rfl, Nat.le_refl _, rfl, .nil, by simp, by simp⟩

/-! ## Storing a batch -/

/-- Every row points at the payload of its chunk. -/
def Placed (ext : Externals) (s : Store) (pending : List MemoryChunk) (rows : List ChunkMetadata) :
    Prop :=
  List.Forall₂ (fun p m => ∃ segmentId ordinal, m = metadataRow ext p segmentId ordinal ∧
    Located [] s p segmentId ordinal) pending rows

theorem Placed.segStep {ext : Externals} {s s' : Store} {pending : List MemoryChunk}
    {rows : List ChunkMetadata} (h : Placed ext s pending rows) (hs : SegStep s s') :
    Placed ext s' pending rows :=
  h.imp fun _ _ ⟨i, o, hm, hloc⟩ => ⟨i, o, hm, hs.located _ _ _ _ hloc⟩

/-- The segment appends of a batch whose Add records are logged. -/
theorem safe_storePending (ext : Externals) (hl : s.Layout) (hI : ∀ s', SegStep s s' → I s')
    {pending : List MemoryChunk} (hadd : ∀ p ∈ pending, .add p ∈ s.recordsForRecovery) :
    Safe A Keeps I (fun r s' => ∃ rows, r = .ok rows ∧ SegStep s s' ∧ Placed ext s' pending rows)
      (pending.foldlM (storePending ext) []) s := by
  let P : List ChunkMetadata → List MemoryChunk → Store → Prop := fun rows rest s' =>
    ∃ done, pending = done ++ rest ∧ SegStep s s' ∧ Placed ext s' done rows
  refine Safe.foldlM (P := P) ?_ ?_ pending [] ?_ ?_
  · rintro rows p rest s₁ _ ⟨done, hsplit, hs, hplaced⟩
    have hadd₁ : .add p ∈ s₁.recordsForRecovery := by
      rw [hs.recordsForRecovery]
      exact hadd p (by simp [hsplit])
    refine Safe.bind (safe_storePayload hs.layout (fun s' h => hI s' (hs.trans h)) hadd₁ _) ?_ ?_
    · rintro ⟨segmentId, ordinal⟩ s₂ _ ⟨i, o, hr, hs₂, hloc⟩
      obtain ⟨rfl, rfl⟩ : segmentId = i ∧ ordinal = o := by simpa using hr
      refine Safe.ret fun _ => ?_
      refine ⟨done ++ [p], by simp [hsplit], hs.trans hs₂, ?_⟩
      exact List.rel_append (hplaced.segStep hs₂) (.cons ⟨_, _, rfl, hloc⟩ .nil)
    · rintro e s₂ _ ⟨_, _, h, _⟩
      exact absurd h (by simp)
  · rintro rows s₁ _ ⟨done, hsplit, hs, hplaced⟩
    obtain rfl : pending = done := by simpa using hsplit
    exact ⟨rows, rfl, hs, hplaced⟩
  · exact hI s (.refl hl)
  · exact ⟨[], rfl, .refl hl, .nil⟩

/-- A stored payload that counts as stored: one that was not added as deleted. -/
def Counts (pending : List MemoryChunk) (q : MemoryChunk) : Prop :=
  q ∈ pending ∧ q.status ≠ .deleted

/-- An inserted row that is not deleted adds its payload to what is kept. -/
theorem Store.Inv.insertKeep {rest : List LogRecord} (h : Inv T K rest s)
    (hk : ∀ q, K.keep q → q.status ≠ .deleted) {m : ChunkMetadata} {p : MemoryChunk}
    (hloc : Located [] s p m.segmentId m.ordinal) (hlog : .add p ∈ s.recordsForRecovery)
    (hid : p.chunkId = m.chunkId) (htenant : m.tenantId = T) (hstatus : m.status = p.status)
    (hgone : ¬ K.gone m.chunkId) (hdel : .delete p.chunkId ∉ s.recordsForRecovery) :
    Inv T (K.keeping (Counts [p])) rest (withDb (·.insert m) s) := by
  have hins : Inv T K rest (withDb (·.insert m) s) := by
    apply h.insert hloc hlog hid htenant _ fun hg => absurd hg hgone
    intro q hq hqid
    -- a kept chunk of that id is the one inserted
    obtain rfl := (h.kept q hq).2.1 p hloc.copy (hid.trans hqid.symm)
    rw [hstatus]
    exact hk p hq
  refine { hins with kept := ?_ }
  rintro q (hq | ⟨hq, hlive⟩)
  · exact hins.kept q hq
  · obtain rfl := List.mem_singleton.mp hq
    refine ⟨⟨_, Db.mem_insert.mpr (.inr rfl), hid.symm, ?_⟩,
      fun q' hq' hid' => h.copyEq q' q hq' hloc.copy hid', hdel⟩
    show m.status ≠ .deleted
    rw [hstatus]
    exact hlive

/-- The metadata transaction of a batch. -/
theorem Store.Inv.insertMany {rest : List LogRecord} {ext : Externals}
    {pending : List MemoryChunk} {rows : List ChunkMetadata} (hplaced : Placed ext s pending rows)
    (h : Inv T K rest s) (hk : ∀ q, K.keep q → q.status ≠ .deleted)
    (hadd : ∀ p ∈ pending, .add p ∈ s.recordsForRecovery)
    (htenant : ∀ p ∈ pending, p.tenantId = T) (hgone : ∀ p ∈ pending, ¬ K.gone p.chunkId)
    (hdel : ∀ p ∈ pending, .delete p.chunkId ∉ s.recordsForRecovery) :
    Inv T (K.keeping (Counts pending)) rest (withDb (·.insertMany rows) s) := by
  induction pending generalizing rows s K with
  | nil =>
    cases hplaced
    refine h.weaken_keep ?_
    rintro q (hq | ⟨hq, _⟩)
    · exact hq
    · exact absurd hq (by simp)
  | cons p pending ih =>
    obtain _ | @⟨_, m, _, rows, ⟨i, o, rfl, hloc⟩, hplaced⟩ := hplaced
    have h₁ := h.insertKeep hk (m := metadataRow ext p i o) hloc (hadd p List.mem_cons_self) rfl
      (htenant p List.mem_cons_self) rfl (hgone p List.mem_cons_self) (hdel p List.mem_cons_self)
    have h₂ := ih (s := withDb (·.insert (metadataRow ext p i o)) s) hplaced h₁
      (by
        rintro q (hq | hq)
        · exact hk q hq
        · exact hq.2)
      (fun q hq => hadd q (List.mem_cons_of_mem _ hq))
      (fun q hq => htenant q (List.mem_cons_of_mem _ hq))
      (fun q hq => hgone q (List.mem_cons_of_mem _ hq))
      (fun q hq => hdel q (List.mem_cons_of_mem _ hq))
    refine Store.Inv.weaken_keep h₂ ?_
    rintro q (hq | ⟨hq, hlive⟩)
    · exact .inl (.inl hq)
    · rcases List.mem_cons.mp hq with rfl | hq
      · exact .inl (.inr ⟨List.mem_singleton_self _, hlive⟩)
      · exact .inr ⟨hq, hlive⟩

/-- The metadata transaction of a batch evicts no row that points at its own payload. -/
theorem Store.Layout.pointsHome_insertMany {rest : List LogRecord} {ext : Externals}
    {pending : List MemoryChunk} {rows : List ChunkMetadata} (hl : s.Layout)
    (hplaced : Placed ext s pending rows) {r : ChunkRow} (hr : r ∈ s.db.chunks)
    (hhome : PointsHome rest s r) :
    ∃ r' ∈ (withDb (·.insertMany rows) s).db.chunks, r'.chunkId = r.chunkId := by
  induction pending generalizing rows r s with
  | nil =>
    cases hplaced
    exact ⟨r, hr, rfl⟩
  | cons p pending ih =>
    obtain _ | @⟨_, m, _, rows, ⟨i, o, rfl, hloc⟩, hplaced⟩ := hplaced
    obtain ⟨r₁, hr₁, hid₁, hhome₁⟩ :=
      hl.pointsHome_insert (m := metadataRow ext p i o) hloc rfl hr hhome
    obtain ⟨r₂, hr₂, hid₂⟩ := ih (s := withDb (·.insert (metadataRow ext p i o)) s)
      (hl.congr rfl rfl) hplaced hr₁ hhome₁
    exact ⟨r₂, hr₂, hid₂.trans hid₁⟩

/-- Storing a prepared, logged batch keeps its chunks. -/
theorem safe_storeBatch (ext : Externals) (h : Inv T K [] s)
    (hk : ∀ q, K.keep q → q.status ≠ .deleted) {pending : List MemoryChunk}
    (hadd : ∀ p ∈ pending, .add p ∈ s.recordsForRecovery)
    (htenant : ∀ p ∈ pending, p.tenantId = T)
    (hgone : ∀ p ∈ pending, ¬ K.gone p.chunkId)
    (hdel : ∀ p ∈ pending, .delete p.chunkId ∉ s.recordsForRecovery) (now : ℤ) :
    Safe A Keeps (Inv T K [])
      (fun r s' => r = .ok () ∧ Inv T (K.keeping (Counts pending)) [] s')
      (storeBatch ext T pending now) s := by
  refine Safe.bind (safe_storePending ext h.layout (fun _ hs => h.segStep hs) hadd) ?_ ?_
  · rintro rows s₁ h₁ ⟨rows', hr, hs, hplaced⟩
    obtain rfl : rows = rows' := by simpa using hr
    have hflush := segStep_flushActive h₁.layout
    refine Safe.modify_bind fun _ _ => ⟨hflush.keeps, h₁.segStep hflush, ?_⟩
    have h₂ := Store.Inv.insertMany (hplaced.segStep hflush) (h₁.segStep hflush) hk
      (by rw [(hs.trans hflush).recordsForRecovery]; exact hadd) htenant hgone
      (by rw [(hs.trans hflush).recordsForRecovery]; exact hdel)
    have hkeeps : Keeps s₁.flushActive (withDb (·.insertMany rows) s₁.flushActive) := .of_rows rfl fun r hr hlive =>
      (h₁.segStep hflush).layout.pointsHome_insertMany (hplaced.segStep hflush) hr
        ((h₁.segStep hflush).located r hr hlive)
    have hweak : ∀ s', Inv T (K.keeping (Counts pending)) [] s' → Inv T K [] s' :=
      fun s' h' => h'.weaken_keep fun _ => .inl
    refine Safe.modify_bind fun _ _ => ⟨hkeeps, hweak _ h₂, ?_⟩
    have ho := Db.overlay_markIndexPending (s₁.flushActive.db.insertMany rows) T
      (rows.map (·.chunkId)) now
    have h₃ := h₂.overlay ho
    exact Safe.modify fun _ _ => ⟨.overlay ho, hweak _ h₃, fun _ => ⟨rfl, h₃⟩⟩
  · rintro e s₁ _ ⟨_, h, _⟩
    exact absurd h (by simp)

/-! ## After the batch -/

theorem safe_recordIndexOutcome (h : Inv T K [] s)
    (hI : ∀ s', Inv T K [] s' → I s') (ids : List ChunkId) (e : Option String) (now : ℤ) :
    Safe A Keeps I (fun r s' => r = .ok () ∧ Inv T K [] s') (recordIndexOutcome T ids e now) s := by
  cases e with
  | none =>
    have ho := Db.overlay_markIndexed s.db T ids now
    have h' := h.overlay ho
    exact Safe.modify fun _ _ => ⟨.overlay ho, hI _ h', fun _ => ⟨rfl, h'⟩⟩
  | some e =>
    refine Safe.forM (P := fun _ s' => Inv T K [] s') ?_ ?_ ids (hI s h) h
    · rintro c rest s₁ _ h₁
      have ho := Db.overlay_markIndexFailed s₁.db T c e now
      have h' := h₁.overlay ho
      exact Safe.modify fun _ _ => ⟨.overlay ho, hI _ h', fun _ => h'⟩
    · rintro s₁ _ h₁
      exact ⟨rfl, h₁⟩

theorem segStep_countWrites (hl : s.Layout) (writes interval : ℕ) :
    SegStep s (countWrites writes interval s).2 :=
  ⟨rfl, rfl, rfl, ⟨hl.dirIds, hl.active, hl.readers, hl.fresh, hl.noFault⟩, fun _ h => h,
    fun _ _ _ _ h => h, fun a ha _ hp => .inl ⟨a, ha, hp⟩, fun d hd _ hp => .inl ⟨d, hd, rfl, hp⟩⟩

/-- A checkpoint is written only when every row is sealed. -/
theorem safe_checkpointAfterBatch (h : Inv T K [] s)
    (hI : ∀ s', Inv T K [] s' → I s') (writes : ℕ) :
    Safe A Keeps I (fun r s' => r = .ok () ∧ Inv T K [] s') (checkpointAfterBatch writes) s := by
  refine Safe.read_bind Keeps.refl fun _ => ?_
  split
  · exact Safe.ret fun _ => ⟨rfl, h⟩
  have h₁ := h.segStep (segStep_countWrites h.layout writes s.handle.config.walCheckpointInterval)
  refine Safe.perform_bind rfl fun _ _ => ⟨.of_eq rfl rfl, hI _ h₁, ?_⟩
  split
  · exact Safe.ret fun _ => ⟨rfl, h₁⟩
  refine Safe.bind (safe_finalizeActiveSegment h₁.layout (fun _ hs => hI _ (h₁.segStep hs)) _) ?_ ?_
  · rintro _ s₂ _ ⟨_, hs, hactive⟩
    refine Safe.forM (P := fun _ s' => Inv T K [] s' ∧
      s'.handle.activeSegment = none) ?_ ?_ _ (hI _ (h₁.segStep hs)) ⟨h₁.segStep hs, hactive⟩
    · rintro _ l s₃ _ ⟨h₃, hactive₃⟩
      have h₄ : Inv T K [] (logAppend [.checkpoint] s₃) := by
        apply h₃.resetLog hactive₃
        · intro p hp
          rcases List.mem_append.mp hp with hp | hp
          · exact hp
          · exact absurd (List.mem_singleton.mp hp) (by simp)
        · intro c hc
          rcases List.mem_append.mp hc with hc | hc
          · exact hc
          · exact absurd (List.mem_singleton.mp hc) (by simp)
        · exact LogSuffix.afterLast_append_marker _ rfl
      exact Safe.modify fun _ _ => ⟨.of_eq rfl rfl, hI _ h₄, fun _ => ⟨h₄, hactive₃⟩⟩
    · rintro s₃ _ ⟨h₃, _⟩
      exact ⟨rfl, h₃⟩
  · rintro e s₂ _ ⟨h, _⟩
    exact absurd h (by simp)

/-! ## Whole calls -/

/-- A physical chunk of a batch carries the tenant it was given. -/
theorem mem_expandChunksForAdd {ext : Externals} {chunks : List MemoryChunk} {part : MemoryChunk}
    (h : part ∈ (expandChunksForAdd ext chunks).1) :
    ∃ chunk ∈ chunks, part.tenantId = chunk.tenantId := by
  have hgen : ∀ (chunks : List MemoryChunk) (acc : List MemoryChunk × List ℕ),
      part ∈ (chunks.foldl (fun acc chunk =>
        (acc.1 ++ splitForAdd ext chunk, acc.2 ++ [acc.1.length])) acc).1 →
      part ∈ acc.1 ∨ ∃ chunk ∈ chunks, part ∈ splitForAdd ext chunk := by
    intro chunks
    induction chunks with
    | nil => exact fun acc h => .inl h
    | cons chunk chunks ih =>
      intro acc h
      rcases ih _ h with h | ⟨c, hc, h⟩
      · rcases List.mem_append.mp h with h | h
        · exact .inl h
        · exact .inr ⟨chunk, List.mem_cons_self, h⟩
      · exact .inr ⟨c, List.mem_cons_of_mem _ hc, h⟩
  rcases hgen chunks ([], []) h with h | ⟨chunk, hc, h⟩
  · exact absurd h (by simp)
  · obtain ⟨text, tags, rfl⟩ := mem_splitForAdd h
    exact ⟨chunk, hc, rfl⟩

/-- The payload stored for the physical chunk at some position under the id at the
same position. -/
def StoredAs (ext : Externals) (expanded : List MemoryChunk) (ids : List ChunkId)
    (p : MemoryChunk) : Prop :=
  ∃ (i : ℕ) (chunk : MemoryChunk) (c : ChunkId), expanded[i]? = some chunk ∧ ids[i]? = some c ∧ p = stamp ext chunk c

theorem Stamped.mem_of_storedAs {ext : Externals} {expanded pending : List MemoryChunk}
    {p : MemoryChunk} (h : Stamped ext expanded pending)
    (hp : StoredAs ext expanded (pending.map (·.chunkId)) p) : p ∈ pending := by
  obtain ⟨i, chunk, c, hchunk, hc, rfl⟩ := hp
  induction h generalizing i with
  | nil => exact absurd hchunk (by simp)
  | @cons e q expanded pending heq _ ih =>
    cases i with
    | zero =>
      obtain rfl : e = chunk := by simpa using hchunk
      obtain rfl : q.chunkId = c := by simpa using hc
      rw [← heq]
      exact List.mem_cons_self
    | succ i =>
      exact List.mem_cons_of_mem _ (ih i (by simpa using hchunk) (by simpa using hc))

theorem Stamped.mem {ext : Externals} {expanded pending : List MemoryChunk} {p : MemoryChunk}
    (h : Stamped ext expanded pending) (hp : p ∈ pending) :
    ∃ chunk ∈ expanded, p.tenantId = chunk.tenantId := by
  induction h with
  | nil => exact absurd hp (by simp)
  | @cons e q expanded pending heq _ ih =>
    rcases List.mem_cons.mp hp with rfl | hp
    · exact ⟨e, List.mem_cons_self, by rw [heq]; rfl⟩
    · obtain ⟨chunk, hc, h⟩ := ih hp
      exact ⟨chunk, List.mem_cons_of_mem _ hc, h⟩

/-- Logging a prepared batch, with records that add nothing behind it. -/
theorem Store.Inv.logPending {rest : List LogRecord} (h : Inv T K rest s) {n : ℕ}
    (hn : s.nextId ≤ n) {pending : List MemoryChunk}
    (hids : NewIds s.nextId pending { s with nextId := n })
    (htenant : ∀ p ∈ pending, p.tenantId = T) {e : List LogRecord}
    (he : ∀ r ∈ e, r.isCheckpoint = false ∧ (∀ p, r ≠ .add p) ∧ ∀ c, r ≠ .delete c) :
    Inv T K rest
        (Store.logAppend (pending.map .add ++ e) { s with nextId := n }) ∧
      ∀ p ∈ pending,
        LogRecord.add p ∈ (Store.logAppend (pending.map .add ++ e)
          { s with nextId := n }).recordsForRecovery ∧
        LogRecord.delete p.chunkId ∉ (Store.logAppend (pending.map .add ++ e)
          { s with nextId := n }).recordsForRecovery := by
  have hmem : ∀ p, .add p ∈ pending.map LogRecord.add ++ e → p ∈ pending := by
    intro p hp
    rcases List.mem_append.mp hp with hp | hp
    · simpa using hp
    · exact absurd rfl ((he _ hp).2.1 p)
  have hdel : ∀ c, .delete c ∉ pending.map LogRecord.add ++ e := by
    intro c hc
    rcases List.mem_append.mp hc with hc | hc
    · simp at hc
    · exact absurd rfl ((he _ hc).2.2 c)
  have hrec : ∀ r ∈ pending.map LogRecord.add ++ e, r.isCheckpoint = false := by
    intro r hr
    rcases List.mem_append.mp hr with hr | hr
    · obtain ⟨p, _, rfl⟩ := List.mem_map.mp hr
      rfl
    · exact (he r hr).1
  constructor
  · apply (h.newId n hn).logAppend hrec
    · intro p hp
      have hp := hmem p hp
      refine ⟨htenant p hp, (hids.bounds p hp).2, ?_, ?_, ?_⟩
      · intro q hq
        exact Nat.ne_of_lt (Nat.lt_of_lt_of_le (h.copyIds q hq) (hids.bounds p hp).1)
      · exact fun hg => absurd (h.buried _ hg).1 (Nat.not_lt.mpr (hids.bounds p hp).1)
      · exact fun he => absurd (h.erased _ he).old (Nat.not_lt.mpr (hids.bounds p hp).1)
    · intro p q hp hq hid
      exact List.inj_on_of_nodup_map hids.nodup (hmem p hp) (hmem q hq) hid
    · intro c hc
      exact absurd hc (hdel c)
  · intro p hp
    rw [recordsForRecovery_logAppend hrec]
    refine ⟨List.mem_append_right _ (List.mem_append_left _ (List.mem_map_of_mem hp)), ?_⟩
    rw [List.mem_append]
    rintro (hmem' | hmem')
    · -- the ids in older Delete records are below the new ones
      have hlt := h.deleteIds _ (LogSuffix.mem_of_mem_afterLast _ hmem')
      exact absurd hlt (Nat.not_lt.mpr (hids.bounds p hp).1)
    · exact hdel _ hmem'

/-- An `add` call: interrupted anywhere it leaves the invariant, and when it returns its
chunks are kept. -/
theorem safe_addChunks (ext : Externals) (h : Inv T K [] s)
    (hk : ∀ q, K.keep q → q.status ≠ .deleted) {chunks : List MemoryChunk}
    (hchunks : ∀ c ∈ chunks, c.tenantId = T)
    (indexError : Option String) (now : ℤ) :
    Safe A Keeps (Inv T K [])
      (fun r s' => match r with
        | .ok out => Inv T (K.keeping fun p =>
            StoredAs ext (expandChunksForAdd ext chunks).1 out.storedIds p ∧
              p.status ≠ .deleted) [] s'
        | .error _ => Inv T K [] s')
      (addChunks ext T chunks false indexError now) s := by
  unfold addChunks
  -- nothing is added
  split
  · refine Safe.ret fun h => h.weaken_keep ?_
    rintro p (hp | ⟨⟨i, _, _, _, hid, _⟩, _⟩)
    · exact hp
    · exact absurd hid (by simp)
  simp only [Bool.false_eq_true, if_false]
  generalize hexp : expandChunksForAdd ext chunks = expansion
  obtain ⟨expanded, positions⟩ := expansion
  refine Safe.bind (safe_preparePendingChunks ext expanded fun n hn => h.newId n hn) ?_ ?_
  swap
  · rintro e s₁ _ ⟨_, _, h, _⟩
    exact absurd h (by simp)
  rintro pending s₁ _ ⟨pending', n, hr, hn, rfl, hst, hids⟩
  obtain rfl : pending = pending' := by simpa using hr
  -- the pieces are of the tenant, as their chunks are
  have htenant : ∀ p ∈ pending, p.tenantId = T := by
    intro p hp
    obtain ⟨part, hpart, ht⟩ := hst.mem hp
    obtain ⟨chunk, hc, ht'⟩ := mem_expandChunksForAdd
      (show part ∈ (expandChunksForAdd ext chunks).1 by rw [hexp]; exact hpart)
    rw [ht, ht']
    exact hchunks chunk hc
  -- from the log on they are pending
  obtain ⟨h₂, hadd⟩ := h.logPending hn hids htenant
    (e := []) (by simp)
  rw [List.append_nil] at h₂ hadd
  refine Safe.modify_bind fun _ _ => ⟨.of_eq rfl rfl, h₂, ?_⟩
  -- no piece is a purged chunk: their ids are new
  have hgone : ∀ p ∈ pending, ¬ K.gone p.chunkId := fun p hp hg =>
    absurd (h.buried _ hg).1 (Nat.not_lt.mpr (hids.bounds p hp).1)
  refine Safe.bind (safe_storeBatch ext h₂ hk (fun p hp => (hadd p hp).1) htenant hgone
    (fun p hp => (hadd p hp).2) now) ?_ ?_
  swap
  · rintro e s₃ _ ⟨h, _⟩
    exact absurd h (by simp)
  rintro _ s₃ _ ⟨_, h₃⟩
  have hweak : ∀ s', Inv T (K.keeping (Counts pending)) [] s' → Inv T K [] s' :=
    fun s' h' => h'.weaken_keep fun _ => .inl
  refine Safe.bind (safe_recordIndexOutcome h₃ hweak _ indexError now) ?_ ?_
  swap
  · rintro e s₄ _ ⟨h, _⟩
    exact absurd h (by simp)
  rintro _ s₄ _ ⟨_, h₄⟩
  refine Safe.bind (safe_checkpointAfterBatch h₄ hweak _) ?_ ?_
  swap
  · rintro e s₅ _ ⟨h, _⟩
    exact absurd h (by simp)
  rintro _ s₅ _ ⟨_, h₅⟩
  -- what was answered for the chunks are the ids of their first pieces
  cases hids' : idsAt (pending.map (·.chunkId)) "missing primary chunk id" positions with
  | error e => exact Safe.fail fun h => h
  | ok primaryIds =>
    refine Safe.ret fun _ => h₅.weaken_keep ?_
    rintro p (hp | ⟨hp, hlive⟩)
    · exact .inl hp
    · exact .inr ⟨hst.mem_of_storedAs hp, hlive⟩

/-- A database transaction commits or leaves everything as it was. -/
theorem safe_transactDb {f : Db → Except MemdError (Unit × Db)}
    (hI : ∀ db', f s.db = .ok ((), db') → Keeps s { s with db := db' } ∧ I { s with db := db' })
    (l : StoreStep) :
    Safe A Keeps I (fun r s' => (∃ e, r = .error e ∧ s' = s) ∨
      ∃ db', r = .ok () ∧ f s.db = .ok ((), db') ∧ s' = { s with db := db' }) (transactDb l f) s := by
  refine Safe.perform fun hI' _ => ?_
  cases hr : f s.db with
  | error e =>
    simp only [hr, Except.map, commit]
    exact ⟨.refl s, hI', fun _ => .inl ⟨e, by simp⟩⟩
  | ok r =>
    simp only [hr, Except.map, commit]
    exact ⟨(hI _ hr).1, (hI _ hr).2, fun _ => .inr ⟨r.2, by simp⟩⟩

theorem safe_insertTaskArtifactBundle (hI : ∀ db', s.db.Overlay db' → I { s with db := db' })
    (p : TaskArtifactWalPayload) :
    Safe A Keeps I (fun _ s' => ∃ db', s.db.Overlay db' ∧ s' = { s with db := db' })
      (insertTaskArtifactBundle p) s := by
  have hover : ∀ db', s.db.insertTaskArtifactBundle p.artifact p.projectionChunkIds
      p.projectionKinds = .ok ((), db') → s.db.Overlay db' := by
    intro db' hr
    unfold Db.insertTaskArtifactBundle at hr
    split at hr
    · exact absurd hr (by simp)
    · obtain rfl : _ = db' := by simpa using hr
      exact Db.overlay_applyBundle _ _ _ _
  refine (safe_transactDb (fun db' hr => ⟨.overlay (hover db' hr), hI db' (hover db' hr)⟩) _).post ?_
  rintro r s' _ (⟨e, _, rfl⟩ | ⟨db', _, hr, rfl⟩)
  · exact ⟨s'.db, .refl s'.db, rfl⟩
  · exact ⟨db', hover db' hr, rfl⟩

theorem idsAt_getElem? {ids out : List ChunkId} {msg : String} {positions : List ℕ} {k j : ℕ}
    {c : ChunkId} (h : idsAt ids msg positions = .ok out) (hj : positions[k]? = some j)
    (hc : out[k]? = some c) : ids[j]? = some c := by
  induction positions generalizing out k with
  | nil => exact absurd hj (by simp)
  | cons pos positions ih =>
    rw [idsAt] at h
    cases hpos : ids[pos]? with
    | none => simp [hpos] at h
    | some d =>
      simp only [hpos] at h
      cases hrest : idsAt ids msg positions with
      | error e => simp [hrest, Except.map] at h
      | ok out' =>
        obtain rfl : d :: out' = out := by simpa [hrest, Except.map] using h
        cases k with
        | zero =>
          obtain rfl : pos = j := by simpa using hj
          obtain rfl : d = c := by simpa using hc
          exact hpos
        | succ k => exact ih hrest (by simpa using hj) (by simpa using hc)

/-- The payload of a projection stored under a returned projection id. -/
def ProjectedAs (ext : Externals) (projections : List TaskProjection) (ids : List ChunkId)
    (p : MemoryChunk) : Prop :=
  ∃ (k j : ℕ) (chunk : MemoryChunk) (c : ChunkId),
    (expandChunksForAdd ext (projections.map (·.chunk))).2[k]? = some j ∧
    (expandChunksForAdd ext (projections.map (·.chunk))).1[j]? = some chunk ∧
    ids[k]? = some c ∧ p = stamp ext chunk c

/-- An `add_task_artifact` call: the same for its projections. -/
theorem safe_addTaskArtifact (ext : Externals) (h : Inv T K [] s)
    (hk : ∀ q, K.keep q → q.status ≠ .deleted) {artifact : TaskArtifact}
    (hartifact : artifact.tenantId = T) (projections : List TaskProjection)
    (indexError : Option String) (now : ℤ) :
    Safe A Keeps (Inv T K [])
      (fun r s' => match r with
        | .ok ids => Inv T (K.keeping fun p =>
            ProjectedAs ext projections ids p ∧ p.status ≠ .deleted) [] s'
        | .error _ => Inv T K [] s')
      (addTaskArtifact ext artifact projections indexError now) s := by
  -- the checks change nothing
  refine Safe.read_bind Keeps.refl fun _ => ?_
  cases s.db.ensureTaskArtifactWriteSafe artifact with
  | error e => exact Safe.fail fun h => h
  | ok _ =>
  show Safe A _ _ _ (ite _ _ _) s
  split
  · exact Safe.fail fun h => h
  split
  · exact Safe.fail fun h => h
  rename_i hsame
  have hsameTenant : ∀ c ∈ projections, c.chunk.tenantId = T := by
    intro c hc
    by_contra hne
    exact hsame (List.any_eq_true.mpr ⟨c, hc, by simpa [hartifact] using hne⟩)
  generalize hexp : expandChunksForAdd ext (projections.map (·.chunk)) = expansion
  obtain ⟨expanded, positions⟩ := expansion
  refine Safe.bind (safe_preparePendingChunks ext expanded fun n hn => h.newId n hn) ?_ ?_
  swap
  · rintro e s₁ _ ⟨_, _, h, _⟩
    exact absurd h (by simp)
  rintro pending s₁ h₁ ⟨pending', n, hr, hn, rfl, hst, hids⟩
  obtain rfl : pending = pending' := by simpa using hr
  -- the pieces are of the artifact's tenant, as the chunks of its projections are
  have htenant : ∀ p ∈ pending, p.tenantId = T := by
    intro p hp
    obtain ⟨part, hpart, ht⟩ := hst.mem hp
    obtain ⟨chunk, hc, ht'⟩ := mem_expandChunksForAdd
      (show part ∈ (expandChunksForAdd ext (projections.map (·.chunk))).1 by rw [hexp]; exact hpart)
    obtain ⟨proj, hproj, rfl⟩ := List.mem_map.mp hc
    rw [ht, ht']
    exact hsameTenant proj hproj
  dsimp only
  cases hids' : idsAt (pending.map (·.chunkId)) "missing primary projection chunk id" positions with
  | error e => exact Safe.fail fun h => h
  | ok projectionIds =>
  -- from the log on, the pieces and the artifact are pending
  obtain ⟨h₂, hadd⟩ := h.logPending hn hids htenant
    (e := [.taskArtifact ⟨artifact, projectionIds, projections.map (·.kind)⟩])
    (by simp [LogRecord.isCheckpoint])
  refine Safe.modify_bind fun _ _ => ⟨.of_eq rfl rfl, h₂, ?_⟩
  have hgone : ∀ p ∈ pending, ¬ K.gone p.chunkId := fun p hp hg =>
    absurd (h.buried _ hg).1 (Nat.not_lt.mpr (hids.bounds p hp).1)
  have hweak : ∀ s', Inv T (K.keeping (Counts pending)) [] s' → Inv T K [] s' :=
    fun s' h' => h'.weaken_keep fun _ => .inl
  rw [hartifact]
  refine Safe.bind (safe_storeBatch ext h₂ hk (fun p hp => (hadd p hp).1) htenant hgone
    (fun p hp => (hadd p hp).2) now) ?_ ?_
  swap
  · rintro e s₃ _ ⟨h, _⟩
    exact absurd h (by simp)
  rintro _ s₃ _ ⟨_, h₃⟩
  -- the rows are there; the bundle changes other tables only
  refine Safe.bind (safe_insertTaskArtifactBundle (fun _ ho => hweak _ (h₃.overlay ho)) _) ?_ ?_
  swap
  · exact fun e s₄ h₄ _ => h₄
  rintro _ s₄ _ ⟨db', ho, rfl⟩
  have h₄ := h₃.overlay ho
  refine Safe.bind (safe_recordIndexOutcome h₄ hweak _ indexError now) ?_ ?_
  swap
  · rintro e s₅ _ ⟨h, _⟩
    exact absurd h (by simp)
  rintro _ s₅ _ ⟨_, h₅⟩
  refine Safe.bind (safe_checkpointAfterBatch h₅ hweak _) ?_ ?_
  swap
  · rintro e s₆ _ ⟨h, _⟩
    exact absurd h (by simp)
  rintro _ s₆ _ ⟨_, h₆⟩
  -- the ids answered for the projections are those of the first pieces
  refine Safe.ret fun _ => h₆.weaken_keep ?_
  rintro p (hp | ⟨⟨k, j, chunk, c, hj, hchunk, hc, rfl⟩, hlive⟩)
  · exact .inl hp
  · rw [hexp] at hj hchunk
    exact .inr ⟨hst.mem_of_storedAs ⟨j, chunk, c, hchunk, idsAt_getElem? hids' hj hc, rfl⟩, hlive⟩

/-! ## Deleting -/

theorem tombstone_frame (segmentId ordinal : ℕ) (s : Store) :
    (tombstone segmentId ordinal s).db = s.db ∧
      (tombstone segmentId ordinal s).nextId = s.nextId ∧
      (tombstone segmentId ordinal s).wal = s.wal := by
  unfold tombstone
  split <;> exact ⟨rfl, rfl, rfl⟩

/-- Marking the row of a chunk deleted and tombstoning the location it has, as live
delete and replay do. -/
theorem Store.Inv.deleteRow {rest : List LogRecord} (h : Inv T K rest s) {c : ChunkId}
    {m : ChunkMetadata} (hget : s.db.get T c = some m) (hkeep : ∀ p, K.keep p → p.chunkId ≠ c) :
    Inv T K rest (withDb (·.markDeleted T c) s) ∧
      Inv T K rest
        (Store.tombstone m.segmentId m.ordinal (withDb (·.markDeleted T c) s)) := by
  have h₁ := h.markDeleted hkeep
  refine ⟨h₁, h₁.tombstone ?_⟩
  intro x hx hlive
  obtain ⟨r, hr, _, _, _, _, hlive'⟩ := mem_markDeleted hx
  obtain ⟨rfl, hne⟩ := hlive' hlive
  obtain ⟨r₀, hr₀, ht₀, hc₀, _, rfl⟩ := Db.exists_row_of_get hget
  rintro ⟨hseg, hord⟩
  have hloc : (x.tenantId, x.segmentId, x.ordinal) = (r₀.tenantId, r₀.segmentId, r₀.ordinal) := by
    rw [h.rowTenant x hr, ht₀, hseg, hord]
  obtain rfl := h.keys.locations.eq hr hr₀ hloc
  exact hne ⟨ht₀, hc₀⟩

/-- A `delete` call: when it returns `true` the chunk is buried. -/
theorem safe_deleteChunk (h : Inv T K [] s) {c : ChunkId}
    (hkeep : ∀ p, K.keep p → p.chunkId ≠ c) :
    Safe A Keeps (Inv T K [])
      (fun r s' => Inv T (K.burying fun d => r = .ok true ∧ d = c) [] s')
      (deleteChunk T c) s := by
  refine Safe.read_bind Keeps.refl fun _ => ?_
  cases hget : s.db.get T c with
  | none =>
    refine Safe.ret fun _ => h.weaken_gone ?_
    rintro d (hd | ⟨hfalse, _⟩)
    · exact hd
    · exact absurd hfalse (by simp)
  | some m =>
    obtain ⟨r₀, hr₀, _, hc₀, _⟩ := Db.exists_row_of_get hget
    have hlt : c < s.nextId := by
      rw [← hc₀]
      exact h.rowIds r₀ hr₀
    have h₁ : Inv T K [] (logAppend [.delete c] s) := by
      apply h.logAppend (by simp [LogRecord.isCheckpoint]) (by simp) (by simp)
      intro d hd
      obtain rfl : d = c := by simpa using hd
      exact ⟨hlt, hkeep⟩
    obtain ⟨h₂, h₃⟩ := h₁.deleteRow hget hkeep
    refine Safe.modify_bind fun _ _ => ⟨.of_eq rfl rfl, h₁, ?_⟩
    refine Safe.modify_bind fun _ _ => ⟨.markDeleted _ T c, h₂, ?_⟩
    refine Safe.modify_bind fun _ _ => ⟨.tombstone _ _ _, h₃, ?_⟩
    refine Safe.ret fun _ => { h₃ with buried := ?_ }
    rintro d (hd | ⟨_, rfl⟩)
    · exact h₃.buried d hd
    · obtain ⟨hdb, hid, hwal⟩ := tombstone_frame m.segmentId m.ordinal
        (withDb (·.markDeleted T d) (logAppend [.delete d] s))
      refine ⟨?_, ?_, ?_⟩
      · rw [hid]
        exact hlt
      · intro pre p post hsplit _
        rw [recordsForRecovery, hwal] at hsplit
        have : (logAppend [.delete d] s).recordsForRecovery = s.recordsForRecovery ++ [.delete d] :=
          recordsForRecovery_logAppend (by simp [LogRecord.isCheckpoint]) s
        exact delete_mem_of_append_delete (this.symm.trans hsplit)
      · rw [hdb]
        intro x hx hxid hlive
        exact absurd (h₁.deleted_of_markDeleted hx hxid) hlive
