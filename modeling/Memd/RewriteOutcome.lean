/-
# The outcome of a segment rewrite

`rewrite_finalized_segments` runs over the segments that have a reader.  A segment without a dead
payload stays, one without a row that is not deleted is dropped, and any other is moved to a new
segment, whose id is one past all segments that are loaded or on disk.  A deleted row may still
point behind that id, into a segment that an earlier rewrite has dropped; then its place may be
taken when the rows are moved.

* `needsMove`, `RewriteClear` — the segments that move, and that the places they move to are free;
* `RewriteLoop.run_foldlM` — the loop returns exactly then, and what it leaves behind.
-/
import Mathlib.Data.List.Perm.Subperm
import Memd.LoggedDeletes
import Memd.Relocation

open Store TenantStore PersistentStore Proc

/-! ## Plans -/

/-- The rows of a segment that are not deleted. -/
def liveRows (t : TenantId) (s : Store) (segmentId : ℕ) : List ChunkMetadata :=
  (s.db.getBySegment t segmentId).filter (·.status ≠ .deleted)

/-- A rewrite moves a segment that has a live row and a payload without one. -/
def needsMove (t : TenantId) (s : Store) (segmentId : ℕ) : Bool :=
  match s.reader segmentId with
  | none => false
  | some d =>
    !(decide ((liveRows t s segmentId).length = d.payload.length ∧
      d.payload.length - d.tombstones.dedup.length = d.payload.length)) &&
    !(liveRows t s segmentId).isEmpty

/-- Every payload of the segment belongs to a row that is not deleted. -/
def AllLive (db : Db) (d : SegmentDir) : Prop :=
  ∀ p ∈ d.payload, ∃ r ∈ db.chunks, r.status ≠ .deleted ∧ r.chunkId = p.chunkId

variable {T : TenantId} {K : Ledger} {s s' : Store} {next segmentId : ℕ}

theorem exists_mapM_eq_ok {α β ε : Type} {f : α → Except ε β} {l : List α}
    (h : ∀ a ∈ l, ∃ b, f a = .ok b) : ∃ out, l.mapM f = .ok out := by
  induction l with
  | nil => exact ⟨[], rfl⟩
  | cons a l ih =>
    obtain ⟨b, hb⟩ := h a List.mem_cons_self
    obtain ⟨out, hout⟩ := ih fun x hx => h x (List.mem_cons_of_mem a hx)
    refine ⟨b :: out, ?_⟩
    rw [List.mapM_cons, hb, hout]
    rfl

/-- A row that is not deleted is readable at its place. -/
theorem Rewriting.readChunk_of_liveRow (h : Rewriting T K next s) {d : SegmentDir}
    (hd : s.reader segmentId = some d) {m : ChunkMetadata} (hm : m ∈ liveRows T s segmentId) :
    ∃ p, d.readChunk m.ordinal = some p ∧ p.chunkId = m.chunkId := by
  obtain ⟨r, hr, _, hseg, hlive, rfl⟩ := mem_liveRows.mp hm
  obtain ⟨p, hp, e, he, heid, _, hread⟩ := h.inv.sealed h.active hr hlive
  obtain ⟨hmem, hid, _⟩ := h.inv.layout.reader_eq_some hd
  obtain rfl := h.inv.layout.dirIds.eq he hmem (heid.trans (hseg.trans hid.symm))
  exact ⟨p, hread, hp⟩

/-- A plan never fails, and it moves the segment exactly when that is needed. -/
theorem Rewriting.planRewrite_cases (h : Rewriting T K next s) (segmentId : ℕ) :
    (needsMove T s segmentId = true ∧ ∃ payloads, planRewrite T segmentId s = .ok (.move payloads)) ∨
      needsMove T s segmentId = false ∧
        (planRewrite T segmentId s = .ok .keep ∨ planRewrite T segmentId s = .ok .drop) := by
  unfold needsMove planRewrite
  cases hd : s.reader segmentId with
  | none => exact Or.inr ⟨rfl, Or.inl rfl⟩
  | some d =>
    dsimp only
    have hrows : (s.db.getBySegment T segmentId).filter (·.status ≠ .deleted) =
        liveRows T s segmentId := rfl
    rw [hrows]
    by_cases hkeep : (liveRows T s segmentId).length = d.payload.length ∧
        d.payload.length - d.tombstones.dedup.length = d.payload.length
    · rw [if_pos hkeep]
      exact Or.inr ⟨by simp [hkeep], Or.inl rfl⟩
    rw [if_neg hkeep]
    by_cases hnil : liveRows T s segmentId = []
    · rw [if_pos hnil]
      exact Or.inr ⟨by simp [hnil], Or.inr rfl⟩
    · rw [if_neg hnil]
      have hmove : ∀ x : Except MemdError (List (ChunkId × MemoryChunk)), (∃ out, x = .ok out) →
          ∃ out, (x >>= fun p => pure (.move p)) = (.ok (.move out) : Except MemdError RewritePlan) := by
        rintro _ ⟨out, rfl⟩
        exact ⟨out, rfl⟩
      refine Or.inl ⟨by simp [hkeep, hnil], hmove _ (exists_mapM_eq_ok fun m hm => ?_)⟩
      obtain ⟨p, hread, _⟩ := h.readChunk_of_liveRow hd hm
      exact ⟨(m.chunkId, p), by rw [hread]⟩

/-- A segment that is kept though it has a reader has a live row for each of its payloads. -/
theorem Rewriting.allLive_of_keep (h : Rewriting T K next s) {d : SegmentDir}
    (hd : s.reader segmentId = some d) (hplan : planRewrite T segmentId s = .ok .keep) :
    AllLive s.db d := by
  have hlen : (liveRows T s segmentId).length = d.payload.length := by
    have hno : needsMove T s segmentId = false := by
      rcases h.planRewrite_cases segmentId with ⟨_, out, hout⟩ | ⟨hno, _⟩
      · rw [hplan] at hout
        cases hout
      · exact hno
    unfold planRewrite at hplan
    rw [hd] at hplan
    dsimp only at hplan
    split at hplan
    · rename_i hkeep
      exact hkeep.1
    · rename_i hkeep
      split at hplan
      · cases hplan
      · rename_i hnil
        simp only [needsMove, hd, Bool.and_eq_false_iff, Bool.not_eq_false', decide_eq_true_iff,
          List.isEmpty_iff] at hno
        rcases hno with hno | hno
        · exact hno.1
        · exact absurd hno hnil
  -- the ordinals of the live rows are as many as there are places, so each place has one
  have hnodup : ((liveRows T s segmentId).map (·.ordinal)).Nodup := by
    refine List.Nodup.map_on ?_ (List.Nodup.of_map _ (nodup_liveRows h.inv.keys T segmentId))
    intro m hm m' hm' heq
    obtain ⟨r, hr, ht, hs, _, rfl⟩ := mem_liveRows.mp hm
    obtain ⟨r', hr', ht', hs', _, rfl⟩ := mem_liveRows.mp hm'
    rw [h.inv.keys.locations.eq hr hr' (by rw [ht, ht', hs, hs', heq])]
  have hread : ∀ m ∈ liveRows T s segmentId,
      ∃ p, d.payload[m.ordinal]? = some p ∧ p.chunkId = m.chunkId := by
    intro m hm
    obtain ⟨p, hp, hid⟩ := h.readChunk_of_liveRow hd hm
    exact ⟨p, (SegmentDir.readChunk_eq_some.mp hp).2, hid⟩
  have hsub : (liveRows T s segmentId).map (·.ordinal) ⊆ List.range d.payload.length := by
    intro o ho
    obtain ⟨m, hm, rfl⟩ := List.mem_map.mp ho
    obtain ⟨p, hp, _⟩ := hread m hm
    exact List.mem_range.mpr (List.getElem?_eq_some_iff.mp hp).1
  have hperm := (hnodup.subperm hsub).perm_of_length_le (by simp [hlen])
  intro p hp
  obtain ⟨o, ho⟩ := List.getElem?_of_mem hp
  have hmem : o ∈ (liveRows T s segmentId).map (·.ordinal) :=
    hperm.mem_iff.mpr (List.mem_range.mpr (List.getElem?_eq_some_iff.mp ho).1)
  obtain ⟨m, hm, rfl⟩ := List.mem_map.mp hmem
  obtain ⟨q, hq, hid⟩ := hread m hm
  obtain rfl : p = q := Option.some.inj (ho.symm.trans hq)
  obtain ⟨r, hr, _, _, hlive, rfl⟩ := mem_liveRows.mp hm
  exact ⟨r, hr, hlive, hid.symm⟩

/-! ## One segment -/

/-- The store with a finalized replacement segment. -/
def withReplacement (next : ℕ) (payload : List MemoryChunk) (s : Store) : Store :=
  (createDir next s).updateDir next fun d => { d with payload := payload, finalized := true }

/-- The store after the rows of a segment have moved to a replacement. -/
def afterMove (next segmentId : ℕ) (payload : List MemoryChunk) (db' : Db) (s : Store) : Store :=
  removeDir segmentId ((unload segmentId { withReplacement next payload s with db := db' }).load next)

theorem run_rewriteSegment_keep (h : planRewrite T segmentId s = .ok .keep) :
    (rewriteSegment T next segmentId).run s = (.ok next, s) := by
  unfold rewriteSegment
  simp only [bind_eq, run_read_bind, h]
  rfl

theorem run_rewriteSegment_drop (h : planRewrite T segmentId s = .ok .drop) :
    (rewriteSegment T next segmentId).run s =
      (.ok next, removeDir segmentId (unload segmentId s)) := by
  unfold rewriteSegment
  simp only [bind_eq, run_read_bind, h]
  rfl

/-- The rows move when the transaction commits, else the replacement goes again. -/
theorem run_rewriteSegment_move {payloads : List (ChunkId × MemoryChunk)}
    (h : planRewrite T segmentId s = .ok (.move payloads))
    (hfault : s.handle.config.finalizeFails = []) :
    (∀ db', s.db.updateChunkLocations T (payloads.mapIdx fun i p => (p.1, next, i)) = .ok ((), db') →
      (rewriteSegment T next segmentId).run s =
        (.ok (next + 1), afterMove next segmentId (payloads.map (·.2)) db' s)) ∧
    ∀ e, s.db.updateChunkLocations T (payloads.mapIdx fun i p => (p.1, next, i)) = .error e →
      ∃ s', (rewriteSegment T next segmentId).run s = (.error e, s') := by
  have hfinalize : finalizeDir next (payloads.map (·.2)) (createDir next s) =
      (.ok (), withReplacement next (payloads.map (·.2)) s) := by
    unfold finalizeDir
    rw [if_neg]
    · rfl
    · show ¬ s.handle.config.finalizeFails.contains next = true
      simp [hfault]
  have hrun : ∀ r : Except MemdError (Unit × Db),
      s.db.updateChunkLocations T (payloads.mapIdx fun i p => (p.1, next, i)) = r →
      (transactDb .metadataWrite (·.updateChunkLocations T
        (payloads.mapIdx fun i p => (p.1, next, i)))).run (withReplacement next (payloads.map (·.2)) s) =
        commit (withReplacement next (payloads.map (·.2)) s)
          (r.map fun x => (x.1, { withReplacement next (payloads.map (·.2)) s with db := x.2 })) := by
    intro r hr
    rw [transactDb, transact, run_perform]
    show commit _ ((s.db.updateChunkLocations T _).map _) = _
    rw [hr]
  constructor
  · intro db' hdb'
    unfold rewriteSegment
    simp only [bind_eq, run_read_bind, h]
    show ((Proc.perform .finalizeSegment _).bind _).run _ = _
    rw [run_bind, run_perform, hfinalize]
    show ((Proc.attempt _).bind _).run _ = _
    rw [run_bind, run_attempt, hrun _ hdb']
    rfl
  · intro e he
    unfold rewriteSegment
    simp only [bind_eq, run_read_bind, h]
    refine ⟨removeDir next (withReplacement next (payloads.map (·.2)) s), ?_⟩
    show ((Proc.perform .finalizeSegment _).bind _).run _ = _
    rw [run_bind, run_perform, hfinalize]
    show ((Proc.attempt _).bind _).run _ = _
    rw [run_bind, run_attempt, hrun _ he]
    rfl

/-! ## The loop -/

/-- What the loop has left when the segments `done` are behind it and `rest` are to come. -/
structure RewriteLoop (T : TenantId) (s₁ : Store) (done rest : List ℕ) (s : Store) : Prop where
  config : s.handle.config = s₁.handle.config
  moved : Db.MovedRows s₁.db s.db
  loaded : ∀ id ∈ rest, id ∉ done → id ∈ s.handle.segments
  same : ∀ id ∈ rest, id ∉ done → liveRows T s id = liveRows T s₁ id ∧ s.reader id = s₁.reader id
  finished : ∀ id ∈ rest, id ∈ done → needsMove T s id = false
  clean : s₁.handle.config.removeFails = [] → ∀ d ∈ s.segmentDirs,
    (d.id ∈ s.handle.segments ∨ d.id ∈ s₁.handle.segments) →
      (d.id ∈ rest ∧ d.id ∉ done) ∨ AllLive s₁.db d

variable {s₁ : Store} {done rest : List ℕ}

theorem needsMove_congr (hrows : liveRows T s' segmentId = liveRows T s segmentId)
    (hreader : s'.reader segmentId = s.reader segmentId) :
    needsMove T s' segmentId = needsMove T s segmentId := by
  unfold needsMove
  rw [hrows, hreader]

theorem needsMove_of_reader_none (h : s.reader segmentId = none) :
    needsMove T s segmentId = false := by
  unfold needsMove
  rw [h]

/-- The rows of a table that a change neither takes away from a kind nor adds to it. -/
theorem filter_map_eq_filter {α : Type} {g : α → α} {p : α → Bool} {l : List α}
    (h : ∀ r ∈ l, g r = r ∨ (p r = false ∧ p (g r) = false)) : (l.map g).filter p = l.filter p := by
  induction l with
  | nil => rfl
  | cons r l ih =>
    have ih := ih fun x hx => h x (List.mem_cons_of_mem r hx)
    rw [List.map_cons, List.filter_cons, List.filter_cons, ih]
    rcases h r List.mem_cons_self with heq | ⟨hno, hno'⟩
    · rw [heq]
    · simp only [hno, hno', Bool.false_eq_true, if_false]

/-- Live rows belong to live rows of the start. -/
theorem RewriteLoop.allLive (h : RewriteLoop T s₁ done rest s) {d : SegmentDir}
    (hd : AllLive s.db d) : AllLive s₁.db d := by
  intro p hp
  obtain ⟨x, hx, hlive, hid⟩ := hd p hp
  obtain ⟨_, g, hg, hrow⟩ := h.moved
  rw [hg] at hx
  obtain ⟨r, hr, rfl⟩ := List.mem_map.mp hx
  exact ⟨r, hr, (hrow r).status ▸ hlive, (hrow r).chunkId.symm.trans hid⟩

/-- A segment that stays is done. -/
theorem RewriteLoop.keep (hl : RewriteLoop T s₁ done (segmentId :: rest) s)
    (h : Rewriting T K next s) (hplan : planRewrite T segmentId s = .ok .keep)
    (hno : needsMove T s segmentId = false) : RewriteLoop T s₁ (segmentId :: done) rest s where
  config := hl.config
  moved := hl.moved
  loaded id hid hnot := hl.loaded id (List.mem_cons_of_mem _ hid)
    fun hmem => hnot (List.mem_cons_of_mem _ hmem)
  same id hid hnot := hl.same id (List.mem_cons_of_mem _ hid)
    fun hmem => hnot (List.mem_cons_of_mem _ hmem)
  finished := by
    intro id hid hdone
    rcases List.mem_cons.mp hdone with rfl | hdone
    · exact hno
    · exact hl.finished id (List.mem_cons_of_mem _ hid) hdone
  clean := by
    intro hremove d hd hread
    rcases hl.clean hremove d hd hread with ⟨hmem, hnot⟩ | hlive
    swap
    · exact Or.inr hlive
    by_cases heq : d.id = segmentId
    · -- it has a reader, so all its payloads are live
      have hload := hl.loaded segmentId List.mem_cons_self (heq ▸ hnot)
      have hdir : s.reader segmentId = some d := by
        rw [reader, if_pos (List.contains_iff_mem.mpr hload), ← heq]
        exact h.inv.layout.dir_eq hd
      exact Or.inr (hl.allLive (h.allLive_of_keep hdir hplan))
    · refine Or.inl ⟨(List.mem_cons.mp hmem).resolve_left heq, fun hdone => ?_⟩
      exact (List.mem_cons.mp hdone).elim heq hnot

/-- A segment that goes is done, when the others are left alone. -/
theorem RewriteLoop.leave (hl : RewriteLoop T s₁ done (segmentId :: rest) s)
    (hconfig : s'.handle.config = s.handle.config) (hmoved : Db.MovedRows s.db s'.db)
    (hload : ∀ id, id ≠ segmentId → id ∈ s.handle.segments → id ∈ s'.handle.segments)
    (hothers : ∀ id ∈ rest, id ≠ segmentId →
      liveRows T s' id = liveRows T s id ∧ s'.reader id = s.reader id)
    (hnone : s'.reader segmentId = none)
    (hdirs : s₁.handle.config.removeFails = [] → ∀ d ∈ s'.segmentDirs,
      (d ∈ s.segmentDirs ∧ d.id ≠ segmentId ∧
        (d.id ∈ s'.handle.segments → d.id ∈ s.handle.segments)) ∨ AllLive s₁.db d) :
    RewriteLoop T s₁ (segmentId :: done) rest s' where
  config := hconfig.trans hl.config
  moved := hl.moved.trans hmoved
  loaded := by
    intro id hid hnot
    have hne : id ≠ segmentId := fun h => hnot (h ▸ List.mem_cons_self)
    refine hload id hne (hl.loaded id (List.mem_cons_of_mem _ hid) fun hmem => ?_)
    exact hnot (List.mem_cons_of_mem _ hmem)
  same := by
    intro id hid hnot
    have hne : id ≠ segmentId := fun h => hnot (h ▸ List.mem_cons_self)
    obtain ⟨hrows, hreader⟩ := hothers id hid hne
    obtain ⟨hrows', hreader'⟩ := hl.same id (List.mem_cons_of_mem _ hid) fun hmem =>
      hnot (List.mem_cons_of_mem _ hmem)
    exact ⟨hrows.trans hrows', hreader.trans hreader'⟩
  finished := by
    intro id hid hdone
    by_cases hne : id = segmentId
    · rw [hne]
      exact needsMove_of_reader_none hnone
    · obtain ⟨hrows, hreader⟩ := hothers id hid hne
      rw [needsMove_congr hrows hreader]
      exact hl.finished id (List.mem_cons_of_mem _ hid) ((List.mem_cons.mp hdone).resolve_left hne)
  clean := by
    intro hremove d hd hread
    rcases hdirs hremove d hd with ⟨hold, hne, hread'⟩ | hlive
    swap
    · exact Or.inr hlive
    rcases hl.clean hremove d hold (hread.imp_left hread') with ⟨hmem, hnot⟩ | hlive
    · refine Or.inl ⟨(List.mem_cons.mp hmem).resolve_left hne, fun hdone => ?_⟩
      exact (List.mem_cons.mp hdone).elim hne hnot
    · exact Or.inr hlive

/-! ### The directories of the other segments -/

theorem removeDir_handle (id : ℕ) (s : Store) : (removeDir id s).handle = s.handle := by
  unfold removeDir
  split <;> rfl

theorem removeDir_db (id : ℕ) (s : Store) : (removeDir id s).db = s.db := by
  unfold removeDir
  split <;> rfl

theorem dir_removeDir {id : ℕ} (hne : id ≠ segmentId) (s : Store) :
    (removeDir segmentId s).dir id = s.dir id := by
  unfold removeDir
  split
  · rfl
  · unfold Store.dir Table.deleteWhere
    rw [List.find?_filter]
    congr 1
    funext d
    by_cases hid : d.id = id
    · simp [hid, hne]
    · simp [hid]

theorem dir_withReplacement {id : ℕ} (hne : id ≠ next) (payload : List MemoryChunk) (s : Store) :
    (withReplacement next payload s).dir id = s.dir id := by
  unfold withReplacement Store.dir Store.updateDir Table.updateWhere createDir
  rw [List.map_append, List.find?_append]
  have hnew : List.find? (fun d => d.id == id) (List.map (fun r : SegmentDir =>
      if (r.id == next) = true then { r with payload := payload, finalized := true } else r)
      [{ id := next }]) = none := by
    simp [hne.symm]
  rw [hnew, Option.or_none, List.find?_map]
  have hsame : ∀ d : SegmentDir, (d.id == id) = true →
      (if (d.id == next) = true then { d with payload := payload, finalized := true } else d) = d := by
    intro d hd
    rw [if_neg]
    rw [beq_iff_eq] at hd ⊢
    exact hd ▸ hne
  have hcomp : ((fun d : SegmentDir => d.id == id) ∘ fun d => if (d.id == next) = true then
      { d with payload := payload, finalized := true } else d) = fun d => d.id == id := by
    funext d
    rw [Function.comp_apply]
    split <;> rfl
  rw [hcomp]
  cases hfind : s.segmentDirs.find? (fun d => d.id == id) with
  | none => rfl
  | some d =>
    have hd : (d.id == id) = true := List.find?_some (p := fun d : SegmentDir => d.id == id) hfind
    rw [Option.map_some]
    exact congrArg some (hsame d hd)

/-- Dropping a segment. -/
theorem RewriteLoop.drop (hl : RewriteLoop T s₁ done (segmentId :: rest) s) :
    RewriteLoop T s₁ (segmentId :: done) rest (removeDir segmentId (unload segmentId s)) := by
  have hsegments : (removeDir segmentId (unload segmentId s)).handle.segments =
      s.handle.segments.filter (· ≠ segmentId) := by
    rw [removeDir_handle]
    rfl
  have hdb : (removeDir segmentId (unload segmentId s)).db = s.db := removeDir_db _ _
  refine hl.leave ?_ ?_ ?_ ?_ ?_ ?_
  · rw [removeDir_handle]
    rfl
  · rw [hdb]
    exact .refl _
  · intro id hne hid
    rw [hsegments, List.mem_filter]
    exact ⟨hid, by simpa using hne⟩
  · intro id _ hne
    refine ⟨by rw [liveRows, hdb]; rfl, ?_⟩
    unfold reader
    rw [dir_removeDir hne, hsegments]
    simp [hne]
    rfl
  · unfold reader
    rw [hsegments, if_neg (by simp)]
  · intro hremove d hd
    have hconf : (unload segmentId s).handle.config.removeFails = [] := by
      show s.handle.config.removeFails = []
      rw [hl.config]
      exact hremove
    unfold removeDir at hd
    rw [if_neg (by simp [hconf])] at hd
    obtain ⟨hd, hne⟩ := Table.mem_deleteWhere.mp hd
    refine Or.inl ⟨hd, by simpa using hne, fun hread => ?_⟩
    rw [hsegments] at hread
    exact List.mem_of_mem_filter hread

/-- A live row of a segment that moves goes to the new one, and every other row stays. -/
theorem Rewriting.rows_of_relocations (h : Rewriting T K next s) {cs : List ChunkId}
    (hcs : cs = (liveRows T s segmentId).map (·.chunkId)) {db' : Db}
    (hdb' : s.db.updateChunkLocations T (Db.relocationsTo next 0 cs) = .ok ((), db')) :
    ∃ g, db'.chunks = s.db.chunks.map g ∧ ∀ r ∈ s.db.chunks, Db.MovedRow r (g r) ∧
      (g r = r ∨ r.segmentId = segmentId ∧ (g r).segmentId = next) := by
  have hids : (Db.relocationsTo next 0 cs).map (·.1) = cs := Db.relocationsTo_ids next 0 cs
  obtain ⟨_, g, hg, hrel⟩ := Db.updateChunkLocations_spec h.inv.keys
    (by rw [hids, hcs]; exact nodup_liveRows h.inv.keys T segmentId) hdb'
  obtain ⟨_, g', hg', hmoved⟩ := Db.movedRows_of_updateChunkLocations hdb'
  have hgg : ∀ r ∈ s.db.chunks, g r = g' r :=
    List.map_inj_left.mp (hg.symm.trans hg')
  refine ⟨g, hg, fun r hr => ⟨hgg r hr ▸ hmoved r, ?_⟩⟩
  by_cases hin : r.chunkId ∈ cs
  · right
    obtain ⟨m, hm, hid⟩ := List.mem_map.mp (hcs ▸ hin)
    obtain ⟨x, hx, ht, hseg, hlive, rfl⟩ := mem_liveRows.mp hm
    obtain rfl := h.inv.keys.ids.eq hx hr hid
    obtain ⟨⟨c, i, o⟩, hmem, hc⟩ := List.mem_map.mp (hids.symm ▸ hin)
    obtain rfl : c = x.chunkId := hc
    have hnext : i = next := by
      obtain ⟨k, hk, heq⟩ := List.mem_mapIdx.mp hmem
      exact (congrArg (·.2.1) heq).symm
    exact ⟨hseg, hnext ▸ ((hrel x).moved i o ht hlive hmem).1⟩
  · exact Or.inl ((hrel r).stays (hids.symm ▸ hin))

/-- Moving the rows of a segment. -/
theorem RewriteLoop.move (hl : RewriteLoop T s₁ done (segmentId :: rest) s)
    (h : Rewriting T K next s) (hbelow : ∀ id ∈ rest, id < next) (hlt : segmentId < next)
    {payload : List MemoryChunk} {cs : List ChunkId}
    (hcs : cs = (liveRows T s segmentId).map (·.chunkId))
    (hpayload : ∀ p ∈ payload, ∃ r ∈ s.db.chunks, r.status ≠ .deleted ∧ r.chunkId = p.chunkId)
    {db' : Db} (hdb' : s.db.updateChunkLocations T (Db.relocationsTo next 0 cs) = .ok ((), db')) :
    RewriteLoop T s₁ (segmentId :: done) rest (afterMove next segmentId payload db' s) := by
  have hsegments : (afterMove next segmentId payload db' s).handle.segments =
      s.handle.segments.filter (· ≠ segmentId) ++ [next] := by
    unfold afterMove
    rw [removeDir_handle]
    rfl
  have hdb : (afterMove next segmentId payload db' s).db = db' := removeDir_db _ _
  obtain ⟨g, hg, hrow⟩ := h.rows_of_relocations hcs hdb'
  refine hl.leave ?_ ?_ ?_ ?_ ?_ ?_
  · unfold afterMove
    rw [removeDir_handle]
    rfl
  · rw [hdb]
    exact Db.movedRows_of_updateChunkLocations hdb'
  · intro id hne hid
    rw [hsegments, List.mem_append, List.mem_filter]
    exact Or.inl ⟨hid, by simpa using hne⟩
  -- the other segments still to do are as before
  · intro id hid hne
    have hnext : id ≠ next := Nat.ne_of_lt (hbelow id hid)
    constructor
    · -- no row enters the segment and none leaves it
      have hfilter : db'.chunks.filter (fun r => r.tenantId == T && r.segmentId == id) =
          s.db.chunks.filter fun r => r.tenantId == T && r.segmentId == id := by
        rw [hg]
        refine filter_map_eq_filter fun r hr => ?_
        rcases (hrow r hr).2 with heq | ⟨hold, hnew⟩
        · exact Or.inl heq
        · refine Or.inr ⟨?_, ?_⟩
          · simp [hold, hne.symm]
          · simp [hnew, hnext.symm]
      unfold liveRows Db.getBySegment
      rw [hdb, hfilter]
    · have hdir : (afterMove next segmentId payload db' s).dir id = s.dir id :=
        (dir_removeDir hne _).trans (dir_withReplacement hnext payload s)
      unfold reader
      rw [hdir, hsegments]
      simp [hne, hnext]
  -- the segment that is done is no longer open
  · unfold reader
    rw [hsegments, if_neg]
    simp [Nat.ne_of_lt hlt]
  -- and its directory is gone, if it can be removed
  · intro hremove d hd
    have hconf : s.handle.config.removeFails = [] := hl.config ▸ hremove
    have hdel : d ∈ (withReplacement next payload s).segmentDirs ∧ d.id ≠ segmentId := by
      unfold afterMove removeDir at hd
      rw [if_neg (by show ¬ s.handle.config.removeFails.contains segmentId = true; simp [hconf])] at hd
      obtain ⟨hd, hne⟩ := Table.mem_deleteWhere.mp hd
      exact ⟨hd, by simpa using hne⟩
    obtain ⟨hd, hne⟩ := hdel
    obtain ⟨d₀, hd₀, rfl⟩ := Table.mem_updateWhere.mp hd
    rcases List.mem_append.mp hd₀ with hold | hnew
    · -- a directory from before
      have hid : d₀.id ≠ next := Nat.ne_of_lt (h.below d₀ hold)
      rw [if_neg (by simpa using hid)] at hne ⊢
      refine Or.inl ⟨hold, hne, fun hread => ?_⟩
      rw [hsegments, List.mem_append, List.mem_singleton] at hread
      exact List.mem_of_mem_filter (hread.resolve_right hid)
    · -- the replacement
      obtain rfl := List.mem_singleton.mp hnew
      rw [if_pos (by simp)]
      exact Or.inr (hl.allLive (d := { id := next, payload := payload, finalized := true }) hpayload)

/-! ## Outcomes -/

/-- The first `n` places of a segment are free. -/
def PlacesFree (s : Store) (segmentId n : ℕ) : Prop :=
  ∀ r ∈ s.db.chunks, r.segmentId = segmentId → n ≤ r.ordinal

/-- Only deleted rows can be behind the segments, and these do not move. -/
theorem RewriteLoop.placesFree_iff {K₁ : Ledger} {n₁ : ℕ} (h₁ : Rewriting T K₁ n₁ s₁)
    (hle : n₁ ≤ next) (h : Rewriting T K next s) (hl : RewriteLoop T s₁ done rest s) (n : ℕ) :
    PlacesFree s next n ↔ PlacesFree s₁ next n := by
  obtain ⟨_, g, hg, hrow⟩ := hl.moved
  constructor
  · intro hfree r hr hseg
    have hdel : r.status = .deleted := by
      by_contra hlive
      have := h₁.rows_below hr hlive
      omega
    refine hfree r ?_ hseg
    rw [hg, ← (hrow r).deleted hdel]
    exact List.mem_map_of_mem hr
  · intro hfree x hx hseg
    have hdel : x.status = .deleted := by
      by_contra hlive
      exact absurd hseg (Nat.ne_of_lt (h.rows_below hx hlive))
    rw [hg] at hx
    obtain ⟨r, hr, rfl⟩ := List.mem_map.mp hx
    rw [(hrow r).deleted ((hrow r).status ▸ hdel)] at hseg ⊢
    exact hfree r hr hseg

/-- A segment that does not move: the loop goes on with the same new id. -/
theorem RewriteLoop.stay (hl : RewriteLoop T s₁ done (segmentId :: rest) s)
    (h : Rewriting T K next s) (hno : needsMove T s segmentId = false) :
    ∃ s', (rewriteSegment T next segmentId).run s = (.ok next, s') ∧
      RewriteLoop T s₁ (segmentId :: done) rest s' := by
  rcases h.planRewrite_cases segmentId with ⟨hmove, _⟩ | ⟨_, hkeep | hdrop⟩
  · exact absurd (hmove.symm.trans hno) (by decide)
  · exact ⟨s, run_rewriteSegment_keep hkeep, hl.keep h hkeep hno⟩
  · exact ⟨_, run_rewriteSegment_drop hdrop, hl.drop⟩

/-- The relocations of a plan. -/
theorem mapIdx_eq_relocationsTo (next : ℕ) (payloads : List (ChunkId × MemoryChunk)) :
    (payloads.mapIdx fun i p => (p.1, next, i)) = Db.relocationsTo next 0 (payloads.map (·.1)) := by
  refine List.ext_getElem? fun i => ?_
  simp only [Db.relocationsTo, List.getElem?_mapIdx, List.getElem?_map, Option.map_map, Nat.zero_add]
  rfl

/-- A segment that moves: it goes to the new id when the places there are free, else the rewrite
ends with an error. -/
theorem RewriteLoop.go (hl : RewriteLoop T s₁ done (segmentId :: rest) s)
    (h : Rewriting T K next s) (hfault : s.handle.config.finalizeFails = [])
    (hbelow : ∀ id ∈ segmentId :: rest, id < next) (hmove : needsMove T s segmentId = true) :
    (PlacesFree s next (liveRows T s segmentId).length →
      ∃ s', (rewriteSegment T next segmentId).run s = (.ok (next + 1), s') ∧
        RewriteLoop T s₁ (segmentId :: done) rest s') ∧
    (¬ PlacesFree s next (liveRows T s segmentId).length →
      ∃ e s', (rewriteSegment T next segmentId).run s = (.error e, s')) := by
  have hplan : ∃ payloads, planRewrite T segmentId s = .ok (.move payloads) := by
    rcases h.planRewrite_cases segmentId with ⟨_, hplan⟩ | ⟨hno, _⟩
    · exact hplan
    · exact absurd (hmove.symm.trans hno) (by decide)
  obtain ⟨payloads, hplan⟩ := hplan
  obtain ⟨d, hd, hpay⟩ := planRewrite_eq_move hplan
  have hlt : segmentId < next := hbelow segmentId List.mem_cons_self
  -- the chunks of the plan are those of the live rows
  have hids : payloads.map (·.1) = (liveRows T s segmentId).map (·.chunkId) :=
    List.forall₂_eq_eq_eq ▸ (List.forall₂_map_left_iff.mpr (List.forall₂_map_right_iff.mpr
      (hpay.flip.imp fun _ _ hx => hx.1.symm)))
  have hlen : (payloads.map (·.1)).length = (liveRows T s segmentId).length := by
    rw [hids, List.length_map]
  have hrows : ∀ c ∈ payloads.map (·.1), Db.HasRowElsewhere s.db T next c := by
    intro c hc
    rw [hids] at hc
    obtain ⟨m, hm, rfl⟩ := List.mem_map.mp hc
    obtain ⟨r, hr, ht, hseg, hlive, rfl⟩ := mem_liveRows.mp hm
    exact ⟨r, hr, ht, rfl, hlive, hseg ▸ Nat.ne_of_lt hlt⟩
  have hpayload : ∀ p ∈ payloads.map (·.2), ∃ r ∈ s.db.chunks, r.status ≠ .deleted ∧
      r.chunkId = p.chunkId := by
    intro p hp
    obtain ⟨⟨c, q⟩, hq, rfl⟩ := List.mem_map.mp hp
    obtain ⟨o, ho⟩ := List.getElem?_of_mem hq
    obtain ⟨m, hm, _, hread⟩ := exists_of_forall₂_getElem? hpay ho
    obtain ⟨q', hread', hid⟩ := h.readChunk_of_liveRow hd hm
    obtain rfl : q = q' := Option.some.inj (hread.symm.trans hread')
    obtain ⟨r, hr, _, _, hlive, rfl⟩ := mem_liveRows.mp hm
    exact ⟨r, hr, hlive, hid.symm⟩
  have hcommit : (∃ db', s.db.updateChunkLocations T
      (Db.relocationsTo next 0 (payloads.map (·.1))) = .ok ((), db')) ↔
        PlacesFree s next (liveRows T s segmentId).length := by
    rw [Db.updateChunkLocations_ok_iff (hids ▸ nodup_liveRows h.inv.keys T segmentId) h.inv.keys.ids
      hrows, hlen]
    exact ⟨fun hfree r hr hseg => hfree r hr (h.inv.rowTenant r hr) hseg,
      fun hfree r hr _ hseg => hfree r hr hseg⟩
  obtain ⟨hok, herr⟩ := run_rewriteSegment_move hplan hfault
  rw [mapIdx_eq_relocationsTo] at hok herr
  constructor
  · intro hfree
    obtain ⟨db', hdb'⟩ := hcommit.mpr hfree
    refine ⟨_, hok db' hdb', hl.move h ?_ hlt hids hpayload hdb'⟩
    exact fun id hid => hbelow id (List.mem_cons_of_mem _ hid)
  · intro htaken
    cases hup : s.db.updateChunkLocations T (Db.relocationsTo next 0 (payloads.map (·.1))) with
    | ok out => exact absurd (hcommit.mp ⟨out.2, hup⟩) htaken
    | error e =>
      obtain ⟨s', hs'⟩ := herr e hup
      exact ⟨e, s', hs'⟩

/-! ## The whole loop -/

/-- The segments of a list that a rewrite moves, in order. -/
def moves (t : TenantId) (s : Store) (ids : List ℕ) : List ℕ :=
  ids.eraseDups.filter (needsMove t s)

/-- The segments of the list find free places when they move to `next`, `next + 1`, …. -/
def ClearFrom (t : TenantId) (s : Store) (next : ℕ) (ids : List ℕ) : Prop :=
  ∀ j id, ids[j]? = some id → PlacesFree s (next + j) (liveRows t s id).length

theorem clearFrom_nil (t : TenantId) (s : Store) (next : ℕ) : ClearFrom t s next [] := by
  intro j id h
  exact absurd h (by simp)

theorem clearFrom_cons {t : TenantId} {s : Store} {next id : ℕ} {ids : List ℕ} :
    ClearFrom t s next (id :: ids) ↔
      PlacesFree s next (liveRows t s id).length ∧ ClearFrom t s (next + 1) ids := by
  constructor
  · intro h
    refine ⟨h 0 id rfl, fun j id' hj => ?_⟩
    rw [Nat.add_assoc, Nat.add_comm 1 j]
    exact h (j + 1) id' hj
  · rintro ⟨hfirst, hrest⟩ j id' hj
    cases j with
    | zero =>
      obtain rfl : id = id' := Option.some.inj hj
      exact hfirst
    | succ j =>
      have := hrest j id' hj
      rwa [Nat.add_assoc, Nat.add_comm 1 j] at this

/-- The next segment is one of those that move, or it is not. -/
theorem moves_cons (t : TenantId) (s : Store) (id : ℕ) (ids : List ℕ) :
    moves t s (id :: ids) = (if needsMove t s id then [id] else []) ++
      moves t s (ids.filter (· ≠ id)) := by
  have hfilter : (fun b => !b == id) = fun b : ℕ => decide (b ≠ id) := by
    funext b
    by_cases hb : b = id <;> simp [hb]
  unfold moves
  rw [List.eraseDups_cons, hfilter, List.filter_cons]
  split <;> rfl

/-- One segment of the loop. -/
theorem rewriteSegment_rewriting (h : Rewriting T K next s) (id : ℕ) {next' : ℕ}
    (hrun : (rewriteSegment T next id).run s = (.ok next', s')) : Rewriting T K next' s' := by
  have hsafe := (safe_rewriteSegmentWith (A := fun _ _ => True) {} h id).run h.inv
  have heq : rewriteSegmentWith {} T next id = rewriteSegment T next id := rfl
  rw [heq, hrun] at hsafe
  exact hsafe.1

/-- **The loop returns exactly when the segments that move find free places.** -/
theorem RewriteLoop.run_foldlM {K₁ : Ledger} {n₁ : ℕ} (h₁ : Rewriting T K₁ n₁ s₁)
    (hle : n₁ ≤ next) (h : Rewriting T K next s) (hl : RewriteLoop T s₁ done rest s)
    (hbelow : ∀ id ∈ rest, id < next) :
    (ClearFrom T s₁ next (moves T s₁ (rest.filter (· ∉ done))) →
      ∃ next' s' done', (rest.foldlM (rewriteSegment T) next).run s = (.ok next', s') ∧
        RewriteLoop T s₁ done' [] s') ∧
    (¬ ClearFrom T s₁ next (moves T s₁ (rest.filter (· ∉ done))) →
      ∃ e s', (rest.foldlM (rewriteSegment T) next).run s = (.error e, s')) := by
  induction rest generalizing next s done with
  | nil => exact ⟨fun _ => ⟨next, s, done, rfl, hl⟩, fun h => absurd (clearFrom_nil T s₁ next) h⟩
  | cons id rest ih =>
    have hdone : ∀ done' : List ℕ, (rest.filter (· ∉ id :: done')) =
        (rest.filter (· ∉ done')).filter (· ≠ id) := by
      intro done'
      rw [List.filter_filter]
      refine List.filter_congr fun x _ => ?_
      simp [not_or]
    -- the rest of the loop, behind a step that went to `next'`
    have hstep : ∀ next' s', next ≤ next' → (rewriteSegment T next id).run s = (.ok next', s') →
        RewriteLoop T s₁ (id :: done) rest s' →
        (ClearFrom T s₁ next' (moves T s₁ (rest.filter (· ∉ id :: done))) →
          ∃ n' s'' done', ((id :: rest).foldlM (rewriteSegment T) next).run s = (.ok n', s'') ∧
            RewriteLoop T s₁ done' [] s'') ∧
        (¬ ClearFrom T s₁ next' (moves T s₁ (rest.filter (· ∉ id :: done))) →
          ∃ e s'', ((id :: rest).foldlM (rewriteSegment T) next).run s = (.error e, s'')) := by
      intro next' s' hnext hrun hl'
      obtain ⟨hok, herr⟩ := ih (Nat.le_trans hle hnext) (rewriteSegment_rewriting h id hrun) hl'
        fun x hx => Nat.lt_of_lt_of_le (hbelow x (List.mem_cons_of_mem _ hx)) hnext
      have heq : ((id :: rest).foldlM (rewriteSegment T) next).run s =
          (rest.foldlM (rewriteSegment T) next').run s' := by
        rw [List.foldlM_cons, bind_eq, run_bind, hrun]
      rw [heq]
      exact ⟨hok, herr⟩
    by_cases hmem : id ∈ done
    · -- it is behind us already
      obtain ⟨s', hrun, hl'⟩ := hl.stay h (hl.finished id List.mem_cons_self hmem)
      have hfilter : (id :: rest).filter (· ∉ done) = rest.filter (· ∉ id :: done) := by
        rw [List.filter_cons, if_neg (by simp [hmem])]
        refine List.filter_congr fun x _ => ?_
        by_cases hx : x = id
        · simp [hx, hmem]
        · simp [hx]
      rw [hfilter]
      exact hstep next s' (Nat.le_refl next) hrun hl'
    · have hneeds : needsMove T s id = needsMove T s₁ id := by
        obtain ⟨hrows, hreader⟩ := hl.same id List.mem_cons_self hmem
        exact needsMove_congr hrows hreader
      rw [List.filter_cons, if_pos (by simpa using hmem), moves_cons, ← hdone done]
      cases hmove : needsMove T s₁ id with
      | false =>
        obtain ⟨s', hrun, hl'⟩ := hl.stay h (hneeds.trans hmove)
        exact hstep next s' (Nat.le_refl next) hrun hl'
      | true =>
        obtain ⟨hgo, hfail⟩ := hl.go h h.inv.layout.noFault hbelow (hneeds.trans hmove)
        rw [hl.placesFree_iff h₁ hle h, (hl.same id List.mem_cons_self hmem).1] at hgo hfail
        rw [if_pos rfl, List.singleton_append, clearFrom_cons]
        by_cases hfree : PlacesFree s₁ next (liveRows T s₁ id).length
        · obtain ⟨s', hrun, hl'⟩ := hgo hfree
          obtain ⟨hok, herr⟩ := hstep (next + 1) s' (Nat.le_succ next) hrun hl'
          exact ⟨fun hclear => hok hclear.2, fun hno => herr fun hclear => hno ⟨hfree, hclear⟩⟩
        · refine ⟨fun hclear => absurd hclear.1 hfree, fun _ => ?_⟩
          obtain ⟨e, s', hrun⟩ := hfail hfree
          refine ⟨e, s', ?_⟩
          rw [List.foldlM_cons, bind_eq, run_bind, hrun]
