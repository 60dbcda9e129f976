/-
# What a segment rewrite owes

A rewrite of the finalized segments has to return, to leave every chunk readable and every other
column alone, and to leave no dead payload behind; and wherever it fails or is cut off by a crash,
every chunk that is not deleted is readable once the store is open again.

* `safe_rewriteFinalizedSegmentsWith`, `readable_after_reopen` — the rewrite is safe to fail or to
  crash anywhere, in every reachable state;
* `rewriteCorrect_iff` — the rest holds exactly when the segments that move find free places.  A
  deleted row can be in the way: it still names a segment that an earlier rewrite dropped, and the
  id of a dropped segment is given out again.
-/
import Memd.RewriteOutcome

open Store TenantStore PersistentStore Proc

variable {T : TenantId} {K : Ledger} {A : StoreStep → Store → Prop} {s s' : Store}

/-! ## Live payloads -/

/-- The payloads of the rows that are not deleted. -/
def livePayloads (s : Store) : Ledger where
  keep p := s.Copy p ∧ ∃ r ∈ s.db.chunks, r.chunkId = p.chunkId ∧ r.status ≠ .deleted
  gone _ := False
  erased _ := False

/-- They can be promised: no logged delete is waiting for one of them. -/
theorem DeletesApplied.inv_livePayloads (h : DeletesApplied T s) : Inv T (livePayloads s) [] s :=
  { h.inv with
    kept := by
      rintro p ⟨hcopy, r, hr, hid, hlive⟩
      refine ⟨⟨r, hr, hid, hlive⟩, fun q hq heq => h.inv.copyEq q p hq hcopy heq, ?_⟩
      rw [← hid]
      exact h.not_deleted hr hlive
    buried := fun _ hc => hc.elim
    erased := fun _ hc => hc.elim }

/-! ## Rewrites that fail or are cut off -/

/-- A failing `finalize_active_segment` leaves the log to recover from. -/
theorem Store.Inv.failFinalizeActive (h : Inv T K [] s) (e : String) :
    CrashInv T K (failFinalizeActive e s).2 ∧
      ((failFinalizeActive e s).1 = .ok () → Inv T K [] (failFinalizeActive e s).2 ∧
        (failFinalizeActive e s).2.handle.activeSegment = none) := by
  cases ha : s.handle.activeSegment with
  | none =>
    have heq : PersistentStore.failFinalizeActive e s = (.ok (), s) := by
      simp [PersistentStore.failFinalizeActive, ha]
    rw [heq]
    exact ⟨h.crashInv (by simp), fun _ => ⟨h, ha⟩⟩
  | some a =>
    have heq : PersistentStore.failFinalizeActive e s =
        (if a.chunks.length > 0 then .error (.storageError e) else .ok (), s.setActive none) := by
      simp [PersistentStore.failFinalizeActive, ha]
    rw [heq]
    refine ⟨?_, fun hok => ?_⟩
    · exact h.newHandle (by simp) rfl h.layout.readers h.layout.noFault
    · have hempty : ¬ a.chunks.length > 0 := fun hpos => by simp [hpos] at hok
      -- an empty writer is dropped, as when nothing fails
      have hfin : finalizeActive s = (.ok (), s.setActive none) := by
        simp [finalizeActive, ha, hempty]
      obtain ⟨_, hs, hnone⟩ := segStep_finalizeActive h.layout
      rw [hfin] at hs hnone
      exact ⟨h.segStep hs, hnone⟩

/-- Whatever steps of a rewrite fail, a crash finds everything there. -/
theorem safe_rewriteFinalizedSegmentsWith (f : RewriteFaults) (h : Inv T K [] s) :
    Safe A Keeps (CrashInv T K) (fun _ _ => True) (rewriteFinalizedSegmentsWith f T) s := by
  have hcrash : ∀ s', Inv T K [] s' → CrashInv T K s' := fun s' hs' => hs'.crashInv (by simp)
  -- what follows the sealing of the active segment
  have hrest : ∀ s₁, Inv T K [] s₁ ∧ s₁.handle.activeSegment = none →
      Safe A Keeps (CrashInv T K) (fun _ _ => True) (do
        let next ← .read .segmentRead nextSegmentId
        let ids ← .read .segmentRead fun s => s.handle.segments.mergeSort (fun a b => decide (a ≤ b))
        let _ ← ids.foldlM (fun next id => rewriteSegmentWith (f.segment id) T next id) next
        withFault f.sync (pure ()) : StoreProg Unit) s₁ := by
    rintro s₁ ⟨h₁, hactive⟩
    refine Safe.weaken ?_ h₁ hcrash
    refine Safe.read_bind Keeps.refl fun _ => ?_
    refine Safe.read_bind Keeps.refl fun _ => ?_
    refine Safe.bind (safe_rewriteSegments f.segment _
      ⟨h₁, hactive, fun d hd => lt_nextSegmentId hd⟩) ?_ fun _ _ _ _ => trivial
    intro _ s₂ _ _
    cases f.sync with
    | none => exact Safe.ret fun _ => trivial
    | some e => exact Safe.fail fun _ => trivial
  unfold rewriteFinalizedSegmentsWith
  cases f.finalizeActive with
  | none =>
    refine Safe.bind ((safe_finalizeActiveSegment h.layout (fun _ hs => h.segStep hs) _).weaken h
      hcrash) ?_ fun _ _ _ _ => trivial
    rintro _ s₁ _ ⟨_, hs, hactive⟩
    exact hrest s₁ ⟨h.segStep hs, hactive⟩
  | some e =>
    obtain ⟨hcrashed, hok⟩ := h.failFinalizeActive e
    refine Safe.bind (Q := fun r s' => r = .ok () → Inv T K [] s' ∧ s'.handle.activeSegment = none)
      (Safe.perform fun _ _ => ⟨?_, hcrashed, fun _ => hok⟩) ?_ fun _ _ _ _ => trivial
    · unfold PersistentStore.failFinalizeActive
      split
      · exact .refl s
      · exact .of_eq rfl rfl
    · exact fun _ s₁ _ hs₁ => hrest s₁ (hs₁ rfl)

/-! ## Reopening -/

/-- The tenant, of which only reopenings and crashes are seen. -/
abbrev reopening (ext : Externals) (t : TenantId) :
    System StoreStep Store MemdError StoreOp StoreRes Limits :=
  session ext t fun _ => false

theorem serial_reopening (ext : Externals) (T : TenantId) (K : Ledger) :
    System.Serial (reopening ext T) (fun _ _ => True) Keeps (fun s _ => Inv T K [] s)
      (fun s _ => CrashInv T K s) where
  refl := .refl
  crashStep _ := .of_eq rfl rfl
  admits _ _ h := absurd h (by simp [session])
  crash _ _ h := h.crash fun _ hr => hr
  crashed _ _ h := h
  up _ _ h := h.crashInv (by simp)
  call _ _ _ hadm := absurd hadm (by simp [session])
  boot _ _ cfg h := safe_openTenant ext h rfl

/-- **Every kept payload is readable** once the store is open again, after any further crashes and
attempts to open it. -/
theorem readable_after_reopen (ext : Externals) (h : CrashInv T K s)
    {c : Config StoreStep Store MemdError StoreOp StoreRes}
    (hrun : (reopening ext T).Reach (fun _ _ => True) (System.start s.crash) c)
    (hidle : c.mode = .up []) {p : MemoryChunk} (hp : K.keep p) :
    ∃ st, st ≠ .deleted ∧
      ((getChunk T p.chunkId).run c.store).1 = .ok (some { p with status := st }) := by
  have hstart : CrashInv T K s.crash := h.crash fun _ hr => hr
  have hinv := System.reach_serial (serial_reopening ext T K)
    (show System.SerialInv _ _ _ _ (System.start s.crash) from hstart) hrun
  exact Store.Inv.getChunk_kept (System.SerialInv.up hinv hidle) hp

/-! ## The condition -/

/-- The segments that move find free places, once the active segment is sealed. -/
def RewriteClear (T : TenantId) (s : Store) : Prop :=
  ClearFrom T (finalizeActive s).2 (nextSegmentId (finalizeActive s).2)
    (moves T (finalizeActive s).2
      ((finalizeActive s).2.handle.segments.mergeSort fun a b => decide (a ≤ b)))

theorem finalizeActive_config (s : Store) :
    (finalizeActive s).2.handle.config = s.handle.config := by
  unfold finalizeActive
  split
  · rfl
  · split
    · unfold sealActive
      split <;> rfl
    · rfl

/-- Behind the sealing of the active segment, a rewrite is the loop over its segments. -/
theorem run_rewriteFinalizedSegments (hl : s.Layout) :
    (rewriteFinalizedSegments T).run s =
      ((((finalizeActive s).2.handle.segments.mergeSort fun a b => decide (a ≤ b)).foldlM
        (rewriteSegment T) (nextSegmentId (finalizeActive s).2)).bind fun _ => .ret ()).run
          (finalizeActive s).2 := by
  obtain ⟨hok, _, _⟩ := segStep_finalizeActive hl
  have hrun : (finalizeActiveSegment .finalizeSegment).run s = (.ok (), (finalizeActive s).2) := by
    rw [finalizeActiveSegment, run_perform, ← hok]
  unfold rewriteFinalizedSegments
  rw [bind_eq, run_bind, hrun]
  rfl

/-- **A rewrite returns exactly when the segments that move find free places.** -/
theorem run_rewriteFinalizedSegments_iff (h : Inv T K [] s) :
    (RewriteClear T s → ∃ done s', (rewriteFinalizedSegments T).run s = (.ok (), s') ∧
      RewriteLoop T (finalizeActive s).2 done [] s') ∧
    (¬ RewriteClear T s → ∃ e s', (rewriteFinalizedSegments T).run s = (.error e, s')) := by
  obtain ⟨_, hs, hactive⟩ := segStep_finalizeActive h.layout
  have h₁ := h.segStep hs
  have hrewriting : Rewriting T K (nextSegmentId (finalizeActive s).2) (finalizeActive s).2 :=
    ⟨h₁, hactive, fun d hd => lt_nextSegmentId hd⟩
  have hloop : RewriteLoop T (finalizeActive s).2 []
      ((finalizeActive s).2.handle.segments.mergeSort fun a b => decide (a ≤ b))
      (finalizeActive s).2 := by
    refine ⟨rfl, .refl _, ?_, fun _ _ _ => ⟨rfl, rfl⟩, fun _ _ hid => absurd hid (by simp), ?_⟩
    · exact fun id hid _ => List.mem_mergeSort.mp hid
    · exact fun _ d _ hread => Or.inl ⟨List.mem_mergeSort.mpr (hread.elim id id), by simp⟩
  have hbelow : ∀ id ∈ (finalizeActive s).2.handle.segments.mergeSort fun a b => decide (a ≤ b),
      id < nextSegmentId (finalizeActive s).2 := by
    intro id hid
    obtain ⟨d, hd, rfl, _⟩ := h₁.layout.readers id (List.mem_mergeSort.mp hid)
    exact lt_nextSegmentId hd
  obtain ⟨hok, herr⟩ := hloop.run_foldlM hrewriting (Nat.le_refl _) hrewriting hbelow
  have hall : ((finalizeActive s).2.handle.segments.mergeSort fun a b => decide (a ≤ b)).filter
      (· ∉ ([] : List ℕ)) = (finalizeActive s).2.handle.segments.mergeSort fun a b => decide (a ≤ b) :=
    List.filter_eq_self.mpr fun _ _ => by simp
  rw [hall] at hok herr
  rw [run_rewriteFinalizedSegments h.layout, run_bind]
  constructor
  · intro hclear
    obtain ⟨_, s', done, hrun, hl⟩ := hok hclear
    exact ⟨done, s', by rw [hrun]; rfl, hl⟩
  · intro hno
    obtain ⟨e, s', hrun⟩ := herr hno
    exact ⟨e, s', by rw [hrun]⟩

/-! ## Correctness and availability -/

/-- What a rewrite owes in the state `s`. -/
structure RewriteCorrect (ext : Externals) (T : TenantId) (s : Store) : Prop where
  returns : ((rewriteFinalizedSegments T).run s).1 = .ok ()
  /-- every chunk that is not deleted has the payload it had -/
  readable : ∀ r ∈ s.db.chunks, r.status ≠ .deleted → ∃ p, p.chunkId = r.chunkId ∧
    ((getChunk T r.chunkId).run s).1 = .ok (some p) ∧
    ((getChunk T r.chunkId).run ((rewriteFinalizedSegments T).run s).2).1 = .ok (some p)
  /-- the location of a row that is not deleted is all that changes -/
  columns : s.db.MovedRows ((rewriteFinalizedSegments T).run s).2.db
  /-- when the directories can be removed, no dead payload is left -/
  clean : s.handle.config.removeFails = [] →
    ∀ d ∈ ((rewriteFinalizedSegments T).run s).2.segmentDirs,
      (d.id ∈ ((rewriteFinalizedSegments T).run s).2.handle.segments ∨
        d.id ∈ (finalizeActive s).2.handle.segments) → AllLive s.db d
  /-- whatever steps fail and wherever the rewrite is cut off, the store can be opened again -/
  available : ∀ (f : RewriteFaults) (e : MemdError) (n : ℕ)
    (c : Config StoreStep Store MemdError StoreOp StoreRes),
    (reopening ext T).Reach (fun _ _ => True)
      (System.start (((rewriteFinalizedSegmentsWith f T).cut e n).run s).2.crash) c →
    c.mode = .up [] → ∀ r ∈ s.db.chunks, r.status ≠ .deleted → ∃ p st, p.chunkId = r.chunkId ∧
      st ≠ .deleted ∧ ((getChunk T r.chunkId).run s).1 = .ok (some p) ∧
        ((getChunk T r.chunkId).run c.store).1 = .ok (some { p with status := st })

/-- A rewrite that returns leaves the payloads where they can be read. -/
theorem DeletesApplied.readable_of_movedRows (h : DeletesApplied T s)
    (h' : Inv T (livePayloads s) [] s') (hmoved : s.db.MovedRows s'.db) {r : ChunkRow}
    (hr : r ∈ s.db.chunks) (hlive : r.status ≠ .deleted) : ∃ p, p.chunkId = r.chunkId ∧
      ((getChunk T r.chunkId).run s).1 = .ok (some p) ∧
      ((getChunk T r.chunkId).run s').1 = .ok (some p) := by
  obtain ⟨p, hp, hcopy, hget⟩ := h.inv.getChunk_located hr hlive
  have hkeep : (livePayloads s).keep p := ⟨hcopy, r, hr, hp.symm, hlive⟩
  obtain ⟨_, g, hg, hrow⟩ := hmoved
  have hr' : g r ∈ s'.db.chunks := hg ▸ List.mem_map_of_mem hr
  obtain ⟨q, hq, hcopy', hget'⟩ := h'.getChunk_located hr' ((hrow r).status ▸ hlive)
  rw [(hrow r).chunkId] at hq hget'
  obtain rfl := (h'.kept p hkeep).2.1 q hcopy' (hq.trans hp.symm)
  refine ⟨{ q with status := r.status }, hq, hget, ?_⟩
  rw [hget', (hrow r).status]

/-- Wherever a rewrite is cut off, and whatever fails in it. -/
theorem DeletesApplied.available (h : DeletesApplied T s) (ext : Externals) (f : RewriteFaults)
    (e : MemdError) (n : ℕ) {c : Config StoreStep Store MemdError StoreOp StoreRes}
    (hrun : (reopening ext T).Reach (fun _ _ => True)
      (System.start (((rewriteFinalizedSegmentsWith f T).cut e n).run s).2.crash) c)
    (hidle : c.mode = .up []) {r : ChunkRow} (hr : r ∈ s.db.chunks) (hlive : r.status ≠ .deleted) :
    ∃ p st, p.chunkId = r.chunkId ∧ st ≠ .deleted ∧
      ((getChunk T r.chunkId).run s).1 = .ok (some p) ∧
        ((getChunk T r.chunkId).run c.store).1 = .ok (some { p with status := st }) := by
  obtain ⟨p, hp, hcopy, hget⟩ := h.inv.getChunk_located hr hlive
  have hkeep : (livePayloads s).keep p := ⟨hcopy, r, hr, hp.symm, hlive⟩
  have hinv := h.inv_livePayloads
  have hcut := (safe_rewriteFinalizedSegmentsWith (A := fun _ _ => True) f hinv).run_cut
    (hinv.crashInv (by simp)) e n
  obtain ⟨st, hst, hread⟩ := readable_after_reopen ext hcut hrun hidle hkeep
  refine ⟨{ p with status := r.status }, st, hp, hst, hget, ?_⟩
  rw [← hp]
  exact hread

/-- The rewrite meets its contract exactly when the segments that move find free places. -/
theorem DeletesApplied.rewriteCorrect (h : DeletesApplied T s) (ext : Externals) :
    RewriteCorrect ext T s ↔ RewriteClear T s := by
  obtain ⟨hok, herr⟩ := run_rewriteFinalizedSegments_iff h.inv_livePayloads
  constructor
  · intro hcorrect
    by_contra hno
    obtain ⟨e, s', hrun⟩ := herr hno
    have hret := hcorrect.returns
    rw [hrun] at hret
    exact absurd hret (by simp)
  · intro hclear
    obtain ⟨done, s', hrun, hloop⟩ := hok hclear
    obtain ⟨_, hs, _⟩ := segStep_finalizeActive h.inv.layout
    have hsafe := (safe_rewriteFinalizedSegments (A := fun _ _ => True) h.inv_livePayloads).run
      h.inv_livePayloads
    rw [hrun] at hsafe
    have hmoved : s.db.MovedRows s'.db := hs.db ▸ hloop.moved
    refine ⟨by rw [hrun], ?_, by rw [hrun]; exact hmoved, ?_, ?_⟩
    · intro r hr hlive
      rw [hrun]
      exact h.readable_of_movedRows hsafe.2 hmoved hr hlive
    · intro hremove d hd hread
      rw [hrun] at hd hread
      have hconf : (finalizeActive s).2.handle.config.removeFails = [] := by
        rw [finalizeActive_config]
        exact hremove
      rw [← hs.db]
      exact (hloop.clean hconf d hd hread).resolve_left fun hmem => absurd hmem.1 (by simp)
    · exact fun f e n c hreach hidle r hr hlive => h.available ext f e n hreach hidle hr hlive

/-! ## Evaluating the condition -/

/-- The number of rows of a segment that are not deleted. -/
def liveCount (t : TenantId) (s : Store) (segmentId : ℕ) : ℕ :=
  (s.db.chunks.filter fun r =>
    r.tenantId == t && r.segmentId == segmentId && decide (r.status ≠ .deleted)).length

theorem length_liveRows (t : TenantId) (s : Store) (segmentId : ℕ) :
    (liveRows t s segmentId).length = liveCount t s segmentId := by
  unfold liveRows Db.getBySegment liveCount
  rw [List.filter_map, List.length_map, ((List.mergeSort_perm _ _).filter _).length_eq,
    List.filter_filter]
  congr 1
  refine List.filter_congr fun r _ => ?_
  show (decide (r.status ≠ .deleted) && (r.tenantId == t && r.segmentId == segmentId)) = _
  rw [Bool.and_comm]

/-- `needsMove`, counting rows. -/
def needsMoveCount (t : TenantId) (s : Store) (segmentId : ℕ) : Bool :=
  match s.reader segmentId with
  | none => false
  | some d =>
    !(decide (liveCount t s segmentId = d.payload.length ∧
      d.payload.length - d.tombstones.dedup.length = d.payload.length)) &&
    decide (liveCount t s segmentId ≠ 0)

theorem needsMove_eq_count (t : TenantId) (s : Store) (segmentId : ℕ) :
    needsMove t s segmentId = needsMoveCount t s segmentId := by
  unfold needsMove needsMoveCount
  cases s.reader segmentId with
  | none => rfl
  | some d =>
    dsimp only
    rw [length_liveRows]
    congr 1
    rw [← length_liveRows]
    cases liveRows t s segmentId <;> rfl

/-- The segments of a list that move find free places from `next` on. -/
def placesCheck (t : TenantId) (s : Store) : ℕ → List ℕ → Bool
  | _, [] => true
  | next, id :: ids =>
    if needsMoveCount t s id then
      (s.db.chunks.all fun r => r.segmentId != next || decide (liveCount t s id ≤ r.ordinal)) &&
        placesCheck t s (next + 1) ids
    else placesCheck t s next ids

theorem placesCheck_iff (t : TenantId) (s : Store) (next : ℕ) (ids : List ℕ) :
    placesCheck t s next ids = true ↔ ClearFrom t s next (ids.filter (needsMove t s)) := by
  induction ids generalizing next with
  | nil => exact ⟨fun _ => clearFrom_nil t s next, fun _ => rfl⟩
  | cons id ids ih =>
    rw [placesCheck, List.filter_cons, needsMove_eq_count]
    cases hmove : needsMoveCount t s id with
    | false => exact ih next
    | true =>
      rw [if_pos rfl, if_pos rfl, clearFrom_cons, Bool.and_eq_true, ih, length_liveRows]
      refine and_congr_left' ?_
      simp only [List.all_eq_true, Bool.or_eq_true, bne_iff_ne, decide_eq_true_eq, PlacesFree]
      exact forall₂_congr fun r _ => Classical.or_iff_not_imp_left.trans (by rw [not_not])

/-- **The condition can be computed** when the readers are in order. -/
theorem rewriteClear_iff_placesCheck
    (hsorted : (finalizeActive s).2.handle.segments.Pairwise fun a b => decide (a ≤ b) = true) :
    RewriteClear T s ↔ placesCheck T (finalizeActive s).2 (nextSegmentId (finalizeActive s).2)
      (finalizeActive s).2.handle.segments.eraseDups = true := by
  rw [placesCheck_iff, RewriteClear, List.mergeSort_of_pairwise hsorted, moves]

/-! ## Every reachable state -/

/-- **A rewrite is correct exactly when the segments that move find free places.**  In every state
a serial run reaches, it returns, keeps payloads and columns, leaves no dead payload and survives
faults and crashes, exactly when no row names a place that the moved rows are to take. -/
theorem rewriteCorrect_iff (ext : Externals) (T : TenantId)
    (c : Config StoreStep Store MemdError StoreOp StoreRes)
    (hrun : (session ext T fun _ => true).Reach (fun _ _ => True) (System.start {}) c)
    (hidle : c.mode = .up []) : RewriteCorrect ext T c.store ↔ RewriteClear T c.store :=
  (deletesApplied_of_reach ext hrun hidle).rewriteCorrect ext

/-- Two chunks in one segment, of which the second is deleted. -/
def halfDead : Config StoreStep Store MemdError StoreOp StoreRes :=
  (session sampleExternals "t" fun _ => true).script (fun _ _ => true)
    [(.boot ⟨2, 1, 0, []⟩, 99), (.call (.add [sampleChunk "a"] none 0), 99),
     (.call (.add [sampleChunk "b"] none 0), 99), (.call (.delete 1), 99)] (System.start {})

theorem rewriteCorrect_halfDead : needsMoveCount "t" (finalizeActive halfDead.store).2 1 = true ∧
    RewriteCorrect sampleExternals "t" halfDead.store := by
  have hrun : (session sampleExternals "t" fun _ => true).Reach (fun _ _ => True)
      (System.start {}) halfDead := System.Reach.script (fun _ _ _ => trivial) _ .refl
  have hidle : halfDead.mode = .up [] := System.mode_eq_of_isIdle (by decide)
  refine ⟨by decide, (rewriteCorrect_iff sampleExternals "t" _ hrun hidle).mpr ?_⟩
  exact (rewriteClear_iff_placesCheck (by decide)).mpr (by decide)

/-- Two chunks in segment 1 and a deleted one in segment 2. -/
def deadSegment : Config StoreStep Store MemdError StoreOp StoreRes :=
  (session sampleExternals "t" fun _ => true).script (fun _ _ => true)
    [(.boot ⟨2, 1, 0, []⟩, 99), (.call (.add [sampleChunk "a"] none 0), 99),
     (.call (.add [sampleChunk "b"] none 0), 99), (.call (.add [sampleChunk "a"] none 0), 99),
     (.call (.delete 2), 99)] (System.start {})

/-- A rewrite drops the dead segment; then one of the two chunks is deleted too. -/
def staleRow : Config StoreStep Store MemdError StoreOp StoreRes :=
  let dropped := ((StoreOp.prog sampleExternals "t" .rewrite).run deadSegment.store).2
  let deleted := (StoreOp.prog sampleExternals "t" (.delete 1)).run dropped
  ⟨deleted.2, .up [], deadSegment.log ++ [.called .rewrite] ++
    [.returned .rewrite ((StoreOp.prog sampleExternals "t" .rewrite).run deadSegment.store).1] ++
    [.called (.delete 1)] ++ [.returned (.delete 1) deleted.1]⟩

theorem planRewrite_eq_keep {d : SegmentDir} {segmentId : ℕ} (hd : s.reader segmentId = some d)
    (hlive : liveCount T s segmentId = d.payload.length ∧
      d.payload.length - d.tombstones.dedup.length = d.payload.length) :
    planRewrite T segmentId s = .ok .keep := by
  rw [← length_liveRows] at hlive
  unfold planRewrite
  rw [hd]
  dsimp only
  exact if_pos hlive

theorem planRewrite_eq_drop_of_count {d : SegmentDir} {segmentId : ℕ}
    (hd : s.reader segmentId = some d) (hlive : liveCount T s segmentId = 0)
    (hlen : d.payload.length ≠ 0) : planRewrite T segmentId s = .ok .drop := by
  rw [← length_liveRows] at hlive
  unfold planRewrite
  rw [hd]
  dsimp only
  rw [if_neg]
  · exact if_pos (List.length_eq_zero_iff.mp hlive)
  · rintro ⟨heq, _⟩
    exact hlen (heq.symm.trans hlive)

/-- The rewrite in between keeps segment 1 and drops segment 2. -/
theorem run_rewrite_deadSegment :
    (StoreOp.prog sampleExternals "t" .rewrite).run deadSegment.store =
      (.ok .done, removeDir 2 (unload 2 (finalizeActive deadSegment.store).2)) := by
  have hrun : (session sampleExternals "t" fun _ => true).Reach (fun _ _ => True)
      (System.start {}) deadSegment := System.Reach.script (fun _ _ _ => trivial) _ .refl
  have hidle : deadSegment.mode = .up [] := System.mode_eq_of_isIdle (by decide)
  have hlayout := (deletesApplied_of_reach sampleExternals hrun hidle).inv.layout
  have hsorted : ((finalizeActive deadSegment.store).2.handle.segments.mergeSort
      fun a b => decide (a ≤ b)) = [1, 2] := by
    have hsegments : (finalizeActive deadSegment.store).2.handle.segments = [1, 2] := by
      decide
    rw [hsegments]
    exact List.mergeSort_of_pairwise (by decide)
  have hkeep : planRewrite "t" 1 (finalizeActive deadSegment.store).2 = .ok .keep := by
    obtain ⟨d, hd, hlive⟩ : ∃ d, (finalizeActive deadSegment.store).2.reader 1 = some d ∧
        liveCount "t" (finalizeActive deadSegment.store).2 1 = d.payload.length ∧
          d.payload.length - d.tombstones.dedup.length = d.payload.length :=
      ⟨_, rfl, by decide⟩
    exact planRewrite_eq_keep hd hlive
  have hdrop : planRewrite "t" 2 (finalizeActive deadSegment.store).2 = .ok .drop := by
    obtain ⟨d, hd, hlive, hlen⟩ : ∃ d, (finalizeActive deadSegment.store).2.reader 2 = some d ∧
        liveCount "t" (finalizeActive deadSegment.store).2 2 = 0 ∧ d.payload.length ≠ 0 :=
      ⟨_, rfl, by decide⟩
    exact planRewrite_eq_drop_of_count hd hlive hlen
  have hrewrite : (rewriteFinalizedSegments "t").run deadSegment.store =
      (.ok (), removeDir 2 (unload 2 (finalizeActive deadSegment.store).2)) := by
    rw [run_rewriteFinalizedSegments hlayout, hsorted]
    simp only [List.foldlM_cons, List.foldlM_nil, bind_eq, run_bind, run_rewriteSegment_keep hkeep,
      run_rewriteSegment_drop hdrop]
    rfl
  show ((rewriteFinalizedSegments "t").bind _).run _ = _
  rw [run_bind, hrewrite]
  rfl

/-- The deleted chunk still names segment 2, whose id is given out again: the rewrite fails. -/
theorem rewrite_fails_on_stale_row :
    (session sampleExternals "t" fun _ => true).Reach (fun _ _ => True) (System.start {}) staleRow ∧
      staleRow.mode = .up [] ∧ ¬ RewriteCorrect sampleExternals "t" staleRow.store := by
  have hrun : (session sampleExternals "t" fun _ => true).Reach (fun _ _ => True)
      (System.start {}) deadSegment := System.Reach.script (fun _ _ _ => trivial) _ .refl
  have hidle : deadSegment.mode = .up [] := System.mode_eq_of_isIdle (by decide)
  have hreach : (session sampleExternals "t" fun _ => true).Reach (fun _ _ => True)
      (System.start {}) staleRow := by
    have heq : deadSegment = ⟨deadSegment.store, .up [], deadSegment.log⟩ := by
      rw [← hidle]
    rw [heq] at hrun
    have hrewrite : (session sampleExternals "t" fun _ => true).admits [] .rewrite = true := rfl
    have hdelete : (session sampleExternals "t" fun _ => true).admits [] (.delete 1) = true := rfl
    exact (hrun.call hrewrite).call hdelete
  refine ⟨hreach, rfl, fun hcorrect => ?_⟩
  have hclear := ((deletesApplied_of_reach sampleExternals hreach rfl).rewriteCorrect _).mp
    hcorrect
  have hstore : staleRow.store = ((StoreOp.prog sampleExternals "t" (.delete 1)).run
      (removeDir 2 (unload 2 (finalizeActive deadSegment.store).2))).2 := by
    show ((StoreOp.prog sampleExternals "t" (.delete 1)).run
      ((StoreOp.prog sampleExternals "t" .rewrite).run deadSegment.store).2).2 = _
    rw [run_rewrite_deadSegment]
  rw [hstore, rewriteClear_iff_placesCheck (by decide)] at hclear
  exact absurd hclear (by decide)
