/-
# Logged deletes are applied

Whenever the store serves calls and none is in flight, a chunk whose Delete record is behind the
last checkpoint is buried: it has no row that is not deleted, and recovery will not bring it back.
A delete is interrupted only by a crash, and then recovery applies its record and truncates the
log.

* `KeepsDeletes` — a step that logs no Delete record, and the programs made of such steps;
* `DeletesApplied` — the invariant of a state in which every logged delete is applied;
* `deletesApplied_of_reach` — every serial run keeps it.
-/
import Memd.Durability
import Memd.StoreSteps

open Store TenantStore PersistentStore Proc

variable {T : TenantId} {A : StoreStep → Store → Prop} {s : Store}

/-! ## Steps that log no delete -/

/-- Every Delete record behind the last checkpoint was there before. -/
def KeepsDeletes (s s' : Store) : Prop :=
  ∀ c, .delete c ∈ s'.recordsForRecovery → .delete c ∈ s.recordsForRecovery

/-- A state keeps its own deletes. -/
theorem KeepsDeletes.refl (s : Store) : KeepsDeletes s s :=
  fun _ h => h

/-- Keeping the deletes composes. -/
theorem KeepsDeletes.trans {s₁ s₂ s₃ : Store} (h₁ : KeepsDeletes s₁ s₂) (h₂ : KeepsDeletes s₂ s₃) :
    KeepsDeletes s₁ s₃ :=
  fun c h => h₁ c (h₂ c h)

/-- A step that leaves the log alone keeps the deletes. -/
theorem KeepsDeletes.of_wal {s s' : Store} (h : s'.wal = s.wal) : KeepsDeletes s s' := by
  intro c hc
  rwa [recordsForRecovery, h] at hc

/-- Appending records that are neither checkpoints nor deletes keeps the deletes. -/
theorem KeepsDeletes.logAppend {records : List LogRecord}
    (hcp : ∀ r ∈ records, r.isCheckpoint = false) (hdel : ∀ c, .delete c ∉ records) (s : Store) :
    KeepsDeletes s (logAppend records s) := by
  intro c hc
  rw [recordsForRecovery_logAppend hcp, List.mem_append] at hc
  rcases hc with hc | hc
  · exact hc
  · exact absurd hc (hdel c)

/-- A checkpoint leaves no delete to replay. -/
theorem KeepsDeletes.checkpoint (s : Store) : KeepsDeletes s (Store.logAppend [.checkpoint] s) := by
  intro c hc
  have hnil : (Store.logAppend [.checkpoint] s).recordsForRecovery = [] :=
    LogSuffix.afterLast_append_marker _ rfl
  rw [hnil] at hc
  exact absurd hc (by simp)

/-- No step of the program logs a delete. -/
def LogsNoDelete {α : Type} (p : StoreProg α) : Prop :=
  p.All fun _ upd => ∀ s, KeepsDeletes s (upd s)

/-- A program whose steps log no delete keeps the deletes, wherever a crash stops it. -/
theorem LogsNoDelete.safe {α : Type} {p : StoreProg α} (h : LogsNoDelete p) (s : Store) :
    Safe A (fun _ _ => True) (fun _ => True) (fun _ s' => KeepsDeletes s s') p s :=
  Safe.of_all .refl (fun _ _ _ => .trans) h s

/-- A read logs nothing. -/
theorem logsNoDelete_read {α : Type} (l : StoreStep) (f : Store → α) :
    LogsNoDelete (.read l f : StoreProg α) :=
  Proc.All.read f fun s => .refl s

/-- A change of the tables logs nothing. -/
theorem logsNoDelete_withDb (l : StoreStep) (f : Db → Db) :
    LogsNoDelete (.modify l (withDb f) : StoreProg Unit) :=
  Proc.All.modify fun _ => .of_wal rfl

/-! ### Programs -/

/-- Storing a payload logs nothing. -/
theorem logsNoDelete_storePayload (msg : String) (chunk : MemoryChunk) :
    LogsNoDelete (storePayload msg chunk) := by
  refine Proc.All.bind (logsNoDelete_read _ _) fun maxChunks => ?_
  refine Proc.All.bind ?_ fun _ => Proc.All.perform fun s => .of_wal (appendToActive_wal msg chunk s)
  refine Proc.All.bind (Proc.All.perform fun s => .of_wal (rotateIfFull_wal maxChunks s)) fun _ => ?_
  exact Proc.All.modify fun s => .of_wal (createIfNone_wal s)

/-- Closing the active segment logs nothing. -/
theorem logsNoDelete_finalizeActiveSegment (l : StoreStep) :
    LogsNoDelete (finalizeActiveSegment l) :=
  Proc.All.perform fun s => .of_wal (finalizeActive_wal s)

/-- Closing a full segment logs nothing. -/
theorem logsNoDelete_finalizeIfAboveThreshold :
    LogsNoDelete finalizeActiveSegmentIfAboveThreshold := by
  refine Proc.All.bind (logsNoDelete_read _ _) fun cfg => ?_
  split
  · exact logsNoDelete_finalizeActiveSegment _
  · refine Proc.All.bind (logsNoDelete_read _ _) fun activeChunks => ?_
    split
    · trivial
    · exact logsNoDelete_finalizeActiveSegment _

/-- Preparing a batch logs no delete. -/
theorem logsNoDelete_preparePendingChunks (ext : Externals) (chunks : List MemoryChunk)
    (preserveChunkIds : Bool) : LogsNoDelete (preparePendingChunks ext chunks preserveChunkIds) := by
  refine Proc.All.foldlM ?_ chunks []
  intro pending chunk
  refine Proc.All.bind ?_ fun _ => trivial
  unfold pendingId
  split
  · refine Proc.All.bind (logsNoDelete_read _ _) fun existing => ?_
    split <;> trivial
  · exact Proc.All.perform fun _ => .of_wal rfl

/-- Storing a batch logs no delete. -/
theorem logsNoDelete_storeBatch (ext : Externals) (t : TenantId) (pending : List MemoryChunk)
    (now : ℤ) : LogsNoDelete (storeBatch ext t pending now) := by
  refine Proc.All.bind ?_ fun rows => ?_
  · refine Proc.All.foldlM ?_ pending []
    intro rows p
    exact Proc.All.bind (logsNoDelete_storePayload _ p) fun _ => trivial
  refine Proc.All.bind (Proc.All.modify fun s => .of_wal (flushActive_wal s)) fun _ => ?_
  exact Proc.All.bind (logsNoDelete_withDb _ _) fun _ => logsNoDelete_withDb _ _

/-- Recording the outcome of the indexing logs no delete. -/
theorem logsNoDelete_recordIndexOutcome (t : TenantId) (ids : List ChunkId)
    (indexError : Option String) (now : ℤ) :
    LogsNoDelete (recordIndexOutcome t ids indexError now) := by
  cases indexError with
  | none => exact logsNoDelete_withDb _ _
  | some e => exact Proc.All.forM (fun c => logsNoDelete_withDb _ _) ids

/-- The checkpoint after a batch logs no delete. -/
theorem logsNoDelete_checkpointAfterBatch (writes : ℕ) :
    LogsNoDelete (checkpointAfterBatch writes) := by
  refine Proc.All.bind (logsNoDelete_read _ _) fun interval => ?_
  split
  · trivial
  refine Proc.All.bind (Proc.All.perform fun _ => .of_wal rfl) fun checkpoints => ?_
  split
  · trivial
  refine Proc.All.bind (logsNoDelete_finalizeActiveSegment _) fun _ => ?_
  exact Proc.All.forM (fun _ => Proc.All.modify fun s => .checkpoint s) _

/-- An add logs no delete. -/
theorem logsNoDelete_addChunks (ext : Externals) (t : TenantId) (chunks : List MemoryChunk)
    (preserveChunkIds : Bool) (indexError : Option String) (now : ℤ) :
    LogsNoDelete (addChunks ext t chunks preserveChunkIds indexError now) := by
  unfold addChunks
  split
  · trivial
  dsimp only
  refine Proc.All.bind (logsNoDelete_preparePendingChunks ext _ _) fun pending => ?_
  refine Proc.All.bind (Proc.All.modify fun s => .logAppend ?_ ?_ s) fun _ => ?_
  · simp [LogRecord.isCheckpoint]
  · simp
  refine Proc.All.bind (logsNoDelete_storeBatch ext t pending now) fun _ => ?_
  refine Proc.All.bind (logsNoDelete_recordIndexOutcome t _ indexError now) fun _ => ?_
  refine Proc.All.bind (logsNoDelete_checkpointAfterBatch _) fun _ => ?_
  exact Proc.All.bind (Proc.All.ofExcept _) fun _ => trivial

/-- A transaction on the tables logs nothing. -/
theorem logsNoDelete_transactDb (l : StoreStep) (f : Db → Except MemdError (Unit × Db)) :
    LogsNoDelete (transactDb l f) := by
  refine Proc.All.perform fun s => ?_
  dsimp only
  cases f s.db with
  | error e => exact .refl s
  | ok r => exact .of_wal rfl

/-- Writing an artifact logs no delete. -/
theorem logsNoDelete_addTaskArtifact (ext : Externals) (artifact : TaskArtifact)
    (projections : List TaskProjection) (indexError : Option String) (now : ℤ) :
    LogsNoDelete (addTaskArtifact ext artifact projections indexError now) := by
  refine Proc.All.bind (logsNoDelete_read _ _) fun safe => ?_
  refine Proc.All.bind (Proc.All.ofExcept safe) fun _ => ?_
  split
  · trivial
  split
  · trivial
  refine Proc.All.bind (logsNoDelete_preparePendingChunks ext _ false) fun pending => ?_
  refine Proc.All.bind (Proc.All.ofExcept _) fun ids => ?_
  refine Proc.All.bind (Proc.All.modify fun s => .logAppend ?_ ?_ s) fun _ => ?_
  · intro r hr
    rcases List.mem_append.mp hr with hr | hr
    · obtain ⟨p, _, rfl⟩ := List.mem_map.mp hr
      rfl
    · obtain rfl := List.mem_singleton.mp hr
      rfl
  · simp
  refine Proc.All.bind (logsNoDelete_storeBatch ext _ pending now) fun _ => ?_
  refine Proc.All.bind (logsNoDelete_transactDb _ _) fun _ => ?_
  refine Proc.All.bind (logsNoDelete_recordIndexOutcome _ _ indexError now) fun _ => ?_
  exact Proc.All.bind (logsNoDelete_checkpointAfterBatch _) fun _ => trivial

/-- Closing a segment directory leaves the log alone. -/
theorem finalizeDir_wal (id : ℕ) (payload : List MemoryChunk) (s : Store) :
    (finalizeDir id payload s).2.wal = s.wal := by
  unfold finalizeDir
  split <;> rfl

/-- Removing a segment directory leaves the log alone. -/
theorem removeDir_wal (id : ℕ) (s : Store) : (removeDir id s).wal = s.wal := by
  unfold removeDir
  split <;> rfl

/-- Rewriting a segment logs no delete. -/
theorem logsNoDelete_rewriteSegment (t : TenantId) (next segmentId : ℕ) :
    LogsNoDelete (rewriteSegment t next segmentId) := by
  have hremove : ∀ id, LogsNoDelete (.modify .segmentRead (removeDir id)) := fun id =>
    Proc.All.modify fun s => .of_wal (removeDir_wal id s)
  refine Proc.All.bind (logsNoDelete_read _ _) fun plan => ?_
  refine Proc.All.bind (Proc.All.ofExcept plan) fun plan => ?_
  cases plan with
  | keep => trivial
  | drop =>
    refine Proc.All.bind (Proc.All.modify fun _ => .of_wal rfl) fun _ => ?_
    exact Proc.All.bind (hremove segmentId) fun _ => trivial
  | move payloads =>
    refine Proc.All.bind (Proc.All.modify fun _ => .of_wal rfl) fun _ => ?_
    refine Proc.All.bind (Proc.All.perform fun s => .of_wal (finalizeDir_wal _ _ s)) fun _ => ?_
    refine Proc.All.bind (Proc.All.attempt (logsNoDelete_transactDb _ _)) fun moved => ?_
    cases moved with
    | error e => exact Proc.All.bind (hremove next) fun _ => trivial
    | ok _ =>
      refine Proc.All.bind (Proc.All.modify fun _ => .of_wal rfl) fun _ => ?_
      exact Proc.All.bind (hremove segmentId) fun _ => trivial

/-- Rewriting all closed segments logs no delete. -/
theorem logsNoDelete_rewriteFinalizedSegments (t : TenantId) :
    LogsNoDelete (rewriteFinalizedSegments t) := by
  refine Proc.All.bind (logsNoDelete_finalizeActiveSegment _) fun _ => ?_
  refine Proc.All.bind (logsNoDelete_read _ _) fun next => ?_
  refine Proc.All.bind (logsNoDelete_read _ _) fun ids => ?_
  exact Proc.All.bind (Proc.All.foldlM (logsNoDelete_rewriteSegment t) ids next) fun _ => trivial

/-! ## The invariant -/

/-- The ledger that promises that the logged deletes are for good. -/
def loggedDeletes (s : Store) : Ledger where
  keep _ := False
  gone c := .delete c ∈ s.recordsForRecovery
  erased _ := False

/-- Every delete behind the last checkpoint is applied. -/
def DeletesApplied (T : TenantId) (s : Store) : Prop :=
  Inv T (loggedDeletes s) [] s

/-- A store whose logged deletes are applied meets the invariant of the empty ledger. -/
theorem DeletesApplied.inv (h : DeletesApplied T s) : Inv T Ledger.empty [] s :=
  Inv.weaken h ⟨fun _ hp => hp, fun _ hc => hc.elim, fun _ hc => hc⟩

/-- A chunk with a logged delete has no row that is not deleted. -/
theorem DeletesApplied.not_deleted (h : DeletesApplied T s) {r : ChunkRow} (hr : r ∈ s.db.chunks)
    (hlive : r.status ≠ .deleted) : .delete r.chunkId ∉ s.recordsForRecovery :=
  fun hdel => absurd ((h.buried _ hdel).2.2 r hr rfl hlive) (by simp)

/-- What keeps the invariant for the ledger of an earlier state and logs no delete in between. -/
theorem DeletesApplied.of_keepsDeletes {s' : Store} {K : Ledger} (h : Inv T K [] s')
    (hgone : ∀ c, .delete c ∈ s.recordsForRecovery → K.gone c) (hd : KeepsDeletes s s') :
    DeletesApplied T s' :=
  Inv.weaken h ⟨fun _ hp => hp.elim, fun c hc => hgone c (hd c hc), fun _ hc => hc.elim⟩

/-- A step on the segments alone keeps the logged deletes applied. -/
theorem DeletesApplied.segStep {s' : Store} (h : DeletesApplied T s) (hs : SegStep s s') :
    DeletesApplied T s' :=
  .of_keepsDeletes (Inv.segStep h hs) (fun _ hc => hc) (.of_wal hs.wal)

/-- With nothing to recover there is nothing to apply. -/
theorem DeletesApplied.of_nil {K : Ledger} (h : Inv T K [] s) (hnil : s.recordsForRecovery = []) :
    DeletesApplied T s := by
  refine Inv.weaken h ⟨fun _ hp => hp.elim, fun c hc => ?_, fun _ hc => hc.elim⟩
  simp [loggedDeletes, hnil] at hc

/-! ### Deleting -/

/-- What a delete call does to the log. -/
theorem safe_deleteChunk_log (t : TenantId) (c : ChunkId) :
    Safe A (fun _ _ => True) (fun _ => True) (fun r s' => r = .ok false ∧ s' = s ∨
      r = .ok true ∧ s'.recordsForRecovery = s.recordsForRecovery ++ [.delete c])
      (deleteChunk t c) s := by
  refine Safe.read_bind (fun _ => trivial) fun _ => ?_
  cases hget : s.db.get t c with
  | none => exact Safe.ret fun _ => .inl ⟨rfl, rfl⟩
  | some m =>
    refine Safe.modify_bind fun _ _ => ⟨trivial, trivial, ?_⟩
    refine Safe.modify_bind fun _ _ => ⟨trivial, trivial, ?_⟩
    refine Safe.modify_bind fun _ _ => ⟨trivial, trivial, ?_⟩
    refine Safe.ret fun _ => .inr ⟨rfl, ?_⟩
    rw [recordsForRecovery, tombstone_wal]
    exact recordsForRecovery_logAppend (by simp [LogRecord.isCheckpoint]) s

/-- A delete call applies what it logs. -/
theorem safe_deleteChunk_deletesApplied (h : DeletesApplied T s) (c : ChunkId) :
    Safe A Keeps (Inv T Ledger.empty []) (fun _ s' => DeletesApplied T s') (deleteChunk T c) s := by
  have hboth := (safe_deleteChunk (A := A) (c := c) h fun p hp => absurd hp id).and
    (safe_deleteChunk_log T c)
  refine (hboth.weaken ⟨h, trivial⟩ (fun s' hs' => ?_)).post ?_
  · exact Inv.weaken hs'.1 ⟨fun _ hp => hp, fun _ hc => hc.elim, fun _ hc => hc⟩
  rintro r s' _ ⟨hinv, ⟨rfl, rfl⟩ | ⟨rfl, hlog⟩⟩
  · exact h
  · refine Inv.weaken hinv ⟨fun _ hp => hp, fun d hd => ?_, fun _ hd => hd⟩
    have hmem : .delete d ∈ s'.recordsForRecovery := hd
    rw [hlog, List.mem_append] at hmem
    rcases hmem with hd | hd
    · exact .inl hd
    · obtain rfl : d = c := by simpa using hd
      exact .inr ⟨rfl, rfl⟩

/-- Purging the candidates keeps the logged deletes applied, wherever a crash stops it. -/
theorem safe_deleteCandidates_deletesApplied (h : DeletesApplied T s) (l : List ChunkMetadata) :
    Safe A Keeps (Inv T Ledger.empty []) (fun _ s' => DeletesApplied T s')
      (l.forM (deleteCandidate T)) s := by
  refine Safe.forM (P := fun _ s' => DeletesApplied T s') ?_ (fun _ _ hs => hs) l h.inv h
  rintro m rest s₁ _ h₁
  unfold deleteCandidate
  split
  · exact Safe.ret fun _ => h₁
  · refine Safe.bind (safe_deleteChunk_deletesApplied h₁ m.chunkId) ?_ fun _ _ _ hs => hs
    exact fun _ s₂ _ h₂ => Safe.ret fun _ => h₂

/-- A whole purge does too. -/
theorem safe_runPurge_deletesApplied (h : DeletesApplied T s) (o : PurgeOptions) (now : ℤ) :
    Safe A Keeps (Inv T Ledger.empty []) (fun _ s' => DeletesApplied T s') (runPurge T o now) s := by
  refine Safe.read_bind Keeps.refl fun _ => ?_
  generalize s.db.listHardPurgeCandidates T o.projectId _ _ = hidden
  refine Safe.bind (safe_unreadableCandidates h.inv T o _ _) ?_ fun e s₁ _ hs => h.segStep hs.1
  rintro unreadable s₁ _ ⟨hs₁, _⟩
  have h₁ := h.segStep hs₁
  refine Safe.bind (safe_buildArchiveRecords h₁.inv T _) ?_ fun e s₂ _ hs => h₁.segStep hs
  rintro _ s₂ _ hs₂
  have h₂ := h₁.segStep hs₂
  refine Safe.bind (safe_archiveCandidates o _) ?_ ?_
  swap
  · rintro e s₃ _ rfl
    exact h₂
  rintro _ s₃ _ rfl
  refine Safe.bind (safe_deleteCandidates_deletesApplied h₂ _) ?_ fun _ _ _ hs => hs
  rintro _ s₄ _ h₄
  refine Safe.bind (Q := fun _ s' => DeletesApplied T s')
    (Safe.attempt ((safe_runCompaction h₄.inv T o.compaction now).post ?_)) ?_ fun _ _ _ hs => hs
  · rintro _ _ _ ⟨db', ho, rfl⟩
    exact .of_keepsDeletes (Inv.overlay h₄ ho) (fun _ hc => hc) (.of_wal rfl)
  rintro _ s₅ _ h₅
  have h₆ : DeletesApplied T (withDb (·.hardDeleteChunks T
      ((hidden ++ unreadable).map (·.chunkId))) s₅) :=
    .of_keepsDeletes (Inv.hardDelete h₅ T _) (fun _ hc => hc) (.of_wal rfl)
  refine Safe.perform_bind rfl fun _ _ => ⟨.hardDelete _ T _, h₆.inv, ?_⟩
  refine Safe.bind (Q := fun _ s' => DeletesApplied T s') ?_ ?_ fun _ _ _ hs => hs
  · unfold rewriteAfterPurge
    split
    · have hboth := (safe_rewriteFinalizedSegments (A := A) h₆).and
        ((logsNoDelete_rewriteFinalizedSegments T).safe _)
      refine Safe.bind (Q := fun _ s' => DeletesApplied T s') (Safe.attempt
        ((hboth.weaken ⟨h₆, trivial⟩ fun s' hs' => ?_).post ?_)) ?_ fun _ _ _ hs => hs
      · exact Inv.weaken hs'.1 ⟨fun _ hp => hp, fun _ hc => hc.elim, fun _ hc => hc⟩
      · rintro _ s' _ ⟨hinv, hd⟩
        exact .of_keepsDeletes hinv (fun _ hc => hc) hd
      · exact fun _ s' _ hs => Safe.ret fun _ => hs
    · exact Safe.ret fun _ => h₆
  · exact fun _ s' _ hs => Safe.ret fun _ => hs

/-! ## Runs -/

section Session

variable (ext : Externals) {allowed : StoreOp → Bool}

/-- A call that logs no delete applies the logged ones still. -/
theorem DeletesApplied.safe_of_logsNoDelete {α : Type} {p : StoreProg α}
    {Q : Except MemdError α → Ledger}
    (h : DeletesApplied T s)
    (hp : Safe A Keeps (Inv T (loggedDeletes s) []) (fun r s' => Inv T (Q r) [] s') p s)
    (hQ : ∀ r c, .delete c ∈ s.recordsForRecovery → (Q r).gone c) (hlogs : LogsNoDelete p) :
    Safe A Keeps (Inv T Ledger.empty []) (fun _ s' => DeletesApplied T s') p s := by
  refine ((hp.and (hlogs.safe s)).weaken ⟨h, trivial⟩ (fun s' hs' => ?_)).post ?_
  · exact Inv.weaken hs'.1 ⟨fun _ hk => hk, fun _ hc => hc.elim, fun _ hc => hc⟩
  · rintro r s' _ ⟨hinv, hd⟩
    exact .of_keepsDeletes hinv (hQ r) hd

/-- Every call, started with the logged deletes applied, ends so. -/
theorem safe_prog_deletesApplied (h : DeletesApplied T s) {op : StoreOp} (hfor : op.isFor T) :
    Safe A Keeps (Inv T Ledger.empty []) (fun _ s' => DeletesApplied T s') (op.prog ext T) s := by
  have hquiet : (∀ c, op ≠ .delete c) → (∀ o now, op ≠ .purge o now) →
      LogsNoDelete (op.prog ext T) →
      Safe A Keeps (Inv T Ledger.empty []) (fun _ s' => DeletesApplied T s') (op.prog ext T) s := by
    intro hdelete hpurge hlogs
    refine h.safe_of_logsNoDelete (safe_prog ext h (fun p hp => absurd hp id) hfor
      (fun c hc => absurd hc (hdelete c)) fun o now ho => absurd ho (hpurge o now)) ?_ hlogs
    exact fun r c hc => ((loggedDeletes s).le_after ext A op r).gone c hc
  cases op with
  | add chunks indexError now =>
    refine hquiet (by simp) (by simp) ?_
    exact Proc.All.bind (logsNoDelete_addChunks ext T chunks false indexError now) fun _ => trivial
  | addTaskArtifact artifact projections indexError now =>
    refine hquiet (by simp) (by simp) ?_
    exact Proc.All.bind (logsNoDelete_addTaskArtifact ext artifact projections indexError now)
      fun _ => trivial
  | delete c =>
    exact Safe.map ((safe_deleteChunk_deletesApplied h c).post fun _ _ _ hs => hs)
  | hardDelete ids =>
    refine hquiet (by simp) (by simp) ?_
    exact Proc.All.bind (Proc.All.perform fun _ => .of_wal rfl) fun _ => trivial
  | rewrite =>
    refine hquiet (by simp) (by simp) ?_
    exact Proc.All.bind (logsNoDelete_rewriteFinalizedSegments T) fun _ => trivial
  | purge o now =>
    exact Safe.map ((safe_runPurge_deletesApplied h o now).post fun _ _ _ hs => hs)
  | shutdown =>
    refine hquiet (by simp) (by simp) ?_
    exact Proc.All.bind logsNoDelete_finalizeIfAboveThreshold fun _ => trivial

/-- A recovery that ends leaves no record behind. -/
theorem safe_openTenant_nil (cfg : StoreConfig) :
    Safe A (fun _ _ => True) (fun _ => True)
      (fun r s' => r = .ok () → s'.recordsForRecovery = []) (openTenant ext T cfg) s := by
  have htrue : ∀ {α : Type} (p : StoreProg α) (s : Store),
      Safe A (fun _ _ => True) (fun _ => True) (fun _ _ => True) p s := fun p s =>
    Safe.of_all (R := fun _ _ => True) (fun _ => trivial) (fun _ _ _ _ _ => trivial)
      (by induction p with
        | ret a => trivial
        | fail e => trivial
        | act l upd next ih => exact ⟨fun _ => trivial, ih⟩) s
  refine Safe.modify_bind fun _ _ => ⟨trivial, trivial, ?_⟩
  refine Safe.bind (Q := fun r s' => r = .ok (.ok ()) → s'.recordsForRecovery = [])
    (Safe.attempt ?_) ?_ ?_
  · refine Safe.read_bind (fun _ => trivial) fun _ => ?_
    split
    · rename_i hnil
      exact Safe.ret fun _ _ => hnil
    refine Safe.bind (htrue _ _) ?_ fun e s₁ _ _ hr => absurd hr (by simp)
    intro adds s₁ _ _
    dsimp only
    have htruncate : ∀ s₂ : Store, Safe A (fun _ _ => True) (fun _ => True)
        (fun r s' => .ok r = (.ok (.ok ()) : Except MemdError (Except MemdError Unit)) →
          s'.recordsForRecovery = [])
        (.modify .walTruncate (fun s => { s with wal := [] }) : StoreProg Unit) s₂ := fun s₂ =>
      Safe.modify fun _ _ => ⟨trivial, trivial, fun _ _ => LogSuffix.afterLast_nil _⟩
    split
    · refine Safe.bind (htrue _ _) ?_ fun e s₂ _ _ hr => absurd hr (by simp)
      exact fun _ s₂ _ _ => htruncate s₂
    · exact htruncate s₁
  · intro outcome s₁ _ hnil
    cases outcome with
    | ok u => exact Safe.ret fun _ _ => hnil rfl
    | error e =>
      refine Safe.bind (htrue _ _) (fun _ s₂ _ _ => ?_) fun e s₂ _ _ hr => absurd hr (by simp)
      exact Safe.fail fun _ hr => absurd hr (by simp)
  · exact fun e s₁ _ _ hr => absurd hr (by simp)

/-- The invariant of a serial run: while no call is in flight the logged deletes are applied. -/
theorem serial_deletesApplied : System.Serial (session ext T allowed) A Keeps
    (fun s log => Inv T Ledger.empty [] s ∧ (System.callsInFlight log = 0 → DeletesApplied T s))
    (fun s _ => CrashInv T Ledger.empty s) := by
  have hserial := serial_session (T := T) (A := A) ext (tracks_empty ext A allowed)
  refine ⟨hserial.refl, hserial.crashStep, hserial.admits, hserial.crash, hserial.crashed,
    fun s log h => hserial.up s log h.1, ?_, ?_⟩
  · intro s log op hadm h
    have hcall := hserial.call s log op hadm h.1
    refine ⟨⟨hcall.1, by simp [System.callsInFlight_concat]⟩, ?_⟩
    have hfor : op.isFor T = true := by
      simp only [session, List.isEmpty_nil, Bool.true_and, Bool.and_eq_true] at hadm
      exact hadm.1
    by_cases hidle : System.callsInFlight log = 0
    · refine ((hcall.2.and (safe_prog_deletesApplied ext (h.2 hidle) hfor)).weaken ⟨h.1, h.1⟩
        fun s' hs' => ?_).post ?_
      · exact ⟨hs'.1, by simp [System.callsInFlight_concat]⟩
      · exact fun r s' _ hr => ⟨hr.1, fun _ => hr.2⟩
    · refine (hcall.2.weaken h.1 fun s' hs' => ?_).post ?_
      · exact ⟨hs', by simp [System.callsInFlight_concat]⟩
      · intro r s' _ hr
        refine ⟨hr, fun hzero => ?_⟩
        rw [System.callsInFlight_concat, System.callsInFlight_concat] at hzero
        exact absurd (by simpa using hzero) hidle
  · intro s log cfg h
    refine (((hserial.boot s log cfg h).and (safe_openTenant_nil ext cfg.config)).weaken
      ⟨h, trivial⟩ fun s' hs' => hs'.1).post ?_
    rintro r s' _ ⟨hinv, hnil⟩ hr
    exact ⟨hinv hr, fun _ => .of_nil (hinv hr) (hnil hr)⟩

/-- **Logged deletes are applied.**  Whenever a serial run has no call in flight, every chunk
whose Delete record is behind the last checkpoint is buried. -/
theorem deletesApplied_of_reach {c : Config StoreStep Store MemdError StoreOp StoreRes}
    (hrun : (session ext T allowed).Reach (fun _ _ => True) (System.start {}) c)
    (hidle : c.mode = .up []) : DeletesApplied T c.store := by
  have hstart : System.SerialInv (fun _ _ => True) Keeps
      (fun s log => Inv T Ledger.empty [] s ∧ (System.callsInFlight log = 0 → DeletesApplied T s))
      (fun s _ => CrashInv T Ledger.empty s)
      (System.start {} : Config StoreStep Store MemdError StoreOp StoreRes) :=
    crashInv_empty T (fun _ h => h) (fun _ h => h) fun _ h => h
  have hinv := System.SerialInv.up (System.reach_serial (serial_deletesApplied ext) hstart hrun) hidle
  refine hinv.2 ?_
  rw [hrun.callsInFlight (by simp [System.start]) hidle]
  rfl

end Session
