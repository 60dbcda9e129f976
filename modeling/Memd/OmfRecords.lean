/-
# The Add records of an import

Every item that is imported is logged, and after every so many parts a checkpoint is written.  Which
Add records are still behind the last checkpoint when the import is over can be told from the plan,
the interval and the writes counted before (`unmarked`); the records that were there before are kept
if the import writes no checkpoint at all (`checkpointFree`).

* `LoopRun.logged` — the log behind the last checkpoint after the items of an import;
* `LoopRun.placed` — the rows have different ids, at locations that are not handed out again;
* `guards_importOmf` — an import leaves alone what the guards of the task artifacts read.
-/
import Memd.LogReplay
import Memd.OmfPlan

open Proc Store TenantStore PersistentStore

/-! ## Which records are kept -/

/-- Do the items bring no checkpoint? -/
def checkpointFree (interval : ℕ) : ℕ → List PlannedItem → Bool
  | _, [] => true
  | count, p :: plan =>
    dueCheckpoints interval count p.pieces == 0 &&
      checkpointFree interval (countedWrites interval count p.pieces) plan

/-- The items whose Add records no checkpoint follows. -/
def unmarked (interval : ℕ) : ℕ → List PlannedItem → List PlannedItem
  | _, [] => []
  | count, p :: plan =>
    if checkpointFree interval count (p :: plan) then p :: plan
    else unmarked interval (countedWrites interval count p.pieces) plan

theorem unmarked_of_free {interval count : ℕ} {plan : List PlannedItem}
    (h : checkpointFree interval count plan = true) : unmarked interval count plan = plan := by
  cases plan with
  | nil => rfl
  | cons p plan => exact if_pos h

theorem unmarked_suffix (interval count : ℕ) (plan : List PlannedItem) :
    unmarked interval count plan <:+ plan := by
  induction plan generalizing count with
  | nil => exact List.suffix_rfl
  | cons p plan ih =>
    rw [unmarked]
    split
    · exact List.suffix_rfl
    · exact (ih _).trans (List.suffix_cons p plan)

/-- The parts of an item in the log: final ones of the tenant, under the ids of the plan. -/
structure LoggedParts (t : TenantId) (p : PlannedItem) (chunks : List MemoryChunk) : Prop where
  ids : chunks.map (·.chunkId) = List.range' p.first p.pieces
  parts : ∀ q ∈ chunks, q.tenantId = t ∧ q.status = .final

/-- A part in the log belongs to one of the items. -/
theorem mem_flatten_of_logged {t : TenantId} {plan : List PlannedItem} {css : List (List MemoryChunk)}
    (h : List.Forall₂ (LoggedParts t) plan css) {q : MemoryChunk} (hq : q ∈ css.flatten) :
    ∃ p ∈ plan, q.chunkId ∈ List.range' p.first p.pieces ∧ q.tenantId = t ∧ q.status = .final := by
  induction h with
  | nil => exact absurd hq (by simp)
  | @cons p chunks plan css hp _ ih =>
    rcases List.mem_append.mp hq with hq | hq
    · exact ⟨p, List.mem_cons_self, hp.ids ▸ List.mem_map_of_mem hq, hp.parts q hq⟩
    · obtain ⟨p', hp', found⟩ := ih hq
      exact ⟨p', List.mem_cons_of_mem p hp', found⟩

/-- Every id of an item is in the log. -/
theorem exists_logged {t : TenantId} {plan : List PlannedItem} {css : List (List MemoryChunk)}
    (h : List.Forall₂ (LoggedParts t) plan css) {p : PlannedItem} (hp : p ∈ plan) {c : ChunkId}
    (hc : c ∈ List.range' p.first p.pieces) : ∃ q ∈ css.flatten, q.chunkId = c := by
  induction h with
  | nil => exact absurd hp (by simp)
  | @cons p' chunks plan css hp' _ ih =>
    rcases List.mem_cons.mp hp with rfl | hp
    · rw [← hp'.ids] at hc
      obtain ⟨q, hq, hqc⟩ := List.mem_map.mp hc
      exact ⟨q, List.mem_append_left _ hq, hqc⟩
    · obtain ⟨q, hq, hqc⟩ := ih hp
      exact ⟨q, List.mem_append_right _ hq, hqc⟩

/-! ## The log of an import -/

section Logged

variable {x : OmfExternals} {t : TenantId} {opts : ImportOptions} {trusted : Bool} {env : ImportEnv}
  {s s' : Store} {st st' : ImportState}

/-- The records of a log that grows by adds and checkpoints. -/
theorem recordsForRecovery_append (chunks : List MemoryChunk) (k : ℕ)
    (hwal : s'.wal = s.wal ++ chunks.map .add ++ List.replicate k .checkpoint) :
    s'.recordsForRecovery = if k = 0 then s.recordsForRecovery ++ chunks.map .add else [] := by
  cases k with
  | zero =>
    rw [if_pos rfl, recordsForRecovery, hwal, List.replicate_zero, List.append_nil]
    apply LogSuffix.afterLast_append
    intro r hr
    obtain ⟨p, _, rfl⟩ := List.mem_map.mp hr
    rfl
  | succ k =>
    rw [if_neg (Nat.succ_ne_zero k), recordsForRecovery, hwal, List.replicate_succ', ← List.append_assoc]
    exact LogSuffix.afterLast_append_marker _ rfl

variable (x t env) in
/-- The parts of an admitted item, as they are logged. -/
theorem loggedParts_of_written {item : OmfItem × ℕ} {a : AdmittedItem} (n : ChunkId) {pieces : ℕ}
    (hlen : (splitForAdd x.toExternals (importedChunk t item.1 a (env.item item.2).created)).length =
      pieces) :
    LoggedParts t ⟨item, n, pieces⟩ (stampFrom x.toExternals n
      (splitForAdd x.toExternals (importedChunk t item.1 a (env.item item.2).created))) := by
  refine ⟨by rw [ids_stampFrom, hlen], fun q hq => ?_⟩
  obtain ⟨y, hy, rfl⟩ := List.mem_map.mp hq
  obtain ⟨text, tags, hpart⟩ := mem_splitForAdd (List.fst_mem_of_mem_zipIdx hy)
  refine ⟨?_, ?_⟩
  · show y.1.tenantId = t
    rw [hpart]
    rfl
  · show y.1.status = .final
    rw [hpart]
    rfl

/-- **What an import logs**: behind the last checkpoint are the Add records of the items that no
checkpoint follows, behind the old records if there was none at all. -/
theorem LoopRun.logged {items : List (OmfItem × ℕ)}
    (h : LoopRun x t opts trusted env items st s st' s') (hr : Roomy t s) :
    ∃ css, List.Forall₂ (LoggedParts t) (unmarked s.handle.config.walCheckpointInterval
        s.handle.writesSinceCheckpoint
        (importPlan x t opts trusted env s.db.dedupRows s.nextId items)) css ∧
      s'.recordsForRecovery =
        (if checkpointFree s.handle.config.walCheckpointInterval s.handle.writesSinceCheckpoint
            (importPlan x t opts trusted env s.db.dedupRows s.nextId items)
          then s.recordsForRecovery else []) ++
          css.flatten.map .add := by
  induction h with
  | nil => exact ⟨[], .nil, by simp [importPlan, checkpointFree]⟩
  | @cons item items st st₁ st' s s₁ s' hitem _ ih =>
    have hj := judgementOf_itemVerdict x t opts trusted (env.item item.2).gate s.db item.1
    cases hitem with
    | skipped hv hor =>
      rw [importPlan_other (by rw [← hj, hv]; rcases hor with rfl | rfl <;> simp [judgementOf])]
      exact ih hr
    | duplicate hv =>
      rw [importPlan_other (by rw [← hj, hv]; simp [judgementOf])]
      exact ih hr
    | written hv hw =>
      obtain ⟨himported, hadds, hlen⟩ := pieces_of_written hv hw hr
      have hparts := loggedParts_of_written x t env s.nextId hlen
      obtain ⟨css, hcss, hrecords⟩ := ih (hw.roomy rfl hr)
      have hnext := hw.nextId
      rw [hlen] at hnext
      have hstart := recordsForRecovery_append _ _ hw.wal
      have hcounter := hw.counter
      rw [Store.due, hlen] at hstart
      rw [Store.counted, hlen] at hcounter
      rw [hw.config, hcounter, hadds, hnext] at hcss hrecords
      rw [importPlan_imported himported]
      rw [unmarked, checkpointFree]
      generalize s.handle.config.walCheckpointInterval = interval at *
      generalize s.handle.writesSinceCheckpoint = count at *
      generalize importPlan x t opts trusted env (s.db.dedupRows ++ pieceRows x t item.1
        (env.item item.2).created) (s.nextId + (pieceRows x t item.1
        (env.item item.2).created).length) items = plan at *
      generalize (pieceRows x t item.1 (env.item item.2).created).length = pieces at *
      by_cases hfree : checkpointFree interval (countedWrites interval count pieces) plan = true
      · rw [if_pos hfree] at hrecords
        by_cases hdue : dueCheckpoints interval count pieces = 0
        · -- no checkpoint at this item, and none behind it
          rw [unmarked_of_free hfree] at hcss
          rw [if_pos hdue] at hstart
          have hall : (dueCheckpoints interval count pieces == 0 &&
              checkpointFree interval (countedWrites interval count pieces) plan) = true := by
            simp [hdue, hfree]
          rw [if_pos hall, if_pos hall]
          refine ⟨_ :: css, .cons hparts hcss, ?_⟩
          rw [hrecords, hstart, List.flatten_cons, List.map_append, List.append_assoc]
        · -- its own checkpoint is the last one
          rw [if_neg hdue] at hstart
          have hsome : ¬ (dueCheckpoints interval count pieces == 0 &&
              checkpointFree interval (countedWrites interval count pieces) plan) = true := by
            simp [hdue]
          rw [if_neg hsome, if_neg hsome]
          exact ⟨css, hcss, by rw [hrecords, hstart]⟩
      · -- a later item brings the last checkpoint
        rw [if_neg hfree] at hrecords
        have hsome : ¬ (dueCheckpoints interval count pieces == 0 &&
            checkpointFree interval (countedWrites interval count pieces) plan) = true := by
          simp [hfree]
        rw [if_neg hsome, if_neg hsome]
        exact ⟨css, hcss, hrecords⟩

theorem LoopRun.config {items : List (OmfItem × ℕ)}
    (h : LoopRun x t opts trusted env items st s st' s') : s'.handle.config = s.handle.config := by
  induction h with
  | nil => rfl
  | cons hitem _ ih =>
    refine ih.trans ?_
    cases hitem with
    | skipped _ _ => rfl
    | duplicate _ => rfl
    | written _ hw => exact hw.config

end Logged

/-! ## The rows of an import -/

section InPlace

variable {x : OmfExternals} {t : TenantId} {opts : ImportOptions} {trusted : Bool} {env : ImportEnv}
  {s s' : Store} {st st' : ImportState}

/-- The rows have different ids and lie at locations that are not handed out again; ids from the
next one on occur nowhere. -/
structure InPlace (t : TenantId) (s : Store) : Prop where
  ids : (s.db.metadata.map (·.chunkId)).Nodup
  spent : ∀ m ∈ s.db.metadata, m.tenantId = t → s.Spent (m.segmentId, m.ordinal)
  active : s.ActiveDir
  rowIds : ∀ m ∈ s.db.metadata, m.chunkId < s.nextId

theorem InPlace.roomy (h : InPlace t s) : Roomy t s :=
  fun m hm => ⟨h.rowIds m hm, fun ht => (h.spent m hm ht).used⟩

/-- An add of a chunk keeps the rows in place. -/
theorem Written.placed {ext : Externals} {chunk : MemoryChunk} {initial : LifecycleDelta} {now : ℤ}
    {locs : List (ℕ × ℕ)} (hw : Written ext chunk initial now locs s s') (ht : chunk.tenantId = t)
    (h : InPlace t s) : InPlace t s' := by
  have hmeta := hw.metadata_of_roomy ht h.roomy
  refine ⟨?_, ?_, hw.advances.active h.active, fun m hm => (hw.roomy ht h.roomy m hm).1⟩
  · rw [hmeta, List.map_append, ids_addedRows ext chunk initial now s.nextId hw.locations.length,
      List.nodup_append]
    refine ⟨h.ids, List.nodup_range', ?_⟩
    rintro c hc _ hc' rfl
    obtain ⟨m, hm, rfl⟩ := List.mem_map.mp hc
    exact absurd (h.rowIds m hm) (Nat.not_lt.mpr (mem_partIds.mp hc').1)
  · intro m hm hmt
    rw [hmeta] at hm
    rcases List.mem_append.mp hm with hm | hm
    · exact hw.advances.spent _ (h.spent m hm hmt)
    · exact (hw.locations.issued h.active _ (mem_addedRows hm).2).spent

theorem LoopRun.placed {items : List (OmfItem × ℕ)}
    (h : LoopRun x t opts trusted env items st s st' s') (hs : InPlace t s) : InPlace t s' := by
  induction h with
  | nil => exact hs
  | cons hitem _ ih =>
    refine ih ?_
    cases hitem with
    | skipped _ _ => exact hs
    | duplicate _ => exact hs
    | written _ hw => exact hw.placed rfl hs

/-- Links leave the rows in place. -/
theorem InPlace.linked (h : InPlace t s) {now : ℤ} {edges : List (ChunkId × ChunkId)} {db' : Db}
    (hrows : db'.metadata = linkRows t now edges s.db.metadata) : InPlace t { s with db := db' } := by
  rw [linkRows_eq] at hrows
  have hframe := linkAll_frame t now edges
  refine ⟨?_, ?_, h.active, ?_⟩
  · show (db'.metadata.map (·.chunkId)).Nodup
    rw [hrows, List.map_map]
    refine (List.map_congr_left fun m _ => ?_) ▸ h.ids
    exact (hframe m).1.symm
  · intro m' hm' ht
    have hm'' : m' ∈ db'.metadata := hm'
    rw [hrows] at hm''
    obtain ⟨m, hm, rfl⟩ := List.mem_map.mp hm''
    obtain ⟨_, htenant, hseg, hord⟩ := hframe m
    rw [htenant] at ht
    rw [hseg, hord]
    exact h.spent m hm ht
  · intro m' hm'
    have hm'' : m' ∈ db'.metadata := hm'
    rw [hrows] at hm''
    obtain ⟨m, hm, rfl⟩ := List.mem_map.mp hm''
    rw [(hframe m).1]
    exact h.rowIds m hm

end InPlace

/-! ## An import writes no artifact -/

section Quiet

variable {t : TenantId}

theorem quietSteps_addChunks (ext : Externals) (t : TenantId) (chunks : List MemoryChunk)
    (indexError : Option String) (now : ℤ) :
    QuietSteps (addChunks ext t chunks false indexError now) := by
  unfold addChunks
  split
  · trivial
  refine Proc.All.bind (quietSteps_preparePendingChunks ext _) fun pending => ?_
  refine Proc.All.bind (Proc.All.modify ⟨fun _ => rfl, fun _ => rfl, fun s p hp => ?_⟩) fun _ => ?_
  · simpa [logAppend] using hp
  refine Proc.All.bind (quietSteps_storeBatch ext t pending now) fun _ => ?_
  refine Proc.All.bind (quietSteps_recordIndexOutcome t _ indexError now) fun _ => ?_
  refine Proc.All.bind (quietSteps_checkpointAfterBatch _) fun _ => ?_
  exact Proc.All.bind (Proc.All.ofExcept _) fun _ => trivial

theorem quietSteps_addChunkWithLifecycle (ext : Externals) (t : TenantId) (chunk : MemoryChunk)
    (initial : LifecycleDelta) (indexError : Option String) (now : ℤ) :
    QuietSteps (addChunkWithLifecycleAndStoredIds ext t chunk initial [] indexError now) := by
  have hadd : QuietSteps (addChunkWithStoredIds ext t chunk indexError now) := by
    refine Proc.All.bind (quietSteps_addChunks ext t [chunk] indexError now) fun outcome => ?_
    cases outcome.primaryIds <;> trivial
  refine Proc.All.bind hadd fun r => Proc.All.bind ?_ fun _ => trivial
  unfold applyInitialDelta
  split
  · trivial
  refine Proc.All.forM (fun part => ?_) _
  refine Proc.All.bind (Proc.All.perform ?_) fun _ => trivial
  exact taskQuiet_withDb (f := fun db => (db.updateLifecycleCounted t part.1 _).2)
    fun _ => ⟨rfl, rfl⟩

theorem quietSteps_importItem (x : OmfExternals) (t : TenantId) (opts : ImportOptions) (trusted : Bool)
    (env : ImportEnv) (st : ImportState) (item : OmfItem × ℕ) :
    QuietSteps (importItem x t opts trusted env st item) := by
  have hread : ∀ {α : Type} (f : Store → α), QuietSteps (.read .metadataRead f : StoreProg α) :=
    fun f => Proc.All.read f taskQuiet_id
  have hgate : QuietSteps (do
      let initial ← .ofExcept (requestedLifecycle trusted item.1)
      pure (gateItem x item.1 initial (env.item item.2).gate) : StoreProg ItemVerdict) :=
    Proc.All.bind (Proc.All.ofExcept _) fun _ => trivial
  have hdecide : QuietSteps (decideItem x t opts trusted (env.item item.2).gate item.1) := by
    unfold decideItem
    split
    · trivial
    refine Proc.All.bind (hread _) fun exact => ?_
    split
    · trivial
    cases opts.fuzzyThreshold with
    | none => exact hgate
    | some thr =>
      refine Proc.All.bind (hread _) fun fuzzy => ?_
      dsimp only
      split
      · trivial
      · exact hgate
  refine Proc.All.bind hdecide fun verdict => ?_
  cases verdict with
  | archived => trivial
  | rejected => trivial
  | duplicate => trivial
  | admitted a =>
    refine Proc.All.bind (quietSteps_addChunkWithLifecycle x.toExternals t _ a.initial _ _) fun r => ?_
    exact Proc.All.bind (Proc.All.ofExcept _) fun _ => trivial

/-- A link writes rows of chunks only. -/
theorem atomicSupersede_tables {db db' : Db} {old new : ChunkId} {now : ℤ}
    (h : db.atomicSupersede t old new now = .ok ((), db')) :
    db'.taskArtifacts = db.taskArtifacts ∧ db'.tasks = db.tasks := by
  unfold Db.atomicSupersede at h
  dsimp only at h
  split at h
  · cases h
  split at h
  · cases h
  · cases h
    exact ⟨rfl, rfl⟩

theorem quietSteps_atomicSupersede (t : TenantId) (old new : ChunkId) (now : ℤ) :
    QuietSteps (atomicSupersede t old new now) := by
  have hcommit : ∀ s : Store, ∃ db', db'.taskArtifacts = s.db.taskArtifacts ∧
      db'.tasks = s.db.tasks ∧ (Proc.commit s ((s.db.atomicSupersede t old new now).map
        fun r => (r.1, { s with db := r.2 }))).2 = { s with db := db' } := by
    intro s
    cases hlink : s.db.atomicSupersede t old new now with
    | error e => exact ⟨s.db, rfl, rfl, rfl⟩
    | ok r =>
      obtain ⟨hartifacts, htasks⟩ := atomicSupersede_tables hlink
      exact ⟨r.2, hartifacts, htasks, rfl⟩
  refine Proc.All.perform ⟨fun s => ?_, fun s => ?_, fun s p hp => ?_⟩
  all_goals obtain ⟨db', hartifacts, htasks, hs⟩ := hcommit s
  · rw [hs]
    exact hartifacts
  · rw [hs]
    exact htasks
  · rw [hs] at hp
    exact hp

theorem quietSteps_replaySupersessionEdges (t : TenantId) (sourceToTarget : List (SourceId × ChunkId))
    (pending : List PendingSupersede) (now : ℤ) :
    QuietSteps (replaySupersessionEdges t sourceToTarget pending now) := by
  refine Proc.All.forM (fun edge => ?_) _
  unfold replayEdge
  split
  · trivial
  · exact quietSteps_atomicSupersede t _ _ now

/-- **An import writes no artifact**: what the guards read stays as it is. -/
theorem guards_importOmf (x : OmfExternals) (t : TenantId) (doc : OmfDocument) (opts : ImportOptions)
    (env : ImportEnv) (s : Store) :
    ((importOmfWithEvents x t doc opts env).run s).2.db.guards = s.db.guards := by
  have hquiet : QuietSteps (importOmfWithEvents x t doc opts env) := by
    refine Proc.All.bind (Proc.All.ofExcept _) fun _ => ?_
    refine Proc.All.bind (Proc.All.foldlM (fun st item =>
      quietSteps_importItem x t opts (isTrusted doc) env st item) _ _) fun st => ?_
    exact Proc.All.bind (quietSteps_replaySupersessionEdges t _ _ _) fun _ => trivial
  have hsteps : (importOmfWithEvents x t doc opts env).All
      fun _ upd => ∀ s' : Store, (upd s').db.guards = s'.db.guards :=
    hquiet.mono fun _ _ hupd s' => Db.guards_congr (hupd.artifacts s') (hupd.tasks s')
  exact Proc.All.run (R := fun s₁ s₂ : Store => s₂.db.guards = s₁.db.guards) (fun _ => rfl)
    (fun _ _ _ h₁ h₂ => h₂.trans h₁) hsteps s

end Quiet
