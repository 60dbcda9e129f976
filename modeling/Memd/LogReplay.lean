/-
# A log replayed to its end, and one that cannot be

A reopening without failing writes comes to its end when the guards accept the artifacts of the
log one after the other (`Store.replayable`); otherwise no reopening does, however often it is
tried.  A deleted chunk whose Add record is replayed, and whose deletion is not logged, has a live
row again afterwards.

* `openTenant_revives` — the run of a reopening, followed for one chunk of the log;
* `not_survive_of_revived` — a deleted chunk with an Add record and no Delete record does not keep
  its status;
* `survive_of_refused` — a store whose log is refused is never open again.
-/
import Memd.ArtifactGuards
import Memd.StatusRecovery

open Proc Store TenantStore PersistentStore

/-- The artifacts of a log. -/
def artifactsOf (records : List LogRecord) : List TaskArtifact :=
  records.filterMap fun
    | .taskArtifact p => some p.artifact
    | _ => none

/-- Do the guards accept the artifacts that a reopening replays? -/
def Store.replayable (s : Store) : Bool :=
  s.db.guards.acceptsAll (artifactsOf s.recordsForRecovery)

/-! ## Steps that the guards do not see -/

/-- Steps on segments and rows leave what the guards read. -/
theorem Store.Moves.guards {s s' : Store} (h : Moves s s') : s'.db.guards = s.db.guards := by
  rw [h.db]

/-! ## A chunk that comes back -/

section Revive

variable {t : TenantId} {c : ChunkId} {rest : List LogRecord} {s s' : Store}

/-- With the records `rest` still to be replayed, the chunk `c` has a live row or will get one. -/
structure Reviving (t : TenantId) (c : ChunkId) (rest : List LogRecord) (s : Store) : Prop where
  fails : s.handle.config.finalizeFails = []
  accepted : s.db.guards.acceptsAll (artifactsOf rest) = true
  ids : (s.db.metadata.map (·.chunkId)).Nodup
  spent : ∀ m ∈ s.db.metadata, m.tenantId = t → s.Spent (m.segmentId, m.ordinal)
  active : s.ActiveDir
  adds : ∀ p, .add p ∈ rest → p.tenantId = t ∧ (p.chunkId = c → p.status ≠ .deleted)
  deletes : .delete c ∉ rest
  digests : ∀ p, .taskArtifact p ∈ rest → p.artifact.artifactKind ≠ .digest
  back : (∃ p, .add p ∈ rest ∧ p.chunkId = c) ∨
    ∃ m ∈ s.db.metadata, m.chunkId = c ∧ m.status ≠ .deleted

/-- A step that keeps the tables and the log keeps the invariant. -/
theorem Reviving.moves (h : Reviving t c rest s) (hs : Moves s s')
    (hconfig : s'.handle.config = s.handle.config) : Reviving t c rest s' :=
  { h with
    fails := by rw [hconfig]; exact h.fails
    accepted := by rw [hs.db]; exact h.accepted
    ids := by rw [hs.db]; exact h.ids
    spent := fun m hm ht => hs.spent _ (h.spent m (hs.db ▸ hm) ht)
    active := hs.active h.active
    back := by rw [hs.db]; exact h.back }

/-- A record that is not an artifact and not the one the chunk waits for is done. -/
theorem Reviving.tail {r : LogRecord} (h : Reviving t c (r :: rest) s)
    (hquiet : artifactsOf (r :: rest) = artifactsOf rest)
    (hback : (∃ p, .add p ∈ rest ∧ p.chunkId = c) ∨
      ∃ m ∈ s.db.metadata, m.chunkId = c ∧ m.status ≠ .deleted) : Reviving t c rest s :=
  { h with
    accepted := hquiet ▸ h.accepted
    adds := fun p hp => h.adds p (List.mem_cons_of_mem r hp)
    deletes := fun hc => h.deletes (List.mem_cons_of_mem r hc)
    digests := fun p hp => h.digests p (List.mem_cons_of_mem r hp)
    back := hback }

/-- Another record than the one it waits for leaves the chunk where it is. -/
theorem Reviving.waits {r : LogRecord} (h : Reviving t c (r :: rest) s)
    (hr : ∀ p, r = .add p → p.chunkId ≠ c) : (∃ p, .add p ∈ rest ∧ p.chunkId = c) ∨
      ∃ m ∈ s.db.metadata, m.chunkId = c ∧ m.status ≠ .deleted := by
  rcases h.back with ⟨p, hp, hpc⟩ | hlive
  · rcases List.mem_cons.mp hp with heq | hp
    · exact absurd hpc (hr p heq.symm)
    · exact .inl ⟨p, hp, hpc⟩
  · exact .inr hlive

/-- A row at a new location takes the place of the chunk's own one. -/
theorem Reviving.insert {chunk : MemoryChunk} {m : ChunkMetadata}
    (h : Reviving t c (.add chunk :: rest) s) (hid : m.chunkId = chunk.chunkId)
    (ht : m.tenantId = t) (hspent : s.Spent (m.segmentId, m.ordinal))
    (hfree : ∀ n ∈ s.db.metadata, n.tenantId = t → (n.segmentId, n.ordinal) ≠ (m.segmentId, m.ordinal))
    (hlive : m.chunkId = c → m.status ≠ .deleted) :
    Reviving t c rest (withDb (·.insert m) s) := by
  have hrows : (withDb (·.insert m) s).db.metadata =
      (s.db.metadata.filter fun r => !r.conflicts m) ++ [m] := Db.metadata_insert s.db m
  have hmem : ∀ n ∈ (withDb (·.insert m) s).db.metadata, n ∈ s.db.metadata ∨ n = m := by
    intro n hn
    rw [hrows] at hn
    rcases List.mem_append.mp hn with hn | hn
    · exact .inl (List.mem_filter.mp hn).1
    · exact .inr (List.mem_singleton.mp hn)
  refine
    { fails := h.fails
      accepted := h.accepted
      ids := ?_
      spent := ?_
      active := h.active
      adds := fun p hp => h.adds p (List.mem_cons_of_mem _ hp)
      deletes := fun hc => h.deletes (List.mem_cons_of_mem _ hc)
      digests := fun p hp => h.digests p (List.mem_cons_of_mem _ hp)
      back := ?_ }
  · rw [hrows, List.map_append, List.nodup_append]
    refine ⟨h.ids.sublist (List.filter_sublist.map _), by simp, ?_⟩
    intro d hd e he
    obtain ⟨n, hn, rfl⟩ := List.mem_map.mp hd
    obtain rfl : e = m.chunkId := by simpa using he
    have hne := (List.mem_filter.mp hn).2
    simp only [ChunkMetadata.conflicts, Bool.not_eq_true', Bool.or_eq_false_iff,
      beq_eq_false_iff_ne] at hne
    exact hne.1
  · intro n hn hnt
    rcases hmem n hn with hn | rfl
    · exact h.spent n hn hnt
    · exact hspent
  · by_cases hc : m.chunkId = c
    · exact .inr ⟨m, by rw [hrows]; simp, hc, hlive hc⟩
    · rcases h.waits (r := .add chunk) (fun p hp => by
        obtain rfl := LogRecord.add.inj hp
        exact hid ▸ hc) with hwait | ⟨n, hn, hnc, hnlive⟩
      · exact .inl hwait
      · -- its row has another id and another location
        refine .inr ⟨n, ?_, hnc, hnlive⟩
        rw [hrows]
        refine List.mem_append_left _ (List.mem_filter.mpr ⟨hn, ?_⟩)
        have hloc := hfree n hn
        rw [Ne, Prod.mk.injEq] at hloc
        simp only [ChunkMetadata.conflicts, ht, Bool.not_eq_true', Bool.or_eq_false_iff,
          Bool.and_eq_false_iff, beq_eq_false_iff_ne]
        exact ⟨fun heq => hc (heq ▸ hnc), by tauto⟩

/-- Replaying an add keeps the invariant. -/
theorem replayAdd_revives (ext : Externals) {chunk : MemoryChunk}
    (h : Reviving t c (.add chunk :: rest) s) :
    Yields (fun _ s' => Reviving t c rest s') (replayAdd ext chunk) s := by
  obtain ⟨htenant, hlive⟩ := h.adds chunk List.mem_cons_self
  refine Yields.bind (Yields.read (Q := fun m s' => m = s.db.get chunk.tenantId chunk.chunkId ∧ s = s')
    ⟨rfl, rfl⟩) ?_
  rintro _ _ ⟨rfl, rfl⟩
  refine Yields.bind (Yields.read (Q := fun readable s' => s = s' ∧
    (readable = true → (s.db.get chunk.tenantId chunk.chunkId).isSome)) ⟨rfl, ?_⟩) ?_
  · intro hread
    cases hget : s.db.get chunk.tenantId chunk.chunkId with
    | none => rw [hget] at hread; exact absurd hread (by simp)
    | some m => rfl
  rintro readable _ ⟨rfl, hread⟩
  split
  · -- the chunk is there, and live
    rename_i hreadable
    refine Yields.ret (h.tail rfl ?_)
    by_cases hc : chunk.chunkId = c
    · obtain ⟨m, hget⟩ := Option.isSome_iff_exists.mp (hread hreadable)
      obtain ⟨hm, _, hmc, hmlive⟩ := Db.mem_metadata_of_get hget
      exact .inr ⟨m, hm, hmc.trans hc, hmlive⟩
    · exact h.waits fun p hp => LogRecord.add.inj hp ▸ hc
  · refine Yields.bind (storePayload_yields h.fails _ chunk) ?_
    rintro l s₁ ⟨hgrows, hfree, _, hissued⟩
    have h₁ := h.moves hgrows.moves hgrows.config
    have hspent : s₁.Spent l := (hissued h.active).spent
    have hnew : ∀ n ∈ s₁.db.metadata, n.tenantId = t → (n.segmentId, n.ordinal) ≠ l := by
      rintro n hn hnt rfl
      exact hfree (h.spent n (hgrows.db ▸ hn) hnt).used
    refine Yields.bind (Yields.modify (Q := fun _ s' => Reviving t c rest s') ?_) fun _ _ h₂ => .ret h₂
    cases hget : s.db.get chunk.tenantId chunk.chunkId with
    | some m =>
      obtain ⟨_, hmt, hmc, hmlive⟩ := Db.mem_metadata_of_get hget
      exact h₁.insert hmc (hmt.trans htenant) hspent hnew fun _ => hmlive
    | none => exact h₁.insert rfl htenant hspent hnew fun hc => hlive hc

/-- Another chunk's delete keeps the invariant. -/
theorem Reviving.markDeleted {d : ChunkId} (h : Reviving t c (.delete d :: rest) s) :
    Reviving t c rest (withDb (·.markDeleted t d) s) := by
  have hd : d ≠ c := by
    rintro rfl
    exact h.deletes List.mem_cons_self
  have hrows : (withDb (·.markDeleted t d) s).db.metadata =
      s.db.metadata.map (ChunkMetadata.deletedIn t d) := Db.metadata_markDeleted s.db t d
  have hrest := h.tail rfl (h.waits fun _ hp => absurd hp (by simp))
  refine { hrest with ids := ?_, spent := ?_, back := ?_ }
  · rw [hrows, List.map_map]
    refine (List.map_congr_left fun m _ => ?_) ▸ h.ids
    exact (m.deletedIn_frame t d).1.symm
  · intro n hn
    rw [hrows] at hn
    obtain ⟨m, hm, rfl⟩ := List.mem_map.mp hn
    obtain ⟨_, htenant, hseg, hord⟩ := m.deletedIn_frame t d
    rw [htenant, hseg, hord]
    exact h.spent m hm
  · rcases hrest.back with hwait | ⟨m, hm, hmc, hlive⟩
    · exact .inl hwait
    · refine .inr ⟨m, ?_, hmc, hlive⟩
      rw [hrows]
      refine List.mem_map.mpr ⟨m, hm, if_neg ?_⟩
      exact fun hin => hd (hin.2.1.symm.trans hmc)

/-- Replaying another chunk's delete keeps the invariant. -/
theorem replayDelete_revives {d : ChunkId} (h : Reviving t c (.delete d :: rest) s) :
    Yields (fun _ s' => Reviving t c rest s') (replayDelete t d) s := by
  refine Yields.bind (Yields.read (Q := fun m s' => m = s.db.get t d ∧ s = s') ⟨rfl, rfl⟩) ?_
  rintro _ _ ⟨rfl, rfl⟩
  cases s.db.get t d with
  | none => exact Yields.ret (h.tail rfl (h.waits fun _ hp => absurd hp (by simp)))
  | some m =>
    refine Yields.bind (Yields.modify (Q := fun _ s' => Reviving t c rest s') h.markDeleted) ?_
    intro _ s₁ h₁
    refine Yields.modify (h₁.moves (moves_tombstone m.segmentId m.ordinal s₁) ?_)
    unfold tombstone
    split <;> rfl

/-- An accepted artifact writes the task tables. -/
theorem insertTaskArtifactBundle_revives {p : TaskArtifactWalPayload}
    (h : Reviving t c (.taskArtifact p :: rest) s) :
    Yields (fun _ s' => Reviving t c rest s') (insertTaskArtifactBundle p) s := by
  have haccepts := h.accepted
  rw [show artifactsOf (.taskArtifact p :: rest) = p.artifact :: artifactsOf rest from rfl,
    Guards.acceptsAll, Bool.and_eq_true] at haccepts
  have hsafe := Db.ensureTaskArtifactWriteSafe_eq_ok.mpr haccepts.1
  have hrows := Db.metadata_applyBundle s.db (h.digests p List.mem_cons_self) p.projectionChunkIds
    p.projectionKinds
  have hguards := Db.guards_applyBundle s.db p.artifact p.projectionChunkIds p.projectionKinds
  have hstep : Db.insertTaskArtifactBundle s.db p.artifact p.projectionChunkIds p.projectionKinds =
      .ok ((), s.db.applyBundle p.artifact p.projectionChunkIds p.projectionKinds) := by
    rw [Db.insertTaskArtifactBundle, hsafe]
  have hback := h.waits fun _ hp => absurd hp (by simp)
  refine Yields.perform (a := ()) (by simp [hstep, Except.map, commit]) ?_
  simp only [hstep, Except.map, commit]
  exact
    { fails := h.fails
      accepted := hguards ▸ haccepts.2
      ids := by rw [hrows]; exact h.ids
      spent := by rw [hrows]; exact h.spent
      active := h.active
      adds := fun p hp => h.adds p (List.mem_cons_of_mem _ hp)
      deletes := fun hc => h.deletes (List.mem_cons_of_mem _ hc)
      digests := fun p hp => h.digests p (List.mem_cons_of_mem _ hp)
      back := by rw [hrows]; exact hback }

/-- **Replaying a record** keeps the invariant. -/
theorem replayRecord_revives (ext : Externals) (adds : ℕ) {r : LogRecord}
    (h : Reviving t c (r :: rest) s) :
    Yields (fun _ s' => Reviving t c rest s') (replayRecord ext t adds r) s := by
  cases r with
  | add chunk => exact Yields.bind (replayAdd_revives ext h) fun _ _ h₁ => .ret h₁
  | delete d => exact Yields.bind (replayDelete_revives h) fun _ _ h₁ => .ret h₁
  | taskArtifact p => exact Yields.bind (insertTaskArtifactBundle_revives h) fun _ _ h₁ => .ret h₁
  | checkpoint => exact Yields.ret (h.tail rfl (h.waits fun _ hp => absurd hp (by simp)))

/-- A row of the chunk is live, and no other row has its id. -/
def Live (c : ChunkId) (s : Store) : Prop :=
  (s.db.metadata.map (·.chunkId)).Nodup ∧ ∃ m ∈ s.db.metadata, m.chunkId = c ∧ m.status ≠ .deleted

/-- Behind the last record the chunk is live. -/
theorem Reviving.live (h : Reviving t c [] s) : Live c s := by
  refine ⟨h.ids, h.back.resolve_left ?_⟩
  rintro ⟨p, hp, _⟩
  exact absurd hp (by simp)

/-- **The replay** leaves the chunk live. -/
theorem recoverFromWal_revives (ext : Externals) (h : Reviving t c s.recordsForRecovery s) :
    Yields (fun _ s' => Live c s') (recoverFromWal ext t) s := by
  refine Yields.bind (Yields.read (Q := fun records s' => records = s.recordsForRecovery ∧ s = s')
    ⟨rfl, rfl⟩) ?_
  rintro _ _ ⟨rfl, rfl⟩
  split
  · rename_i hnil
    rw [hnil] at h
    exact Yields.ret h.live
  refine Yields.bind (Yields.foldlM (P := fun _ rest s' => Reviving t c rest s')
    (fun adds r rest s₁ h₁ => replayRecord_revives ext adds h₁) _ 0 h) ?_
  intro adds s₁ h₁
  have htruncate : ∀ {s' : Store}, Live c s' → Yields (fun _ s'' => Live c s'')
      (.modify .walTruncate fun s => { s with wal := [] } : StoreProg Unit) s' :=
    fun h' => Yields.modify h'
  split
  · obtain ⟨hok, hgrows⟩ := finalizeActive_spec h₁.fails
    refine Yields.bind (Yields.perform (Q := fun _ s' => Live c s') hok ?_) fun _ _ h₂ => htruncate h₂
    exact (h₁.moves hgrows.moves hgrows.config).live
  · exact htruncate h₁.live

end Revive

/-! ## A reopening that goes through -/

section Reopen

variable {t : TenantId} {c : ChunkId} {s : Store}

/-- A handle that is lost, or taken anew, leaves the locations spent. -/
theorem moves_of_files {s' : Store} (hdb : s'.db = s.db) (hwal : s'.wal = s.wal)
    (hd : s'.segmentDirs = s.segmentDirs) (ha : s'.handle.activeSegment = none) : Moves s s' :=
  ⟨hdb, hwal, fun _ hl => hl.closed hd ha, fun _ => activeDir_of_none ha⟩

/-- Opening the segments keeps the invariant. -/
theorem Reviving.loadSegments (h : Reviving t c s.recordsForRecovery s) {cfg : StoreConfig}
    (hcfg : cfg.finalizeFails = []) :
    Reviving t c (loadSegments cfg s).recordsForRecovery (loadSegments cfg s) := by
  have hs : Moves s (TenantStore.loadSegments cfg s) := moves_of_files rfl rfl rfl rfl
  exact
    { h with
      fails := hcfg
      spent := fun m hm ht => hs.spent _ (h.spent m hm ht)
      active := hs.active h.active }

/-- **A reopening goes through** when the guards accept the artifacts of the log, and a chunk that
is added by the log and not deleted by it has a live row afterwards. -/
theorem openTenant_revives (ext : Externals) (h : Reviving t c s.recordsForRecovery s)
    {cfg : StoreConfig} (hcfg : cfg.finalizeFails = []) :
    Yields (fun _ s' => Live c s') (openTenant ext t cfg) s := by
  refine Yields.bind (Yields.modify (Q := fun _ s' => Reviving t c s'.recordsForRecovery s')
    (h.loadSegments hcfg)) ?_
  intro _ s₁ h₁
  refine Yields.bind (recoverFromWal_revives ext h₁).attempt ?_
  rintro _ s₂ ⟨u, rfl, h₂⟩
  exact Yields.ret h₂

/-- A live chunk does not read as deleted. -/
theorem Live.statusOf_ne (h : Live c s) : s.db.statusOf c ≠ some .deleted := by
  obtain ⟨hids, m, hm, rfl, hlive⟩ := h
  rw [Db.statusOf_of_mem hids hm]
  exact fun hdel => hlive (Option.some.inj hdel)

/-- **A deleted chunk comes back** when the log adds it and does not delete it. -/
theorem not_survive_of_revived (ext : Externals) (h : Reviving t c s.recordsForRecovery s)
    (hdel : s.db.statusOf c = some .deleted) : ¬ StatusesSurvive ext t s := by
  intro hsurvive
  have hcrash : Reviving t c (Store.crash s).recordsForRecovery (Store.crash s) := by
    have hs : Moves s (Store.crash s) := moves_of_files rfl rfl rfl rfl
    exact
      { h with
        fails := rfl
        spent := fun m hm ht => hs.spent _ (h.spent m hm ht)
        active := hs.active h.active }
  obtain ⟨_, s', hrun, hlive⟩ := openTenant_revives ext hcrash h.fails
  have hstop : (restarts ext t).step ⟨s, .up [], []⟩ .crash =
      some ⟨Store.crash s, .down, [.crashed]⟩ := rfl
  have hdown : (restarts ext t).Reach (fun _ _ => True) ⟨s, .up [], []⟩
      ⟨Store.crash s, .down, [.crashed]⟩ :=
    .step .refl (fun _ _ => trivial) hstop
  have hopen := hsurvive _ (System.Reach.reboot s.handle.config hdown hrun) [] rfl
  refine hlive.statusOf_ne ?_
  rw [hopen]
  exact hdel

end Reopen

/-! ## A log that is refused -/

section Refused

variable {t : TenantId} {A : StoreStep → Store → Prop} {rest : List LogRecord} {s s' : Store}

/-- The artifacts of two pieces of a log. -/
theorem artifactsOf_append (l l' : List LogRecord) :
    artifactsOf (l ++ l') = artifactsOf l ++ artifactsOf l' :=
  List.filterMap_append

/-- Midway in the replay of a log that will be refused: `done` has been accepted. -/
structure Refusing (rest : List LogRecord) (s : Store) : Prop where
  midway : ∃ (g : Guards) (done : List LogRecord), s.recordsForRecovery = done ++ rest ∧
    g.acceptsAll (artifactsOf (done ++ rest)) = false ∧ g.acceptsAll (artifactsOf done) = true ∧
    s.db.guards = g.writeAll (artifactsOf done)

/-- A crash finds a log that is refused. -/
theorem Refusing.refused (h : Refusing rest s) : s.replayable = false := by
  obtain ⟨g, done, hrecords, hall, hdone, hguards⟩ := h.midway
  rw [Store.replayable, hrecords, hguards]
  rw [artifactsOf_append] at hall ⊢
  cases hagain : (g.writeAll (artifactsOf done)).acceptsAll (artifactsOf done ++ artifactsOf rest) with
  | false => rfl
  | true => exact absurd (Guards.acceptsAll_again hdone hagain) (by simp [hall])

/-- A step that leaves the guards and the log alone keeps the invariant. -/
theorem Refusing.quiet (h : Refusing rest s) (hguards : s'.db.guards = s.db.guards)
    (hwal : s'.wal = s.wal) : Refusing rest s' := by
  obtain ⟨g, done, hrecords, hall, hdone, hg⟩ := h.midway
  refine ⟨g, done, ?_, hall, hdone, hguards.trans hg⟩
  rw [recordsForRecovery, hwal]
  exact hrecords

/-- A step on the segments keeps the invariant. -/
theorem Refusing.moves (h : Refusing rest s) (hs : Moves s s') : Refusing rest s' :=
  h.quiet hs.guards hs.wal

/-- A record without an artifact keeps the refused one ahead. -/
theorem Refusing.tail {r : LogRecord} (h : Refusing (r :: rest) s) (hr : artifactsOf [r] = []) :
    Refusing rest s := by
  obtain ⟨g, done, hrecords, hall, hdone, hg⟩ := h.midway
  refine ⟨g, done ++ [r], by simp [hrecords], ?_, ?_, ?_⟩
  · rwa [List.append_assoc]
  · rw [artifactsOf_append, hr, List.append_nil]
    exact hdone
  · rw [artifactsOf_append, hr, List.append_nil]
    exact hg

/-- Replaying an add keeps the refused artifact ahead. -/
theorem safe_replayAdd_refusing (ext : Externals) {chunk : MemoryChunk}
    (h : Refusing (.add chunk :: rest) s) :
    Safe A anyStep (fun s' => s'.replayable = false)
      (fun r s' => ∀ b, r = .ok b → Refusing rest s') (replayAdd ext chunk) s := by
  have h₀ : Refusing rest s := h.tail rfl
  refine Safe.read_bind anyStep_refl fun _ => ?_
  refine Safe.read_bind anyStep_refl fun _ => ?_
  split
  · exact Safe.ret fun _ _ _ => h₀
  · refine Safe.bind (safe_storePayload_moves (fun _ hs => (h₀.moves hs).refused) _ chunk) ?_ ?_
    · rintro l s₁ _ ⟨hmoves, _⟩
      have h₁ : ∀ row, Refusing rest (withDb (·.insert row) s₁) :=
        fun _ => (h₀.moves hmoves).quiet rfl rfl
      refine Safe.modify_bind fun _ _ => ⟨trivial, (h₁ _).refused, ?_⟩
      exact Safe.ret fun _ _ _ => h₁ _
    · exact fun e s₁ _ _ b hb => absurd hb (by simp)

/-- Replaying a delete keeps the refused artifact ahead. -/
theorem safe_replayDelete_refusing {c : ChunkId} (h : Refusing (.delete c :: rest) s) :
    Safe A anyStep (fun s' => s'.replayable = false) (fun r s' => r = .ok () → Refusing rest s')
      (replayDelete t c) s := by
  have h₀ : Refusing rest s := h.tail rfl
  refine Safe.read_bind anyStep_refl fun _ => ?_
  cases s.db.get t c with
  | none => exact Safe.ret fun _ _ => h₀
  | some m =>
    have h₁ : Refusing rest (withDb (·.markDeleted t c) s) := h₀.quiet rfl rfl
    have h₂ := h₁.moves (moves_tombstone m.segmentId m.ordinal _)
    refine Safe.modify_bind fun _ _ => ⟨trivial, h₁.refused, ?_⟩
    exact Safe.modify fun _ _ => ⟨trivial, h₂.refused, fun _ _ => h₂⟩

/-- An artifact is refused, or accepted and written. -/
theorem safe_replayArtifact_refusing {p : TaskArtifactWalPayload}
    (h : Refusing (.taskArtifact p :: rest) s) :
    Safe A anyStep (fun s' => s'.replayable = false) (fun r s' => r = .ok () → Refusing rest s')
      (insertTaskArtifactBundle p) s := by
  obtain ⟨g, done, hrecords, hall, hdone, hg⟩ := h.midway
  refine Safe.perform fun _ _ => ?_
  cases hsafe : s.db.ensureTaskArtifactWriteSafe p.artifact with
  | error e =>
    simp only [Db.insertTaskArtifactBundle, hsafe, Except.map, Proc.commit]
    exact ⟨trivial, h.refused, fun _ hr => absurd hr (by simp)⟩
  | ok _ =>
    have haccepts := Db.ensureTaskArtifactWriteSafe_eq_ok.mp hsafe
    have h₁ : Refusing rest { s with
        db := s.db.applyBundle p.artifact p.projectionChunkIds p.projectionKinds } := by
      refine ⟨g, done ++ [.taskArtifact p], ?_, ?_, ?_, ?_⟩
      · show s.recordsForRecovery = _
        rw [hrecords, List.append_assoc]
        rfl
      · rwa [List.append_assoc]
      · rw [artifactsOf_append, Guards.acceptsAll_append, hdone, ← hg]
        show (s.db.guards.accepts p.artifact && true) = true
        rw [haccepts]
        rfl
      · show (s.db.applyBundle p.artifact p.projectionChunkIds p.projectionKinds).guards = _
        rw [Db.guards_applyBundle, hg, artifactsOf_append, Guards.writeAll, Guards.writeAll,
          List.foldl_append]
        rfl
    simp only [Db.insertTaskArtifactBundle, hsafe, Except.map, Proc.commit]
    exact ⟨trivial, h₁.refused, fun _ _ => h₁⟩

/-- **Replaying a record** keeps the refused artifact ahead, or fails. -/
theorem safe_replayRecord_refusing (ext : Externals) (adds : ℕ) {r : LogRecord}
    (h : Refusing (r :: rest) s) :
    Safe A anyStep (fun s' => s'.replayable = false)
      (fun out s' => ∀ n, out = .ok n → Refusing rest s') (replayRecord ext t adds r) s := by
  cases r with
  | add chunk =>
    refine Safe.bind (safe_replayAdd_refusing ext h) ?_ ?_
    · exact fun b s₁ _ h₁ => Safe.ret fun _ n _ => h₁ b rfl
    · exact fun e s₁ _ _ n hn => absurd hn (by simp)
  | delete c =>
    refine Safe.bind (safe_replayDelete_refusing h) ?_ ?_
    · exact fun _ s₁ _ h₁ => Safe.ret fun _ n _ => h₁ rfl
    · exact fun e s₁ _ _ n hn => absurd hn (by simp)
  | taskArtifact p =>
    refine Safe.bind (safe_replayArtifact_refusing h) ?_ ?_
    · exact fun _ s₁ _ h₁ => Safe.ret fun _ n _ => h₁ rfl
    · exact fun e s₁ _ _ n hn => absurd hn (by simp)
  | checkpoint => exact Safe.ret fun _ n _ => h.tail rfl

/-- A replay that begins with a log that is refused does not end. -/
theorem safe_recoverFromWal_refused (ext : Externals) (h : s.replayable = false) :
    Safe A anyStep (fun s' => s'.replayable = false) (fun r _ => r ≠ .ok ())
      (recoverFromWal ext t) s := by
  have hstart : Refusing s.recordsForRecovery s :=
    ⟨s.db.guards, [], rfl, h, rfl, rfl⟩
  have hend : ∀ {s' : Store}, ¬ Refusing [] s' := by
    rintro s' ⟨g, done, _, hall, hdone, _⟩
    rw [List.append_nil] at hall
    exact absurd (hall.symm.trans hdone) (by simp)
  refine Safe.read_bind anyStep_refl fun _ => ?_
  split
  · rename_i hnil
    rw [hnil] at hstart
    exact absurd hstart hend
  refine Safe.bind (Q := fun r _ => ∀ n, r ≠ .ok n) ?_ ?_ ?_
  · refine Safe.foldlM (P := fun _ rest s' => Refusing rest s') ?_ ?_ _ _ h hstart
    · intro adds r rest s₁ _ h₁
      refine (safe_replayRecord_refusing ext adds h₁).post ?_
      intro out s₂ _ h₂
      cases out with
      | ok n => exact h₂ n rfl
      | error e => exact fun n hn => absurd hn (by simp)
    · exact fun adds s₁ _ h₁ => absurd h₁ hend
  · exact fun adds s₁ _ h₁ => absurd rfl (h₁ adds)
  · exact fun e s₁ _ _ hr => absurd hr (by simp)

/-- **A refused artifact** in the log stops every open. -/
theorem safe_openTenant_refused (ext : Externals) (h : s.replayable = false) (cfg : StoreConfig) :
    Safe A anyStep (fun s' => s'.replayable = false) (fun r _ => r ≠ .ok ())
      (openTenant ext t cfg) s := by
  have hmoves : ∀ {s₁ s₂ : Store}, s₁.replayable = false → Moves s₁ s₂ → s₂.replayable = false := by
    intro s₁ s₂ h₁ hs
    rw [Store.replayable, hs.db, recordsForRecovery, hs.wal]
    exact h₁
  have hload : (TenantStore.loadSegments cfg s).replayable = false := h
  refine Safe.modify_bind fun _ _ => ⟨trivial, hload, ?_⟩
  refine Safe.bind (Q := fun r s' => s'.replayable = false ∧ r ≠ .ok (.ok ())) ?_ ?_ ?_
  · refine Safe.attempt ((safe_recoverFromWal_refused ext hload).post ?_)
    exact fun r s₂ h₂ hr => ⟨h₂, fun hok => hr (by simpa using hok)⟩
  · rintro outcome s₂ _ ⟨h₂, hok⟩
    cases outcome with
    | ok _ => exact absurd rfl hok
    | error e =>
      refine Safe.bind (Q := fun _ _ => True) (Safe.attempt (Safe.post
        (safe_finalizeIfAboveThreshold_moves fun _ hs => hmoves h₂ hs) fun _ _ _ _ => trivial)) ?_ ?_
      · exact fun _ s₃ _ _ => Safe.fail fun _ hr => absurd hr (by simp)
      · exact fun e s₃ _ _ hr => absurd hr (by simp)
  · exact fun e s₂ _ _ hr => absurd hr (by simp)

/-- A refused artifact in the log stops every later session. -/
theorem serial_refused (ext : Externals) (t : TenantId) (ref : ChunkId → Option ChunkStatus) :
    System.Serial (restarts ext t) (fun _ _ => True) anyStep
      (fun s _ => s.db.statusOf = ref ∧ s.replayable = false) (fun s _ => s.replayable = false) where
  refl := anyStep_refl
  crashStep _ := trivial
  admits _ _ h := absurd h (by simp [restarts])
  crash _ _ h := h
  crashed _ _ h := h
  up _ _ h := h.2
  call _ _ op := nomatch op
  boot _ _ cfg h := (safe_openTenant_refused ext h cfg).post fun _ _ _ hr hok => absurd hok hr

/-- **A store whose log is refused** is never open again. -/
theorem survive_of_refused (ext : Externals) (h : s.replayable = false) : StatusesSurvive ext t s := by
  intro c hrun pool hup
  have hinv := System.reach_serial (serial_refused ext t s.db.statusOf)
    (show System.SerialInv _ _ _ _ ⟨s, .up [], []⟩ from ⟨rfl, h⟩) hrun
  exact (hinv.up hup).1

end Refused
