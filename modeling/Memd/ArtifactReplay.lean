/-
# Reopening a tenant whose log holds task artifacts

The tables of the task artifacts are shared by all tenants, each of which has its own log,
segments and handle (`Cluster`).  `add_task_artifact` checks its artifact against the tables,
appends it to the log of its tenant and inserts it later; reopening a tenant inserts what its
log holds once more.  An artifact that was logged and has not reached the tables is invisible
to the checks of other calls, so two artifacts that exclude each other can both be logged,
and then the log of one of them cannot be replayed any more.

* `open_accepts_log` — as long as the logged artifacts are pairwise compatible, no reopening
  is refused, whatever the order of the steps and wherever calls fail;
* `clashing_log_refused` — a run in which it is.
-/
import Memd.Session
import Memd.StoreSteps

open Store TenantStore PersistentStore

/-! ## Many tenants over one database -/

/-- What belongs to one tenant. -/
structure TenantPart where
  wal : List LogRecord := []
  segmentDirs : List SegmentDir := []
  handle : Handle := {}
  deriving DecidableEq, Repr

/-- The database and the parts of all tenants. -/
structure Cluster where
  db : Db := {}
  nextId : ChunkId := 0
  parts : TenantId → TenantPart := fun _ => {}

namespace Cluster

/-- The store as the programs of one tenant see it. -/
def view (t : TenantId) (c : Cluster) : Store :=
  ⟨c.db, c.nextId, (c.parts t).wal, (c.parts t).segmentDirs, (c.parts t).handle⟩

/-- A step of a program of one tenant. -/
def step (t : TenantId) (_ : StoreStep) (upd : Store → Store) (c : Cluster) : Cluster where
  db := (upd (c.view t)).db
  nextId := (upd (c.view t)).nextId
  parts := Function.update c.parts t
    ⟨(upd (c.view t)).wal, (upd (c.view t)).segmentDirs, (upd (c.view t)).handle⟩

/-- A crash of the process: every handle is lost. -/
def crash (c : Cluster) : Cluster :=
  { c with parts := fun t => { c.parts t with handle := {} } }

end Cluster

/-- The calls of a run.  `failAfter` cuts a write off after a number of steps. -/
inductive ArtifactOp
  | openTenant (t : TenantId) (cfg : StoreConfig)
  | addTaskArtifact (artifact : TaskArtifact) (projections : List TaskProjection)
      (indexError : Option String) (now : ℤ) (failAfter : Option ℕ)
  deriving DecidableEq, Repr

/-- The program of a call, with what it returns left out. -/
def ArtifactOp.prog (ext : Externals) : ArtifactOp → Proc StoreStep Cluster MemdError Unit
  | .openTenant t cfg => (TenantStore.openTenant ext t cfg).onPart (Cluster.view t) (Cluster.step t)
  | .addTaskArtifact artifact projections indexError now failAfter =>
    let write : StoreProg Unit := do
      let _ ← PersistentStore.addTaskArtifact ext artifact projections indexError now
      pure ()
    let write := match failAfter with
      | none => write
      | some n => write.cut (.storageError "I/O error") n
    write.onPart (Cluster.view artifact.tenantId) (Cluster.step artifact.tenantId)

/-- Writers of all tenants and reopenings of tenants, overlapping in any way.  A write opens
its tenant on demand in the source; here somebody reopens it at that moment. -/
def artifactStore (ext : Externals) : System StoreStep Cluster MemdError ArtifactOp Unit Unit where
  prog := ArtifactOp.prog ext
  boot _ := .ret ()
  crash := Cluster.crash
  admits _ _ := true

/-! ## Compatible artifacts -/

/-- Two artifacts that the tables can hold one after the other, in either order. -/
def TaskArtifact.Compatible (a b : TaskArtifact) : Prop :=
  (a.artifactId = b.artifactId → a = b ∨ a.experience = none ∧ b.experience = none) ∧
  (a.artifactKind ≠ .digest → b.artifactKind ≠ .digest → a.taskId = b.taskId →
    a.tenantId = b.tenantId)

instance (a b : TaskArtifact) : Decidable (a.Compatible b) := by
  unfold TaskArtifact.Compatible
  infer_instance

section Compatible

variable (G : TaskArtifact → Prop)

/-- The rows of the task tables come from artifacts in `G`. -/
structure TablesFrom (db : Db) : Prop where
  artifacts : ∀ a ∈ db.taskArtifacts, G a
  tasks : ∀ r ∈ db.tasks, ∃ a, G a ∧ a.artifactKind ≠ .digest ∧ a.taskId = r.taskId ∧
    a.tenantId = r.tenantId

/-- The artifacts of the log are in `G`. -/
def LogFrom (wal : List LogRecord) : Prop :=
  ∀ p, .taskArtifact p ∈ wal → G p.artifact

variable {G}

/-- The same tables have the same sources. -/
theorem TablesFrom.congr {db db' : Db} (h : TablesFrom G db)
    (ha : db'.taskArtifacts = db.taskArtifacts) (ht : db'.tasks = db.tasks) : TablesFrom G db' :=
  ⟨ha ▸ h.artifacts, ht ▸ h.tasks⟩

/-- Tables that hold compatible artifacts only let a compatible one pass. -/
theorem ensure_ok {db : Db} (hG : ∀ a b, G a → G b → a.Compatible b) (h : TablesFrom G db)
    {a : TaskArtifact} (ha : G a) : db.ensureTaskArtifactWriteSafe a = .ok () := by
  have hartifact : Db.rejectExperienceArtifactOverwrite
      (db.taskArtifacts.find? (·.artifactId == a.artifactId)) a = .ok () := by
    cases hfind : db.taskArtifacts.find? (·.artifactId == a.artifactId) with
    | none => rfl
    | some b =>
      have hb := h.artifacts b (List.mem_of_find?_eq_some hfind)
      have hid : b.artifactId = a.artifactId := by simpa using List.find?_some hfind
      rcases (hG b a hb ha).1 hid with rfl | ⟨hnone, hnone'⟩
      · simp [Db.rejectExperienceArtifactOverwrite]
      · simp [Db.rejectExperienceArtifactOverwrite, hnone, hnone']
  have htask : a.artifactKind ≠ .digest → Db.rejectCrossTenantTaskWrite
      ((db.tasks.find? (·.taskId == a.taskId)).map (·.tenantId)) a = .ok () := by
    intro hkind
    cases hfind : db.tasks.find? (·.taskId == a.taskId) with
    | none => rfl
    | some r =>
      obtain ⟨b, hb, hbkind, hbtask, hbtenant⟩ := h.tasks r (List.mem_of_find?_eq_some hfind)
      have hid : r.taskId = a.taskId := by simpa using List.find?_some hfind
      have htenant := (hG b a hb ha).2 hbkind hkind (hbtask.trans hid)
      simp [Db.rejectCrossTenantTaskWrite, ← hbtenant, htenant]
  unfold Db.ensureTaskArtifactWriteSafe
  rw [hartifact]
  by_cases hkind : a.artifactKind = .digest
  · simp [hkind, bind, Except.bind, pure, Except.pure]
  · simp [hkind, htask hkind, bind, Except.bind]

/-- A task behind an upsert keeps id and tenant, or is the new one. -/
theorem mem_upsertTask {tasks : List TaskRow} {new r : TaskRow} (h : r ∈ Db.upsertTask tasks new) :
    (∃ r₀ ∈ tasks, r₀.taskId = r.taskId ∧ r₀.tenantId = r.tenantId) ∨ r = new := by
  unfold Db.upsertTask at h
  split at h
  · obtain ⟨r₀, hr₀, rfl⟩ := Table.mem_updateWhere.mp h
    refine .inl ⟨r₀, hr₀, ?_⟩
    split <;> exact ⟨rfl, rfl⟩
  · rcases List.mem_append.mp h with h | h
    · exact .inl ⟨r, h, rfl, rfl⟩
    · exact .inr (List.mem_singleton.mp h)

/-- Statements that leave the task tables alone, one after the other. -/
theorem tables_foldl {α : Type} {f : Db → α → Db}
    (hf : ∀ db y, (f db y).taskArtifacts = db.taskArtifacts ∧ (f db y).tasks = db.tasks)
    (l : List α) (db : Db) :
    (l.foldl f db).taskArtifacts = db.taskArtifacts ∧ (l.foldl f db).tasks = db.tasks := by
  induction l generalizing db with
  | nil => exact ⟨rfl, rfl⟩
  | cons y l ih =>
    rw [List.foldl_cons]
    exact ⟨(ih _).1.trans (hf db y).1, (ih _).2.trans (hf db y).2⟩

/-- The task tables of a bundle: only the first group of statements writes them. -/
theorem applyBundle_tables (db : Db) (a : TaskArtifact) (projections : List ChunkId)
    (kinds : List String) :
    (db.applyBundle a projections kinds).taskArtifacts = (db.writeTaskRows a).taskArtifacts ∧
      (db.applyBundle a projections kinds).tasks = (db.writeTaskRows a).tasks := by
  have hold : ∀ db : Db, (db.retireOldProjections a projections).taskArtifacts = db.taskArtifacts ∧
      (db.retireOldProjections a projections).tasks = db.tasks := by
    intro db
    apply tables_foldl
    exact fun _ _ => ⟨rfl, rfl⟩
  have hdup : ∀ db : Db, (db.retireDuplicates a projections).taskArtifacts = db.taskArtifacts ∧
      (db.retireDuplicates a projections).tasks = db.tasks := by
    intro db
    apply tables_foldl
    exact fun _ _ => ⟨rfl, rfl⟩
  unfold Db.applyBundle
  dsimp only
  by_cases hkind : a.artifactKind = .digest
  · simp only [hkind, if_true]
    exact ⟨(hdup _).1.trans (hold _).1, (hdup _).2.trans (hold _).2⟩
  · simp only [hkind, if_false]
    exact ⟨rfl, rfl⟩

/-- A bundle of a good artifact keeps the sources good. -/
theorem TablesFrom.applyBundle {db : Db} (h : TablesFrom G db) {a : TaskArtifact} (ha : G a)
    (projections : List ChunkId) (kinds : List String) :
    TablesFrom G (db.applyBundle a projections kinds) := by
  obtain ⟨hartifacts, htasks⟩ := applyBundle_tables db a projections kinds
  refine TablesFrom.congr ?_ hartifacts htasks
  constructor
  · intro b hb
    rcases List.mem_append.mp hb with hb | hb
    · exact h.artifacts b (List.mem_of_mem_filter hb)
    · obtain rfl := List.mem_singleton.mp hb
      exact ha
  · intro r hr
    by_cases hkind : a.artifactKind = .digest
    · have hr' : r ∈ db.tasks := by simpa [Db.writeTaskRows, hkind] using hr
      exact h.tasks r hr'
    · have hr' : r ∈ Db.upsertTask db.tasks (Db.taskRowOf a) := by
        simpa [Db.writeTaskRows, hkind] using hr
      rcases mem_upsertTask hr' with ⟨r₀, hr₀, htask, htenant⟩ | rfl
      · obtain ⟨b, hb, hbkind, hbtask, hbtenant⟩ := h.tasks r₀ hr₀
        exact ⟨b, hb, hbkind, hbtask.trans htask, hbtenant.trans htenant⟩
      · exact ⟨a, ha, hkind, rfl, rfl⟩

end Compatible

/-! ## Steps that write no artifact -/

/-- A step that leaves the task tables alone and logs no artifact. -/
structure TaskQuiet (upd : Store → Store) : Prop where
  artifacts : ∀ s, (upd s).db.taskArtifacts = s.db.taskArtifacts
  tasks : ∀ s, (upd s).db.tasks = s.db.tasks
  log : ∀ s p, .taskArtifact p ∈ (upd s).wal → .taskArtifact p ∈ s.wal

/-- A step that changes nothing is quiet. -/
theorem taskQuiet_id : TaskQuiet id :=
  ⟨fun _ => rfl, fun _ => rfl, fun _ _ h => h⟩

/-- A statement on the other tables. -/
theorem taskQuiet_withDb {f : Db → Db}
    (h : ∀ db, (f db).taskArtifacts = db.taskArtifacts ∧ (f db).tasks = db.tasks) :
    TaskQuiet (withDb f) :=
  ⟨fun s => (h s.db).1, fun s => (h s.db).2, fun _ _ h => h⟩

/-- A step on files and the handle. -/
theorem taskQuiet_of_db {upd : Store → Store} (hdb : ∀ s, (upd s).db = s.db)
    (hwal : ∀ s, (upd s).wal = s.wal) : TaskQuiet upd :=
  ⟨fun s => by rw [hdb], fun s => by rw [hdb], fun s p h => hwal s ▸ h⟩

/-- The error is none of the guards'. -/
def IsStorageError (e : MemdError) : Prop :=
  ∀ msg, e ≠ .validationError msg

/-- A program that writes no artifact and fails with storage errors only. -/
structure TaskSilent {α : Type} (p : StoreProg α) : Prop where
  steps : p.All fun _ upd => TaskQuiet upd
  errors : p.FailsWith IsStorageError

section Silent

variable {α β γ : Type}

/-- A value writes no artifact. -/
theorem TaskSilent.ret (a : α) : TaskSilent (.ret a : StoreProg α) :=
  ⟨trivial, trivial⟩

/-- Programs that write no artifact compose. -/
theorem TaskSilent.bind {p : StoreProg α} {f : α → StoreProg β} (hp : TaskSilent p) (hf : ∀ a, TaskSilent (f a)) :
    TaskSilent (p.bind f) :=
  ⟨hp.steps.bind fun a => (hf a).steps, hp.errors.bind fun a => (hf a).errors⟩

/-- A read writes none. -/
theorem TaskSilent.read (l : StoreStep) (f : Store → α) : TaskSilent (Proc.read l f : StoreProg α) :=
  ⟨.read _ taskQuiet_id, fun _ => trivial⟩

/-- A quiet write writes none. -/
theorem TaskSilent.modify {l : StoreStep} {upd : Store → Store} (h : TaskQuiet upd) :
    TaskSilent (.modify l upd : StoreProg Unit) :=
  ⟨.modify h, fun _ => trivial⟩

/-- Nor does a quiet step that fails with storage errors only. -/
theorem TaskSilent.perform {l : StoreStep} {f : Store → Except MemdError α × Store}
    (h : TaskQuiet fun s => (f s).2) (herr : ∀ s e, (f s).1 = .error e → IsStorageError e) :
    TaskSilent (.perform l f : StoreProg α) :=
  ⟨.perform h, .perform herr⟩

/-- Nor an attempt. -/
theorem TaskSilent.attempt {p : StoreProg α} (hp : TaskSilent p) : TaskSilent p.attempt :=
  ⟨hp.steps.attempt, .attempt p⟩

end Silent

/-- Sealing fails with storage errors only. -/
theorem isStorageError_sealActive {s : Store} {a : ActiveSegment} {e : MemdError}
    (h : (s.sealActive a).1 = .error e) : IsStorageError e := by
  unfold sealActive at h
  split at h
  · obtain rfl := Except.error.inj h
    exact fun msg => by simp
  · exact absurd h (by simp)

/-- Storing a payload writes no artifact. -/
theorem silent_storePayload (msg : String) (chunk : MemoryChunk) : TaskSilent (storePayload msg chunk) := by
  refine TaskSilent.bind (.read _ _) fun maxChunks => ?_
  refine TaskSilent.bind (TaskSilent.bind (TaskSilent.perform ?_ ?_) fun _ => TaskSilent.modify ?_) fun _ =>
    TaskSilent.perform ?_ ?_
  · exact taskQuiet_of_db (rotateIfFull_db maxChunks) (rotateIfFull_wal maxChunks)
  · intro s e h
    unfold rotateIfFull at h
    split at h
    · split at h
      · exact absurd h (by simp)
      · exact isStorageError_sealActive h
    · exact absurd h (by simp)
  · exact taskQuiet_of_db createIfNone_db createIfNone_wal
  · exact taskQuiet_of_db (appendToActive_db msg chunk) (appendToActive_wal msg chunk)
  · intro s e h
    unfold appendToActive at h
    split at h
    · obtain rfl := Except.error.inj h
      exact fun msg => by simp
    · exact absurd h (by simp)

/-- Nor does a finalization. -/
theorem silent_finalizeActiveSegment (l : StoreStep) : TaskSilent (finalizeActiveSegment l) := by
  refine TaskSilent.perform (taskQuiet_of_db finalizeActive_db finalizeActive_wal) ?_
  intro s e h
  unfold finalizeActive at h
  split at h
  · exact absurd h (by simp)
  · split at h
    · exact isStorageError_sealActive h
    · exact absurd h (by simp)

/-- Nor the replay of an Add record. -/
theorem silent_replayAdd (ext : Externals) (chunk : MemoryChunk) : TaskSilent (replayAdd ext chunk) := by
  refine TaskSilent.bind (.read _ _) fun existing => ?_
  refine TaskSilent.bind (.read _ _) fun readable => ?_
  split
  · exact .ret false
  · refine TaskSilent.bind (silent_storePayload _ chunk) fun l => ?_
    exact TaskSilent.bind (TaskSilent.modify (taskQuiet_withDb fun _ => ⟨rfl, rfl⟩)) fun _ => .ret true

/-- Nor that of a Delete record. -/
theorem silent_replayDelete (t : TenantId) (c : ChunkId) : TaskSilent (replayDelete t c) := by
  refine TaskSilent.bind (.read _ _) fun existing => ?_
  cases existing with
  | none => exact .ret ()
  | some m =>
    refine TaskSilent.bind (TaskSilent.modify (taskQuiet_withDb fun _ => ⟨rfl, rfl⟩)) fun _ => ?_
    exact TaskSilent.modify (taskQuiet_of_db (tombstone_db _ _) (tombstone_wal _ _))

/-- Nor a finalization on the way. -/
theorem silent_finalizeIfAboveThreshold : TaskSilent finalizeActiveSegmentIfAboveThreshold := by
  refine TaskSilent.bind (.read _ _) fun cfg => ?_
  split
  · exact silent_finalizeActiveSegment _
  · refine TaskSilent.bind (.read _ _) fun activeChunks => ?_
    split
    · exact .ret ()
    · exact silent_finalizeActiveSegment _

/-! ## Reopening -/

section Reopening

variable {G : TaskArtifact → Prop}

/-- Tables and log of a store hold artifacts in `G`. -/
def StoreFrom (G : TaskArtifact → Prop) (s : Store) : Prop :=
  TablesFrom G s.db ∧ LogFrom G s.wal

/-- Only artifacts in `G` are logged. -/
def LogsOnly (G : TaskArtifact → Prop) (l : StoreStep) : Prop :=
  ∀ records, l = .walAppend records → LogFrom G records

/-- A quiet step keeps the sources of tables and log. -/
theorem StoreFrom.quiet {upd : Store → Store} {s : Store} (h : TaskQuiet upd) (hs : StoreFrom G s) :
    StoreFrom G (upd s) :=
  ⟨hs.1.congr (h.artifacts s) (h.tasks s), fun p hp => hs.2 p (h.log s p hp)⟩

/-- The contract of calls that log artifacts in `G` only. -/
def logsOnly (G : TaskArtifact → Prop) : Proc.Contract StoreStep Store Unit :=
  Proc.free (fun l _ => LogsOnly G l) (StoreFrom G)

/-- What a reopening may report. -/
def Accepts {α : Type} (r : Except MemdError α) : Prop :=
  ∀ e, r = .error e → IsStorageError e

/-- A silent program keeps them, and its errors are none of the guards'. -/
theorem TaskSilent.sat {α : Type} {p : StoreProg α} (hp : TaskSilent p) (s : Store) :
    p.Sat (logsOnly G) (fun r _ _ => Accepts r) () s := by
  refine Proc.Sat.of_keeps hp.steps hp.errors (fun _ _ _ h hs => hs.quiet h) ?_ ?_
  · exact fun a e h => absurd h (by simp)
  · rintro e he _ ⟨⟩
    exact he

/-- A compatible artifact is inserted without an error. -/
theorem insertTaskArtifactBundle_sat (hG : ∀ a b, G a → G b → a.Compatible b)
    {p : TaskArtifactWalPayload} (hp : G p.artifact) (s : Store) :
    (insertTaskArtifactBundle p).Sat (logsOnly G) (fun r _ _ => Accepts r) () s := by
  refine Proc.Sat.perform fun s' _ hs' _ => ⟨(), trivial, ?_⟩
  have hok := ensure_ok hG hs'.1 hp
  simp only [Db.insertTaskArtifactBundle, hok, Except.map, Proc.commit]
  refine ⟨⟨hs'.1.applyBundle hp _ _, hs'.2⟩, fun _ _ _ e h => absurd h (by simp)⟩

/-- Replaying a record of a good source is accepted. -/
theorem replayRecord_sat (hG : ∀ a b, G a → G b → a.Compatible b) (ext : Externals) (t : TenantId)
    (adds : ℕ) {r : LogRecord} (hr : LogFrom G [r]) (s : Store) :
    (replayRecord ext t adds r).Sat (logsOnly G) (fun r _ _ => Accepts r) () s := by
  cases r with
  | add chunk => exact (TaskSilent.bind (silent_replayAdd ext chunk) fun _ => .ret _).sat s
  | delete c => exact (TaskSilent.bind (silent_replayDelete t c) fun _ => .ret _).sat s
  | checkpoint => exact (TaskSilent.ret adds).sat s
  | taskArtifact p =>
    refine Proc.Sat.bind (insertTaskArtifactBundle_sat hG (hr p (by simp)) s) ?_ ?_
    · exact fun _ _ s' _ _ => (TaskSilent.ret adds).sat s'
    · rintro e _ _ _ h _ ⟨⟩
      exact h e rfl

/-- So is replaying the log. -/
theorem recoverFromWal_sat (hG : ∀ a b, G a → G b → a.Compatible b) (ext : Externals)
    (t : TenantId) (s : Store) :
    (recoverFromWal ext t).Sat (logsOnly G) (fun r _ _ => Accepts r) () s := by
  -- the records to replay come from a log whose artifacts are in `G`
  refine Proc.Sat.bind (Q := fun r _ _ => ∃ records, r = .ok records ∧ LogFrom G records) ?_ ?_ ?_
  · intro s' _ hs' _
    refine ⟨(), trivial, hs', fun _ _ _ => ⟨_, rfl, ?_⟩⟩
    exact fun p hp => hs'.2 p (LogSuffix.mem_of_mem_afterLast _ hp)
  · rintro records _ s₁ hs₁ ⟨_, ⟨⟩, hrecords⟩
    split
    · exact (TaskSilent.ret ()).sat s₁
    refine Proc.Sat.bind (Q := fun r _ _ => Accepts r) ?_ ?_ ?_
    · refine Proc.Sat.foldlM (P := fun _ rest _ _ => LogFrom G rest) ?_ ?_ ?_ records 0 () s₁ hs₁
        hrecords
      · exact fun _ _ _ _ _ _ _ h => h
      · intro adds r rest _ s₂ _ hrest
        have hr : LogFrom G [r] := by
          intro p hp
          obtain rfl := List.mem_singleton.mp hp
          exact hrest p List.mem_cons_self
        refine (replayRecord_sat hG ext t adds hr s₂).post ?_
        intro out _ _ _ hout
        cases out with
        | ok _ => exact fun p hp => hrest p (List.mem_cons_of_mem r hp)
        | error e => exact hout
      · exact fun _ _ _ _ _ e h => absurd h (by simp)
    · intro adds _ s₂ _ _
      have htruncate : TaskSilent (.modify .walTruncate fun s => { s with wal := [] } : StoreProg Unit) :=
        TaskSilent.modify ⟨fun _ => rfl, fun _ => rfl, fun _ _ h => absurd h (by simp)⟩
      apply TaskSilent.sat
      split
      · exact TaskSilent.bind (silent_finalizeActiveSegment _) fun _ => htruncate
      · exact htruncate
    · rintro e _ _ _ h _ ⟨⟩
      exact h e rfl
  · rintro e _ _ _ ⟨_, h, _⟩
    exact absurd h (by simp)

/-- And opening a tenant. -/
theorem openTenant_sat (hG : ∀ a b, G a → G b → a.Compatible b) (ext : Externals) (t : TenantId)
    (cfg : StoreConfig) (s : Store) :
    (openTenant ext t cfg).Sat (logsOnly G) (fun r _ _ => Accepts r) () s := by
  have hload : TaskSilent (.modify .openHandle (loadSegments cfg) : StoreProg Unit) :=
    TaskSilent.modify (taskQuiet_of_db (fun _ => rfl) fun _ => rfl)
  refine Proc.Sat.bind (hload.sat s) ?_ ?_
  · intro _ _ s₁ _ _
    refine Proc.Sat.bind (Q := fun r _ _ => ∃ out, r = .ok out ∧ Accepts out) ?_ ?_ ?_
    · apply Proc.Sat.attempt
      exact (recoverFromWal_sat hG ext t s₁).post fun out _ _ _ h => ⟨out, rfl, h⟩
    · rintro out _ s₂ _ ⟨_, ⟨⟩, hout⟩
      cases out with
      | ok _ => exact (TaskSilent.ret ()).sat s₂
      | error e =>
        have hfail : TaskSilent (.fail e : StoreProg Unit) := ⟨trivial, hout e rfl⟩
        exact (TaskSilent.bind silent_finalizeIfAboveThreshold.attempt fun _ => hfail).sat s₂
    · rintro e _ _ _ ⟨_, h, _⟩
      exact absurd h (by simp)
  · rintro e _ _ _ h _ ⟨⟩
    exact h e rfl

/-! ## Writing -/

/-- The steps of a program write no artifact. -/
def QuietSteps {α : Type} (p : StoreProg α) : Prop :=
  p.All fun _ upd => TaskQuiet upd

/-- Quiet steps keep the sources. -/
theorem QuietSteps.sat {α : Type} {p : StoreProg α} (hp : QuietSteps p) (s : Store) :
    p.Sat (logsOnly G) (fun _ _ _ => True) () s :=
  Proc.Sat.of_keeps (Q := fun _ => True) hp (.trivial p) (fun _ _ _ h hs => hs.quiet h)
    (fun _ => trivial) fun _ _ => trivial

/-- Preparing chunks is quiet. -/
theorem quietSteps_preparePendingChunks (ext : Externals) (chunks : List MemoryChunk) :
    QuietSteps (preparePendingChunks ext chunks false) := by
  refine Proc.All.foldlM ?_ chunks []
  intro pending chunk
  refine Proc.All.bind (Proc.All.perform ?_) fun _ => trivial
  exact ⟨fun _ => rfl, fun _ => rfl, fun _ _ h => h⟩

/-- Storing a batch is quiet. -/
theorem quietSteps_storeBatch (ext : Externals) (t : TenantId) (pending : List MemoryChunk)
    (now : ℤ) : QuietSteps (storeBatch ext t pending now) := by
  have hstore : QuietSteps (pending.foldlM (storePending ext) []) := by
    refine Proc.All.foldlM ?_ pending []
    intro rows p
    exact Proc.All.bind (silent_storePayload _ p).steps fun _ => trivial
  refine Proc.All.bind hstore fun rows => ?_
  refine Proc.All.bind (Proc.All.modify (taskQuiet_of_db flushActive_db flushActive_wal))
    fun _ => ?_
  refine Proc.All.bind (Proc.All.modify (taskQuiet_withDb fun db => ?_)) fun _ =>
    Proc.All.modify (taskQuiet_withDb fun db => ?_)
  · apply tables_foldl
    exact fun _ _ => ⟨rfl, rfl⟩
  · apply tables_foldl
    exact fun _ _ => ⟨rfl, rfl⟩

/-- An index outcome is quiet. -/
theorem quietSteps_recordIndexOutcome (t : TenantId) (ids : List ChunkId)
    (indexError : Option String) (now : ℤ) :
    QuietSteps (recordIndexOutcome t ids indexError now) := by
  cases indexError with
  | none =>
    refine Proc.All.modify (taskQuiet_withDb fun db => ?_)
    apply tables_foldl
    exact fun _ _ => ⟨rfl, rfl⟩
  | some e =>
    refine Proc.All.forM ?_ ids
    exact fun c => Proc.All.modify (taskQuiet_withDb fun _ => ⟨rfl, rfl⟩)

/-- A checkpoint is quiet. -/
theorem quietSteps_checkpointAfterBatch (writes : ℕ) : QuietSteps (checkpointAfterBatch writes) := by
  refine Proc.All.bind (Proc.All.read _ taskQuiet_id) fun interval => ?_
  split
  · trivial
  refine Proc.All.bind (Proc.All.perform ?_) fun checkpoints => ?_
  · exact ⟨fun _ => rfl, fun _ => rfl, fun _ _ h => h⟩
  split
  · trivial
  refine Proc.All.bind (silent_finalizeActiveSegment _).steps fun _ => ?_
  refine Proc.All.forM (fun _ => Proc.All.modify ⟨fun _ => rfl, fun _ => rfl, ?_⟩) _
  intro s p h
  simpa [logAppend] using h

/-- A write whose artifact is in `G`, if it gets to the point where it logs it. -/
theorem addTaskArtifact_sat (hG : ∀ a b, G a → G b → a.Compatible b) (ext : Externals)
    (artifact : TaskArtifact) (projections : List TaskProjection) (indexError : Option String)
    (now : ℤ) (s : Store) :
    (addTaskArtifact ext artifact projections indexError now).Sat (logsOnly G) (fun _ _ _ => True)
      () s := by
  have hread : QuietSteps (.read .metadataRead (·.db.ensureTaskArtifactWriteSafe artifact)) :=
    Proc.All.read _ taskQuiet_id
  have hpure : ∀ {α : Type} (r : Except MemdError α), QuietSteps (.ofExcept r : StoreProg α) :=
    fun r => Proc.All.ofExcept r
  refine Proc.Sat.bind (hread.sat s) ?_ fun _ _ _ _ _ => trivial
  intro safe _ s₁ _ _
  refine Proc.Sat.bind ((hpure safe).sat s₁) ?_ fun _ _ _ _ _ => trivial
  intro _ _ s₂ _ _
  split
  · exact fun _ _ _ => trivial
  split
  · exact fun _ _ _ => trivial
  refine Proc.Sat.bind ((quietSteps_preparePendingChunks ext _).sat s₂) ?_ fun _ _ _ _ _ => trivial
  intro pending _ s₃ _ _
  refine Proc.Sat.bind ((hpure _).sat s₃) ?_ fun _ _ _ _ _ => trivial
  intro projectionIds _ s₄ _ _
  -- logging the artifact tells that it is in `G`
  refine Proc.Sat.bind (Q := fun _ _ _ => G artifact) ?_ ?_ fun _ _ _ _ _ => trivial
  · intro s' _ hs' hlogs
    have hrecords := hlogs _ rfl
    refine ⟨(), trivial, ⟨hs'.1, ?_⟩, fun _ _ _ => ?_⟩
    · intro p hp
      rcases List.mem_append.mp hp with hp | hp
      · exact hs'.2 p hp
      · exact hrecords p hp
    · exact hrecords ⟨artifact, projectionIds, projections.map (·.kind)⟩ (by simp)
  · intro _ _ s₅ _ hartifact
    refine Proc.Sat.bind ((quietSteps_storeBatch ext _ pending now).sat s₅) ?_
      fun _ _ _ _ _ => trivial
    intro _ _ s₆ _ _
    refine Proc.Sat.bind (insertTaskArtifactBundle_sat hG hartifact s₆) ?_ fun _ _ _ _ _ => trivial
    intro _ _ s₇ _ _
    refine Proc.Sat.bind ((quietSteps_recordIndexOutcome _ _ indexError now).sat s₇) ?_
      fun _ _ _ _ _ => trivial
    intro _ _ s₈ _ _
    refine Proc.Sat.bind ((quietSteps_checkpointAfterBatch _).sat s₈) ?_ fun _ _ _ _ _ => trivial
    exact fun _ _ s₉ _ _ => fun _ _ _ => trivial

/-! ## Runs -/

/-- Tables and all logs hold artifacts in `G`. -/
def ClusterFrom (G : TaskArtifact → Prop) (c : Cluster) : Prop :=
  ∀ t, StoreFrom G (c.view t)

/-- A step of a tenant keeps the sources of the whole. -/
theorem clusterFrom_step {t : TenantId} {l : StoreStep} {upd : Store → Store} {c : Cluster}
    (hc : ClusterFrom G c) (h : StoreFrom G (upd (c.view t))) : ClusterFrom G (c.step t l upd) := by
  intro t'
  refine ⟨h.1, ?_⟩
  by_cases ht : t' = t
  · subst ht
    simpa [Cluster.view, Cluster.step] using h.2
  · simpa [Cluster.view, Cluster.step, ht] using (hc t').2

/-- What a program does on the view of its tenant, it does on the whole. -/
theorem sat_view {α : Type} {Q : Except MemdError α → Prop} {p : StoreProg α} {s : Store}
    (h : p.Sat (logsOnly G) (fun r _ _ => Q r) () s) (t : TenantId) (c : Cluster) :
    (p.onPart (Cluster.view t) (Cluster.step t)).Sat
      (Proc.free (fun l _ => LogsOnly G l) (ClusterFrom G)) (fun r _ _ => Q r) () c :=
  Proc.Sat.onPart (A := fun l _ => LogsOnly G l) (I := StoreFrom G) (fun _ hc => hc t)
    (fun _ _ hl => hl) (fun _ _ _ hc hs => clusterFrom_step hc hs) h

/-- What the calls of a run have returned: no reopening was refused by a guard. -/
def ArtifactOp.Settled : ArtifactOp → Except MemdError Unit → Prop
  | .openTenant _ _, r => Accepts r
  | .addTaskArtifact _ _ _ _ _, _ => True

/-- Every call keeps them. -/
theorem ArtifactOp.prog_sat (hG : ∀ a b, G a → G b → a.Compatible b) (ext : Externals)
    (op : ArtifactOp) (c : Cluster) :
    (op.prog ext).Sat (Proc.free (fun l _ => LogsOnly G l) (ClusterFrom G))
      (fun r _ _ => op.Settled r) () c := by
  cases op with
  | openTenant t cfg =>
    exact sat_view (openTenant_sat hG ext t cfg (c.view t)) t c
  | addTaskArtifact artifact projections indexError now failAfter =>
    have hwrite : Proc.Sat (logsOnly G) (fun _ _ _ => True) (do
        let _ ← PersistentStore.addTaskArtifact ext artifact projections indexError now
        pure () : StoreProg Unit) () (c.view artifact.tenantId) := by
      refine Proc.Sat.bind (addTaskArtifact_sat hG ext artifact projections indexError now _) ?_
        fun _ _ _ _ _ => trivial
      exact fun _ _ _ _ _ => fun _ _ _ => trivial
    cases failAfter with
    | none => exact sat_view hwrite artifact.tenantId c
    | some n =>
      exact sat_view (Proc.Sat.cut (Q := fun _ => True) trivial hwrite n) artifact.tenantId c

/-- **No reopening is refused** in a run that only logs artifacts that are compatible with
each other: whatever is interleaved, wherever writes fail and crashes happen, no
`TenantStore::open` returns an error of the guards of `insert_task_artifact_bundle`. -/
theorem open_accepts_log (hG : ∀ a b, G a → G b → a.Compatible b) (ext : Externals)
    {c : Config StoreStep Cluster MemdError ArtifactOp Unit}
    (hrun : (artifactStore ext).Reach (fun l _ => LogsOnly G l) (System.start {}) c)
    (t : TenantId) (cfg : StoreConfig) (msg : String) :
    .returned (.openTenant t cfg) (.error (.validationError msg)) ∉ c.log := by
  have hreach := System.reach_free (Q := ArtifactOp.Settled)
    (ArtifactOp.prog_sat hG ext) (fun _ s => Proc.Safe.ret fun _ => trivial)
    (fun c hc t => hc t)
    (fun t => ⟨⟨by simp [Cluster.view], by simp [Cluster.view]⟩, fun p h => absurd h (by
      simp [Cluster.view])⟩) hrun
  intro hmem
  exact hreach.2 _ _ hmem _ rfl msg rfl

end Reopening

/-! ## Sample runs -/

/-- An artifact that carries a lesson. -/
def sampleLesson (artifactId lesson : String) : TaskArtifact where
  artifactId := artifactId
  artifactKind := .evidence
  taskId := "task"
  tenantId := "t"
  experience := some lesson
  timestampCreated := 0

/-- A configuration without failing finalizations. -/
def sampleConfig : StoreConfig :=
  ⟨1000, 0, 0, [], []⟩

/-- The write of a lesson, cut off behind the given step. -/
def writeLesson (artifactId lesson : String) (failAfter : Option ℕ) : ArtifactOp :=
  .addTaskArtifact (sampleLesson artifactId lesson) [⟨"summary", sampleChunk "a"⟩] none 0 failAfter

/-- A write fails right behind its third step, the append to the log; another one goes
through; the process crashes and the tenant is reopened. -/
def lessonScript (first second : String) : List (Choice ArtifactOp Unit × ℕ) :=
  [(.boot (), 1), (.call (.openTenant "t" sampleConfig), 100),
   (.call (writeLesson first "first" (some 3)), 100),
   (.call (writeLesson second "second" none), 100),
   (.crash, 0), (.boot (), 1), (.call (.openTenant "t" sampleConfig), 100)]

/-- The two artifacts of a sample run, where they are compatible. -/
def logsLessons (first second : String) : StoreStep → Cluster → Bool
  | .walAppend records, _ => records.all fun
      | .taskArtifact p => p.artifact == sampleLesson first "first"
          || p.artifact == sampleLesson second "second"
      | _ => true
  | _, _ => true

/-- Two lessons under different ids: both reopenings succeed. -/
theorem open_accepts_log_twoLessons :
    ((artifactStore sampleExternals).script (logsLessons "x" "y") (lessonScript "x" "y")
      (System.start {})).log.getLast? = some (.returned (.openTenant "t" sampleConfig) (.ok ())) ∧
    .returned (.openTenant "t" sampleConfig) (.error (.validationError
        "artifact_id collision for 'x': experience artifacts cannot be overwritten")) ∉
      ((artifactStore sampleExternals).script (logsLessons "x" "y") (lessonScript "x" "y")
        (System.start {})).log := by
  refine ⟨by decide, ?_⟩
  refine open_accepts_log (G := fun a => a = sampleLesson "x" "first" ∨ a = sampleLesson "y" "second")
    ?_ sampleExternals (System.Reach.script ?_ _ .refl) _ _ _
  · rintro a b (rfl | rfl) (rfl | rfl) <;> decide
  · rintro l c hl records rfl p hp
    have hmem := List.all_eq_true.mp hl _ hp
    simpa using hmem

/-- Two lessons under one id: the second one is inserted, and the log, which holds the first
one as well, is refused at the next reopening. -/
theorem clashing_log_refused :
    ∃ c, (artifactStore sampleExternals).Reach (fun _ _ => True) (System.start {}) c ∧
      .returned (.openTenant "t" sampleConfig) (.error (.validationError
        "artifact_id collision for 'x': experience artifacts cannot be overwritten")) ∈ c.log :=
  ⟨(artifactStore sampleExternals).script (fun _ _ => true) (lessonScript "x" "x")
      (System.start {}),
    System.Reach.script (fun _ _ _ => trivial) _ .refl, by decide⟩
