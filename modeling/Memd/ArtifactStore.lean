/-
# Storing task artifacts

`add_task_artifact` and `persist_digest_artifact` on the store of all tenants (`Cluster`), with
a `StoreCall` that says what goes wrong on the way.

* `addTaskArtifact_tables` — wherever the call stops, the task tables are as before or have the
  rows of the artifact; when it returns, they have them;
* `persistDigestArtifact_cases` — what a digest refresh does with the digest it has built.
-/
import Memd.ArtifactReplay
import Memd.Digests

open Store TenantStore PersistentStore

/-! ## The calls -/

/-- How a call of the store goes: what the index reports, the clock, and the step at which an
I/O error ends it. -/
structure StoreCall where
  indexError : Option String := none
  now : ℤ
  failAfter : Option ℕ := none
  deriving DecidableEq, Repr

namespace Cluster

/-- The program of `add_task_artifact`, cut off where the call hits an I/O error. -/
def writeProg (ext : Externals) (call : StoreCall) (a : TaskArtifact)
    (projections : List TaskProjection) : StoreProg (List ChunkId) :=
  let write := PersistentStore.addTaskArtifact ext a projections call.indexError call.now
  match call.failAfter with
  | none => write
  | some n => write.cut (.storageError "I/O error") n

/-- `Store::add_task_artifact`. -/
def addTaskArtifact (ext : Externals) (call : StoreCall) (a : TaskArtifact)
    (projections : List TaskProjection) (c : Cluster) : Except MemdError (List ChunkId) × Cluster :=
  ((writeProg ext call a projections).onPart (view a.tenantId) (step a.tenantId)).run c

/-- `persist_digest_artifact`. -/
def persistDigestArtifact (x : DigestExternals) (call : StoreCall) (readOnly : Bool)
    (built : TaskArtifact) (c : Cluster) : Except OperationError TaskArtifact × Cluster :=
  let a := finalizeArtifactForStorage built
  if isEmptyGeneratedDigestArtifact a then (.ok a, c)
  else
    match (c.db.getTaskArtifact a.tenantId a.artifactId).filter (digestArtifactsEquivalent · a) with
    | some existing => (.ok existing, c)
    | none =>
      if readOnly then (.ok a, c)
      else
        let (result, c') := c.addTaskArtifact x.toExternals call a
          (a.buildTaskProjections x.fixed3)
        (tool (result.map fun _ => a), c')

/-- `ensure_*_digest`: build the digest and persist it. -/
def ensureDigest (x : DigestExternals) (cfg : SearchConfig) (call : StoreCall) (readOnly : Bool)
    (stamp : Stamp) (t : TenantId) (family : DigestFamily) (c : Cluster) :
    Except OperationError TaskArtifact × Cluster :=
  match generateDigest x cfg stamp c.db t family with
  | .error e => (.error e, c)
  | .ok built => c.persistDigestArtifact x call readOnly built

/-! ## The view of a tenant -/

@[simp] theorem view_step (t : TenantId) (l : StoreStep) (upd : Store → Store) (c : Cluster) :
    (c.step t l upd).view t = upd (c.view t) := by
  simp [view, step]

/-- A program of one tenant runs on the whole as it runs on the tenant's view. -/
theorem run_onPart_view {α : Type} (t : TenantId) (p : StoreProg α) (c : Cluster) :
    ((p.onPart (view t) (step t)).run c).1 = (p.run (c.view t)).1 ∧
      ((p.onPart (view t) (step t)).run c).2.view t = (p.run (c.view t)).2 := by
  induction p generalizing c with
  | ret a => exact ⟨rfl, rfl⟩
  | fail e => exact ⟨rfl, rfl⟩
  | act l upd next ih =>
    simp only [Proc.onPart, Proc.run]
    have h := ih (c.view t) (c.step t l upd)
    rwa [view_step] at h

end Cluster

/-- A program that is cut off and returns all the same has run to its end. -/
theorem Proc.run_cut_eq_ok {L σ ε α : Type} {e : ε} {p : Proc L σ ε α} {n : ℕ} {s : σ} {a : α}
    (h : ((p.cut e n).run s).1 = .ok a) : (p.cut e n).run s = p.run s := by
  induction p generalizing n s with
  | ret b => cases n <;> rfl
  | fail e' => cases n <;> rfl
  | act l upd next ih =>
    cases n with
    | zero => exact absurd h (by simp [Proc.cut, Proc.run])
    | succ n => exact ih s h

/-! ## The task tables -/

/-- The artifacts and the tasks are the same. -/
structure SameTables (db db' : Db) : Prop where
  artifacts : db'.taskArtifacts = db.taskArtifacts
  tasks : db'.tasks = db.tasks

/-- The rows of an artifact that passes the guards have been written. -/
structure Wrote (a : TaskArtifact) (db db' : Db) : Prop where
  safe : db.ensureTaskArtifactWriteSafe a = .ok ()
  artifacts : db'.taskArtifacts = (db.writeTaskRows a).taskArtifacts
  tasks : db'.tasks = (db.writeTaskRows a).tasks

theorem SameTables.refl (db : Db) : SameTables db db :=
  ⟨rfl, rfl⟩

theorem SameTables.trans {db₁ db₂ db₃ : Db} (h : SameTables db₁ db₂) (h' : SameTables db₂ db₃) :
    SameTables db₁ db₃ :=
  ⟨h'.artifacts.trans h.artifacts, h'.tasks.trans h.tasks⟩

theorem Wrote.trans {a : TaskArtifact} {db₁ db₂ db₃ : Db} (h : Wrote a db₁ db₂)
    (h' : SameTables db₂ db₃) : Wrote a db₁ db₃ :=
  ⟨h.safe, h'.artifacts.trans h.artifacts, h'.tasks.trans h.tasks⟩

theorem TaskQuiet.sameTables {upd : Store → Store} (h : TaskQuiet upd) (s : Store) :
    SameTables s.db (upd s).db :=
  ⟨h.artifacts s, h.tasks s⟩

/-- The bundle of an artifact, on tables that are the ones the artifact was checked against. -/
theorem SameTables.wrote {a : TaskArtifact} {db₀ db : Db} (h : SameTables db₀ db)
    (hsafe : db.ensureTaskArtifactWriteSafe a = .ok ()) (projections : List ChunkId)
    (kinds : List String) : Wrote a db₀ (db.applyBundle a projections kinds) := by
  obtain ⟨hartifacts, htasks⟩ := applyBundle_tables db a projections kinds
  refine ⟨?_, hartifacts.trans ?_, htasks.trans ?_⟩
  · rwa [Db.ensureTaskArtifactWriteSafe, ← h.artifacts, ← h.tasks]
  · simp only [Db.writeTaskRows, h.artifacts]
  · simp only [Db.writeTaskRows, h.tasks]

/-! ## Where a write stops -/

section Stop

variable {α : Type} {s₀ : Store} {a : TaskArtifact}

/-- What the tables may be at any step of a write. -/
def Halfway (a : TaskArtifact) (s₀ s : Store) : Prop :=
  SameTables s₀.db s.db ∨ Wrote a s₀.db s.db

/-- Quiet steps keep what is known of the tables. -/
theorem QuietSteps.safe {I J : Store → Prop}
    (hJ : ∀ s s', SameTables s.db s'.db → J s → J s') (hIJ : ∀ s, J s → I s)
    {p : StoreProg α} (hp : QuietSteps p) {s : Store} (hs : J s) :
    Proc.Safe (fun _ _ => True) (fun _ _ => True) I (fun _ s' => J s') p s := by
  induction p generalizing s with
  | ret r => exact Proc.Safe.ret fun _ => hs
  | fail e => exact Proc.Safe.fail fun _ => hs
  | act l upd next ih =>
    have hnext : J (upd s) := hJ _ _ (hp.1.sameTables s) hs
    exact Proc.Safe.act fun _ _ => ⟨trivial, hIJ _ hnext, fun _ => ih s (hp.2 s) hnext⟩

theorem QuietSteps.safe_same {p : StoreProg α} (hp : QuietSteps p) {s : Store}
    (hs : SameTables s₀.db s.db) :
    Proc.Safe (fun _ _ => True) (fun _ _ => True) (Halfway a s₀)
      (fun _ s' => SameTables s₀.db s'.db) p s :=
  hp.safe (fun _ _ h h' => h'.trans h) (fun _ h => .inl h) hs

theorem QuietSteps.safe_wrote {p : StoreProg α} (hp : QuietSteps p) {s : Store}
    (hs : Wrote a s₀.db s.db) :
    Proc.Safe (fun _ _ => True) (fun _ _ => True) (Halfway a s₀)
      (fun _ s' => Wrote a s₀.db s'.db) p s :=
  hp.safe (fun _ _ h h' => h'.trans h) (fun _ h => .inr h) hs

/-- What a write has done when it returns. -/
def WroteIfOk (a : TaskArtifact) (s₀ : Store) (r : Except MemdError α) (s : Store) : Prop :=
  ∀ v, r = .ok v → Wrote a s₀.db s.db

theorem safe_insertBundle_tables (projectionIds : List ChunkId) (kinds : List String) {s : Store}
    (hs : SameTables s₀.db s.db) :
    Proc.Safe (fun _ _ => True) (fun _ _ => True) (Halfway a s₀)
      (WroteIfOk a s₀) (insertTaskArtifactBundle ⟨a, projectionIds, kinds⟩) s := by
  refine Proc.Safe.perform fun _ _ => ?_
  cases hsafe : s.db.ensureTaskArtifactWriteSafe a with
  | error e =>
    simp only [Db.insertTaskArtifactBundle, hsafe, Except.map, Proc.commit]
    exact ⟨trivial, .inl hs, fun _ v h => absurd h (by simp)⟩
  | ok _ =>
    simp only [Db.insertTaskArtifactBundle, hsafe, Except.map, Proc.commit]
    have hwrote := hs.wrote hsafe projectionIds kinds
    exact ⟨trivial, .inr hwrote, fun _ _ _ => hwrote⟩

/-- **A write is all or nothing for the task tables**, at every step. -/
theorem safe_addTaskArtifact_tables (ext : Externals) (a : TaskArtifact)
    (projections : List TaskProjection) (indexError : Option String) (now : ℤ) (s : Store) :
    Proc.Safe (fun _ _ => True) (fun _ _ => True) (Halfway a s) (WroteIfOk a s)
      (PersistentStore.addTaskArtifact ext a projections indexError now) s := by
  have hfail : ∀ (e : MemdError) (s' : Store), WroteIfOk (α := List ChunkId) a s (.error e) s' :=
    fun e s' v h => absurd h (by simp)
  have hpure : ∀ {β : Type} (r : Except MemdError β), QuietSteps (.ofExcept r : StoreProg β) :=
    fun r => Proc.All.ofExcept r
  have hread : QuietSteps (.read .metadataRead (·.db.ensureTaskArtifactWriteSafe a)) :=
    Proc.All.read _ taskQuiet_id
  refine Proc.Safe.bind (hread.safe_same (SameTables.refl _)) ?_ fun e s' _ _ => hfail e s'
  intro safe s₁ _ h₁
  refine Proc.Safe.bind ((hpure safe).safe_same h₁) ?_ fun e s' _ _ => hfail e s'
  intro _ s₂ _ h₂
  split
  · exact Proc.Safe.fail fun _ => hfail _ _
  split
  · exact Proc.Safe.fail fun _ => hfail _ _
  refine Proc.Safe.bind ((quietSteps_preparePendingChunks ext _).safe_same h₂) ?_
    fun e s' _ _ => hfail e s'
  intro pending s₃ _ h₃
  refine Proc.Safe.bind ((hpure _).safe_same h₃) ?_ fun e s' _ _ => hfail e s'
  intro projectionIds s₄ _ h₄
  -- the log append
  refine Proc.Safe.bind (Q := fun _ s' => SameTables s.db s'.db) ?_ ?_ fun e s' _ _ => hfail e s'
  · exact Proc.Safe.modify fun _ _ => ⟨trivial, .inl h₄, fun _ => h₄⟩
  intro _ s₅ _ h₅
  refine Proc.Safe.bind ((quietSteps_storeBatch ext _ pending now).safe_same h₅) ?_
    fun e s' _ _ => hfail e s'
  intro _ s₆ _ h₆
  refine Proc.Safe.bind (safe_insertBundle_tables projectionIds _ h₆) ?_ fun e s' _ _ => hfail e s'
  intro _ s₇ _ h₇
  -- the rows are in; what is left is quiet
  refine Proc.Safe.bind ((quietSteps_recordIndexOutcome _ _ indexError now).safe_wrote (h₇ () rfl)) ?_
    fun e s' _ _ => hfail e s'
  intro _ s₈ _ h₈
  refine Proc.Safe.bind ((quietSteps_checkpointAfterBatch _).safe_wrote h₈) ?_
    fun e s' _ _ => hfail e s'
  exact fun _ s₉ _ h₉ => Proc.Safe.ret fun _ _ _ => h₉

end Stop

/-! ## The calls on the tables -/

namespace Cluster

/-- **The task tables after `add_task_artifact`**: the rows of the artifact are in, or nothing
has changed and the call has failed. -/
theorem addTaskArtifact_tables (ext : Externals) (call : StoreCall) (a : TaskArtifact)
    (projections : List TaskProjection) (c : Cluster) :
    Wrote a c.db (c.addTaskArtifact ext call a projections).2.db ∨
      SameTables c.db (c.addTaskArtifact ext call a projections).2.db ∧
        ∃ e, (c.addTaskArtifact ext call a projections).1 = .error e := by
  obtain ⟨hres, hview⟩ := run_onPart_view a.tenantId (writeProg ext call a projections) c
  have hdb : (c.addTaskArtifact ext call a projections).2.db =
      ((writeProg ext call a projections).run (c.view a.tenantId)).2.db :=
    congrArg Store.db hview
  have hsafe := safe_addTaskArtifact_tables ext a projections call.indexError call.now
    (c.view a.tenantId)
  have hstart : Halfway a (c.view a.tenantId) (c.view a.tenantId) := .inl (SameTables.refl _)
  rw [hdb]
  rw [addTaskArtifact, hres]
  -- the rows are in, or the call has failed
  have hend : Halfway a (c.view a.tenantId)
        ((writeProg ext call a projections).run (c.view a.tenantId)).2 ∧
      WroteIfOk a (c.view a.tenantId)
        ((writeProg ext call a projections).run (c.view a.tenantId)).1
        ((writeProg ext call a projections).run (c.view a.tenantId)).2 := by
    unfold writeProg
    cases call.failAfter with
    | none =>
      have h := hsafe.run hstart
      exact ⟨h.2, h.1⟩
    | some n =>
      refine ⟨hsafe.run_cut hstart _ n, fun v hv => ?_⟩
      have hrun := Proc.run_cut_eq_ok hv
      have hall := (hsafe.run hstart).1 v
      rw [← hrun] at hall
      exact hall hv
  rcases hend.1 with hsame | hwrote
  · cases hr : ((writeProg ext call a projections).run (c.view a.tenantId)).1 with
    | ok v => exact .inl (hend.2 v hr)
    | error e => exact .inr ⟨hsame, e, rfl⟩
  · exact .inl hwrote

/-- A write that returns has written its rows. -/
theorem wrote_of_ok {ext : Externals} {call : StoreCall} {a : TaskArtifact}
    {projections : List TaskProjection} {c : Cluster} {ids : List ChunkId}
    (h : (c.addTaskArtifact ext call a projections).1 = .ok ids) :
    Wrote a c.db (c.addTaskArtifact ext call a projections).2.db := by
  rcases addTaskArtifact_tables ext call a projections c with hw | ⟨_, e, he⟩
  · exact hw
  · exact absurd (h.symm.trans he) (by simp)

/-- **What a digest refresh does with the digest it has built**: it skips an empty one, leaves an
equivalent one alone, saves nothing on a read-only store, and writes it otherwise. -/
theorem persistDigestArtifact_cases {x : DigestExternals} {call : StoreCall} {readOnly : Bool}
    {built a r : TaskArtifact} {c c' : Cluster} (ha : finalizeArtifactForStorage built = a)
    (h : c.persistDigestArtifact x call readOnly built = (.ok r, c')) :
    (isEmptyGeneratedDigestArtifact a = true ∧ c' = c) ∨
      (isEmptyGeneratedDigestArtifact a = false ∧
        ((∃ existing, c.db.getTaskArtifact a.tenantId a.artifactId = some existing ∧
            digestArtifactsEquivalent existing a = true ∧ c' = c) ∨
          ((c.db.getTaskArtifact a.tenantId a.artifactId).filter
              (digestArtifactsEquivalent · a) = none ∧
            ((readOnly = true ∧ c' = c) ∨ (readOnly = false ∧
              ∃ ids, c.addTaskArtifact x.toExternals call a (a.buildTaskProjections x.fixed3) =
                (.ok ids, c')))))) := by
  unfold persistDigestArtifact at h
  dsimp only at h
  rw [ha] at h
  by_cases hempty : isEmptyGeneratedDigestArtifact a = true
  · rw [if_pos hempty] at h
    exact .inl ⟨hempty, (congrArg Prod.snd h).symm⟩
  · rw [if_neg hempty] at h
    refine .inr ⟨Bool.eq_false_iff.mpr hempty, ?_⟩
    cases hstored : (c.db.getTaskArtifact a.tenantId a.artifactId).filter
        (digestArtifactsEquivalent · a) with
    | some existing =>
      rw [hstored] at h
      obtain ⟨hget, hequiv⟩ := Option.filter_eq_some_iff.mp hstored
      exact .inl ⟨existing, hget, hequiv, (congrArg Prod.snd h).symm⟩
    | none =>
      rw [hstored] at h
      refine .inr ⟨rfl, ?_⟩
      cases readOnly with
      | true => exact .inl ⟨rfl, (congrArg Prod.snd h).symm⟩
      | false =>
        refine .inr ⟨rfl, ?_⟩
        cases hadd : c.addTaskArtifact x.toExternals call a (a.buildTaskProjections x.fixed3) with
        | mk result c₁ =>
          simp only [Bool.false_eq_true, if_false, hadd] at h
          obtain rfl : c₁ = c' := congrArg Prod.snd h
          cases result with
          | ok ids => exact ⟨ids, rfl⟩
          | error e => exact absurd (congrArg Prod.fst h) (by simp [tool, Except.map])

end Cluster

/-! ## Rows of a write -/

theorem Wrote.mem_artifacts {a b : TaskArtifact} {db db' : Db} (h : Wrote a db db') :
    b ∈ db'.taskArtifacts ↔ b = a ∨ b ∈ db.taskArtifacts ∧ b.artifactId ≠ a.artifactId := by
  rw [h.artifacts, Db.writeTaskRows, Table.mem_insertOrReplace]
  simp only [beq_eq_false_iff_ne]
  constructor
  · rintro (⟨hb, hne⟩ | hb)
    · exact .inr ⟨hb, hne⟩
    · exact .inl hb
  · rintro (hb | ⟨hb, hne⟩)
    · exact .inr hb
    · exact .inl ⟨hb, hne⟩
