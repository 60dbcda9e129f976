/-
# The retention clock of a purge

A run of timed store operations, watched: of every chunk it is recorded since when it has had
its status, and whether its status and overlay were last written by a statement that stamps the
row with the time of the write.  The statements that do are those of a supersede, of the expiry
sweep and of history promotion.

* `StampedSince` — a stamped row's clock is not before the time it got its status;
* `stamped_candidates_entered` — so a purge takes no such row too early, unless the row is in
  history and past its own expiry.

A delete does not stamp the row, and a digest stamps the chunks it replaces with its own creation
time (`hidden_today_purged_today`).
-/
import Memd.Lifecycle
import Memd.Session
import Memd.StoreSteps

open Store TenantStore PersistentStore

/-! ## Operations -/

/-- The operations of the store that can touch a row's lifecycle. -/
inductive RetentionOp
  | add (chunk : MemoryChunk) (initial : LifecycleDelta)
  | addBatch (chunks : List MemoryChunk)
  | addTaskArtifact (artifact : TaskArtifact) (projections : List TaskProjection)
  | delete (c : ChunkId)
  | supersede (old : ChunkId) (newChunk : MemoryChunk) (lifecycle : LifecycleDelta) (fuel : ℕ)
  | expirySweep
  | historyPromotion (ageThresholdMs : ℤ)
  deriving DecidableEq, Repr

namespace RetentionOp

/-- The program of an operation at a time; index calls succeed. -/
def prog (ext : Externals) (t : TenantId) (now : ℤ) : RetentionOp → StoreProg Unit
  | .add chunk initial => do
    let _ ← addChunkWithLifecycleAndStoredIds ext t chunk initial [] none now
    pure ()
  | .addBatch chunks => do
    let _ ← addChunks ext t chunks false none now
    pure ()
  | .addTaskArtifact artifact projections => do
    let _ ← PersistentStore.addTaskArtifact ext artifact projections none now
    pure ()
  | .delete c => do
    let _ ← deleteChunk t c
    pure ()
  | .supersede old newChunk lifecycle fuel => do
    let _ ← supersedeChunk ext t old newChunk lifecycle fuel {} none now now
    pure ()
  | .expirySweep => PersistentStore.expirySweep t now
  | .historyPromotion age => PersistentStore.historyPromotion t age now

/-- Does the step of the operation stamp the rows it writes with the time? -/
def stamps : RetentionOp → StoreStep → Bool
  | _, .atomicSupersede _ _ => true
  | .expirySweep, .metadataWrite => true
  | .historyPromotion _, .metadataWrite => true
  | _, _ => false

end RetentionOp

/-! ## The watched store -/

/-- What is recorded of a chunk. -/
structure Mark where
  /-- when the row got its status -/
  since : ℤ := 0
  /-- its status and overlay were last written by a stamping statement -/
  stamped : Bool := false
  deriving DecidableEq, Repr

/-- A store and, for each chunk, what its retention stamp should say. -/
structure Timed where
  store : Store
  marks : ChunkId → Mark

/-- The row of a chunk id. -/
def Db.chunkRow (db : Db) (c : ChunkId) : Option ChunkRow :=
  db.chunks.find? fun r => r.chunkId = c

/-- The mark of a chunk whose row was `before` a write and is `after` it now. -/
def Mark.next (stamps : Bool) (now : ℤ) (before after : Option ChunkRow) (m : Mark) : Mark :=
  match before, after with
  | some r, some r' =>
    if r'.status = r.status ∧ r'.lifecycle = r.lifecycle then m
    else { since := if r'.status = r.status then m.since else now, stamped := stamps }
  | none, some _ => { since := now, stamped := false }
  | _, none => m

/-- A step at a time. -/
def Timed.step (stamps : StoreStep → Bool) (now : ℤ) (l : StoreStep) (upd : Store → Store)
    (w : Timed) : Timed where
  store := upd w.store
  marks c := (w.marks c).next (stamps l) now (w.store.db.chunkRow c) ((upd w.store).db.chunkRow c)

/-- An operation at a time. -/
def Timed.exec (ext : Externals) (t : TenantId) (now : ℤ) (op : RetentionOp) (w : Timed) : Timed :=
  (((op.prog ext t now).onPart Timed.store (Timed.step op.stamps now)).run w).2

/-- A run: every operation comes some milliseconds after the one before it. -/
def Timed.run (ext : Externals) (t : TenantId) : ℕ → List (ℕ × RetentionOp) → Timed → Timed
  | _, [], w => w
  | clock, (gap, op) :: rest, w =>
    Timed.run ext t (clock + gap) rest (w.exec ext t (clock + gap : ℕ) op)

/-- A store without rows. -/
def Timed.start (s : Store) : Timed where
  store := { s with db := {} }
  marks _ := {}

/-! ## What a step does to the clocks -/

/-- Chunk ids stay unique, and a stamping step leaves the time on every row it writes. -/
structure ClockStep (stamps : Bool) (now : ℤ) (db db' : Db) : Prop where
  keyed : Table.Keyed (fun r : ChunkRow => r.chunkId) db.chunks →
    Table.Keyed (fun r : ChunkRow => r.chunkId) db'.chunks
  stamped : stamps = true → ∀ r' ∈ db'.chunks, ∃ r ∈ db.chunks, r.chunkId = r'.chunkId ∧
    ((r'.status = r.status ∧ r'.lifecycle = r.lifecycle) ∨ r'.lifecycle.lifecycleUpdatedAtMs = now)

/-- A step that leaves the rows alone changes no clock. -/
theorem ClockStep.of_chunks_eq {stamps : Bool} {now : ℤ} {db db' : Db}
    (h : db'.chunks = db.chunks) : ClockStep stamps now db db' where
  keyed := by
    rw [h]
    exact id
  stamped := by
    rw [h]
    exact fun _ r hr => ⟨r, hr, rfl, Or.inl ⟨rfl, rfl⟩⟩

/-- An update that keeps the chunk id of a row. -/
theorem ClockStep.updateChunks {stamps : Bool} {now : ℤ} (db : Db) {p : ChunkRow → Bool}
    {f : ChunkRow → ChunkRow} (hid : ∀ r, (f r).chunkId = r.chunkId)
    (hstamp : stamps = true → ∀ r, (f r).lifecycle.lifecycleUpdatedAtMs = now) :
    ClockStep stamps now db (db.updateChunks p f) where
  keyed := fun h => Table.Keyed.updateWhere h p f hid
  stamped := by
    intro hs r' hr'
    obtain ⟨r, hr, rfl⟩ := Db.mem_updateChunks.mp hr'
    refine ⟨r, hr, ?_⟩
    by_cases hp : p r = true
    · rw [if_pos hp]
      exact ⟨(hid r).symm, Or.inr (hstamp hs r)⟩
    · rw [if_neg hp]
      exact ⟨rfl, Or.inl ⟨rfl, rfl⟩⟩

/-- Clock steps compose. -/
theorem ClockStep.trans {stamps : Bool} {now : ℤ} {db db' db'' : Db}
    (h : ClockStep stamps now db db') (h' : ClockStep stamps now db' db'') :
    ClockStep stamps now db db'' where
  keyed := fun hk => h'.keyed (h.keyed hk)
  stamped := by
    intro hs r'' hr''
    obtain ⟨r', hr', hid', hcase'⟩ := h'.stamped hs r'' hr''
    obtain ⟨r, hr, hid, hcase⟩ := h.stamped hs r' hr'
    refine ⟨r, hr, hid.trans hid', ?_⟩
    rcases hcase' with ⟨hstatus', hlife'⟩ | hnow
    · rcases hcase with ⟨hstatus, hlife⟩ | hnow
      · exact Or.inl ⟨hstatus'.trans hstatus, hlife'.trans hlife⟩
      · exact Or.inr (by rw [hlife', hnow])
    · exact Or.inr hnow

/-- The steps of a program, with their labels. -/
def ClockSteps (stamps : StoreStep → Bool) (now : ℤ) (l : StoreStep) (upd : Store → Store) : Prop :=
  ∀ s, ClockStep (stamps l) now s.db (upd s).db

/-- A step that leaves the tables alone is a clock step. -/
theorem DbQuiet.clockSteps {stamps : StoreStep → Bool} {now : ℤ} {l : StoreStep}
    {upd : Store → Store} (h : DbQuiet l upd) : ClockSteps stamps now l upd :=
  fun s => .of_chunks_eq (by rw [h.db])

/-- A step that writes rows without a stamp only keeps the ids unique. -/
theorem clockStep_unstamped {now : ℤ} {db db' : Db}
    (h : Table.Keyed (fun r : ChunkRow => r.chunkId) db.chunks →
      Table.Keyed (fun r : ChunkRow => r.chunkId) db'.chunks) : ClockStep false now db db' :=
  ⟨h, fun hs => absurd hs (by simp)⟩

/-- Inserting rows keeps the table keyed. -/
theorem keyed_insertMany (rows : List ChunkMetadata) (db : Db)
    (h : Table.Keyed (fun r : ChunkRow => r.chunkId) db.chunks) :
    Table.Keyed (fun r : ChunkRow => r.chunkId) (db.insertMany rows).chunks := by
  induction rows generalizing db with
  | nil => exact h
  | cons m rows ih =>
    refine ih (db.insert m) ?_
    refine h.insertOrReplace fun r _ hk => ?_
    rw [ChunkRow.conflicts, Bool.or_eq_true]
    exact Or.inl (beq_iff_eq.mpr hk)

/-- Overwriting fields of rows keeps the table keyed. -/
theorem keyed_overlay {db db' : Db} (h : Table.Keyed (fun r : ChunkRow => r.chunkId) db.chunks)
    (ho : db.Overlay db') : Table.Keyed (fun r : ChunkRow => r.chunkId) db'.chunks := by
  obtain ⟨f, hf, e⟩ := ho
  rw [Table.Keyed, e, List.map_map]
  have hmap : db.chunks.map ((fun r => r.chunkId) ∘ f) = db.chunks.map fun r => r.chunkId :=
    List.map_congr_left fun r _ => (hf r).chunkId
  rw [hmap]
  exact h

/-! ### Operations -/

section Operations

variable {stamps : StoreStep → Bool} {now : ℤ} {t : TenantId}

/-- Only the link of a supersede stamps. -/
def StampsLinksOnly (stamps : StoreStep → Bool) : Prop :=
  ∀ l, stamps l = true → ∃ old new, l = .atomicSupersede old new

/-- A step that is no link and keeps the chunk ids unique. -/
theorem StampsLinksOnly.clockStep (h : StampsLinksOnly stamps) {l : StoreStep} {db db' : Db}
    (hl : ∀ old new, l ≠ .atomicSupersede old new)
    (hk : Table.Keyed (fun r : ChunkRow => r.chunkId) db.chunks →
      Table.Keyed (fun r : ChunkRow => r.chunkId) db'.chunks) :
    ClockStep (stamps l) now db db' := by
  have hfalse : stamps l = false := by
    cases hs : stamps l with
    | false => rfl
    | true =>
      obtain ⟨old, new, rfl⟩ := h l hs
      exact absurd rfl (hl old new)
  rw [hfalse]
  exact clockStep_unstamped hk

/-- A program that leaves the tables alone makes clock steps only. -/
theorem clocks_of_dbQuiet {α : Type} {p : StoreProg α} (h : p.All DbQuiet) :
    p.All (ClockSteps stamps now) :=
  h.mono fun _ _ hq => hq.clockSteps

/-- A read is a clock step. -/
theorem clocks_read {α : Type} {l : StoreStep} (f : Store → α) :
    (.read l f : StoreProg α).All (ClockSteps stamps now) :=
  Proc.All.read f fun _ => .of_chunks_eq rfl

/-- Storing a batch makes clock steps only. -/
theorem clocks_storeBatch (h : StampsLinksOnly stamps) (ext : Externals)
    (pending : List MemoryChunk) (clock : ℤ) :
    (storeBatch ext t pending clock).All (ClockSteps stamps now) := by
  refine Proc.All.bind (clocks_of_dbQuiet (quiet_storePending ext pending [])) fun rows => ?_
  refine Proc.All.bind (clocks_of_dbQuiet (Proc.All.modify ⟨rfl, flushActive_db⟩)) fun _ => ?_
  refine Proc.All.bind (Proc.All.modify ?_) fun _ => Proc.All.modify ?_
  · exact fun s => h.clockStep (by simp) (keyed_insertMany rows s.db)
  · exact fun s => h.clockStep (by simp) fun hk =>
      keyed_overlay hk (Db.overlay_markIndexPending s.db t _ _)

/-- Recording the outcome of the indexing makes clock steps only. -/
theorem clocks_recordIndexOutcome (h : StampsLinksOnly stamps) (ids : List ChunkId)
    (indexError : Option String) (clock : ℤ) :
    (recordIndexOutcome t ids indexError clock).All (ClockSteps stamps now) := by
  cases indexError with
  | none =>
    refine Proc.All.modify fun s => h.clockStep (by simp) fun hk => ?_
    exact keyed_overlay hk (Db.overlay_markIndexed s.db t ids clock)
  | some e =>
    refine Proc.All.forM (fun c => Proc.All.modify fun s => h.clockStep (by simp) fun hk => ?_) ids
    exact keyed_overlay hk (Db.overlay_markIndexFailed s.db t c e clock)

/-- **An add** makes clock steps only. -/
theorem clocks_addChunks (h : StampsLinksOnly stamps) (ext : Externals)
    (chunks : List MemoryChunk) (preserveChunkIds : Bool) (indexError : Option String)
    (clock : ℤ) :
    (addChunks ext t chunks preserveChunkIds indexError clock).All (ClockSteps stamps now) := by
  unfold addChunks
  split
  · trivial
  dsimp only
  refine Proc.All.bind (clocks_of_dbQuiet (quiet_preparePendingChunks ext _ _)) fun pending => ?_
  refine Proc.All.bind (clocks_of_dbQuiet (Proc.All.modify ⟨rfl, fun _ => rfl⟩)) fun _ => ?_
  refine Proc.All.bind (clocks_storeBatch h ext pending clock) fun _ => ?_
  refine Proc.All.bind (clocks_recordIndexOutcome h _ indexError clock) fun _ => ?_
  refine Proc.All.bind (clocks_of_dbQuiet (quiet_checkpointAfterBatch _)) fun _ => ?_
  exact Proc.All.bind (Proc.All.ofExcept _) fun _ => trivial

/-- A transaction whose statements step the clocks. -/
theorem clocks_transactDb {l : StoreStep} {f : Db → Except MemdError (Unit × Db)}
    (h : ∀ db r, f db = .ok r → ClockStep (stamps l) now db r.2) :
    (transactDb l f).All (ClockSteps stamps now) := by
  refine Proc.All.perform fun s => ?_
  dsimp only
  cases hf : f s.db with
  | error e => exact .of_chunks_eq rfl
  | ok r => exact h s.db r hf

/-- **Writing an artifact** makes clock steps only. -/
theorem clocks_addTaskArtifact (h : StampsLinksOnly stamps) (ext : Externals)
    (artifact : TaskArtifact) (projections : List TaskProjection) (indexError : Option String)
    (clock : ℤ) :
    (PersistentStore.addTaskArtifact ext artifact projections indexError clock).All
      (ClockSteps stamps now) := by
  refine Proc.All.bind (clocks_read _) fun safe => ?_
  refine Proc.All.bind (Proc.All.ofExcept safe) fun _ => ?_
  split
  · trivial
  split
  · trivial
  refine Proc.All.bind (clocks_of_dbQuiet (quiet_preparePendingChunks ext _ false)) fun pending => ?_
  refine Proc.All.bind (Proc.All.ofExcept _) fun ids => ?_
  refine Proc.All.bind (clocks_of_dbQuiet (Proc.All.modify ⟨rfl, fun _ => rfl⟩)) fun _ => ?_
  refine Proc.All.bind (clocks_storeBatch h ext pending clock) fun _ => ?_
  refine Proc.All.bind (clocks_transactDb fun db r hr => h.clockStep (by simp) fun hk => ?_)
    fun _ => ?_
  · -- the bundle retires projections, which is an overlay of the rows
    unfold Db.insertTaskArtifactBundle at hr
    split at hr
    · cases hr
    · cases hr
      exact keyed_overlay hk (Db.overlay_applyBundle db _ _ _)
  refine Proc.All.bind (clocks_recordIndexOutcome h _ indexError clock) fun _ => ?_
  exact Proc.All.bind (clocks_of_dbQuiet (quiet_checkpointAfterBatch _)) fun _ => trivial

/-- **A delete** makes clock steps only. -/
theorem clocks_deleteChunk (h : StampsLinksOnly stamps) (c : ChunkId) :
    (deleteChunk t c).All (ClockSteps stamps now) := by
  refine Proc.All.bind (clocks_read _) fun existing => ?_
  cases existing with
  | none => trivial
  | some m =>
    refine Proc.All.bind (clocks_of_dbQuiet (Proc.All.modify ⟨rfl, fun _ => rfl⟩)) fun _ => ?_
    refine Proc.All.bind (Proc.All.modify fun s => h.clockStep (by simp) fun hk => ?_) fun _ => ?_
    · exact Table.Keyed.updateWhere hk _ _ fun _ => rfl
    refine Proc.All.bind (clocks_of_dbQuiet (Proc.All.modify ⟨rfl, ?_⟩)) fun _ => trivial
    exact tombstone_db m.segmentId m.ordinal

/-- **An add with a lifecycle** makes clock steps only. -/
theorem clocks_addChunkWithLifecycle (h : StampsLinksOnly stamps) (ext : Externals)
    (chunk : MemoryChunk) (initial : LifecycleDelta) (faults : List (Option String))
    (indexError : Option String) (clock : ℤ) :
    (addChunkWithLifecycleAndStoredIds ext t chunk initial faults indexError clock).All
      (ClockSteps stamps now) := by
  refine Proc.All.bind ?_ fun ids => ?_
  · refine Proc.All.bind (clocks_addChunks h ext [chunk] false indexError clock) fun outcome => ?_
    cases outcome.primaryIds <;> trivial
  refine Proc.All.bind ?_ fun _ => trivial
  unfold applyInitialDelta
  split
  · trivial
  refine Proc.All.forM (fun part => ?_) _
  unfold updatePart withFault
  split
  · trivial
  refine Proc.All.bind (Proc.All.perform fun s => h.clockStep (by simp) fun hk => ?_) fun _ => trivial
  exact Table.Keyed.updateWhere hk _ _ fun _ => rfl

/-- Walking the successors makes clock steps only. -/
theorem clocks_walkSuccessors (start : ChunkId) (fuel : ℕ) (visited : List ChunkId)
    (current : ChunkId) :
    (walkSuccessors t start fuel visited current).All (ClockSteps stamps now) := by
  induction fuel generalizing visited current with
  | zero => trivial
  | succ fuel ih =>
    refine Proc.All.bind (clocks_read _) fun row => ?_
    split
    · trivial
    · split
      · trivial
      · exact ih _ _

/-- The checks before a supersede make clock steps only. -/
theorem clocks_supersedePreflight (old : ChunkId) (fuel : ℕ) :
    (supersedePreflight t old fuel {}).All (ClockSteps stamps now) := by
  refine Proc.All.bind (clocks_read _) fun row => ?_
  cases row with
  | none => trivial
  | some m =>
    dsimp only
    split
    · trivial
    · refine Proc.All.bind (clocks_walkSuccessors old fuel _ _) fun _ => ?_
      split <;> trivial

/-- The link of a supersede stamps both rows. -/
theorem clocks_atomicSupersede (old new : ChunkId) :
    (atomicSupersede t old new now).All (ClockSteps stamps now) := by
  refine clocks_transactDb fun db r hr => ?_
  unfold Db.atomicSupersede at hr
  dsimp only at hr
  split at hr
  · cases hr
  split at hr
  · cases hr
  · cases hr
    have hold : ClockStep (stamps (.atomicSupersede old new)) now db (db.linkOld t old new now) := by
      exact .updateChunks db (fun _ => rfl) fun _ _ => rfl
    refine hold.trans ?_
    exact .updateChunks _ (fun _ => rfl) fun _ _ => rfl

/-- **A supersede** makes clock steps only. -/
theorem clocks_supersedeChunk (h : StampsLinksOnly stamps) (ext : Externals) (old : ChunkId)
    (newChunk : MemoryChunk) (lifecycle : LifecycleDelta) (fuel : ℕ) :
    (supersedeChunk ext t old newChunk lifecycle fuel {} none now now).All
      (ClockSteps stamps now) := by
  unfold supersedeChunk
  split
  · trivial
  refine Proc.All.bind (clocks_supersedePreflight old fuel) fun _ => ?_
  refine Proc.All.bind (clocks_addChunkWithLifecycle h ext newChunk lifecycle _ none now)
    fun ids => ?_
  refine Proc.All.bind ?_ fun _ => trivial
  refine Proc.All.bind (Proc.All.attempt (clocks_atomicSupersede old ids.1)) fun linked => ?_
  cases linked with
  | ok _ => trivial
  | error e =>
    refine Proc.All.bind (Proc.All.forM (fun c => ?_) ids.2) fun _ => trivial
    exact Proc.All.bind (Proc.All.attempt (clocks_deleteChunk h c)) fun _ => trivial

end Operations

/-- The operations other than the two jobs stamp their links only. -/
theorem stampsLinksOnly_of_ne (op : RetentionOp) (hsweep : op ≠ .expirySweep)
    (hpromotion : ∀ age, op ≠ .historyPromotion age) : StampsLinksOnly op.stamps := by
  intro l hl
  cases l with
  | atomicSupersede old new => exact ⟨old, new, rfl⟩
  | _ => cases op <;> simp_all [RetentionOp.stamps]

/-- **What an operation does to the clocks.** -/
theorem clocks_prog (ext : Externals) (t : TenantId) (now : ℤ) (op : RetentionOp) :
    (op.prog ext t now).All (ClockSteps op.stamps now) := by
  cases op with
  | add chunk initial =>
    have hs := stampsLinksOnly_of_ne (.add chunk initial) (by simp) (by simp)
    exact Proc.All.bind (clocks_addChunkWithLifecycle hs ext chunk initial [] none now)
      fun _ => trivial
  | addBatch chunks =>
    have hs := stampsLinksOnly_of_ne (.addBatch chunks) (by simp) (by simp)
    exact Proc.All.bind (clocks_addChunks hs ext chunks false none now) fun _ => trivial
  | addTaskArtifact artifact projections =>
    have hs := stampsLinksOnly_of_ne (.addTaskArtifact artifact projections) (by simp)
      (by simp)
    exact Proc.All.bind (clocks_addTaskArtifact hs ext artifact projections none now)
      fun _ => trivial
  | delete c =>
    have hs := stampsLinksOnly_of_ne (.delete c) (by simp) (by simp)
    exact Proc.All.bind (clocks_deleteChunk hs c) fun _ => trivial
  | supersede old newChunk lifecycle fuel =>
    have hs := stampsLinksOnly_of_ne (.supersede old newChunk lifecycle fuel) (by simp)
      (by simp)
    exact Proc.All.bind (clocks_supersedeChunk hs ext old newChunk lifecycle fuel) fun _ => trivial
  | expirySweep =>
    refine Proc.All.bind (clocks_read _) fun ids => ?_
    refine Proc.All.forM (fun c => Proc.All.modify fun s => ?_) ids
    exact .updateChunks s.db (fun _ => rfl) fun _ _ => rfl
  | historyPromotion age =>
    refine Proc.All.bind (clocks_read _) fun ids => ?_
    refine Proc.All.forM (fun c => Proc.All.modify fun s => ?_) ids
    exact .updateChunks s.db (fun _ => rfl) fun _ _ => rfl

/-! ## Runs -/

/-- Ids are unique, no mark is of the future, and the clock of a stamped row is not before the
time it got its status. -/
structure StampedSince (now : ℤ) (w : Timed) : Prop where
  keyed : Table.Keyed (fun r : ChunkRow => r.chunkId) w.store.db.chunks
  since_le : ∀ c, (w.marks c).since ≤ now
  stamped : ∀ r ∈ w.store.db.chunks, (w.marks r.chunkId).stamped = true →
    (w.marks r.chunkId).since ≤ r.lifecycle.lifecycleUpdatedAtMs ∧
      0 < r.lifecycle.lifecycleUpdatedAtMs

/-- The row found under a chunk id is the only one. -/
theorem chunkRow_eq_some {db : Db} (hk : Table.Keyed (fun r : ChunkRow => r.chunkId) db.chunks)
    {r : ChunkRow} (hr : r ∈ db.chunks) : db.chunkRow r.chunkId = some r := by
  cases hfind : db.chunkRow r.chunkId with
  | none =>
    have := List.find?_eq_none.mp hfind r hr
    simp at this
  | some r₀ =>
    have hid : r₀.chunkId = r.chunkId := by simpa using List.find?_some hfind
    rw [hk.eq (List.mem_of_find?_eq_some hfind) hr hid]

/-- A mark set no later than now stays no later than now. -/
theorem since_next_le {stamps : Bool} {now : ℤ} (before after : Option ChunkRow) {m : Mark}
    (h : m.since ≤ now) : (m.next stamps now before after).since ≤ now := by
  unfold Mark.next
  split
  · split
    · exact h
    · dsimp only
      split
      · exact h
      · exact Int.le_refl now
  · exact Int.le_refl now
  · exact h

/-- A step keeps the clocks of stamped rows behind the time they got their status. -/
theorem StampedSince.step {stamps : StoreStep → Bool} {now : ℤ} (hnow : 0 < now) {l : StoreStep}
    {upd : Store → Store} (hstep : ClockSteps stamps now l upd) {w : Timed}
    (h : StampedSince now w) : StampedSince now (w.step stamps now l upd) := by
  have hclock := hstep w.store
  have hkeyed := hclock.keyed h.keyed
  refine ⟨hkeyed, fun c => since_next_le _ _ (h.since_le c), ?_⟩
  intro r' hr' hs
  have hafter : (upd w.store).db.chunkRow r'.chunkId = some r' := chunkRow_eq_some hkeyed hr'
  simp only [Timed.step, hafter] at hs ⊢
  cases hbefore : w.store.db.chunkRow r'.chunkId with
  | none =>
    rw [hbefore] at hs
    simp [Mark.next] at hs
  | some r =>
    have hr : r ∈ w.store.db.chunks := List.mem_of_find?_eq_some hbefore
    have hid : r.chunkId = r'.chunkId := by simpa using List.find?_some hbefore
    rw [hbefore] at hs
    by_cases hsame : r'.status = r.status ∧ r'.lifecycle = r.lifecycle
    · -- untouched: what was known of the row stays true
      simp only [Mark.next, if_pos hsame] at hs ⊢
      rw [hsame.2, ← hid]
      exact h.stamped r hr (by rw [hid]; exact hs)
    · simp only [Mark.next, if_neg hsame] at hs ⊢
      obtain ⟨r₀, hr₀, hid₀, hcase⟩ := hclock.stamped hs r' hr'
      obtain rfl : r₀ = r := h.keyed.eq hr₀ hr (hid₀.trans hid.symm)
      rcases hcase with hcase | hcase
      · exact absurd hcase hsame
      · rw [hcase]
        refine ⟨?_, hnow⟩
        split
        · exact h.since_le _
        · exact Int.le_refl now

/-- An operation keeps them too. -/
theorem StampedSince.exec {now : ℤ} (hnow : 0 < now) (ext : Externals) (t : TenantId)
    (op : RetentionOp) {w : Timed} (h : StampedSince now w) :
    StampedSince now (w.exec ext t now op) := by
  refine Proc.All.run (R := fun w w' => StampedSince now w → StampedSince now w')
    (fun _ => id) (fun _ _ _ h₁ h₂ h => h₂ (h₁ h)) ?_ w h
  refine Proc.All.onPart ?_ (clocks_prog ext t now op)
  intro l upd hstep w h
  exact h.step hnow hstep

/-- What was stamped in time is so at any later clock. -/
theorem StampedSince.mono {now now' : ℤ} (hle : now ≤ now') {w : Timed} (h : StampedSince now w) :
    StampedSince now' w :=
  ⟨h.keyed, fun c => Int.le_trans (h.since_le c) hle, h.stamped⟩

/-- And so does every run. -/
theorem StampedSince.run (ext : Externals) (t : TenantId) {clock : ℕ} (hclock : 0 < clock)
    (ops : List (ℕ × RetentionOp)) {w : Timed} (h : StampedSince clock w) :
    ∃ now : ℤ, StampedSince now (Timed.run ext t clock ops w) := by
  induction ops generalizing clock w with
  | nil => exact ⟨clock, h⟩
  | cons op ops ih =>
    obtain ⟨gap, op⟩ := op
    have hnow : (0 : ℤ) < (clock + gap : ℕ) := by omega
    refine ih (by omega) ?_
    exact (h.mono (by omega)).exec hnow ext t op

/-- A store is stamped in time when it is first looked at. -/
theorem stampedSince_start (clock : ℕ) (s : Store) : StampedSince clock (Timed.start s) where
  keyed := Table.Keyed.nil _
  since_le _ := Int.natCast_nonneg clock
  stamped r hr := absurd hr (by simp [Timed.start])

/-! ## Candidates -/

/-- A hidden row: one of the statuses a purge takes. -/
def ChunkMetadata.isHidden (m : ChunkMetadata) : Bool :=
  m.status == .deleted || m.status == .superseded || m.status == .expired || m.status == .error

/-- The row is in history and past its own expiry. -/
def ChunkMetadata.expiredHistory (cutoff : ℤ) (m : ChunkMetadata) : Bool :=
  m.lifecycle.tier == .history && m.lifecycle.expiresAtMs.any fun e => decide (e ≤ cutoff)

/-- Why a row is selected. -/
theorem exists_row_of_candidate {db : Db} {t : TenantId} {project : Option String} {cutoff : ℤ}
    {limit : ℕ} {m : ChunkMetadata} (h : m ∈ db.listHardPurgeCandidates t project cutoff limit) :
    ∃ r ∈ db.chunks, r.toChunkMetadata = m ∧
      ((m.isHidden = true ∧ Db.retentionClock r ≤ cutoff) ∨ m.expiredHistory cutoff = true) := by
  obtain ⟨r, hr, rfl⟩ := List.mem_map.mp h
  obtain ⟨hr, hp⟩ := List.mem_filter.mp (List.mem_mergeSort.mp (List.mem_of_mem_take hr))
  refine ⟨r, hr, rfl, ?_⟩
  rw [Bool.and_eq_true, Bool.or_eq_true] at hp
  rcases hp.2 with hp | hp
  · rw [Bool.and_eq_true, decide_eq_true_iff] at hp
    exact Or.inl hp
  · exact Or.inr hp

/-- **A purge takes a stamped row only after its grace period.**  In every run of timed
operations, for every later purge: a hidden candidate whose status and overlay were last written
by a supersede, an expiry sweep or a history promotion, and that is not in history past its own
expiry, got its status at or before the cutoff. -/
theorem stamped_candidates_entered (ext : Externals) (t : TenantId) (s : Store) {clock : ℕ}
    (hclock : 0 < clock) (ops : List (ℕ × RetentionOp)) (project : Option String)
    (olderThanDays limit : ℕ) (now : ℤ) (m : ChunkMetadata)
    (hm : m ∈ (Timed.run ext t clock ops (.start s)).store.db.listHardPurgeCandidates t project
      (now - max olderThanDays 1 * 86400000) limit)
    (hstamped : ((Timed.run ext t clock ops (.start s)).marks m.chunkId).stamped = true)
    (hhistory : m.expiredHistory (now - max olderThanDays 1 * 86400000) = false) :
    m.isHidden = true ∧ ((Timed.run ext t clock ops (.start s)).marks m.chunkId).since ≤
      now - max olderThanDays 1 * 86400000 := by
  obtain ⟨now', hrun⟩ := StampedSince.run ext t hclock ops (stampedSince_start clock s)
  obtain ⟨r, hr, rfl, hcase⟩ := exists_row_of_candidate hm
  rcases hcase with ⟨hhidden, hold⟩ | hexpired
  · obtain ⟨hsince, hpos⟩ := hrun.stamped r hr hstamped
    rw [Db.retentionClock, if_neg (by omega)] at hold
    exact ⟨hhidden, Int.le_trans hsince hold⟩
  · rw [hhistory] at hexpired
    exact absurd hexpired (by simp)

/-- A purge with room for all rows takes every hidden row that is old enough. -/
theorem mem_candidates_of_row {db : Db} {t : TenantId} {cutoff : ℤ} {limit : ℕ}
    (hlimit : db.chunks.length ≤ limit) {r : ChunkRow} (hr : r ∈ db.chunks) (ht : r.tenantId = t)
    (hhidden : r.isHidden = true)
    (hcase : Db.retentionClock r ≤ cutoff ∨ r.expiredHistory cutoff = true) :
    r.toChunkMetadata ∈ db.listHardPurgeCandidates t none cutoff limit := by
  refine List.mem_map.mpr ⟨r, ?_, rfl⟩
  rw [List.take_of_length_le]
  · rw [List.mem_mergeSort, List.mem_filter]
    refine ⟨hr, ?_⟩
    rw [Bool.and_eq_true, Bool.or_eq_true]
    refine ⟨by simp [Db.inProject, ht], ?_⟩
    rcases hcase with hold | hexpired
    · exact Or.inl (Bool.and_eq_true_iff.mpr ⟨hhidden, decide_eq_true hold⟩)
    · exact Or.inr hexpired
  · rw [List.length_mergeSort]
    exact Nat.le_trans (List.length_filter_le _ _) hlimit

/-- Such a row may have been hidden after the cutoff. -/
theorem exists_early_candidate {w : Timed} {t : TenantId} {cutoff : ℤ} {limit : ℕ}
    (hlimit : w.store.db.chunks.length ≤ limit)
    (h : ∃ r ∈ w.store.db.chunks, r.tenantId = t ∧ r.isHidden = true ∧
      (Db.retentionClock r ≤ cutoff ∨ r.expiredHistory cutoff = true) ∧
      cutoff < (w.marks r.chunkId).since) :
    ∃ m ∈ w.store.db.listHardPurgeCandidates t none cutoff limit, m.isHidden = true ∧
      cutoff < (w.marks m.chunkId).since := by
  obtain ⟨r, hr, ht, hhidden, hcase, hsince⟩ := h
  exact ⟨r.toChunkMetadata, mem_candidates_of_row hlimit hr ht hhidden hcase, hhidden, hsince⟩

/-! ## Sample runs -/

/-- Ten days, in milliseconds. -/
def tenDays : ℕ := 864000000

/-- The run of a tenant from an empty store at clock 1. -/
def sampleTimed (ops : List (ℕ × RetentionOp)) : Timed :=
  Timed.run sampleExternals "t" 1 ops (.start {})

/-- An old chunk that is deleted today. -/
def sampleDeletion : List (ℕ × RetentionOp) :=
  [(0, .add (sampleChunk "a") {}), (tenDays, .delete 0)]

/-- A generated digest, for the sample run. -/
def sampleDigest : TaskArtifact where
  artifactId := "digest"
  artifactKind := .digest
  taskId := "task"
  tenantId := "t"
  timestampCreated := 1

/-- A digest that is replaced today by one with the same creation time. -/
def sampleReplacement : List (ℕ × RetentionOp) :=
  [(0, .addTaskArtifact sampleDigest [⟨"summary", sampleChunk "a"⟩]),
   (tenDays, .addTaskArtifact sampleDigest [⟨"summary", sampleChunk "b"⟩])]

/-- A chunk with an elapsed expiry that is superseded today and then promoted to history. -/
def sampleHistory : List (ℕ × RetentionOp) :=
  [(0, .add (sampleChunk "a") { expiresAtMs := some (some 5) }),
   (tenDays, .supersede 0 (sampleChunk "b") {} 2), (1, .historyPromotion 0)]

/-- A superseded chunk. -/
def sampleSupersession : List (ℕ × RetentionOp) :=
  [(0, .add (sampleChunk "a") {}), (tenDays, .supersede 0 (sampleChunk "b") {} 2)]

/-- A purge 30 days after the supersede takes the old chunk. -/
theorem superseded_chunk_entered :
    ∃ m ∈ (sampleTimed sampleSupersession).store.db.listHardPurgeCandidates "t" none
      ((4 * tenDays + 1 : ℕ) - max 30 1 * 86400000) 10,
      m.chunkId = 0 ∧ m.isHidden = true ∧
      ((sampleTimed sampleSupersession).marks m.chunkId).since ≤
        (4 * tenDays + 1 : ℕ) - max 30 1 * 86400000 := by
  obtain ⟨r, hr, ht, hid, hhidden, hold, hstamped, hhistory⟩ :
      ∃ r ∈ (sampleTimed sampleSupersession).store.db.chunks, r.tenantId = "t" ∧ r.chunkId = 0 ∧
        r.isHidden = true ∧ Db.retentionClock r ≤ (4 * tenDays + 1 : ℕ) - max 30 1 * 86400000 ∧
        ((sampleTimed sampleSupersession).marks r.chunkId).stamped = true ∧
        r.expiredHistory ((4 * tenDays + 1 : ℕ) - max 30 1 * 86400000) = false := by
    decide
  have hroom : (sampleTimed sampleSupersession).store.db.chunks.length ≤ 10 := by decide
  have hm := mem_candidates_of_row hroom hr ht hhidden (.inl hold)
  exact ⟨r.toChunkMetadata, hm, hid,
    stamped_candidates_entered sampleExternals "t" {} (by decide) sampleSupersession none 30 10
      (4 * tenDays + 1 : ℕ) r.toChunkMetadata hm hstamped hhistory⟩

/-- **Purged on the day it is hidden.**  A purge with a grace period of one day takes a chunk
that was deleted a minute ago, a digest chunk that was replaced a minute ago, and a chunk that
was superseded a minute ago and is in history past its own expiry. -/
theorem hidden_today_purged_today :
    (∃ m ∈ (sampleTimed sampleDeletion).store.db.listHardPurgeCandidates "t" none
        ((tenDays + 60000 : ℕ) - max 1 1 * 86400000) 10,
      m.isHidden = true ∧ (tenDays + 60000 : ℕ) - max 1 1 * 86400000 <
        ((sampleTimed sampleDeletion).marks m.chunkId).since) ∧
    (∃ m ∈ (sampleTimed sampleReplacement).store.db.listHardPurgeCandidates "t" none
        ((tenDays + 60000 : ℕ) - max 1 1 * 86400000) 10,
      m.isHidden = true ∧ (tenDays + 60000 : ℕ) - max 1 1 * 86400000 <
        ((sampleTimed sampleReplacement).marks m.chunkId).since) ∧
    ∃ m ∈ (sampleTimed sampleHistory).store.db.listHardPurgeCandidates "t" none
        ((tenDays + 60000 : ℕ) - max 1 1 * 86400000) 10,
      m.isHidden = true ∧ (tenDays + 60000 : ℕ) - max 1 1 * 86400000 <
        ((sampleTimed sampleHistory).marks m.chunkId).since := by
  refine ⟨exists_early_candidate ?_ ?_, exists_early_candidate ?_ ?_,
    exists_early_candidate ?_ ?_⟩
  · decide
  · decide
  · decide
  · decide
  · decide
  · decide
