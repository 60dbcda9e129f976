/-
# The guards of a task artifact over a whole log

`insert_task_artifact_bundle` reads two things of the task tables before it writes: the artifact
that has the id already, and the tenant of the task.  These two (`Guards`) decide whether a list of
artifacts is accepted one after the other, and a list that was accepted may be written again without
a difference to them.

* `guards_writeTaskRows` — how an artifact changes what the guards read;
* `Guards.acceptsAll_again` — an accepted beginning, written before the whole list, does not make
  the list acceptable.
-/
import Memd.ArtifactReplay

open Store TenantStore PersistentStore

/-- What the guards read: the artifact with an id and the tenant of a task. -/
@[ext] structure Guards where
  artifact : String → Option TaskArtifact
  tenant : String → Option TenantId

/-- What the guards read of the tables. -/
def Db.guards (db : Db) : Guards where
  artifact id := db.taskArtifacts.find? (·.artifactId == id)
  tenant id := (db.tasks.find? (·.taskId == id)).map (·.tenantId)

theorem Db.guards_congr {db db' : Db} (ha : db'.taskArtifacts = db.taskArtifacts)
    (ht : db'.tasks = db.tasks) : db'.guards = db.guards := by
  rw [Db.guards, Db.guards, ha, ht]

namespace Guards

/-- Do the guards let the artifact pass? -/
def accepts (g : Guards) (a : TaskArtifact) : Bool :=
  (Db.rejectExperienceArtifactOverwrite (g.artifact a.artifactId) a).isOk &&
    (a.artifactKind == .digest || (Db.rejectCrossTenantTaskWrite (g.tenant a.taskId) a).isOk)

/-- What they read when the artifact is written; a task keeps its first tenant. -/
def write (g : Guards) (a : TaskArtifact) : Guards where
  artifact id := if a.artifactId == id then some a else g.artifact id
  tenant id := (g.tenant id).or
    (if a.artifactKind != .digest && a.taskId == id then some a.tenantId else none)

/-- What they read when all artifacts are written. -/
def writeAll (g : Guards) (l : List TaskArtifact) : Guards :=
  l.foldl write g

/-- Do the guards let all artifacts pass, one after the other? -/
def acceptsAll : Guards → List TaskArtifact → Bool
  | _, [] => true
  | g, a :: l => g.accepts a && (g.write a).acceptsAll l

theorem acceptsAll_append (g : Guards) (l l' : List TaskArtifact) :
    g.acceptsAll (l ++ l') = (g.acceptsAll l && (g.writeAll l).acceptsAll l') := by
  induction l generalizing g with
  | nil => rfl
  | cons a l ih =>
    rw [List.cons_append, acceptsAll, acceptsAll, ih, Bool.and_assoc]
    rfl

/-! ## Writing a list twice -/

/-- The last artifact with an id is read. -/
theorem artifact_writeAll (g : Guards) (l : List TaskArtifact) (id : String) :
    (g.writeAll l).artifact id = (l.reverse.find? (·.artifactId == id)).or (g.artifact id) := by
  induction l generalizing g with
  | nil => rfl
  | cons a l ih =>
    show ((g.write a).writeAll l).artifact id = _
    rw [ih, List.reverse_cons, List.find?_append, Option.or_assoc]
    congr 1
    show (if a.artifactId == id then some a else g.artifact id) = _
    cases h : a.artifactId == id <;> simp [h]

/-- The first tenant of a task is read. -/
theorem tenant_writeAll (g : Guards) (l : List TaskArtifact) (id : String) :
    (g.writeAll l).tenant id = (g.tenant id).or
      ((l.find? fun a => a.artifactKind != .digest && a.taskId == id).map (·.tenantId)) := by
  induction l generalizing g with
  | nil => exact Option.or_none.symm
  | cons a l ih =>
    show ((g.write a).writeAll l).tenant id = _
    rw [ih]
    show ((g.tenant id).or (if a.artifactKind != .digest && a.taskId == id then some a.tenantId
      else none)).or _ = _
    rw [Option.or_assoc]
    congr 1
    cases h : a.artifactKind != .digest && a.taskId == id <;> simp [h]

/-- A list written a second time changes nothing. -/
theorem writeAll_writeAll (g : Guards) (l : List TaskArtifact) :
    (g.writeAll l).writeAll l = g.writeAll l := by
  have hartifact : ((g.writeAll l).writeAll l).artifact = (g.writeAll l).artifact := by
    funext id
    rw [artifact_writeAll, artifact_writeAll, ← Option.or_assoc, Option.or_self]
  have htenant : ((g.writeAll l).writeAll l).tenant = (g.writeAll l).tenant := by
    funext id
    rw [tenant_writeAll, tenant_writeAll, Option.or_assoc, Option.or_self]
  exact Guards.ext hartifact htenant

/-- **A refused list stays refused** when an accepted beginning of it is written first. -/
theorem acceptsAll_again {g : Guards} {l l' : List TaskArtifact} (hl : g.acceptsAll l = true)
    (h : (g.writeAll l).acceptsAll (l ++ l') = true) : g.acceptsAll (l ++ l') = true := by
  rw [acceptsAll_append, writeAll_writeAll, Bool.and_eq_true] at h
  rw [acceptsAll_append, hl, h.2]
  rfl

end Guards

/-! ## The tables -/

namespace Db

theorem ensureTaskArtifactWriteSafe_eq_ok {db : Db} {a : TaskArtifact} :
    db.ensureTaskArtifactWriteSafe a = .ok () ↔ db.guards.accepts a = true := by
  unfold ensureTaskArtifactWriteSafe Guards.accepts guards
  dsimp only
  cases rejectExperienceArtifactOverwrite (db.taskArtifacts.find? (·.artifactId == a.artifactId)) a with
  | error e => simp [bind, Except.bind, Except.isOk, Except.toBool]
  | ok _ =>
    by_cases hkind : a.artifactKind = .digest
    · simp [hkind, bind, Except.bind, pure, Except.pure, Except.isOk, Except.toBool]
    · cases rejectCrossTenantTaskWrite ((db.tasks.find? (·.taskId == a.taskId)).map (·.tenantId)) a <;>
        simp [hkind, bind, Except.bind, Except.isOk, Except.toBool]

/-- The tenant of a task after an upsert. -/
theorem tenant_upsertTask (tasks : List TaskRow) (new : TaskRow) (id : String) :
    ((upsertTask tasks new).find? (·.taskId == id)).map (·.tenantId) =
      ((tasks.find? (·.taskId == id)).map (·.tenantId)).or
        (if new.taskId == id then some new.tenantId else none) := by
  unfold upsertTask
  split
  · rename_i hany
    have hmap : ∀ r : TaskRow,
        (if r.taskId == new.taskId then mergeTask r new else r).taskId = r.taskId ∧
        (if r.taskId == new.taskId then mergeTask r new else r).tenantId = r.tenantId := by
      intro r
      split <;> exact ⟨rfl, rfl⟩
    rw [Table.updateWhere, List.find?_map, Option.map_map]
    have hpred : (fun r : TaskRow => r.taskId == id) ∘
        (fun r => if r.taskId == new.taskId then mergeTask r new else r) = (·.taskId == id) := by
      funext r
      rw [Function.comp_apply, (hmap r).1]
    have htenant : (fun r : TaskRow => r.tenantId) ∘
        (fun r => if r.taskId == new.taskId then mergeTask r new else r) = (·.tenantId) := by
      funext r
      rw [Function.comp_apply, (hmap r).2]
    rw [hpred, htenant]
    cases hid : new.taskId == id with
    | false => simp
    | true =>
      -- the task is there already
      obtain ⟨r, hr, hrid⟩ := List.any_eq_true.mp hany
      have hsome : (tasks.find? (·.taskId == id)).isSome := by
        rw [List.find?_isSome]
        exact ⟨r, hr, by rw [← beq_iff_eq.mp hid]; exact hrid⟩
      obtain ⟨r', hr'⟩ := Option.isSome_iff_exists.mp hsome
      simp [hr']
  · rw [List.find?_append, Option.map_or]
    congr 1
    cases hid : new.taskId == id <;> simp [hid]

theorem guards_writeTaskRows (db : Db) (a : TaskArtifact) :
    (db.writeTaskRows a).guards = db.guards.write a := by
  have hartifact : (db.writeTaskRows a).guards.artifact = (db.guards.write a).artifact := by
    funext id
    show (Table.insertOrReplace (fun x y => x.artifactId == y.artifactId) a db.taskArtifacts).find?
      (·.artifactId == id) =
        if a.artifactId == id then some a else db.taskArtifacts.find? (·.artifactId == id)
    rw [Table.insertOrReplace, List.find?_append]
    cases hid : a.artifactId == id with
    | true =>
      have hnone : (db.taskArtifacts.filter fun x => !(x.artifactId == a.artifactId)).find?
          (·.artifactId == id) = none := by
        rw [List.find?_eq_none]
        intro x hx hxid
        obtain rfl := beq_iff_eq.mp hid
        have hne := (List.mem_filter.mp hx).2
        rw [hxid] at hne
        exact absurd hne (by simp)
      rw [hnone]
      simp [hid]
    | false =>
      have hsame : (db.taskArtifacts.filter fun x => !(x.artifactId == a.artifactId)).find?
          (·.artifactId == id) = db.taskArtifacts.find? (·.artifactId == id) := by
        rw [List.find?_filter]
        congr 1
        funext x
        by_cases hx : x.artifactId = id
        · have hne : a.artifactId ≠ id := by simpa using hid
          simp [hx, Ne.symm hne]
        · simp [hx]
      rw [hsame]
      simp [hid]
  have htenant : (db.writeTaskRows a).guards.tenant = (db.guards.write a).tenant := by
    funext id
    show ((db.writeTaskRows a).tasks.find? (·.taskId == id)).map (·.tenantId) = _
    by_cases hkind : a.artifactKind = .digest
    · simp [writeTaskRows, Guards.write, guards, hkind]
    · have htasks : (db.writeTaskRows a).tasks = upsertTask db.tasks (taskRowOf a) := by
        simp [writeTaskRows, hkind]
      rw [htasks, tenant_upsertTask]
      simp [Guards.write, guards, hkind, taskRowOf]
  exact Guards.ext hartifact htenant

theorem guards_applyBundle (db : Db) (a : TaskArtifact) (projections : List ChunkId)
    (kinds : List String) : (db.applyBundle a projections kinds).guards = db.guards.write a := by
  obtain ⟨hartifacts, htasks⟩ := applyBundle_tables db a projections kinds
  rw [guards_congr hartifacts htasks, guards_writeTaskRows]

end Db
