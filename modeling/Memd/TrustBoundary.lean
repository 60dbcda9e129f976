/-
# The trust boundary

Runs of the handlers that write task artifacts and of digest refreshes, one call after the
other, with store calls that may fail anywhere (`runOps`), and the artifacts they hand to
`add_task_artifact` (`writesOf`).

`TrustBoundary` says which stored artifacts are verified — those `artifact.create` has written
as countersignatures — and that the projections of an artifact are tagged with its promotion
state.  The first part holds in every run that starts without verified artifacts
(`verified_iff_countersigned`).  The tags are derived from the artifact once more, by a function
that never says verified: the whole holds exactly in the runs without a countersignature
(`trustBoundary_iff`).
-/
import Memd.ArtifactStore

open TaskArtifact Cluster
open PersistentStore (TaskProjection)

/-! ## Calls -/

/-- A call of a handler or a refresh of a digest. -/
inductive OpsCall
  | taskStart (p : TaskStartParams)
  | taskProgress (p : TaskProgressParams)
  | taskRunStart (p : TaskRunStartParams)
  | taskRunFinish (p : TaskRunFinishParams)
  | taskAddEvidence (p : TaskAddEvidenceParams)
  | taskFinish (p : TaskFinishParams)
  | artifactCreate (p : ArtifactCreateParams)
  | refresh (t : TenantId) (family : DigestFamily) (readOnly : Bool)
  deriving DecidableEq, Repr

/-- A call with what it finds and how its store call goes. -/
structure OpsStep where
  env : CallEnv
  store : StoreCall
  call : OpsCall

/-- What `persist_digest_artifact` hands to the store for a digest that has been built. -/
def persistedWrite (x : DigestExternals) (readOnly : Bool) (c : Cluster) (built : TaskArtifact) :
    Option ArtifactWrite :=
  let a := finalizeArtifactForStorage built
  if isEmptyGeneratedDigestArtifact a then none
  else if ((c.db.getTaskArtifact a.tenantId a.artifactId).filter
      (digestArtifactsEquivalent · a)).isSome then none
  else if readOnly then none
  else some { artifact := a, projections := a.buildTaskProjections x.fixed3 }

namespace OpsStep

/-- What a call hands to `add_task_artifact`, when it gets there. -/
def write (x : DigestExternals) (c : Cluster) (st : OpsStep) : Option ArtifactWrite :=
  match st.call with
  | .taskStart p => (handleTaskStart x.toOpsExternals st.env p).toOption
  | .taskProgress p => (handleTaskProgress x.toOpsExternals st.env p).toOption
  | .taskRunStart p => (handleTaskRunStart x.toOpsExternals st.env p).toOption
  | .taskRunFinish p => (handleTaskRunFinish x.toOpsExternals st.env p).toOption
  | .taskAddEvidence p => (handleTaskAddEvidence x.toOpsExternals st.env p).toOption
  | .taskFinish p => (handleTaskFinish x.toOpsExternals st.env p).toOption
  | .artifactCreate p => (handleArtifactCreate x.toOpsExternals st.env c.db p).toOption
  | .refresh t family readOnly =>
    (generateDigest x st.env.cfg st.env.stamp c.db t family).toOption.bind
      (persistedWrite x readOnly c)

/-- The call is `artifact.create`. -/
def isCreate (st : OpsStep) : Bool :=
  match st.call with
  | .artifactCreate _ => true
  | _ => false

/-- The call on the store. -/
def exec (x : DigestExternals) (c : Cluster) (st : OpsStep) : Cluster :=
  match st.write x c with
  | none => c
  | some w => (c.addTaskArtifact x.toExternals st.store w.artifact w.projections).2

end OpsStep

/-- A refresh does to the store what `ensure_*_digest` does. -/
theorem exec_refresh (x : DigestExternals) (c : Cluster) (env : CallEnv) (store : StoreCall)
    (t : TenantId) (family : DigestFamily) (readOnly : Bool) :
    OpsStep.exec x c ⟨env, store, .refresh t family readOnly⟩ =
      (c.ensureDigest x env.cfg store readOnly env.stamp t family).2 := by
  unfold OpsStep.exec OpsStep.write ensureDigest
  dsimp only
  cases hgen : generateDigest x env.cfg env.stamp c.db t family with
  | error e => simp only [Except.toOption, Option.bind_none]
  | ok built =>
    simp only [Except.toOption, Option.bind_some, persistedWrite, persistDigestArtifact]
    by_cases hempty : isEmptyGeneratedDigestArtifact (finalizeArtifactForStorage built)
    · simp [hempty]
    · simp only [hempty, Bool.false_eq_true, if_false]
      cases (c.db.getTaskArtifact (finalizeArtifactForStorage built).tenantId
          (finalizeArtifactForStorage built).artifactId).filter
          (digestArtifactsEquivalent · (finalizeArtifactForStorage built)) with
      | some existing => simp
      | none =>
        cases readOnly with
        | true => simp
        | false => simp

/-! ## Runs -/

/-- A write of a run: the artifact and the projections handed to the store, the database at
that moment, whether `artifact.create` did it, and whether the store call returned. -/
structure WriteRecord extends ArtifactWrite where
  byCreate : Bool
  before : Db
  stored : Bool

/-- The record of a call. -/
def OpsStep.record (x : DigestExternals) (c : Cluster) (st : OpsStep) : Option WriteRecord :=
  (st.write x c).map fun w =>
    { w with
      byCreate := st.isCreate
      before := c.db
      stored := (c.addTaskArtifact x.toExternals st.store w.artifact w.projections).1.isOk }

/-- The calls of a run, one after the other. -/
def runOps (x : DigestExternals) : Cluster → List OpsStep → Cluster
  | c, [] => c
  | c, st :: steps => runOps x (st.exec x c) steps

/-- What the calls of a run hand to the store. -/
def writesOf (x : DigestExternals) : Cluster → List OpsStep → List WriteRecord
  | _, [] => []
  | c, st :: steps => (st.record x c).toList ++ writesOf x (st.exec x c) steps

/-- No stored artifact is verified. -/
def NoVerified (db : Db) : Prop :=
  ∀ a ∈ db.taskArtifacts, a.promotionState ≠ .verified

/-- The fields the rules of the promotion read. -/
structure SameSigning (a b : TaskArtifact) : Prop where
  kind : a.artifactKind = b.artifactKind
  claim : a.supportsClaim = b.supportsClaim
  agent : a.agentId = b.agentId
  reply : a.replyToArtifactId = b.replyToArtifactId
  tenant : a.tenantId = b.tenantId

/-- **The trust boundary** of a run: a stored artifact is verified exactly when
`artifact.create` has written it as a countersignature, nothing else that a caller sends has a
say in it, no digest is verified, and the projections of an artifact are tagged with its
promotion state. -/
structure TrustBoundary (x : DigestExternals) (c : Cluster) (steps : List OpsStep) : Prop where
  verified : ∀ a ∈ (runOps x c steps).db.taskArtifacts, a.promotionState = .verified ↔
    ∃ w ∈ writesOf x c steps, w.byCreate = true ∧ w.artifact = a ∧ Countersigned w.before a
  signing : ∀ env env' db p p' w w', handleArtifactCreate x.toOpsExternals env db p = .ok w →
    handleArtifactCreate x.toOpsExternals env' db p' = .ok w' →
    SameSigning w.artifact w'.artifact →
    w.artifact.promotionState = w'.artifact.promotionState
  digests : ∀ a ∈ (runOps x c steps).db.taskArtifacts, a.artifactKind = .digest →
    a.promotionState ≠ .verified
  tags : ∀ w ∈ writesOf x c steps, w.stored = true → ∀ p ∈ w.projections,
    promotionTag w.artifact.promotionState ∈ p.chunk.tags

/-! ## What a handler writes -/

/-- An artifact finalized and not promoted, with projections of its own. -/
structure Unpromoted (x : OpsExternals) (w : ArtifactWrite) : Prop where
  state : w.artifact.promotionState = w.artifact.deriveArtifactPromotionState
  projections : ∀ p ∈ w.projections, p ∈ w.artifact.buildTaskProjections x.fixed3

/-- An artifact prepared for storage is not promoted by it. -/
theorem unpromoted_finalize {x : OpsExternals} {a : TaskArtifact} {marks : List DigestDirtyKey} :
    Unpromoted x
      { artifact := finalizeArtifactForStorage a
        projections := (finalizeArtifactForStorage a).buildTaskProjections x.fixed3
        marks := marks } :=
  ⟨rfl, fun _ h => h⟩

/-- A minimal artifact prepared for storage is not promoted by it. -/
theorem unpromoted_minimal {x : OpsExternals} {a : TaskArtifact} {marks : List DigestDirtyKey} :
    Unpromoted x
      { artifact := finalizeArtifactForStorage a
        projections := (finalizeArtifactForStorage a).buildTaskProjectionsMinimal x.fixed3
        marks := marks } :=
  ⟨rfl, fun _ h => mem_of_mem_minimal h⟩

/-- What every result of a computation that succeeds satisfies. -/
def AllOk {ε α : Type} (P : α → Prop) (m : Except ε α) : Prop :=
  ∀ a, m = .ok a → P a

namespace AllOk

variable {ε α β : Type} {P : β → Prop}

/-- A computation that returns at once. -/
theorem pure {b : β} (h : P b) : AllOk P (Except.ok b : Except ε β) :=
  fun _ hb => Except.ok.inj hb ▸ h

/-- What every result satisfies goes through a computation in front. -/
theorem bind {m : Except ε α} {f : α → Except ε β} (h : ∀ a, AllOk P (f a)) :
    AllOk P (m >>= f) := by
  intro b hb
  obtain ⟨a, _, hb⟩ := Proc.except_bind_eq_ok.mp hb
  exact h a b hb

/-- What every result of both branches satisfies. -/
theorem ite {c : Prop} [Decidable c] {m m' : Except ε β} (h : AllOk P m) (h' : AllOk P m') :
    AllOk P (if c then m else m') := by
  split
  · exact h
  · exact h'

end AllOk

section Handlers

variable (x : OpsExternals) (env : CallEnv)

/-- `handle_task_start` promotes nothing. -/
theorem handleTaskStart_unpromoted (p : TaskStartParams) :
    AllOk (Unpromoted x) (handleTaskStart x env p) :=
  .bind fun _ => .bind fun _ => .bind fun _ => .bind fun _ => .bind fun _ =>
    .pure unpromoted_finalize

/-- `handle_task_finish` promotes nothing. -/
theorem handleTaskFinish_unpromoted (p : TaskFinishParams) :
    AllOk (Unpromoted x) (handleTaskFinish x env p) :=
  .bind fun _ => .bind fun _ => .bind fun _ => .bind fun _ => .bind fun _ =>
    .pure unpromoted_finalize

/-- `handle_task_progress` promotes nothing. -/
theorem handleTaskProgress_unpromoted (p : TaskProgressParams) :
    AllOk (Unpromoted x) (handleTaskProgress x env p) :=
  .bind fun _ => .bind fun _ => .bind fun _ => .bind fun _ => .bind fun _ => .bind fun _ =>
    .pure unpromoted_minimal

/-- `handle_task_run_start` promotes nothing. -/
theorem handleTaskRunStart_unpromoted (p : TaskRunStartParams) :
    AllOk (Unpromoted x) (handleTaskRunStart x env p) :=
  .bind fun _ => .bind fun _ => .bind fun _ => .bind fun _ => .bind fun _ =>
    .ite (.bind fun _ => .bind fun _ => .bind fun _ => .pure unpromoted_finalize)
      (.bind fun _ => .bind fun _ => .bind fun _ => .pure unpromoted_finalize)

/-- `handle_task_run_finish` promotes nothing. -/
theorem handleTaskRunFinish_unpromoted (p : TaskRunFinishParams) :
    AllOk (Unpromoted x) (handleTaskRunFinish x env p) :=
  .bind fun _ => .bind fun _ => .bind fun _ => .bind fun _ => .bind fun _ => .bind fun _ =>
    .pure unpromoted_finalize

/-- `handle_task_add_evidence` promotes nothing. -/
theorem handleTaskAddEvidence_unpromoted (p : TaskAddEvidenceParams) :
    AllOk (Unpromoted x) (handleTaskAddEvidence x env p) :=
  .bind fun _ => .bind fun _ => .bind fun _ => .bind fun _ => .bind fun _ => .bind fun _ =>
    .pure unpromoted_minimal

/-- What `artifact.create` writes: an artifact promoted by the rules, fully projected. -/
structure Created (x : OpsExternals) (db : Db) (w : ArtifactWrite) : Prop where
  promoted : ∃ built : TaskArtifact,
    w.artifact = promoteIfCountersigned db (finalizeArtifactForStorage built)
  projections : w.projections = w.artifact.buildTaskProjections x.fixed3

/-- **`handle_artifact_create`** promotes what another agent has countersigned. -/
theorem handleArtifactCreate_created (db : Db) (p : ArtifactCreateParams) :
    AllOk (Created x db) (handleArtifactCreate x env db p) :=
  .bind fun built => .pure ⟨⟨built, rfl⟩, rfl⟩

end Handlers

/-- Persisting a digest promotes nothing. -/
theorem persistedWrite_unpromoted {x : DigestExternals} {readOnly : Bool} {c : Cluster}
    {built : TaskArtifact} {w : ArtifactWrite} (h : persistedWrite x readOnly c built = some w) :
    Unpromoted x.toOpsExternals w := by
  unfold persistedWrite at h
  dsimp only at h
  split at h
  · cases h
  split at h
  · cases h
  split at h
  · cases h
  · cases h
    exact unpromoted_finalize

/-- A result that is there is a success. -/
theorem toOption_eq_some {ε α : Type} {m : Except ε α} {a : α} :
    m.toOption = some a ↔ m = .ok a := by
  cases m <;> simp [Except.toOption]

/-- `artifact.create` promotes by the rules; no other call promotes. -/
theorem OpsStep.write_cases {x : DigestExternals} {c : Cluster} {st : OpsStep} {w : ArtifactWrite}
    (h : st.write x c = some w) :
    (st.isCreate = true ∧ Created x.toOpsExternals c.db w) ∨
      (st.isCreate = false ∧ Unpromoted x.toOpsExternals w) := by
  obtain ⟨env, store, call⟩ := st
  cases call with
  | taskStart p =>
    exact .inr ⟨rfl, handleTaskStart_unpromoted _ env p w (toOption_eq_some.mp h)⟩
  | taskProgress p =>
    exact .inr ⟨rfl, handleTaskProgress_unpromoted _ env p w (toOption_eq_some.mp h)⟩
  | taskRunStart p =>
    exact .inr ⟨rfl, handleTaskRunStart_unpromoted _ env p w (toOption_eq_some.mp h)⟩
  | taskRunFinish p =>
    exact .inr ⟨rfl, handleTaskRunFinish_unpromoted _ env p w (toOption_eq_some.mp h)⟩
  | taskAddEvidence p =>
    exact .inr ⟨rfl, handleTaskAddEvidence_unpromoted _ env p w (toOption_eq_some.mp h)⟩
  | taskFinish p =>
    exact .inr ⟨rfl, handleTaskFinish_unpromoted _ env p w (toOption_eq_some.mp h)⟩
  | artifactCreate p =>
    exact .inl ⟨rfl, handleArtifactCreate_created _ env c.db p w (toOption_eq_some.mp h)⟩
  | refresh t family readOnly =>
    obtain ⟨built, -, hb⟩ := Option.bind_eq_some_iff.mp h
    exact .inr ⟨rfl, persistedWrite_unpromoted hb⟩

/-! ## When a write is verified -/

/-- What is not promoted is not verified. -/
theorem Unpromoted.ne_verified {x : OpsExternals} {w : ArtifactWrite} (h : Unpromoted x w) :
    w.artifact.promotionState ≠ .verified := by
  rw [h.state]
  exact deriveArtifactPromotionState_ne_verified _

/-- The rules do not read the promotion state. -/
theorem countersigned_with {db : Db} {a : TaskArtifact} {state : PromotionState} :
    Countersigned db { a with promotionState := state } ↔ Countersigned db a :=
  Iff.rfl

/-- `artifact.create` verifies exactly the countersignatures, and leaves the others in the
derived state. -/
theorem Created.state {x : OpsExternals} {db : Db} {w : ArtifactWrite} (h : Created x db w) :
    (Countersigned db w.artifact ∧ w.artifact.promotionState = .verified) ∨
      (¬ Countersigned db w.artifact ∧
        w.artifact.promotionState = w.artifact.deriveArtifactPromotionState) := by
  obtain ⟨built, hbuilt⟩ := h.promoted
  rcases promoteIfCountersigned_of db (finalizeArtifactForStorage built) with
    ⟨hsigned, hp⟩ | ⟨hnot, hp⟩
  · rw [hbuilt, hp]
    exact .inl ⟨countersigned_with.mpr hsigned, rfl⟩
  · rw [hbuilt, hp]
    exact .inr ⟨hnot, rfl⟩

/-- An artifact is created as verified exactly where it is countersigned. -/
theorem Created.verified_iff {x : OpsExternals} {db : Db} {w : ArtifactWrite}
    (h : Created x db w) : w.artifact.promotionState = .verified ↔ Countersigned db w.artifact := by
  rcases h.state with ⟨hsigned, hstate⟩ | ⟨hnot, hstate⟩
  · exact ⟨fun _ => hsigned, fun _ => hstate⟩
  · refine ⟨fun hv => ?_, fun hs => absurd hs hnot⟩
    exact absurd (hstate.symm.trans hv) (deriveArtifactPromotionState_ne_verified _)

/-- A record is one of `artifact.create`, promoted by the rules, or of another call. -/
theorem writesOf_cases {x : DigestExternals} {c : Cluster} {steps : List OpsStep} {w : WriteRecord}
    (h : w ∈ writesOf x c steps) :
    (w.byCreate = true ∧ Created x.toOpsExternals w.before w.toArtifactWrite) ∨
      (w.byCreate = false ∧ Unpromoted x.toOpsExternals w.toArtifactWrite) := by
  induction steps generalizing c with
  | nil => cases h
  | cons st steps ih =>
    rcases List.mem_append.mp h with h | h
    · obtain ⟨w', hw', rfl⟩ := Option.map_eq_some_iff.mp (Option.mem_toList.mp h)
      exact OpsStep.write_cases hw'
    · exact ih h

/-- A stored artifact was there at the start or was handed to the store in the run. -/
theorem mem_runOps {x : DigestExternals} {c : Cluster} {steps : List OpsStep} {a : TaskArtifact}
    (h : a ∈ (runOps x c steps).db.taskArtifacts) :
    a ∈ c.db.taskArtifacts ∨ ∃ w ∈ writesOf x c steps, w.artifact = a := by
  induction steps generalizing c with
  | nil => exact .inl h
  | cons st steps ih =>
    rcases ih h with hbefore | ⟨w, hw, ha⟩
    swap
    · exact .inr ⟨w, List.mem_append_right _ hw, ha⟩
    unfold OpsStep.exec at hbefore
    cases hwrite : st.write x c with
    | none =>
      simp only [hwrite] at hbefore
      exact .inl hbefore
    | some w =>
      simp only [hwrite] at hbefore
      rcases addTaskArtifact_tables x.toExternals st.store w.artifact w.projections c with
        hwrote | ⟨hsame, -⟩
      · rcases hwrote.mem_artifacts.mp hbefore with rfl | ⟨hbefore, -⟩
        · have hrec : st.record x c = some
              { w with
                byCreate := st.isCreate
                before := c.db
                stored := (c.addTaskArtifact x.toExternals st.store w.artifact
                  w.projections).1.isOk } := by
            rw [OpsStep.record, hwrite, Option.map_some]
          refine .inr ⟨_, List.mem_append_left _ (Option.mem_toList.mpr hrec), rfl⟩
        · exact .inl hbefore
      · rw [hsame.artifacts] at hbefore
        exact .inl hbefore

/-- **A stored artifact is verified exactly when `artifact.create` has written it as a
countersignature.** -/
theorem verified_iff_countersigned {x : DigestExternals} {c : Cluster} (hc : NoVerified c.db)
    {steps : List OpsStep} {a : TaskArtifact} (h : a ∈ (runOps x c steps).db.taskArtifacts) :
    a.promotionState = .verified ↔
      ∃ w ∈ writesOf x c steps, w.byCreate = true ∧ w.artifact = a ∧ Countersigned w.before a := by
  constructor
  · intro hv
    rcases mem_runOps h with hmem | ⟨w, hw, rfl⟩
    · exact absurd hv (hc a hmem)
    rcases writesOf_cases hw with ⟨hcreate, hcreated⟩ | ⟨-, hun⟩
    · exact ⟨w, hw, hcreate, rfl, hcreated.verified_iff.mp hv⟩
    · exact absurd hv hun.ne_verified
  · rintro ⟨w, hw, hcreate, rfl, hsigned⟩
    rcases writesOf_cases hw with ⟨-, hcreated⟩ | ⟨hother, -⟩
    · exact hcreated.verified_iff.mpr hsigned
    · exact absurd (hcreate.symm.trans hother) (by decide)

/-- The rules read the signing fields only. -/
theorem SameSigning.countersigned {a b : TaskArtifact} (h : SameSigning a b) (db : Db) :
    Countersigned db a ↔ Countersigned db b := by
  have hsigner : signer a = signer b := by rw [signer, signer, h.agent]
  rw [Countersigned, Countersigned, h.kind, h.claim, h.reply, h.tenant, hsigner]

/-- The promotion derived depends on the signing only. -/
theorem SameSigning.derive {a b : TaskArtifact} (h : SameSigning a b) :
    a.deriveArtifactPromotionState = b.deriveArtifactPromotionState := by
  rw [deriveArtifactPromotionState, deriveArtifactPromotionState, h.kind]

/-- Two artifacts `artifact.create` writes with the same signing fields get the same state. -/
theorem Created.sameSigning {x : OpsExternals} {db : Db} {w w' : ArtifactWrite}
    (h : Created x db w) (h' : Created x db w') (hs : SameSigning w.artifact w'.artifact) :
    w.artifact.promotionState = w'.artifact.promotionState := by
  rcases h.state with ⟨hsigned, hstate⟩ | ⟨hnot, hstate⟩
  · rw [hstate, h'.verified_iff.mpr ((hs.countersigned db).mp hsigned)]
  · rcases h'.state with ⟨hsigned', -⟩ | ⟨-, hstate'⟩
    · exact absurd ((hs.countersigned db).mpr hsigned') hnot
    · rw [hstate, hstate', hs.derive]

/-! ## The tags -/

/-- The projections of an artifact name its state exactly when the state is the derived one. -/
theorem tags_iff_derived {x : OpsExternals} {w : ArtifactWrite} {p : TaskProjection}
    (hp : p ∈ w.artifact.buildTaskProjections x.fixed3) :
    promotionTag w.artifact.promotionState ∈ p.chunk.tags ↔
      w.artifact.promotionState = w.artifact.deriveArtifactPromotionState := by
  obtain ⟨kind, chunkType, text, rfl⟩ := exists_of_mem_buildTaskProjections hp
  exact promotionTag_mem_iff

/-- A countersignature is stored with projections, and none of them says verified. -/
theorem Created.tags_fail {x : OpsExternals} {db : Db} {w : ArtifactWrite} (h : Created x db w)
    (hsigned : Countersigned db w.artifact) :
    ∃ p ∈ w.projections, promotionTag w.artifact.promotionState ∉ p.chunk.tags := by
  obtain ⟨p, hp⟩ := List.exists_mem_of_ne_nil _ (buildTaskProjections_ne_nil x.fixed3 w.artifact)
  refine ⟨p, by rwa [h.projections], fun htag => ?_⟩
  have hstate := h.verified_iff.mpr hsigned
  have hderived := (tags_iff_derived hp).mp htag
  exact deriveArtifactPromotionState_ne_verified _ (hderived.symm.trans hstate)

/-- Every other write is tagged with its state. -/
theorem tags_of_not_countersigned {x : DigestExternals} {c : Cluster} {steps : List OpsStep}
    {w : WriteRecord} (hw : w ∈ writesOf x c steps)
    (hnot : w.byCreate = true → ¬ Countersigned w.before w.artifact) {p : TaskProjection}
    (hp : p ∈ w.projections) : promotionTag w.artifact.promotionState ∈ p.chunk.tags := by
  rcases writesOf_cases hw with ⟨hcreate, hcreated⟩ | ⟨-, hun⟩
  · rw [hcreated.projections] at hp
    refine (tags_iff_derived (w := w.toArtifactWrite) hp).mpr ?_
    rcases hcreated.state with ⟨hsigned, -⟩ | ⟨-, hstate⟩
    · exact absurd hsigned (hnot hcreate)
    · exact hstate
  · exact (tags_iff_derived (w := w.toArtifactWrite) (hun.projections p hp)).mpr hun.state

/-- **The trust boundary holds exactly in the runs without a stored countersignature.** -/
theorem trustBoundary_iff {x : DigestExternals} {c : Cluster} (hc : NoVerified c.db)
    (steps : List OpsStep) :
    TrustBoundary x c steps ↔ ∀ w ∈ writesOf x c steps, w.stored = true → w.byCreate = true →
      ¬ Countersigned w.before w.artifact := by
  constructor
  · intro h w hw hstored hcreate hsigned
    rcases writesOf_cases hw with ⟨-, hcreated⟩ | ⟨hother, -⟩
    · obtain ⟨p, hp, hno⟩ := hcreated.tags_fail hsigned
      exact hno (h.tags w hw hstored p hp)
    · exact absurd (hcreate.symm.trans hother) (by decide)
  · intro hnone
    refine ⟨fun a ha => verified_iff_countersigned hc ha, ?_, ?_, ?_⟩
    · intro env env' db p p' w w' hw hw' hsame
      exact (handleArtifactCreate_created _ env db p w hw).sameSigning
        (handleArtifactCreate_created _ env' db p' w' hw') hsame
    · intro a ha hdigest hv
      -- a verified artifact is of a countersigning kind, a digest is not
      obtain ⟨w, -, -, -, hsigned⟩ := (verified_iff_countersigned hc ha).mp hv
      have hkind := hsigned.1
      rw [hdigest] at hkind
      exact absurd hkind (by decide)
    · intro w hw hstored p hp
      exact tags_of_not_countersigned hw (hnone w hw hstored) hp

/-! ### A run with a countersignature -/

/-- The outside functions on the texts of the sample run. -/
def sampleSigning : DigestExternals where
  sha256Hex text :=
    if text = "Task evidence recorded for task k1.\nThread: k1\nSummary: s" then
      "1a212911d9a12a8da7892bc096210fa9ddc26af2a5f3d7e71f2d04da94a9f27c"
    else if text = "Task review status recorded for task k1.\nThread: k1\nReply to: e1" then
      "7d782a5d84cdae1cf7d08867630f870116b68b892b70ca4d4bfee3e2881eeec0"
    else ""
  toLowercase text := text
  chunkText text := [⟨text, 0, text.length⟩]
  fixed3 _ := "0.500"
  metricJson name value := name ++ ":" ++ value
  highlightScore _ := 0
  highlightConfidence _ _ := 0

/-- Alice adds evidence, and an agent replies with a review that supports it. -/
def sampleReview (agent : String) : List OpsStep :=
  [⟨{ stamp := ⟨"e1", "k0", 1⟩ }, { now := 1 }, .taskAddEvidence
      { tenantId := "t", agentId := some "alice", taskId := "k1", summary := "s"
        evidenceKind := "log" }⟩,
    ⟨{ stamp := ⟨"r1", "k0", 2⟩ }, { now := 2 }, .artifactCreate
      { tenantId := "t", agentId := some agent, taskId := some "k1", artifactKind := "review"
        supportsClaim := some true, replyToArtifactId := some "e1" }⟩]

/-- Alice's review of her own evidence is no countersignature. -/
theorem trustBoundary_own_review :
    TrustBoundary sampleSigning {} (sampleReview "alice") := by
  refine (trustBoundary_iff (fun _ ha => absurd ha List.not_mem_nil) (sampleReview "alice")).mpr ?_
  decide

/-- Bob's review of Alice's evidence is one. -/
theorem not_trustBoundary_countersigned :
    ¬ (∀ (x : DigestExternals) (c : Cluster) (steps : List OpsStep), NoVerified c.db →
      TrustBoundary x c steps) := by
  intro h
  have htags := (h sampleSigning {} (sampleReview "bob") (fun _ ha => absurd ha List.not_mem_nil)).tags
  have hfail : ¬ ∀ w ∈ writesOf sampleSigning {} (sampleReview "bob"), w.stored = true →
      ∀ p ∈ w.projections, promotionTag w.artifact.promotionState ∈ p.chunk.tags := by
    decide
  exact hfail htags
