/-
# Runs of the handlers

What holds of the database after any run of the handlers and of digest refreshes on a store that
was empty (`runOps`), with store calls that may fail anywhere and artifact ids that are drawn
fresh.

* `idsBelow_runOps` — every chunk row has an id that was handed out;
* `opsRows_runOps` — every artifact has an id of its own, that of a digest says so, no digest is
  empty, and every task has an artifact that is no digest.
-/
import Memd.EmptyDigests
import Memd.IndexHonesty
import Memd.TagWords
import Memd.TrustBoundary

open Store TenantStore PersistentStore TaskArtifact Cluster

/-! ## Chunk ids -/

/-- Every chunk row has an id that was handed out. -/
def IdsBelow (s : Store) : Prop :=
  ∀ r ∈ s.db.chunks, r.chunkId < s.nextId

/-- A rotation draws no id. -/
theorem rotateIfFull_nextId (maxChunks : ℕ) (s : Store) :
    (rotateIfFull maxChunks s).2.nextId = s.nextId := by
  unfold rotateIfFull sealActive
  split
  · split
    · rfl
    · split <;> rfl
  · rfl

/-- Nor does opening an active segment. -/
theorem createIfNone_nextId (s : Store) : (createIfNone s).nextId = s.nextId := by
  unfold createIfNone
  split <;> rfl

/-- Nor an append. -/
theorem appendToActive_nextId (msg : String) (chunk : MemoryChunk) (s : Store) :
    (appendToActive msg chunk s).2.nextId = s.nextId := by
  unfold appendToActive
  split <;> rfl

/-- Nor a flush. -/
theorem flushActive_nextId (s : Store) : (flushActive s).nextId = s.nextId := by
  unfold flushActive
  split <;> rfl

/-- Nor a finalization. -/
theorem finalizeActive_nextId (s : Store) : (finalizeActive s).2.nextId = s.nextId := by
  unfold finalizeActive sealActive
  split
  · rfl
  · split
    · split <;> rfl
    · rfl

/-- A step that only overlays chunk rows and takes no id back. -/
def OverlayStep (upd : Store → Store) : Prop :=
  ∀ s, s.db.Overlay (upd s).db ∧ s.nextId ≤ (upd s).nextId

/-- A step that leaves database and ids is one on the overlay. -/
theorem OverlayStep.of_eq {upd : Store → Store} (hdb : ∀ s, (upd s).db = s.db)
    (hid : ∀ s, (upd s).nextId = s.nextId) : OverlayStep upd :=
  fun s => ⟨hdb s ▸ Db.Overlay.refl s.db, (hid s).ge⟩

/-- Steps on the overlay keep all ids below the next one. -/
theorem IdsBelow.overlay {s s' : Store} (h : IdsBelow s) (hdb : s.db.Overlay s'.db)
    (hid : s.nextId ≤ s'.nextId) : IdsBelow s' := by
  intro r' hr'
  obtain ⟨r, hr, hrow⟩ := hdb.mem hr'
  rw [hrow.chunkId]
  exact Nat.lt_of_lt_of_le (h r hr) hid

/-- The programs of such steps keep the ids below, and ids that were handed out stay so. -/
theorem safe_of_overlaySteps {α : Type} {p : StoreProg α} (hp : p.All fun _ upd => OverlayStep upd)
    {s : Store} {n : ℕ} (hs : IdsBelow s) (hn : n ≤ s.nextId) :
    Proc.Safe (fun _ _ => True) (fun _ _ => True) IdsBelow
      (fun _ s' => IdsBelow s' ∧ n ≤ s'.nextId) p s := by
  induction p generalizing s with
  | ret r => exact Proc.Safe.ret fun _ => ⟨hs, hn⟩
  | fail e => exact Proc.Safe.fail fun _ => ⟨hs, hn⟩
  | act l upd next ih =>
    obtain ⟨hdb, hid⟩ := hp.1 s
    have hnext := hs.overlay hdb hid
    exact Proc.Safe.act fun _ _ => ⟨trivial, hnext, fun _ => ih s (hp.2 s) hnext (hn.trans hid)⟩

/-- Storing a payload writes files only. -/
theorem overlaySteps_storePayload (msg : String) (chunk : MemoryChunk) :
    (storePayload msg chunk).All fun _ upd => OverlayStep upd := by
  have hid : OverlayStep id := .of_eq (fun _ => rfl) fun _ => rfl
  refine Proc.All.bind (Proc.All.read _ hid) fun maxChunks => ?_
  refine Proc.All.bind ?_ fun _ =>
    Proc.All.perform (.of_eq (appendToActive_db msg chunk) (appendToActive_nextId msg chunk))
  refine Proc.All.bind
    (Proc.All.perform (.of_eq (rotateIfFull_db maxChunks) (rotateIfFull_nextId maxChunks)))
    fun _ => ?_
  exact Proc.All.modify (.of_eq createIfNone_db createIfNone_nextId)

/-- So does a checkpoint. -/
theorem overlaySteps_checkpointAfterBatch (writes : ℕ) :
    (checkpointAfterBatch writes).All fun _ upd => OverlayStep upd := by
  have hid : OverlayStep id := .of_eq (fun _ => rfl) fun _ => rfl
  refine Proc.All.bind (Proc.All.read _ hid) fun interval => ?_
  split
  · trivial
  refine Proc.All.bind (Proc.All.perform (.of_eq (fun _ => rfl) fun _ => rfl)) fun checkpoints => ?_
  split
  · trivial
  refine Proc.All.bind (Proc.All.perform (.of_eq finalizeActive_db finalizeActive_nextId))
    fun _ => ?_
  exact Proc.All.forM (fun _ => Proc.All.modify (.of_eq (fun _ => rfl) fun _ => rfl)) _

/-- An index outcome writes the overlay. -/
theorem overlaySteps_recordIndexOutcome (t : TenantId) (ids : List ChunkId)
    (indexError : Option String) (now : ℤ) :
    (recordIndexOutcome t ids indexError now).All fun _ upd => OverlayStep upd := by
  cases indexError with
  | none =>
    exact Proc.All.modify fun s => ⟨Db.overlay_markIndexed s.db t ids now, Nat.le_refl _⟩
  | some e =>
    refine Proc.All.forM (fun c => Proc.All.modify fun s => ?_) ids
    exact ⟨Db.overlay_markIndexFailed s.db t c e now, Nat.le_refl _⟩

section Batch

variable {s : Store} {pending : List MemoryChunk}

/-- Preparing chunks draws new ids. -/
theorem safe_preparePendingChunks_ids (ext : Externals) (chunks : List MemoryChunk)
    (hs : IdsBelow s) :
    Proc.Safe (fun _ _ => True) (fun _ _ => True) IdsBelow
      (fun r s' => IdsBelow s' ∧ ∀ pending, r = .ok pending → ∀ p ∈ pending, p.chunkId < s'.nextId)
      (preparePendingChunks ext chunks false) s := by
  refine Proc.Safe.foldlM (P := fun pending _ s' => ∀ p ∈ pending, p.chunkId < s'.nextId)
    ?_ ?_ chunks [] hs (by simp)
  · rintro pending chunk rest s₁ hs₁ hpending
    have hnext : IdsBelow { s₁ with nextId := s₁.nextId + 1 } :=
      fun r hr => Nat.lt_succ_of_lt (hs₁ r hr)
    refine Proc.Safe.perform_bind (a := s₁.nextId) rfl fun _ _ => ⟨trivial, hnext, ?_⟩
    refine Proc.Safe.ret fun _ p hp => ?_
    rcases List.mem_append.mp hp with hp | hp
    · exact Nat.lt_succ_of_lt (hpending p hp)
    · obtain rfl := List.mem_singleton.mp hp
      exact Nat.lt_succ_self _
  · rintro pending s₁ hs₁ hpending
    exact ⟨hs₁, fun pending' h => Except.ok.inj h ▸ hpending⟩

/-- Storing payloads keeps ids below the next one. -/
theorem safe_storePending_ids (ext : Externals) (hs : IdsBelow s)
    (hpending : ∀ p ∈ pending, p.chunkId < s.nextId) :
    Proc.Safe (fun _ _ => True) (fun _ _ => True) IdsBelow
      (fun r s' => ∀ rows, r = .ok rows → ∀ m ∈ rows, m.chunkId < s'.nextId)
      (pending.foldlM (storePending ext) []) s := by
  let P : List ChunkMetadata → List MemoryChunk → Store → Prop := fun rows rest s' =>
    (∀ m ∈ rows, m.chunkId < s'.nextId) ∧ (∀ p ∈ rest, p.chunkId < s'.nextId) ∧
      s.nextId ≤ s'.nextId
  refine Proc.Safe.foldlM (P := P) ?_ ?_ pending [] hs ⟨by simp, hpending, Nat.le_refl _⟩
  · rintro rows p rest s₁ hs₁ ⟨hrows, hrest, hn⟩
    refine Proc.Safe.bind (safe_of_overlaySteps (overlaySteps_storePayload _ p) hs₁ (Nat.le_refl _))
      ?_ ?_
    · rintro ⟨segmentId, ordinal⟩ s₂ hs₂ ⟨-, hle⟩
      refine Proc.Safe.ret fun _ => ⟨?_, ?_, hn.trans hle⟩
      · intro m hm
        rcases List.mem_append.mp hm with hm | hm
        · exact Nat.lt_of_lt_of_le (hrows m hm) hle
        · obtain rfl := List.mem_singleton.mp hm
          exact Nat.lt_of_lt_of_le (hrest p List.mem_cons_self) hle
      · exact fun q hq => Nat.lt_of_lt_of_le (hrest q (List.mem_cons_of_mem p hq)) hle
    · rintro e s₂ - - rows' h
      exact absurd h (by simp)
  · rintro rows s₁ - ⟨hrows, -, -⟩ rows' h
    obtain rfl := Except.ok.inj h
    exact hrows

/-- So does storing a batch. -/
theorem safe_storeBatch_ids (ext : Externals) (t : TenantId) (now : ℤ) (hs : IdsBelow s)
    (hpending : ∀ p ∈ pending, p.chunkId < s.nextId) :
    Proc.Safe (fun _ _ => True) (fun _ _ => True) IdsBelow (fun _ s' => IdsBelow s')
      (storeBatch ext t pending now) s := by
  refine Proc.Safe.bind (safe_storePending_ids ext hs hpending) ?_ fun _ _ h _ => h
  intro rows s₁ hs₁ hrows
  have hflush : IdsBelow (flushActive s₁) := by
    rw [IdsBelow, flushActive_db, flushActive_nextId]
    exact hs₁
  have hinsert : IdsBelow (withDb (·.insertMany rows) (flushActive s₁)) := by
    intro r hr
    rcases Db.mem_insertMany hr with hr | ⟨m, hm, rfl⟩
    · exact hflush r hr
    · exact (flushActive_nextId s₁).symm ▸ hrows rows rfl m hm
  have hmark : IdsBelow (withDb (·.markIndexPending t (rows.map (·.chunkId)) now)
      (withDb (·.insertMany rows) (flushActive s₁))) :=
    hinsert.overlay (Db.overlay_markIndexPending _ t _ now) (Nat.le_refl _)
  refine Proc.Safe.modify_bind fun _ _ => ⟨trivial, hflush, ?_⟩
  refine Proc.Safe.modify_bind fun _ _ => ⟨trivial, hinsert, ?_⟩
  exact Proc.Safe.modify fun _ _ => ⟨trivial, hmark, fun _ => hmark⟩

end Batch

/-- **A write of a task artifact** hands out the ids it uses, at every step. -/
theorem safe_addTaskArtifact_ids (ext : Externals) (a : TaskArtifact)
    (projections : List TaskProjection) (indexError : Option String) (now : ℤ) {s : Store}
    (hs : IdsBelow s) :
    Proc.Safe (fun _ _ => True) (fun _ _ => True) IdsBelow (fun _ s' => IdsBelow s')
      (PersistentStore.addTaskArtifact ext a projections indexError now) s := by
  have hpure : ∀ {β : Type} (r : Except MemdError β) {s' : Store} {n : ℕ}, IdsBelow s' →
      n ≤ s'.nextId → Proc.Safe (fun _ _ => True) (fun _ _ => True) IdsBelow
        (fun _ s'' => IdsBelow s'' ∧ n ≤ s''.nextId) (.ofExcept r : StoreProg β) s' :=
    fun r _ _ h hn => safe_of_overlaySteps (Proc.All.ofExcept r) h hn
  refine Proc.Safe.read_bind (fun _ => trivial) fun _ => ?_
  refine Proc.Safe.bind (hpure _ hs (Nat.le_refl _)) ?_ fun _ _ _ h => h.1
  rintro _ s₁ - ⟨h₁, -⟩
  split
  · exact Proc.Safe.fail fun _ => h₁
  split
  · exact Proc.Safe.fail fun _ => h₁
  refine Proc.Safe.bind (safe_preparePendingChunks_ids ext _ h₁) ?_ fun _ _ _ h => h.1
  rintro pending s₂ - ⟨h₂, hpending⟩
  have hpending := hpending pending rfl
  refine Proc.Safe.bind (hpure _ h₂ (Nat.le_refl _)) ?_ fun _ _ _ h => h.1
  rintro projectionIds s₃ - ⟨h₃, hn⟩
  refine Proc.Safe.modify_bind fun _ _ => ⟨trivial, h₃, ?_⟩
  refine Proc.Safe.bind (safe_storeBatch_ids ext _ now h₃ fun p hp =>
    Nat.lt_of_lt_of_le (hpending p hp) hn) ?_ fun _ _ h _ => h
  rintro _ s₄ h₄ -
  -- the bundle touches the overlay of the rows only
  refine Proc.Safe.bind (Q := fun _ s' => IdsBelow s') ?_ ?_ fun _ _ h _ => h
  · refine Proc.Safe.perform fun _ _ => ?_
    cases hsafe : s₄.db.ensureTaskArtifactWriteSafe a with
    | error e =>
      simp only [Db.insertTaskArtifactBundle, hsafe, Except.map, Proc.commit]
      exact ⟨trivial, h₄, fun _ => h₄⟩
    | ok _ =>
      simp only [Db.insertTaskArtifactBundle, hsafe, Except.map, Proc.commit]
      have hbundle : IdsBelow (withDb (·.applyBundle a projectionIds (projections.map (·.kind))) s₄) :=
        h₄.overlay (Db.overlay_applyBundle _ _ _ _) (Nat.le_refl _)
      exact ⟨trivial, hbundle, fun _ => hbundle⟩
  rintro _ s₅ h₅ -
  refine Proc.Safe.bind (safe_of_overlaySteps (overlaySteps_recordIndexOutcome _ _ indexError now)
    h₅ (Nat.le_refl _)) ?_ fun _ _ _ h => h.1
  rintro _ s₆ h₆ -
  refine Proc.Safe.bind (safe_of_overlaySteps (overlaySteps_checkpointAfterBatch _) h₆
    (Nat.le_refl _)) ?_ fun _ _ _ h => h.1
  exact fun _ s₇ h₇ _ => Proc.Safe.ret fun _ => h₇

namespace Cluster

/-- **A write keeps the ids below**, wherever it stops. -/
theorem idsBelow_addTaskArtifact (ext : Externals) (call : StoreCall) (a : TaskArtifact)
    (projections : List TaskProjection) {c : Cluster} (h : IdsBelow (c.view a.tenantId)) :
    IdsBelow ((c.addTaskArtifact ext call a projections).2.view a.tenantId) := by
  obtain ⟨-, hview⟩ := run_onPart_view a.tenantId (writeProg ext call a projections) c
  have hsafe := safe_addTaskArtifact_ids ext a projections call.indexError call.now h
  rw [addTaskArtifact, hview]
  unfold writeProg
  cases call.failAfter with
  | none => exact (hsafe.run h).2
  | some n => exact hsafe.run_cut h _ n

end Cluster

/-! ## Ids of artifacts -/

/-- A hyphenated UUID. -/
def IsUuid (id : String) : Prop :=
  id.toList.length = 36 ∧ ∀ c ∈ id.toList, c ∈ "0123456789abcdef-".toList

instance (id : String) : Decidable (IsUuid id) :=
  have : Decidable (∀ c ∈ id.toList, c ∈ "0123456789abcdef-".toList) := List.decidableBAll _ _
  inferInstanceAs (Decidable (_ ∧ _))

/-- The id of a digest. -/
def IsDigestId (id : String) : Prop :=
  ∃ role key, id = (stableDigestIdentity role key).1

/-- The id of a digest is one. -/
theorem DigestFamily.isDigestId (t : TenantId) (family : DigestFamily) :
    IsDigestId (family.artifactId t) :=
  ⟨_, _, rfl⟩

/-- No text is the id of a digest and of another artifact. -/
theorem IsUuid.not_isDigestId {id : String} (h : IsUuid id) : ¬ IsDigestId id := by
  rintro ⟨role, key, rfl⟩
  have hmem : 'i' ∈ (stableDigestIdentity role key).1.toList := by
    rw [stableDigestIdentity, String.toList_append]
    exact List.mem_append_left _ (by decide)
  exact absurd (h.2 'i' hmem) (by decide)

/-- What holds of the characters of a text can be checked one by one. -/
theorem not_isWhitespace_of_all {l : List Char} (h : l.all (!isWhitespace ·) = true) :
    ∀ c ∈ l, isWhitespace c = false := by
  intro c hc
  simpa using List.all_eq_true.mp h c hc

/-- A UUID is trimmed and not empty. -/
theorem IsUuid.clear {id : String} (h : IsUuid id) : trimTag id = id ∧ id ≠ "" := by
  have hwhite := not_isWhitespace_of_all
    (show "0123456789abcdef-".toList.all (!isWhitespace ·) = true by decide)
  constructor
  · rw [trimTag, Text.trim_of_all fun c hc => hwhite c (h.2 c hc), String.ofList_toList]
  · rintro rfl
    exact absurd h.1 (by decide)

/-- A letter or digit in lower case is no whitespace. -/
theorem not_isWhitespace_toLower {c : Char} (h : c.isAlphanum = true) :
    isWhitespace c.toLower = false :=
  TagWords.of_isAlphanum (P := fun c => isWhitespace c.toLower = false) (by decide) h

/-- A sanitized text has no white space. -/
theorem not_isWhitespace_of_mem_sanitize {value : String} {c : Char}
    (h : c ∈ (sanitizeTagValue value).toList) : isWhitespace c = false := by
  rcases mem_sanitizeTagValue h with rfl | ⟨d, hd, rfl⟩
  · decide
  · exact not_isWhitespace_toLower hd

/-- A digest id is trimmed and not empty. -/
theorem IsDigestId.clear {id : String} (h : IsDigestId id) : trimTag id = id ∧ id ≠ "" := by
  obtain ⟨role, key, rfl⟩ := h
  refine ⟨?_, Text.append_ne _ (by decide)⟩
  rw [trimTag, Text.trim_of_all, String.ofList_toList]
  intro c hc
  simp only [stableDigestIdentity, String.toList_append, List.mem_append] at hc
  have hname := not_isWhitespace_of_all
    (show "digest_artifact_".toList.all (!isWhitespace ·) = true by decide)
  have hcolons := not_isWhitespace_of_all
    (show "::".toList.all (!isWhitespace ·) = true by decide)
  rcases hc with hc | (hc | hc) | hc
  · exact hname c hc
  · exact not_isWhitespace_of_mem_sanitize hc
  · exact hcolons c hc
  · exact not_isWhitespace_of_mem_sanitize hc

/-! ## What a call writes -/

/-- An artifact that is no digest, under the id the call has drawn. -/
structure Recorded (env : CallEnv) (w : ArtifactWrite) : Prop where
  kind : w.artifact.artifactKind ≠ .digest
  id : w.artifact.artifactId = env.stamp.artifactId

/-- A digest that has something to tell, under an id of its own. -/
structure Digested (w : ArtifactWrite) : Prop where
  kind : w.artifact.artifactKind = .digest
  id : IsDigestId w.artifact.artifactId
  full : isEmptyGeneratedDigestArtifact w.artifact = false

section Handlers

variable (x : OpsExternals) (env : CallEnv)

/-- `task.start` records what its parameters say. -/
theorem handleTaskStart_recorded (p : TaskStartParams) :
    AllOk (Recorded env) (handleTaskStart x env p) :=
  .bind fun _ => .bind fun _ => .bind fun _ => .bind fun _ => .bind fun _ =>
    .pure ⟨ArtifactKind.noConfusion, rfl⟩

/-- So does `task.finish`. -/
theorem handleTaskFinish_recorded (p : TaskFinishParams) :
    AllOk (Recorded env) (handleTaskFinish x env p) :=
  .bind fun _ => .bind fun _ => .bind fun _ => .bind fun _ => .bind fun _ =>
    .pure ⟨ArtifactKind.noConfusion, rfl⟩

/-- So does `task.progress`. -/
theorem handleTaskProgress_recorded (p : TaskProgressParams) :
    AllOk (Recorded env) (handleTaskProgress x env p) :=
  .bind fun _ => .bind fun _ => .bind fun _ => .bind fun _ => .bind fun _ => .bind fun _ =>
    .pure ⟨ArtifactKind.noConfusion, rfl⟩

/-- So does `task.run_start`. -/
theorem handleTaskRunStart_recorded (p : TaskRunStartParams) :
    AllOk (Recorded env) (handleTaskRunStart x env p) :=
  .bind fun _ => .bind fun _ => .bind fun _ => .bind fun _ => .bind fun _ =>
    .ite
      (.bind fun _ => .bind fun _ => .bind fun _ => .pure ⟨ArtifactKind.noConfusion, rfl⟩)
      (.bind fun _ => .bind fun _ => .bind fun _ => .pure ⟨ArtifactKind.noConfusion, rfl⟩)

/-- So does `task.run_finish`. -/
theorem handleTaskRunFinish_recorded (p : TaskRunFinishParams) :
    AllOk (Recorded env) (handleTaskRunFinish x env p) :=
  .bind fun _ => .bind fun _ => .bind fun _ => .bind fun _ => .bind fun _ => .bind fun _ =>
    .pure ⟨ArtifactKind.noConfusion, rfl⟩

/-- So does `task.add_evidence`. -/
theorem handleTaskAddEvidence_recorded (p : TaskAddEvidenceParams) :
    AllOk (Recorded env) (handleTaskAddEvidence x env p) :=
  .bind fun _ => .bind fun _ => .bind fun _ => .bind fun _ => .bind fun _ => .bind fun _ =>
    .pure ⟨ArtifactKind.noConfusion, rfl⟩

/-- A constructor of `artifact.create` makes an artifact of its kind with the id drawn. -/
theorem newOfKind_recorded {kind : ArtifactKind} (hkind : kind ≠ .digest) {t : TenantId}
    {p : ArtifactCreateParams} {taskId : Option String} {a : TaskArtifact}
    (h : newOfKind env.stamp kind t p taskId = .ok a) :
    a.artifactKind = kind ∧ a.artifactId = env.stamp.artifactId := by
  have hmap : ∀ {f : String → TaskArtifact}, (requireTaskId kind taskId).map f = .ok a →
      (∀ id, (f id).artifactKind = kind ∧ (f id).artifactId = env.stamp.artifactId) →
      a.artifactKind = kind ∧ a.artifactId = env.stamp.artifactId := by
    intro f hf hall
    cases hid : requireTaskId kind taskId with
    | error e => rw [hid] at hf; exact absurd hf (by simp [Except.map])
    | ok id =>
      rw [hid] at hf
      exact Except.ok.inj hf ▸ hall id
  cases kind with
  | taskStart =>
    obtain rfl := Except.ok.inj h
    exact ⟨rfl, rfl⟩
  | digest => exact absurd rfl hkind
  | _ => exact hmap h fun _ => ⟨rfl, rfl⟩

/-- So does `artifact.create`. -/
theorem handleArtifactCreate_recorded (db : Db) (p : ArtifactCreateParams) :
    AllOk (Recorded env) (handleArtifactCreate x env db p) := by
  have hbuilt : AllOk (fun a => a.artifactKind ≠ .digest ∧ a.artifactId = env.stamp.artifactId)
      (buildCreated env db p) := by
    refine .bind fun t => .bind fun kind => ?_
    by_cases hkind : kind = .digest
    · -- a digest is refused
      intro a ha
      obtain ⟨_, hreject, -⟩ := Proc.except_bind_eq_ok.mp ha
      rw [rejectDigest, if_pos hkind] at hreject
      exact absurd hreject (by simp)
    refine .bind fun _ => .bind fun _ => .bind fun _ => .bind fun _ => .bind fun _ => ?_
    intro a ha
    obtain ⟨built, hnew, ha⟩ := Proc.except_bind_eq_ok.mp ha
    obtain ⟨hnewKind, hid⟩ := newOfKind_recorded env hkind hnew
    revert ha
    refine (show AllOk (fun a : TaskArtifact => a.artifactKind ≠ .digest ∧
      a.artifactId = env.stamp.artifactId) _ from ?_) a
    refine .bind fun _ => ?_
    refine .ite (.bind fun _ => .bind fun _ => .bind fun _ => .pure ?_)
      (.bind fun _ => .bind fun _ => .bind fun _ => .pure ?_)
    · exact ⟨hnewKind.trans_ne hkind, hid⟩
    · exact ⟨hnewKind.trans_ne hkind, hid⟩
  intro w hw
  obtain ⟨built, hb, hw⟩ := Proc.except_bind_eq_ok.mp hw
  obtain rfl := Except.ok.inj hw
  obtain ⟨hkind, hid⟩ := hbuilt built hb
  rcases promoteIfCountersigned_of db (finalizeArtifactForStorage built) with ⟨-, h⟩ | ⟨-, h⟩
  · exact ⟨by rw [h]; exact hkind, by rw [h]; exact hid⟩
  · exact ⟨by rw [h]; exact hkind, by rw [h]; exact hid⟩

end Handlers

/-- A digest that is written is one of its family. -/
theorem persistedWrite_digested {x : DigestExternals} {readOnly : Bool} {c : Cluster} {t : TenantId}
    {family : DigestFamily} {built : TaskArtifact}
    (hbuilt : DigestOf t family (finalizeArtifactForStorage built)) {w : ArtifactWrite}
    (h : persistedWrite x readOnly c built = some w) : Digested w := by
  unfold persistedWrite at h
  dsimp only at h
  split at h
  · cases h
  rename_i hfull
  split at h
  · cases h
  split at h
  · cases h
  · cases h
    exact ⟨hbuilt.kind, hbuilt.id ▸ DigestFamily.isDigestId t family, Bool.eq_false_iff.mpr hfull⟩

/-- Handlers record artifacts, refreshes digests. -/
theorem OpsStep.recorded_or_digested {x : DigestExternals} {c : Cluster} {st : OpsStep}
    {w : ArtifactWrite} (h : st.write x c = some w) : Recorded st.env w ∨ Digested w := by
  obtain ⟨env, store, call⟩ := st
  cases call with
  | taskStart p => exact .inl (handleTaskStart_recorded _ env p w (toOption_eq_some.mp h))
  | taskProgress p => exact .inl (handleTaskProgress_recorded _ env p w (toOption_eq_some.mp h))
  | taskRunStart p => exact .inl (handleTaskRunStart_recorded _ env p w (toOption_eq_some.mp h))
  | taskRunFinish p => exact .inl (handleTaskRunFinish_recorded _ env p w (toOption_eq_some.mp h))
  | taskAddEvidence p =>
    exact .inl (handleTaskAddEvidence_recorded _ env p w (toOption_eq_some.mp h))
  | taskFinish p => exact .inl (handleTaskFinish_recorded _ env p w (toOption_eq_some.mp h))
  | artifactCreate p =>
    exact .inl (handleArtifactCreate_recorded _ env c.db p w (toOption_eq_some.mp h))
  | refresh t family readOnly =>
    obtain ⟨built, hgen, hb⟩ := Option.bind_eq_some_iff.mp h
    exact .inr (persistedWrite_digested (generateDigest_digestOf (toOption_eq_some.mp hgen)) hb)

/-! ## The tables of a run -/

/-- The artifacts of a run that has drawn the ids `drawn`. -/
structure OpsRows (drawn : List String) (db : Db) : Prop where
  ids : Table.Keyed (·.artifactId) db.taskArtifacts
  recorded : ∀ a ∈ db.taskArtifacts, a.artifactKind ≠ .digest → a.artifactId ∈ drawn
  digests : ∀ a ∈ db.taskArtifacts, a.artifactKind = .digest →
    IsDigestId a.artifactId ∧ isEmptyGeneratedDigestArtifact a = false
  tasks : TasksHaveArtifacts db

namespace OpsRows

variable {drawn : List String} {db db' : Db} {a : TaskArtifact}

/-- The rows of operations, on the same tables. -/
theorem congr (h : OpsRows drawn db) (hsame : SameTables db db') : OpsRows drawn db' := by
  refine ⟨?_, ?_, ?_, ?_⟩
  · exact hsame.artifacts ▸ h.ids
  · exact hsame.artifacts ▸ h.recorded
  · exact hsame.artifacts ▸ h.digests
  · rw [TasksHaveArtifacts, hsame.tasks, hsame.artifacts]
    exact h.tasks

/-- More ids may have been drawn. -/
theorem mono (h : OpsRows drawn db) (id : String) : OpsRows (id :: drawn) db :=
  ⟨h.ids, fun a ha hkind => List.mem_cons_of_mem id (h.recorded a ha hkind), h.digests, h.tasks⟩

/-- An artifact that is no digest is not under the id of one. -/
theorem isUuid (h : OpsRows drawn db) (huuid : ∀ id ∈ drawn, IsUuid id) {b : TaskArtifact}
    (hb : b ∈ db.taskArtifacts) (hkind : b.artifactKind ≠ .digest) : IsUuid b.artifactId :=
  huuid _ (h.recorded b hb hkind)

/-- A write that leaves the artifacts of the tasks in place. -/
theorem wrote (h : OpsRows drawn db) (hw : Wrote a db db')
    (hfree : ∀ b ∈ db.taskArtifacts, b.artifactKind ≠ .digest → b.artifactId ≠ a.artifactId)
    (hkind : a.artifactKind ≠ .digest → a.artifactId ∈ drawn)
    (hdigest : a.artifactKind = .digest →
      IsDigestId a.artifactId ∧ isEmptyGeneratedDigestArtifact a = false) : OpsRows drawn db' := by
  have hstays : ∀ b ∈ db.taskArtifacts, b.artifactKind ≠ .digest → b ∈ db'.taskArtifacts :=
    fun b hb hk => hw.mem_artifacts.mpr (.inr ⟨hb, hfree b hb hk⟩)
  refine ⟨?_, ?_, ?_, ?_⟩
  · have hrows : db'.taskArtifacts = Table.insertOrReplace
        (fun x y => x.artifactId == y.artifactId) a db.taskArtifacts := hw.artifacts
    rw [hrows]
    exact h.ids.insertOrReplace fun r _ hr => beq_iff_eq.mpr hr
  · intro b hb hk
    rcases hw.mem_artifacts.mp hb with rfl | ⟨hb, -⟩
    · exact hkind hk
    · exact h.recorded b hb hk
  · intro b hb hk
    rcases hw.mem_artifacts.mp hb with rfl | ⟨hb, -⟩
    · exact hdigest hk
    · exact h.digests b hb hk
  · intro task htask
    -- a row of an old task, or the row of the artifact
    have hold : ∀ r ∈ db.tasks, r.taskId = task.taskId → r.tenantId = task.tenantId →
        ∃ b ∈ db'.taskArtifacts, b.artifactKind ≠ .digest ∧ b.tenantId = task.tenantId ∧
          b.taskId = task.taskId := by
      intro r hr hid htenant
      obtain ⟨b, hb, hk, hbt, hbid⟩ := h.tasks r hr
      exact ⟨b, hstays b hb hk, hk, hbt.trans htenant, hbid.trans hid⟩
    rw [hw.tasks, Db.writeTaskRows] at htask
    dsimp only at htask
    split at htask
    · rename_i hk
      rcases mem_upsertTask htask with ⟨r, hr, hid, htenant⟩ | rfl
      · exact hold r hr hid htenant
      · exact ⟨a, hw.mem_artifacts.mpr (.inl rfl), hk, rfl, rfl⟩
    · exact hold task htask rfl rfl

/-- What a call writes keeps the rows, when it draws a new id. -/
theorem write (h : OpsRows drawn db) (huuid : ∀ id ∈ drawn, IsUuid id) {env : CallEnv}
    (hfresh : env.stamp.artifactId ∉ drawn)
    {w : ArtifactWrite} (hwrite : Recorded env w ∨ Digested w) (hw : Wrote w.artifact db db') :
    OpsRows (env.stamp.artifactId :: drawn) db' := by
  rcases hwrite with hrec | hdig
  · refine (h.mono _).wrote hw ?_ (fun _ => hrec.id ▸ List.mem_cons_self)
      fun hk => absurd hk hrec.kind
    intro b hb hk heq
    exact hfresh (heq.trans hrec.id ▸ h.recorded b hb hk)
  · refine (h.mono _).wrote hw ?_ (fun hk => absurd hdig.kind hk) fun _ => ⟨hdig.id, hdig.full⟩
    intro b hb hk heq
    exact (h.isUuid huuid hb hk).not_isDigestId (heq ▸ hdig.id)

/-- No id of an artifact has blanks around it. -/
theorem clearIds (h : OpsRows drawn db) (huuid : ∀ id ∈ drawn, IsUuid id) : ClearIds db := by
  intro b hb
  by_cases hk : b.artifactKind = .digest
  · exact (h.digests b hb hk).1.clear
  · exact (h.isUuid huuid hb hk).clear

end OpsRows

/-- The ids the calls of a run draw are UUIDs, each drawn once. -/
structure DrawsUuids (steps : List OpsStep) : Prop where
  nodup : (steps.map (·.env.stamp.artifactId)).Nodup
  uuid : ∀ st ∈ steps, IsUuid st.env.stamp.artifactId

section Runs

variable {x : DigestExternals} {c : Cluster}

/-- A step keeps all ids below the next one. -/
theorem idsBelow_exec (h : ∀ t, IdsBelow (c.view t)) (st : OpsStep) (t : TenantId) :
    IdsBelow ((st.exec x c).view t) := by
  unfold OpsStep.exec
  cases st.write x c with
  | none => exact h t
  | some w => exact idsBelow_addTaskArtifact _ _ _ _ (h w.artifact.tenantId)

/-- **Every chunk row of a run** has an id that was handed out. -/
theorem idsBelow_runOps (steps : List OpsStep) (h : ∀ t, IdsBelow (c.view t)) (t : TenantId) :
    IdsBelow ((runOps x c steps).view t) := by
  induction steps generalizing c with
  | nil => exact h t
  | cons st steps ih => exact ih (idsBelow_exec h st)

/-- A step leaves rows of operations only. -/
theorem opsRows_exec {drawn : List String} (h : OpsRows drawn c.db)
    (huuid : ∀ id ∈ drawn, IsUuid id) {st : OpsStep}
    (hfresh : st.env.stamp.artifactId ∉ drawn) :
    OpsRows (st.env.stamp.artifactId :: drawn) (st.exec x c).db := by
  unfold OpsStep.exec
  cases hwrite : st.write x c with
  | none => exact h.mono _
  | some w =>
    rcases addTaskArtifact_tables x.toExternals st.store w.artifact w.projections c with
      hw | ⟨hsame, -⟩
    · exact h.write huuid hfresh (OpsStep.recorded_or_digested hwrite) hw
    · exact (h.mono _).congr hsame

/-- So does a run. -/
theorem opsRows_runOps_of {drawn : List String} {steps : List OpsStep} (h : OpsRows drawn c.db)
    (huuid : ∀ id ∈ drawn, IsUuid id) (hdraws : DrawsUuids steps)
    (hfresh : ∀ st ∈ steps, st.env.stamp.artifactId ∉ drawn) :
    ∃ drawn', (∀ id ∈ drawn', IsUuid id) ∧ OpsRows drawn' (runOps x c steps).db := by
  induction steps generalizing c drawn with
  | nil => exact ⟨drawn, huuid, h⟩
  | cons st steps ih =>
    have hnew := hdraws.uuid st List.mem_cons_self
    obtain ⟨hnot, hnodup⟩ := List.nodup_cons.mp hdraws.nodup
    refine ih (opsRows_exec h huuid (hfresh st List.mem_cons_self)) ?_
      ⟨hnodup, fun st' hst' => hdraws.uuid st' (List.mem_cons_of_mem st hst')⟩ ?_
    · intro id hid
      rcases List.mem_cons.mp hid with rfl | hid
      · exact hnew
      · exact huuid id hid
    · intro st' hst' hid
      rcases List.mem_cons.mp hid with heq | hid
      · exact hnot (List.mem_map.mpr ⟨st', hst', heq⟩)
      · exact hfresh st' (List.mem_cons_of_mem st hst') hid

/-- **The artifacts of a run** that started on an empty store. -/
theorem opsRows_runOps {steps : List OpsStep} (hdraws : DrawsUuids steps) :
    ∃ drawn, (∀ id ∈ drawn, IsUuid id) ∧ OpsRows drawn (runOps x {} steps).db := by
  have hempty : OpsRows [] ({} : Cluster).db :=
    ⟨.nil _, fun a ha => absurd ha List.not_mem_nil, fun a ha => absurd ha List.not_mem_nil,
      fun task htask => absurd htask List.not_mem_nil⟩
  exact opsRows_runOps_of hempty (by simp) hdraws (by simp)

end Runs
