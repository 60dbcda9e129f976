/-
# Single adds and the rows a batch leaves

What the comparison of a batch with single adds rests on.

* `addSequentially_eq` — single adds are the loop of the lifecycle branch over the prepared
  requests: the two handlers prepare a request alike, up to the text of a rejection;
* `batchRows` — the rows `Store::add_batch` appends, one row for each physical chunk;
* `Answered` — some row has the content of a request.  What a lookup lists (`isListed`) proves
  it (`answered_of_isListed`), and below its limit a lookup lists it (`isListed_of_answered`).
-/
import Memd.AddBatch
import Memd.Proc

open Text
open Proc (except_bind_eq_ok)

/-! ## Preparation -/

/-- What preparation fixes, whatever the request says. -/
structure Prepared.Plain (t : TenantId) (p : Prepared) : Prop where
  tenant : p.chunk.tenantId = t
  status : p.chunk.status = .final
  noDeadline : p.callerRequestedLifecycle = false

theorem refuseIf_eq_ok {b : Prop} [Decidable b] {m : String} {u : Unit}
    (h : refuseIf b m = .ok u) : ¬ b := by
  unfold refuseIf at h
  split at h
  · exact absurd h (by simp)
  · assumption

/-- The texts of the rejections differ, nothing else. -/
theorem prepareAdd_relabel {env : AddEnv} {a : String} (b : String) {t : TenantId}
    {req : AddRequest} {now : ℤ} {p : Prepared} (h : prepareAdd env a t req now = .ok p) :
    prepareAdd env b t req now = .ok p := by
  unfold prepareAdd at h ⊢
  obtain ⟨chunkType, htype, h⟩ := except_bind_eq_ok.mp h
  obtain ⟨episode, hepisode, h⟩ := except_bind_eq_ok.mp h
  obtain ⟨mode, hmode, h⟩ := except_bind_eq_ok.mp h
  obtain ⟨u, hgate, h⟩ := except_bind_eq_ok.mp h
  refine except_bind_eq_ok.mpr ⟨chunkType, htype, ?_⟩
  refine except_bind_eq_ok.mpr ⟨episode, hepisode, ?_⟩
  refine except_bind_eq_ok.mpr ⟨mode, hmode, ?_⟩
  exact except_bind_eq_ok.mpr ⟨(), if_neg (refuseIf_eq_ok hgate), h⟩

theorem prepareAdd_plain {env : AddEnv} {a : String} {t : TenantId} {req : AddRequest} {now : ℤ}
    {p : Prepared} (hdead : req.expiresAtMs = none ∧ req.reviewAfterMs = none)
    (h : prepareAdd env a t req now = .ok p) : p.Plain t := by
  unfold prepareAdd at h
  obtain ⟨chunkType, htype, h⟩ := except_bind_eq_ok.mp h
  obtain ⟨episode, hepisode, h⟩ := except_bind_eq_ok.mp h
  obtain ⟨mode, hmode, h⟩ := except_bind_eq_ok.mp h
  obtain ⟨u, hgate, h⟩ := except_bind_eq_ok.mp h
  cases h
  exact { tenant := rfl, status := rfl, noDeadline := by simp [hdead.1, hdead.2] }

theorem prepareBatch_plain {env : AddEnv} {t : TenantId} {reqs : List (AddRequest × ℤ)} :
    ∀ {i : ℕ} {ps : List Prepared},
      (∀ r ∈ reqs, r.1.expiresAtMs = none ∧ r.1.reviewAfterMs = none) →
      prepareBatch env t i reqs = .ok ps → ∀ p ∈ ps, p.Plain t := by
  induction reqs with
  | nil =>
    intro i ps _ h p hp
    cases h
    exact absurd hp List.not_mem_nil
  | cons r reqs ih =>
    intro i ps hdead h
    obtain ⟨p, hp, h⟩ := except_bind_eq_ok.mp h
    obtain ⟨rest, hrest, h⟩ := except_bind_eq_ok.mp h
    cases h
    intro q hq
    rcases List.mem_cons.mp hq with rfl | hq
    · exact prepareAdd_plain (hdead r List.mem_cons_self) hp
    · exact ih (fun r' hr' => hdead r' (List.mem_cons_of_mem _ hr')) hrest q hq

/-- **Single adds are the loop of the lifecycle branch.** -/
theorem addSequentially_eq {env : AddEnv} {tenant : String} {t : TenantId}
    (hres : resolveTenantId env.cfg tenant = .ok t) {reqs : List (AddRequest × ℤ)} :
    ∀ {i : ℕ} {ps : List Prepared} (s : ContentStore),
      (∀ r ∈ reqs, invalid (ProjectId.validateOpt r.1.projectId) = .ok ()) →
      prepareBatch env t i reqs = .ok ps →
      addSequentially env tenant s reqs = .ok (lifecycleAdd env s ps) := by
  induction reqs with
  | nil =>
    intro i ps s _ h
    cases h
    rfl
  | cons r reqs ih =>
    intro i ps s hproj h
    obtain ⟨p, hp, h⟩ := except_bind_eq_ok.mp h
    obtain ⟨rest, hrest, h⟩ := except_bind_eq_ok.mp h
    cases h
    have hone : handleMemoryAdd env tenant s r.1 r.2 = .ok (addPrepared env s p) := by
      refine except_bind_eq_ok.mpr ⟨t, hres, ?_⟩
      refine except_bind_eq_ok.mpr ⟨(), hproj r List.mem_cons_self, ?_⟩
      exact except_bind_eq_ok.mpr ⟨p, prepareAdd_relabel "memory.add rejected" hp, rfl⟩
    have htail := ih (addPrepared env s p).1
      (fun r' hr' => hproj r' (List.mem_cons_of_mem _ hr')) hrest
    refine except_bind_eq_ok.mpr ⟨addPrepared env s p, hone, ?_⟩
    exact except_bind_eq_ok.mpr ⟨lifecycleAdd env (addPrepared env s p).1 rest, htail, rfl⟩

/-! ## Storing a list of chunks -/

variable {env : AddEnv} {ext : Externals} {t : TenantId} {s : ContentStore}

theorem LifecycleDelta.eq_empty {d : LifecycleDelta} (h : d.isEmpty = true) : d = {} := by
  simp only [LifecycleDelta.isEmpty, Bool.and_eq_true, Option.isNone_iff_eq_none] at h
  obtain ⟨⟨⟨⟨⟨⟨h₁, h₂⟩, h₃⟩, h₄⟩, h₅⟩, h₆⟩, h₇⟩ := h
  cases d
  simp_all

theorem ContentStore.storeAll_cons (p : Prepared) (ps : List Prepared) :
    s.storeAll ext (p :: ps) =
      (((s.store ext { p with delta := {} }).1.storeAll ext ps).1,
        s.nextId :: ((s.store ext { p with delta := {} }).1.storeAll ext ps).2) := rfl

theorem ContentStore.storeAll_append (ps qs : List Prepared) : ∀ s : ContentStore,
    s.storeAll ext (ps ++ qs) =
      (((s.storeAll ext ps).1.storeAll ext qs).1,
        (s.storeAll ext ps).2 ++ ((s.storeAll ext ps).1.storeAll ext qs).2) := by
  induction ps with
  | nil => exact fun s => rfl
  | cons p ps ih =>
    intro s
    rw [List.cons_append, storeAll_cons, ih, storeAll_cons, List.cons_append]

/-- One id for each chunk. -/
theorem ContentStore.storeAll_length (ps : List Prepared) : ∀ s : ContentStore,
    (s.storeAll ext ps).2.length = ps.length := by
  induction ps with
  | nil => exact fun s => rfl
  | cons p ps ih =>
    intro s
    rw [storeAll_cons, List.length_cons, List.length_cons, ih]

/-- One more chunk at the end, of which a delta is not to be dropped. -/
theorem ContentStore.storeAll_snoc (ps : List Prepared) {p : Prepared}
    (hp : p.delta.isEmpty = true) :
    s.storeAll ext (ps ++ [p]) =
      (((s.storeAll ext ps).1.store ext p).1,
        (s.storeAll ext ps).2 ++ [(s.storeAll ext ps).1.nextId]) := by
  have heta : { p with delta := {} } = p := by rw [← LifecycleDelta.eq_empty hp]
  rw [storeAll_append, storeAll_cons, heta]
  rfl

/-- The rows a list of chunks is stored as, from the id on. -/
def batchRows (ext : Externals) : ChunkId → List Prepared → List ResolvedChunk
  | _, [] => []
  | id, p :: ps =>
    physicalRows ext { p with delta := {} } id ++ batchRows ext (id + (splitForAdd ext p.chunk).length) ps

theorem ContentStore.storeAll_rows (ps : List Prepared) : ∀ s : ContentStore,
    (s.storeAll ext ps).1.rows = s.rows ++ batchRows ext s.nextId ps := by
  induction ps with
  | nil => exact fun s => (List.append_nil _).symm
  | cons p ps ih =>
    intro s
    rw [storeAll_cons, ih, batchRows, ← List.append_assoc]
    rfl

/-- How many rows a chunk adds to the content of `c`. -/
def contentRows (ext : Externals) (c : MemoryChunk) (q : Prepared) : ℕ :=
  (splitForAdd ext q.chunk).countP fun part => isContentRow ext c (storedRow ext {} q.now 0 part)

theorem countP_physicalRows (c : MemoryChunk) (q : Prepared) (id : ChunkId) :
    (physicalRows ext { q with delta := {} } id).countP (isContentRow ext c) = contentRows ext c q := by
  unfold physicalRows contentRows
  rw [List.mapIdx_eq_zipIdx_map, List.countP_map]
  have hfst : splitForAdd ext q.chunk = (splitForAdd ext q.chunk).zipIdx.map Prod.fst :=
    (List.zipIdx_map_fst 0 _).symm
  conv_rhs => rw [hfst]
  rw [List.countP_map]
  rfl

theorem countP_batchRows (c : MemoryChunk) (ps : List Prepared) : ∀ id : ChunkId,
    (batchRows ext id ps).countP (isContentRow ext c) = (ps.map (contentRows ext c)).sum := by
  induction ps with
  | nil => exact fun id => rfl
  | cons p ps ih =>
    intro id
    rw [batchRows, List.countP_append, countP_physicalRows, ih, List.map_cons, List.sum_cons]

/-- Where a row of the batch comes from. -/
theorem mem_batchRows {r : ResolvedChunk} {ps : List Prepared} : ∀ {id : ChunkId},
    r ∈ batchRows ext id ps →
      ∃ q ∈ ps, ∃ part ∈ splitForAdd ext q.chunk, ∃ i, r = storedRow ext {} q.now i part := by
  induction ps with
  | nil => exact fun h => absurd h List.not_mem_nil
  | cons p ps ih =>
    intro id h
    rcases List.mem_append.mp h with h | h
    · obtain ⟨i, hi, rfl⟩ := List.mem_mapIdx.mp h
      exact ⟨p, List.mem_cons_self, _, List.getElem_mem hi, id + i, rfl⟩
    · obtain ⟨q, hq, hrest⟩ := ih h
      exact ⟨q, List.mem_cons_of_mem _ hq, hrest⟩

/-- Every physical chunk of the batch has a row. -/
theorem exists_mem_batchRows {q : Prepared} {part : MemoryChunk} {ps : List Prepared}
    (hpart : part ∈ splitForAdd ext q.chunk) : ∀ id : ChunkId, q ∈ ps →
      ∃ i, storedRow ext {} q.now i part ∈ batchRows ext id ps := by
  induction ps with
  | nil => exact fun _ h => absurd h List.not_mem_nil
  | cons p ps ih =>
    intro id hq
    rcases List.mem_cons.mp hq with rfl | hq
    · obtain ⟨i, hi, heq⟩ := List.mem_iff_getElem.mp hpart
      refine ⟨id + i, List.mem_append_left _ (List.mem_mapIdx.mpr ⟨i, hi, ?_⟩)⟩
      rw [heq]
    · obtain ⟨i, hi⟩ := ih (id + (splitForAdd ext p.chunk).length) hq
      exact ⟨i, List.mem_append_right _ hi⟩

/-! ## What a lookup finds -/

/-- Some row says what the chunk says. -/
def Answered (ext : Externals) (rows : List ResolvedChunk) (p : Prepared) : Prop :=
  ∃ r ∈ rows, isContentRow ext p.chunk r = true ∧ isSameContent p r.chunk = true

/-- One of the rows a lookup for the chunk reads has its content. -/
def isListed (ext : Externals) (rows : List ResolvedChunk) (p : Prepared) : Bool :=
  (listLiveByContentHash ext rows p.chunk 8).any fun r => isSameContent p r.chunk

/-- A lookup finds what is listed, unless the chunk is exempt. -/
theorem isSome_find_eq (env : AddEnv) (s : ContentStore) (p : Prepared) :
    (findDefaultContentDuplicate env s p).isSome =
      (!defaultContentDedupeExempt env.gate p && isListed env.ext s.rows p) := by
  unfold findDefaultContentDuplicate isListed
  cases h : defaultContentDedupeExempt env.gate p with
  | true => rfl
  | false =>
    rw [if_neg Bool.false_ne_true, Option.isSome_map, List.isSome_find?]
    rfl

theorem find_eq_none_iff (env : AddEnv) (s : ContentStore) (p : Prepared) :
    findDefaultContentDuplicate env s p = none ↔
      defaultContentDedupeExempt env.gate p = true ∨ isListed env.ext s.rows p = false := by
  rw [← Option.not_isSome_iff_eq_none, isSome_find_eq]
  cases defaultContentDedupeExempt env.gate p <;> simp

/-- What is listed is stored. -/
theorem answered_of_isListed {rows : List ResolvedChunk} {p : Prepared}
    (h : isListed ext rows p = true) : Answered ext rows p := by
  obtain ⟨r, hr, hsame⟩ := List.any_eq_true.mp h
  have hr := (List.perm_insertionSort _ _).mem_iff.mp (List.mem_of_mem_take hr)
  obtain ⟨hmem, hrow⟩ := List.mem_filter.mp hr
  exact ⟨r, hmem, hrow, hsame⟩

theorem isListed_eq_false {rows : List ResolvedChunk} {p : Prepared}
    (h : ¬ Answered ext rows p) : isListed ext rows p = false :=
  Bool.eq_false_iff.mpr fun hlisted => h (answered_of_isListed hlisted)

/-- **Below the limit a lookup reads every row of the content.** -/
theorem isListed_of_answered {rows : List ResolvedChunk} {p : Prepared}
    (hroom : rows.countP (isContentRow ext p.chunk) ≤ 8) (h : Answered ext rows p) :
    isListed ext rows p = true := by
  obtain ⟨r, hr, hrow, hsame⟩ := h
  refine List.any_eq_true.mpr ⟨r, ?_, hsame⟩
  unfold listLiveByContentHash
  rw [List.take_of_length_le ?_]
  · exact (List.perm_insertionSort _ _).mem_iff.mpr (List.mem_filter.mpr ⟨hr, hrow⟩)
  · rw [List.length_insertionSort, ← List.countP_eq_length_filter]
    exact hroom

theorem answered_append {rows new : List ResolvedChunk} {p : Prepared} :
    Answered ext (rows ++ new) p ↔ Answered ext rows p ∨ Answered ext new p := by
  simp only [Answered, List.mem_append, or_and_right, exists_or]
