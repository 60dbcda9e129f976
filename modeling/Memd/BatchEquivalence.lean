/-
# A batch against single adds

`handle_memory_add_batch` is meant to leave what single adds of the same requests leave.

* `agrees` — the new chunks as they were requested say of a content what their rows say;
* `BulkAgrees`, `bulkPlan_agrees` — the loop: the decisions are those of the single adds exactly if
  every request agrees, and then the single adds reach the store the planned chunks lead to;
* `batch_matches_single_adds` — the two handlers;
* `batch_matches_of_whole` — chunks stored whole agree as long as a lookup reads all their rows.

The bulk branch compares a chunk with the earlier chunks as they were requested, the single adds
with the rows those became.  The two differ on a chunk that is stored in pieces, and where the
rows of the batch compete for the eight rows a lookup reads.  `repeat_of_split_differs` and
`piece_of_split_differs` are the two ways pieces make a difference.
-/
import Mathlib.Algebra.Order.BigOperators.Group.List
import Mathlib.Algebra.Order.Group.Nat
import Memd.BatchLookup

open Text
open Proc (except_bind_eq_ok)

variable {env : AddEnv} {ext : Externals} {t : TenantId} {s : ContentStore}

/-! ## What is compared -/

/-- What a stored chunk says, without its id, its times and its hash. -/
structure StoredContent where
  text : String
  chunkType : ChunkType
  projectId : Option String
  tags : List String
  source : Source
  ingestionMode : IngestionMode
  status : ChunkStatus
  lifecycle : LifecycleMetadata
  deriving DecidableEq

/-- What a resolved chunk leaves in the content store. -/
def ResolvedChunk.storedContent (r : ResolvedChunk) : StoredContent where
  text := r.chunk.text
  chunkType := r.chunk.chunkType
  projectId := r.chunk.projectId
  tags := r.chunk.tags
  source := r.chunk.source
  ingestionMode := r.chunk.ingestionMode
  status := r.status
  lifecycle := r.lifecycle

/-- The ids that are new, position by position. -/
def newIds (outcomes : List AddOutcome) : List (Option ChunkId) :=
  outcomes.map fun o => if o.decision = .inserted then some o.chunkId else none

/-- A batch and the single adds of its requests succeed and leave the same. -/
def BatchMatches (env : AddEnv) (tenant : String) (s : ContentStore)
    (reqs : List (AddRequest × ℤ)) : Prop :=
  ∃ batch single,
    handleMemoryAddBatch env tenant s reqs = .ok batch ∧
    addSequentially env tenant s reqs = .ok single ∧
    (batch.1.rows.map ResolvedChunk.storedContent).Perm
      (single.1.rows.map ResolvedChunk.storedContent) ∧
    newIds batch.2 = newIds single.2 ∧
    batch.2.map (·.decision) = single.2.map (·.decision)

/-- The requests pass admission as `ps`, and their callers ask for no lifecycle. -/
structure Admitted (env : AddEnv) (tenant : String) (t : TenantId)
    (reqs : List (AddRequest × ℤ)) (ps : List Prepared) : Prop where
  resolves : resolveTenantId env.cfg tenant = .ok t
  projects : ∀ r ∈ reqs, invalid (ProjectId.validateOpt r.1.projectId) = .ok ()
  noDeadlines : ∀ r ∈ reqs, r.1.expiresAtMs = none ∧ r.1.reviewAfterMs = none
  prepared : prepareBatch env t 0 reqs = .ok ps

/-! ## The condition -/

/-- One of the chunks has the content, as it was requested. -/
def isRequested (new : List Prepared) (p : Prepared) : Bool :=
  new.any fun q => isSameContent p q.chunk

/-- The content is neither listed in the store before the batch nor that of an earlier new chunk.
-/
def introduces (env : AddEnv) (s : ContentStore) (new : List Prepared) (p : Prepared) : Bool :=
  defaultContentDedupeExempt env.gate p || !(isListed env.ext s.rows p || isRequested new p)

/-- The new chunks as they were requested say of the content what the rows say that they are
stored as. -/
def agrees (env : AddEnv) (s : ContentStore) (new : List Prepared) (p : Prepared) : Bool :=
  defaultContentDedupeExempt env.gate p
    || (isListed env.ext s.rows p || isRequested new p)
      == isListed env.ext (s.rows ++ batchRows env.ext s.nextId new) p

/-- Every request agrees with the new chunks in front of it. -/
def allAgree (env : AddEnv) (s : ContentStore) : List Prepared → List Prepared → Bool
  | _, [] => true
  | new, p :: ps =>
    agrees env s new p && allAgree env s (if introduces env s new p then new ++ [p] else new) ps

/-! ## One position -/

/-- The three answers of the bulk branch. -/
theorem bulkDecide_cases (env : AddEnv) (s : ContentStore) (pending : List (ℕ × Prepared))
    (p : Prepared) :
    (∃ id, findDefaultContentDuplicate env s p = some id ∧
      bulkDecide env s pending p = .existing id) ∨
    (∃ prior ∈ pending, isSameContent p prior.2.chunk = true ∧
      defaultContentDedupeExempt env.gate p = false ∧
      bulkDecide env s pending p = .earlier prior.1) ∨
    (findDefaultContentDuplicate env s p = none ∧
      (defaultContentDedupeExempt env.gate p = true ∨
        ∀ q ∈ pending.map (·.2), isSameContent p q.chunk = false) ∧
      bulkDecide env s pending p = .insert) := by
  unfold bulkDecide
  cases hfind : findDefaultContentDuplicate env s p with
  | some id => exact Or.inl ⟨id, rfl, rfl⟩
  | none =>
    refine Or.inr ?_
    cases hexempt : defaultContentDedupeExempt env.gate p with
    | true => exact Or.inr ⟨rfl, Or.inl rfl, rfl⟩
    | false =>
      cases hprior : pending.find? fun prior => isSameContent p prior.2.chunk with
      | some prior =>
        have hsame : isSameContent p prior.2.chunk = true := by
          simpa using List.find?_some hprior
        exact Or.inl ⟨prior, List.mem_of_find?_eq_some hprior, hsame, rfl, rfl⟩
      | none =>
        refine Or.inr ⟨rfl, Or.inr fun q hq => ?_, rfl⟩
        obtain ⟨prior, hmem, rfl⟩ := List.mem_map.mp hq
        exact Bool.eq_false_iff.mpr (List.find?_eq_none.mp hprior prior hmem)

/-- **One position of the bulk branch**: it inserts what introduces new content. -/
theorem bulkDecide_eq_insert_iff {pending : List (ℕ × Prepared)} {p : Prepared} :
    bulkDecide env s pending p = .insert ↔ introduces env s (pending.map (·.2)) p = true := by
  have hintro : introduces env s (pending.map (·.2)) p = true ↔
      findDefaultContentDuplicate env s p = none ∧
        (defaultContentDedupeExempt env.gate p = true ∨
          ∀ q ∈ pending.map (·.2), isSameContent p q.chunk = false) := by
    rw [find_eq_none_iff]
    unfold introduces isRequested
    cases hexempt : defaultContentDedupeExempt env.gate p with
    | true => simp
    | false => simp only [Bool.false_or, Bool.not_eq_true', Bool.or_eq_false_iff, List.any_eq_false,
        Bool.not_eq_true, Bool.false_eq_true, false_or]
  rw [hintro]
  rcases bulkDecide_cases env s pending p with
    ⟨id, hfind, hdec⟩ | ⟨prior, hmem, hsame, hexempt, hdec⟩ | ⟨hfind, hclear, hdec⟩
  · simp [hdec, hfind]
  · rw [hdec, hexempt]
    simp only [reduceCtorEq, Bool.false_eq_true, false_or, false_iff, not_and]
    intro _ hall
    exact Bool.eq_false_iff.mp (hall prior.2 (List.mem_map_of_mem hmem)) hsame
  · exact ⟨fun _ => ⟨hfind, hclear⟩, fun _ => hdec⟩

/-- **One position.**  A request agrees exactly if both ways insert it or both reuse a chunk, the
single add on the store that holds the new chunks. -/
theorem agrees_iff {new : List Prepared} {p : Prepared} :
    agrees env s new p = true ↔
      (introduces env s new p = true ↔
        findDefaultContentDuplicate env (s.storeAll env.ext new).1 p = none) := by
  rw [find_eq_none_iff, ContentStore.storeAll_rows]
  unfold agrees introduces
  cases defaultContentDedupeExempt env.gate p with
  | true => simp
  | false =>
    cases isListed env.ext s.rows p || isRequested new p <;>
      cases isListed env.ext (s.rows ++ batchRows env.ext s.nextId new) p <;> simp

/-! ## Ids -/

/-- The ids the planned positions get. -/
def plannedIds (ext : Externals) (s : ContentStore) (planned : List (ℕ × Prepared)) :
    List (ℕ × ChunkId) :=
  (planned.map (·.1)).zip (s.storeAll ext (planned.map (·.2))).2

/-- Every planned position gets an id. -/
theorem isSome_lookup_plannedIds (ext : Externals) (s : ContentStore)
    {planned : List (ℕ × Prepared)} {q : ℕ × Prepared}
    (hq : q ∈ planned) : ∃ id, (plannedIds ext s planned).lookup q.1 = some id := by
  have hlen : (planned.map (·.1)).length = (s.storeAll ext (planned.map (·.2))).2.length := by
    rw [ContentStore.storeAll_length, List.length_map, List.length_map]
  obtain ⟨i, hi, heq⟩ := List.mem_iff_getElem.mp (List.mem_map_of_mem (f := (·.1)) hq)
  have hi' := hi
  rw [hlen] at hi'
  refine Option.isSome_iff_exists.mp (List.lookup_isSome_iff.mpr
    ⟨(q.1, (s.storeAll ext (planned.map (·.2))).2[i]), ?_, beq_self_eq_true _⟩)
  unfold plannedIds
  rw [List.mem_iff_getElem]
  refine ⟨i, ?_, ?_⟩
  · rw [List.length_zip, ← hlen, Nat.min_self]
    exact hi
  · rw [List.getElem_zip, heq]

/-- A chunk gets the id the store reaches with the chunks planned before it. -/
theorem lookup_plannedIds {pending : List (ℕ × Prepared)} {position : ℕ}
    (hpos : ∀ q ∈ pending, q.1 < position) (p : Prepared) (rest : List (ℕ × Prepared)) :
    (plannedIds ext s (pending ++ (position, p) :: rest)).lookup position =
      some (s.storeAll ext (pending.map (·.2))).1.nextId := by
  have hlen : (pending.map (·.1)).length = (s.storeAll ext (pending.map (·.2))).2.length := by
    rw [ContentStore.storeAll_length, List.length_map, List.length_map]
  have hnone : ((pending.map (·.1)).zip (s.storeAll ext (pending.map (·.2))).2).lookup position
      = none := by
    refine List.lookup_eq_none_iff.mpr fun pair hpair => ?_
    obtain ⟨q, hq, heq⟩ := List.mem_map.mp (List.of_mem_zip hpair).1
    have := hpos q hq
    rw [bne_iff_ne]
    omega
  unfold plannedIds
  rw [List.map_append, List.map_append, ContentStore.storeAll_append, List.zip_append hlen,
    List.lookup_append, hnone, Option.none_or, List.map_cons, List.map_cons,
    ContentStore.storeAll_cons, List.zip_cons_cons, List.lookup_cons_self]

/-! ## The loop -/

/-- Outcomes with the same new ids have the same decisions. -/
theorem map_decision_eq {xs ys : List AddOutcome} (h : newIds xs = newIds ys) :
    xs.map (·.decision) = ys.map (·.decision) := by
  have hdecision : ∀ zs : List AddOutcome, zs.map (·.decision) = (newIds zs).map fun id =>
      if id.isSome then DedupeDecision.inserted else .reusedExistingExactContent := by
    intro zs
    unfold newIds
    rw [List.map_map]
    refine List.map_congr_left fun z _ => ?_
    cases hz : z.decision <;> simp [hz]
  rw [hdecision, hdecision, h]

/-- The chunks planned so far stay at the front of the plan. -/
theorem bulkPlan_snd (env : AddEnv) (s : ContentStore) (ps : List Prepared) : ∀ (position : ℕ) (pending : List (ℕ × Prepared)),
    ∃ rest, (bulkPlan env s position pending ps).2 = pending ++ rest := by
  induction ps with
  | nil => exact fun _ pending => ⟨[], (List.append_nil pending).symm⟩
  | cons p ps ih =>
    intro position pending
    unfold bulkPlan
    dsimp only
    split
    · obtain ⟨rest, hrest⟩ := ih (position + 1) (pending ++ [(position, p)])
      refine ⟨(position, p) :: rest, ?_⟩
      rw [hrest, List.append_assoc]
      rfl
    · exact ih (position + 1) pending

/-- Without a duplicate a single add stores the chunk. -/
theorem addPrepared_of_find_none {p : Prepared} (hp : p.Plain t)
    (h : findDefaultContentDuplicate env s p = none) :
    addPrepared env s p = ((s.store env.ext p).1, { chunkId := s.nextId, decision := .inserted }) := by
  unfold addPrepared
  rw [hp.noDeadline, h]
  rfl

/-- With a duplicate a single add reuses it and stores nothing. -/
theorem addPrepared_of_find_some {p : Prepared} (hp : p.Plain t) {id : ChunkId}
    (h : findDefaultContentDuplicate env s p = some id) :
    addPrepared env s p = (s, { chunkId := id, decision := .reusedExistingExactContent }) := by
  unfold addPrepared
  rw [hp.noDeadline, h]
  rfl

/-- What the bulk branch answers at a position it does not insert. -/
theorem exists_bulkOutcome_reused (position : ℕ) {pending planned : List (ℕ × Prepared)}
    {p : Prepared} (hdec : bulkDecide env s pending p ≠ .insert)
    (hsub : ∀ q ∈ pending, q ∈ planned) :
    ∃ id, bulkOutcome (plannedIds env.ext s planned) position (bulkDecide env s pending p) =
      .ok { chunkId := id, decision := .reusedExistingExactContent } := by
  rcases bulkDecide_cases env s pending p with
    ⟨old, _, heq⟩ | ⟨prior, hmem, _, _, heq⟩ | ⟨_, _, heq⟩
  · exact ⟨old, by rw [heq]; rfl⟩
  · obtain ⟨id, hid⟩ := isSome_lookup_plannedIds env.ext s (hsub prior hmem)
    exact ⟨id, by rw [heq]; simp only [bulkOutcome, hid]⟩
  · exact absurd heq hdec

/-- The loop of the bulk branch against the single adds, from a point of the batch on where the
chunks `pending` are planned and the requests `ps` are still to come: it answers every position,
the decisions are the same exactly if all requests agree, and then so are the stores and the new
ids. -/
def BulkAgrees (env : AddEnv) (s : ContentStore) (position : ℕ) (pending : List (ℕ × Prepared))
    (ps : List Prepared) : Prop :=
  ∃ outcomes,
    bulkOutcomes (plannedIds env.ext s (bulkPlan env s position pending ps).2) position
      (bulkPlan env s position pending ps).1 = .ok outcomes ∧
    (outcomes.map (·.decision) =
        (lifecycleAdd env (s.storeAll env.ext (pending.map (·.2))).1 ps).2.map (·.decision) →
      allAgree env s (pending.map (·.2)) ps = true) ∧
    (allAgree env s (pending.map (·.2)) ps = true →
      (lifecycleAdd env (s.storeAll env.ext (pending.map (·.2))).1 ps).1 =
          (s.storeAll env.ext ((bulkPlan env s position pending ps).2.map (·.2))).1 ∧
        newIds outcomes =
          newIds (lifecycleAdd env (s.storeAll env.ext (pending.map (·.2))).1 ps).2)

/-- A request that the batch stores, under the id the planned chunks lead to. -/
theorem BulkAgrees.insert {p : Prepared} {ps : List Prepared} {position : ℕ}
    {pending : List (ℕ × Prepared)} (hp : p.Plain t) (hdelta : p.delta.isEmpty = true)
    (hpos : ∀ q ∈ pending, q.1 < position) (hdec : bulkDecide env s pending p = .insert)
    (h : BulkAgrees env s (position + 1) (pending ++ [(position, p)]) ps) :
    BulkAgrees env s position pending (p :: ps) := by
  have hagree : agrees env s (pending.map (·.2)) p = true ↔ _ := agrees_iff
  rw [← bulkDecide_eq_insert_iff] at hagree
  have hintro := bulkDecide_eq_insert_iff.mp hdec
  have hstore : (s.storeAll env.ext ((pending ++ [(position, p)]).map (·.2))).1 =
      (ContentStore.store env.ext (s.storeAll env.ext (pending.map (·.2))).1 p).1 := by
    rw [List.map_append]
    exact congrArg Prod.fst (ContentStore.storeAll_snoc _ hdelta)
  have hnew : (pending ++ [(position, p)]).map (·.2) = pending.map (·.2) ++ [p] :=
    List.map_append
  obtain ⟨outcomes, hout, hsame, hrun⟩ := h
  obtain ⟨rest, hrest⟩ := bulkPlan_snd env s ps (position + 1) (pending ++ [(position, p)])
  rw [hstore, hnew] at hsame hrun
  have hplan : bulkPlan env s position pending (p :: ps) =
      (.insert :: (bulkPlan env s (position + 1) (pending ++ [(position, p)]) ps).1,
        (bulkPlan env s (position + 1) (pending ++ [(position, p)]) ps).2) := by
    simp only [bulkPlan, hdec, if_true]
  have hlookup : (plannedIds env.ext s
      (bulkPlan env s (position + 1) (pending ++ [(position, p)]) ps).2).lookup position =
      some (s.storeAll env.ext (pending.map (·.2))).1.nextId := by
    rw [hrest, List.append_assoc]
    exact lookup_plannedIds hpos p rest
  unfold BulkAgrees
  rw [hplan]
  refine ⟨{ chunkId := (s.storeAll env.ext (pending.map (·.2))).1.nextId
            decision := .inserted } :: outcomes,
    except_bind_eq_ok.mpr ⟨_, ?_, except_bind_eq_ok.mpr ⟨outcomes, hout, rfl⟩⟩, ?_, ?_⟩
  · simp only [bulkOutcome, hlookup]
  -- equal decisions make this request agree, the hypothesis the others
  · intro hdecisions
    cases hfind : findDefaultContentDuplicate env
        (s.storeAll env.ext (pending.map (·.2))).1 p with
    | some id =>
      simp [lifecycleAdd, addPrepared_of_find_some hp hfind] at hdecisions
    | none =>
      simp only [lifecycleAdd, addPrepared_of_find_none hp hfind, List.map_cons,
        List.cons.injEq, true_and] at hdecisions
      simp only [allAgree, hintro, if_true, Bool.and_eq_true]
      exact ⟨hagree.mpr (iff_of_true hdec hfind), hsame hdecisions⟩
  -- agreement makes the single add store the chunk too
  · intro hall
    simp only [allAgree, hintro, if_true, Bool.and_eq_true] at hall
    obtain ⟨hrows, hids⟩ := hrun hall.2
    have hone := addPrepared_of_find_none hp ((hagree.mp hall.1).mp hdec)
    simp only [lifecycleAdd, hone]
    exact ⟨hrows, congrArg (some _ :: ·) hids⟩

/-- A request for which the batch reuses a chunk, stored or planned. -/
theorem BulkAgrees.reuse {p : Prepared} {ps : List Prepared} {position : ℕ}
    {pending : List (ℕ × Prepared)} (hp : p.Plain t) (hdec : bulkDecide env s pending p ≠ .insert)
    (h : BulkAgrees env s (position + 1) pending ps) :
    BulkAgrees env s position pending (p :: ps) := by
  have hagree : agrees env s (pending.map (·.2)) p = true ↔ _ := agrees_iff
  rw [← bulkDecide_eq_insert_iff] at hagree
  have hintro := Bool.eq_false_iff.mpr fun h => hdec (bulkDecide_eq_insert_iff.mpr h)
  obtain ⟨outcomes, hout, hsame, hrun⟩ := h
  have hplan : bulkPlan env s position pending (p :: ps) =
      (bulkDecide env s pending p :: (bulkPlan env s (position + 1) pending ps).1,
        (bulkPlan env s (position + 1) pending ps).2) := by
    simp only [bulkPlan, if_neg hdec]
  have hsub : ∀ q ∈ pending, q ∈ (bulkPlan env s (position + 1) pending ps).2 := by
    intro q hq
    obtain ⟨rest, hrest⟩ := bulkPlan_snd env s ps (position + 1) pending
    exact hrest ▸ List.mem_append_left rest hq
  obtain ⟨new, houtcome⟩ := exists_bulkOutcome_reused position hdec hsub
  unfold BulkAgrees
  rw [hplan]
  refine ⟨{ chunkId := new, decision := .reusedExistingExactContent } :: outcomes,
    except_bind_eq_ok.mpr ⟨_, houtcome, except_bind_eq_ok.mpr ⟨outcomes, hout, rfl⟩⟩, ?_, ?_⟩
  -- equal decisions: the single add finds a duplicate, so this request agrees
  · intro hdecisions
    cases hfind : findDefaultContentDuplicate env
        (s.storeAll env.ext (pending.map (·.2))).1 p with
    | none =>
      simp [lifecycleAdd, addPrepared_of_find_none hp hfind] at hdecisions
    | some id =>
      simp only [lifecycleAdd, addPrepared_of_find_some hp hfind, List.map_cons,
        List.cons.injEq, true_and] at hdecisions
      simp only [allAgree, hintro, Bool.false_eq_true, if_false, Bool.and_eq_true]
      refine ⟨hagree.mpr (iff_of_false hdec ?_), hsame hdecisions⟩
      rw [hfind]
      exact Option.some_ne_none id
  -- agreement makes the single add find a duplicate too
  · intro hall
    simp only [allAgree, hintro, Bool.false_eq_true, if_false, Bool.and_eq_true] at hall
    obtain ⟨hrows, hids⟩ := hrun hall.2
    obtain ⟨id, hfound⟩ := Option.ne_none_iff_exists'.mp fun hnone =>
      hdec ((hagree.mp hall.1).mpr hnone)
    simp only [lifecycleAdd, addPrepared_of_find_some hp hfound]
    exact ⟨hrows, congrArg (none :: ·) hids⟩

/-- **The loop of the bulk branch agrees with the single adds** from any point of the batch on. -/
theorem bulkPlan_agrees (ps : List Prepared) :
    ∀ (position : ℕ) (pending : List (ℕ × Prepared)),
      (∀ q ∈ ps, q.Plain t) → (∀ q ∈ ps, q.delta.isEmpty = true) →
      (∀ q ∈ pending, q.1 < position) → BulkAgrees env s position pending ps := by
  -- on the requests still to come; the planned chunks are what the single adds have stored so far
  induction ps with
  | nil => exact fun _ _ _ _ _ => ⟨[], rfl, fun _ => rfl, fun _ => ⟨rfl, rfl⟩⟩
  | cons p ps ih =>
    intro position pending hplain hdelta hpos
    have hp := hplain p List.mem_cons_self
    have hplain' : ∀ q ∈ ps, q.Plain t := fun q hq => hplain q (List.mem_cons_of_mem _ hq)
    have hdelta' : ∀ q ∈ ps, q.delta.isEmpty = true :=
      fun q hq => hdelta q (List.mem_cons_of_mem _ hq)
    by_cases hdec : bulkDecide env s pending p = .insert
    · refine .insert hp (hdelta p List.mem_cons_self) hpos hdec (ih _ _ hplain' hdelta' ?_)
      intro q hq
      rcases List.mem_append.mp hq with hq | hq
      · exact Nat.lt_succ_of_lt (hpos q hq)
      · rw [List.mem_singleton.mp hq]
        exact Nat.lt_succ_self position
    · exact .reuse hp hdec (ih _ _ hplain' hdelta' fun q hq => Nat.lt_succ_of_lt (hpos q hq))

/-! ## A text of one letter -/

/-- `chunk_text` on a text of one sentence in ASCII, up to two pieces. -/
def sampleChunkText (text : String) : List TextChunk :=
  if text.utf8ByteSize ≤ 1200 then [⟨text, 0, text.utf8ByteSize⟩]
  else
    [⟨String.ofList (text.toList.take 1200), 0, 1200⟩,
      ⟨String.ofList (text.toList.drop 1200), 1200, text.utf8ByteSize⟩]

/-- The environment of the samples: texts stand for their own digests. -/
def sampleAddEnv : AddEnv where
  ext := { sha256Hex := fun text => text, toLowercase := fun text => text
           chunkText := sampleChunkText }
  gate := { parseFiniteF32 := fun _ => none }
  cfg := {}

/-- A text of `n` letters. -/
def letters (n : ℕ) : String := String.ofList (List.replicate n 'a')

/-- A request to add `n` letters. -/
def lettersRequest (n : ℕ) : AddRequest := { text := letters n, chunkType := "code" }

/-- The request for `n` letters as the gate prepares it. -/
def lettersPrepared (n : ℕ) (now : ℤ) : Prepared where
  chunk := { chunkId := 0, tenantId := "acme", timestampCreated := now, chunkType := .code
             text := letters n }
  delta := {}
  callerTags := []
  callerRequestedLifecycle := false
  now := now

/-- The characters of `n` letters. -/
theorem letters_toList (n : ℕ) : (letters n).toList = List.replicate n 'a' :=
  String.toList_ofList

/-- `n` letters take `n` bytes. -/
theorem letters_utf8ByteSize (n : ℕ) : (letters n).utf8ByteSize = n := by
  induction n with
  | zero => rfl
  | succ n ih =>
    have hcons : letters (n + 1) = String.singleton 'a' ++ letters n := by
      rw [← String.toList_inj, String.toList_append, letters_toList, letters_toList]
      rfl
    rw [hcons, String.utf8ByteSize_append, ih, Nat.add_comm]
    rfl

/-- No other letter occurs in them. -/
theorem contains_letters (n : ℕ) {pat : String} {c : Char} (hc : c ∈ pat.toList) (hne : c ≠ 'a') :
    contains (List.replicate n 'a') pat = false := by
  rw [contains, decide_eq_false_iff_not]
  exact fun h => hne (List.eq_of_mem_replicate (h.subset hc))

/-- Nothing with another letter is a prefix of them. -/
theorem startsWith_letters (n : ℕ) {pat : String} {c : Char} (hc : c ∈ pat.toList)
    (hne : c ≠ 'a') : startsWith (List.replicate n 'a') pat = false := by
  refine Bool.eq_false_iff.mpr fun hprefix => hne ?_
  exact List.eq_of_mem_replicate ((List.isPrefixOf_iff_prefix.mp hprefix).subset hc)

/-- There is nothing to trim. -/
theorem trim_letters (n : ℕ) : trim (List.replicate n 'a') = List.replicate n 'a' := by
  have hdrop : ∀ n : ℕ, (List.replicate n 'a').dropWhile isWhitespace = List.replicate n 'a' := by
    intro n
    cases n with
    | zero => rfl
    | succ n => rfl
  rw [trim, hdrop, List.reverse_replicate, hdrop, List.reverse_replicate]

/-- Text alone does not give a code chunk an automatic priority. -/
theorem computePriority_code_lt (text : String) : computePriority .code text [] < 3 := by
  unfold computePriority
  simp only [List.mapM_nil, pure]
  split <;> split <;> split <;> decide

/-- They are no generated digest. -/
theorem isGeneratedDigestWrapper_letters (n : ℕ) :
    isGeneratedDigestWrapper (List.replicate n 'a') [] = false := by
  have hlower : asciiLower (List.replicate n 'a') = List.replicate n 'a' := by
    rw [asciiLower, List.map_replicate]
    rfl
  have hstart : startsWith (List.replicate n 'a') "task digest status generated" = false :=
    startsWith_letters n (c := 't') (by decide) (by decide)
  have hroles : ["artifact role: highlight_library", "artifact role: project_brief",
      "artifact role: failure_library", "artifact role: decision_library",
      "artifact role: evidence_library"].any (contains (List.replicate n 'a')) = false := by
    refine List.any_eq_false.mpr fun pat hpat => Bool.eq_false_iff.mp ?_
    refine contains_letters n (c := 'r') ?_ (by decide)
    revert pat
    decide
  unfold isGeneratedDigestWrapper
  simp only [hlower, hstart, hroles]
  rfl

/-- The write gate lets them through as a document. -/
theorem classifyWrite_letters {n : ℕ} (hpos : 0 < n) (hmax : n ≤ maxMemoryTextBytes) :
    classifyWrite sampleAddEnv.gate .code (letters n) [] .document =
      { decision := .durable, reason := "code or path-bearing chunk type" } := by
  unfold classifyWrite
  rw [letters_utf8ByteSize, letters_toList, trim_letters, if_neg (by omega), if_neg (by simp; omega),
    isGeneratedDigestWrapper_letters]
  rfl

/-- A code chunk of one letter passes the gate as it is. -/
theorem prepareAdd_letters {n : ℕ} (hpos : 0 < n) (hmax : n ≤ maxMemoryTextBytes) (label : String)
    (now : ℤ) :
    prepareAdd sampleAddEnv label "acme" (lettersRequest n) now = .ok (lettersPrepared n now) := by
  have hgate : prepareWriteAt sampleAddEnv.gate
      { chunkType := .code, text := letters n, tags := [], ingestionMode := .document,
        expiresAtMs := none, reviewAfterMs := none } now =
      { outcome := { decision := .durable, reason := "code or path-bearing chunk type" }
        tags := [], retention := .new none none, lifecycleTier := none
        ingestionMode := .document } := by
    have htags : preparedTags sampleAddEnv.gate
        { chunkType := .code, text := letters n, tags := [], ingestionMode := .document,
          expiresAtMs := none, reviewAfterMs := none } []
        { decision := .durable, reason := "code or path-bearing chunk type" } = [] := by
      show stampAutoPriority sampleAddEnv.gate .code (letters n) [] = []
      unfold stampAutoPriority
      rw [if_neg (by decide)]
      exact if_pos (computePriority_code_lt _)
    unfold prepareWriteAt
    simp only [show normalizeTags [] = [] from rfl, classifyWrite_letters hpos hmax, htags]
    rfl
  unfold prepareAdd
  refine except_bind_eq_ok.mpr ⟨.code, rfl, ?_⟩
  refine except_bind_eq_ok.mpr ⟨[], rfl, ?_⟩
  refine except_bind_eq_ok.mpr ⟨.document, rfl, ?_⟩
  simp only [lettersRequest, List.append_nil, hgate]
  rfl

/-- Two requests for the same letters are admitted. -/
theorem admitted_letters {n : ℕ} (hpos : 0 < n) (hmax : n ≤ maxMemoryTextBytes) :
    Admitted sampleAddEnv "acme" "acme" [(lettersRequest n, 0), (lettersRequest n, 1)]
      [lettersPrepared n 0, lettersPrepared n 1] where
  resolves := by decide
  projects := by simp [lettersRequest, ProjectId.validateOpt, invalid]
  noDeadlines := by simp [lettersRequest]
  prepared := by
    refine except_bind_eq_ok.mpr ⟨_, prepareAdd_letters hpos hmax _ 0, ?_⟩
    refine except_bind_eq_ok.mpr ⟨[lettersPrepared n 1], ?_, rfl⟩
    exact except_bind_eq_ok.mpr ⟨_, prepareAdd_letters hpos hmax _ 1, rfl⟩

/-! ## Batches that match -/

/-- Both ways are the two loops over the prepared requests. -/
theorem handleMemoryAddBatch_eq {env : AddEnv} {tenant : String} {s : ContentStore}
    {reqs : List (AddRequest × ℤ)} {ps : List Prepared}
    (h : Admitted env tenant t reqs ps) :
    handleMemoryAddBatch env tenant s reqs =
      if ps.any (fun p => !p.delta.isEmpty) then .ok (lifecycleAdd env s ps)
      else bulkAdd env s ps := by
  have hproj : ∀ l : List (AddRequest × ℤ),
      (∀ r ∈ l, invalid (ProjectId.validateOpt r.1.projectId) = .ok ()) →
      (l.forM fun r => invalid (ProjectId.validateOpt r.1.projectId)) = .ok () := by
    intro l
    induction l with
    | nil => exact fun _ => rfl
    | cons r l ih =>
      intro hl
      refine except_bind_eq_ok.mpr ⟨(), hl r List.mem_cons_self, ?_⟩
      exact ih fun r' hr' => hl r' (List.mem_cons_of_mem _ hr')
  have hok : ∀ {α β : Type} (a : α) (f : α → Except OperationError β),
      (Except.ok a >>= f) = f a := fun _ _ => rfl
  unfold handleMemoryAddBatch
  rw [h.resolves, hok, hproj reqs h.projects, hok, h.prepared, hok]
  rfl

/-- **A batch leaves what single adds leave** exactly if one of its chunks gets a lifecycle, or if
every request agrees. -/
theorem batch_matches_single_adds (env : AddEnv) (tenant : String) (t : TenantId)
    (s : ContentStore) (reqs : List (AddRequest × ℤ)) (ps : List Prepared)
    (hadm : Admitted env tenant t reqs ps) :
    BatchMatches env tenant s reqs ↔
      ps.any (fun p => !p.delta.isEmpty) = true ∨ allAgree env s [] ps = true := by
  have hseq := addSequentially_eq hadm.resolves s hadm.projects hadm.prepared
  have hbatch := handleMemoryAddBatch_eq (s := s) hadm
  cases hlife : ps.any fun p => !p.delta.isEmpty with
  | true =>
    rw [hlife] at hbatch
    refine iff_of_true ?_ (Or.inl rfl)
    exact ⟨_, _, hbatch, hseq, List.Perm.refl _, rfl, rfl⟩
  | false =>
    have hdelta : ∀ p ∈ ps, p.delta.isEmpty = true := by
      intro p hp
      have hall := List.any_eq_false.mp hlife p hp
      simpa using hall
    obtain ⟨outcomes, hout, hsame, hrun⟩ := bulkPlan_agrees ps 0 []
      (prepareBatch_plain hadm.noDeadlines hadm.prepared) hdelta
      fun _ hq => absurd hq List.not_mem_nil
    have hbulk : bulkAdd env s ps =
        .ok ((s.storeAll env.ext ((bulkPlan env s 0 [] ps).2.map (·.2))).1, outcomes) :=
      except_bind_eq_ok.mpr ⟨outcomes, hout, rfl⟩
    rw [hlife, hbulk] at hbatch
    simp only [Bool.false_eq_true, false_or]
    constructor
    · rintro ⟨batch, single, hbatch', hseq', _, _, hdecisions⟩
      rw [hbatch] at hbatch'
      rw [hseq] at hseq'
      cases hbatch'
      cases hseq'
      exact hsame hdecisions
    · intro hall
      obtain ⟨hstore, hids⟩ := hrun hall
      refine ⟨_, _, hbatch, hseq, ?_, hids, map_decision_eq hids⟩
      exact List.Perm.of_eq (congrArg (·.rows.map ResolvedChunk.storedContent) hstore.symm)

/-- Two requests for the same short text, where batch and single adds agree. -/
theorem batch_matches_short_repeat :
    BatchMatches sampleAddEnv "acme" ⟨[], 0⟩ [(lettersRequest 5, 0), (lettersRequest 5, 1)] :=
  (batch_matches_single_adds sampleAddEnv "acme" "acme" ⟨[], 0⟩ _ _
    (admitted_letters (by decide) (by decide))).mpr (Or.inr (by decide))

/-! ## Chunks that are stored whole -/

/-- The chunk is stored as more than one physical chunk. -/
def splits (ext : Externals) (q : Prepared) : Bool :=
  1 < (splitForAdd ext q.chunk).length

/-- A chunk that is not split is added as it is. -/
theorem splitForAdd_of_not_splits {q : Prepared} (h : splits ext q = false) :
    splitForAdd ext q.chunk = [q.chunk] := by
  unfold splits splitForAdd at *
  split at h
  · rename_i hshort
    rw [if_pos hshort]
  · rename_i hlong
    rw [if_neg hlong]
    by_cases hone : (ext.chunkText q.chunk.text).length ≤ 1
    · rw [if_pos hone]
    · rw [if_neg hone, List.length_mapIdx] at h
      exact absurd (by omega : 1 < (ext.chunkText q.chunk.text).length) (of_decide_eq_false h)

/-- A chunk has the content of a request: the same text, type and project, a source that does not
contradict it, and all of the caller's tags. -/
theorem isSameContent_iff {p : Prepared} {c : MemoryChunk} :
    isSameContent p c = true ↔
      c.text = p.chunk.text ∧ c.chunkType = p.chunk.chunkType ∧ c.projectId = p.chunk.projectId ∧
        (p.chunk.source = {} ∨ p.chunk.source = c.source) ∧ ∀ tag ∈ p.callerTags, tag ∈ c.tags := by
  simp [isSameContent, callerTagsAlreadyPreserved, and_assoc]

/-- A physical chunk of the batch with the content of `p` is stored as a row a lookup for `p`
sees. -/
theorem isContentRow_storedRow_of_same {p q : Prepared} (hp : p.Plain t) (hq : q.Plain t)
    {part : MemoryChunk} (hpart : part ∈ splitForAdd ext q.chunk)
    (hsame : isSameContent p part = true) (i : ChunkId) :
    isContentRow ext p.chunk (storedRow ext {} q.now i part) = true := by
  obtain ⟨htext, htype, hproj, _⟩ := isSameContent_iff.mp hsame
  have hkeep : part.tenantId = t ∧ part.status = .final := by
    obtain ⟨text, tags, rfl⟩ := mem_splitForAdd hpart
    exact ⟨hq.tenant, hq.status⟩
  simp [isContentRow, storedRow, initialLifecycle, LifecycleDelta.isEmpty, htext, htype, hproj,
    hkeep, hp.tenant]

/-- The rows of chunks stored whole say what the chunks say. -/
theorem answered_batchRows_iff {new : List Prepared} (hnew : ∀ q ∈ new, q.Plain t)
    (hwhole : ∀ q ∈ new, splits ext q = false) {p : Prepared} (hp : p.Plain t) (id : ChunkId) :
    Answered ext (batchRows ext id new) p ↔ isRequested new p = true := by
  rw [isRequested, List.any_eq_true]
  constructor
  · rintro ⟨r, hr, _, hsame⟩
    obtain ⟨q, hq, part, hpart, i, rfl⟩ := mem_batchRows hr
    rw [splitForAdd_of_not_splits (hwhole q hq), List.mem_singleton] at hpart
    subst hpart
    exact ⟨q, hq, hsame⟩
  · rintro ⟨q, hq, hsame⟩
    have hpart : q.chunk ∈ splitForAdd ext q.chunk := by
      rw [splitForAdd_of_not_splits (hwhole q hq)]
      exact List.mem_singleton_self _
    obtain ⟨i, hi⟩ := exists_mem_batchRows hpart id hq
    exact ⟨_, hi, isContentRow_storedRow_of_same hp (hnew q hq) hpart hsame i, hsame⟩

/-- New chunks that are stored whole agree with a request if a lookup for it reads all rows of its
content. -/
theorem agrees_of_whole {new : List Prepared} (hnew : ∀ q ∈ new, q.Plain t)
    (hwhole : ∀ q ∈ new, splits env.ext q = false) {p : Prepared} (hp : p.Plain t)
    (hroom : s.rows.countP (isContentRow env.ext p.chunk)
      + (new.map (contentRows env.ext p.chunk)).sum ≤ 8) : agrees env s new p = true := by
  have hall : (s.rows ++ batchRows env.ext s.nextId new).countP (isContentRow env.ext p.chunk)
      ≤ 8 := by
    rw [List.countP_append, countP_batchRows]
    exact hroom
  have hold : s.rows.countP (isContentRow env.ext p.chunk) ≤ 8 :=
    (Nat.le_add_right _ _).trans hroom
  have hrows : isListed env.ext (s.rows ++ batchRows env.ext s.nextId new) p = true ↔
      isListed env.ext s.rows p = true ∨ isRequested new p = true := by
    rw [← answered_batchRows_iff hnew hwhole hp s.nextId]
    constructor
    · intro h
      exact (answered_append.mp (answered_of_isListed h)).imp_left (isListed_of_answered hold)
    · intro h
      exact isListed_of_answered hall (answered_append.mpr (h.imp_left answered_of_isListed))
  unfold agrees
  rw [Bool.eq_iff_iff.mpr (hrows.trans (Bool.or_eq_true _ _).symm.to_iff)]
  simp

/-- Requests for chunks that are stored whole all agree if a lookup for each reads all rows of its
content, those of the whole batch included. -/
theorem allAgree_of_whole (ps : List Prepared) : ∀ new : List Prepared,
    (∀ q ∈ new ++ ps, q.Plain t) → (∀ q ∈ new ++ ps, splits env.ext q = false) →
    (∀ p ∈ ps, s.rows.countP (isContentRow env.ext p.chunk)
      + ((new ++ ps).map (contentRows env.ext p.chunk)).sum ≤ 8) →
    allAgree env s new ps = true := by
  induction ps with
  | nil => exact fun _ _ _ _ => rfl
  | cons p ps ih =>
    intro new hplain hwhole hroom
    have hfront : ∀ q ∈ new, q ∈ new ++ p :: ps := fun q hq => List.mem_append_left _ hq
    have hagree : agrees env s new p = true := by
      refine agrees_of_whole (fun q hq => hplain q (hfront q hq))
        (fun q hq => hwhole q (hfront q hq)) (hplain p (by simp)) ?_
      have hp := hroom p List.mem_cons_self
      rw [List.map_append, List.sum_append] at hp
      omega
    rw [allAgree, hagree, Bool.true_and]
    split
    · refine ih (new ++ [p]) ?_ ?_ fun q hq => ?_
      · rwa [List.append_assoc]
      · rwa [List.append_assoc]
      · rw [List.append_assoc]
        exact hroom q (List.mem_cons_of_mem _ hq)
    · have hsub : (new ++ ps).Sublist (new ++ p :: ps) :=
        (List.sublist_cons_self p ps).append_left new
      refine ih new (fun q hq => hplain q (hsub.subset hq)) (fun q hq => hwhole q (hsub.subset hq))
        fun q hq => ?_
      have hle := (hsub.map (contentRows env.ext q.chunk)).sum_le_sum fun _ _ => Nat.zero_le _
      have hq' := hroom q (List.mem_cons_of_mem _ hq)
      omega

/-- **Short chunks.**  Requests stored whole, of which each finds all rows of its content among
the eight a lookup reads, are left as single adds leave them. -/
theorem batch_matches_of_whole {tenant : String} {reqs : List (AddRequest × ℤ)}
    {ps : List Prepared} (hadm : Admitted env tenant t reqs ps)
    (hwhole : ∀ p ∈ ps, splits env.ext p = false)
    (hroom : ∀ p ∈ ps, s.rows.countP (isContentRow env.ext p.chunk)
      + (ps.map (contentRows env.ext p.chunk)).sum ≤ 8) :
    BatchMatches env tenant s reqs :=
  (batch_matches_single_adds env tenant t s reqs ps hadm).mpr <| Or.inr <|
    allAgree_of_whole ps [] (prepareBatch_plain hadm.noDeadlines hadm.prepared) hwhole hroom

/-! ## Batches that do not match -/

/-- **A pair of new requests**: the batch compares the second with the first request, the single
adds with the rows of the first. -/
theorem pair_differs {env : AddEnv} {tenant : String} {s : ContentStore}
    {reqs : List (AddRequest × ℤ)} {p q : Prepared} (hadm : Admitted env tenant t reqs [p, q])
    (hp : p.delta.isEmpty = true) (hq : q.delta.isEmpty = true)
    (hexempt : defaultContentDedupeExempt env.gate q = false)
    (hfirst : isListed env.ext s.rows p = false) (hsecond : isListed env.ext s.rows q = false)
    (hdiff : isSameContent q p.chunk ≠
      isListed env.ext (s.rows ++ batchRows env.ext s.nextId [p]) q) :
    ¬ BatchMatches env tenant s reqs := by
  rw [batch_matches_single_adds env tenant t s reqs [p, q] hadm]
  have hintro : introduces env s [] p = true := by
    simp [introduces, hfirst, isRequested]
  have hagree : agrees env s [p] q = false := by
    simp [agrees, hexempt, hsecond, isRequested, hdiff]
  simp [hp, hq, allAgree, hintro, hagree]

/-- **A chunk in pieces, asked for twice.**  The batch returns the id of the first one, the
single adds store the pieces again: no piece has the text that is looked for. -/
theorem repeat_of_split_differs {env : AddEnv} {tenant : String} {s : ContentStore}
    {reqs : List (AddRequest × ℤ)} {p q : Prepared} (hadm : Admitted env tenant t reqs [p, q])
    (hp : p.delta.isEmpty = true) (hq : q.delta.isEmpty = true)
    (hexempt : defaultContentDedupeExempt env.gate q = false)
    (hold : ¬ Answered env.ext s.rows p) (hold' : ¬ Answered env.ext s.rows q)
    (hsame : isSameContent q p.chunk = true)
    (hpiece : ∀ part ∈ splitForAdd env.ext p.chunk, part.text ≠ p.chunk.text) :
    ¬ BatchMatches env tenant s reqs := by
  have hpieces : ¬ Answered env.ext (s.rows ++ batchRows env.ext s.nextId [p]) q := by
    rw [answered_append]
    rintro (h | ⟨r, hr, _, hrsame⟩)
    · exact hold' h
    · obtain ⟨p', hp', part, hpart, i, rfl⟩ := mem_batchRows hr
      rw [List.mem_singleton] at hp'
      subst hp'
      refine hpiece part hpart ?_
      exact (isSameContent_iff.mp hrsame).1.trans (isSameContent_iff.mp hsame).1.symm
  refine pair_differs hadm hp hq hexempt (isListed_eq_false hold) (isListed_eq_false hold') ?_
  rw [hsame, isListed_eq_false hpieces]
  decide

/-- **A piece of an earlier chunk.**  The single adds return the id of the piece, the batch
stores the text once more. -/
theorem piece_of_split_differs {env : AddEnv} {tenant : String} {s : ContentStore}
    {reqs : List (AddRequest × ℤ)} {p q : Prepared} (hadm : Admitted env tenant t reqs [p, q])
    (hp : p.delta.isEmpty = true) (hq : q.delta.isEmpty = true)
    (hexempt : defaultContentDedupeExempt env.gate q = false)
    (hold : ¬ Answered env.ext s.rows p) (hold' : ¬ Answered env.ext s.rows q)
    (hroom : s.rows.countP (isContentRow env.ext q.chunk) + contentRows env.ext q.chunk p ≤ 8)
    (hdiff : isSameContent q p.chunk = false)
    (hpiece : ∃ part ∈ splitForAdd env.ext p.chunk, isSameContent q part = true) :
    ¬ BatchMatches env tenant s reqs := by
  have hplain := prepareBatch_plain hadm.noDeadlines hadm.prepared
  have hpPlain : p.Plain t := hplain p List.mem_cons_self
  have hqPlain : q.Plain t := hplain q (List.mem_cons_of_mem _ List.mem_cons_self)
  obtain ⟨part, hpart, hsame⟩ := hpiece
  obtain ⟨i, hi⟩ := exists_mem_batchRows hpart s.nextId (List.mem_singleton_self p)
  have hcount : (s.rows ++ batchRows env.ext s.nextId [p]).countP (isContentRow env.ext q.chunk)
      ≤ 8 := by
    rw [List.countP_append, countP_batchRows, List.map_singleton, List.sum_singleton]
    exact hroom
  have hlisted := isListed_of_answered hcount (answered_append.mpr (Or.inr
    ⟨_, hi, isContentRow_storedRow_of_same hqPlain hpPlain hpart hsame i, hsame⟩))
  refine pair_differs hadm hp hq hexempt (isListed_eq_false hold) (isListed_eq_false hold') ?_
  rw [hdiff, hlisted]
  decide

/-- Of a long run of letters every piece differs from the whole. -/
theorem splitForAdd_letters {n : ℕ} (h : 1200 < n) (now : ℤ) {part : MemoryChunk}
    (hpart : part ∈ splitForAdd sampleAddEnv.ext (lettersPrepared n now).chunk) :
    part.text.toList.length < n := by
  have hsize : (lettersPrepared n now).chunk.text.utf8ByteSize = n := letters_utf8ByteSize n
  have hpieces : sampleAddEnv.ext.chunkText (lettersPrepared n now).chunk.text =
      [⟨String.ofList ((letters n).toList.take 1200), 0, 1200⟩,
        ⟨String.ofList ((letters n).toList.drop 1200), 1200, (letters n).utf8ByteSize⟩] := by
    refine if_neg ?_
    rw [hsize]
    omega
  unfold splitForAdd at hpart
  rw [hsize, if_neg (by unfold addChunkThreshold; omega), hpieces] at hpart
  simp only [List.length_cons, List.length_nil] at hpart
  rw [if_neg (by omega)] at hpart
  simp only [List.mapIdx_cons, List.mapIdx_nil, List.mem_cons, List.not_mem_nil, or_false] at hpart
  rcases hpart with rfl | rfl
  · simp [subChunk, letters_toList]
    omega
  · simp [subChunk, letters_toList]
    omega

/-- Two requests for the same text of 1300 letters, which is stored in two pieces. -/
theorem repeated_long_text_stored_again :
    Admitted sampleAddEnv "acme" "acme" [(lettersRequest 1300, 0), (lettersRequest 1300, 1)]
        [lettersPrepared 1300 0, lettersPrepared 1300 1] ∧
      ¬ BatchMatches sampleAddEnv "acme" ⟨[], 0⟩
        [(lettersRequest 1300, 0), (lettersRequest 1300, 1)] := by
  have hadm : Admitted sampleAddEnv "acme" "acme"
      [(lettersRequest 1300, 0), (lettersRequest 1300, 1)]
      [lettersPrepared 1300 0, lettersPrepared 1300 1] :=
    admitted_letters (by decide) (by decide)
  have hempty : ∀ p : Prepared, ¬ Answered sampleAddEnv.ext ([] : List ResolvedChunk) p := by
    rintro p ⟨r, hr, _⟩
    exact absurd hr List.not_mem_nil
  refine ⟨hadm, repeat_of_split_differs hadm rfl rfl rfl (hempty _) (hempty _) ?_ ?_⟩
  · exact isSameContent_iff.mpr ⟨rfl, rfl, rfl, Or.inl rfl, fun _ h => absurd h List.not_mem_nil⟩
  · intro part hpart htext
    have hlen := splitForAdd_letters (by omega) 0 hpart
    have hfull : (lettersPrepared 1300 0).chunk.text.toList = List.replicate 1300 'a' :=
      letters_toList 1300
    rw [htext, hfull, List.length_replicate] at hlen
    exact absurd hlen (Nat.lt_irrefl _)
