/-
# Adding chunks, one by one and in a batch

`handle_memory_add` and `handle_memory_add_batch` of `ops/add.rs`, for requests without a
near-duplicate spec.  Both prepare a request the same way (`prepareAdd`) and look for a stored
chunk with the same content before they store one (`findDefaultContentDuplicate`).

A batch takes one of two ways over a persistent store.  If some chunk gets a lifecycle, every
chunk is looked up and stored in turn, as single adds do.  Otherwise all lookups are made
against the store as it was before the batch, a chunk is compared with the earlier chunks of
the batch as they were requested, and what remains is stored at once (`bulkAdd`).

The store is the list of its rows with their chunks; all storage steps succeed.  A chunk that
is stored gets its id and its hash there.  A request comes with the reading of the clock at
which it is prepared.
-/
import Memd.MemorySearch

open Text

/-! ## Requests -/

/-- `AddParams`: what a caller asks to store. -/
structure AddRequest where
  text : String
  chunkType : String
  projectId : Option String := none
  episodeId : Option String := none
  source : Option Source := none
  tags : List String := []
  expiresAtMs : Option ℤ := none
  reviewAfterMs : Option ℤ := none
  eventTimeMs : Option ℤ := none
  mode : Option String := none
  deriving DecidableEq, Repr

/-- Code outside the model, and the defaults of the process. -/
structure AddEnv where
  ext : Externals
  gate : GateExternals
  cfg : SearchConfig

/-- `validate_episode_id`. -/
def validateEpisodeId (id : String) : Except OperationError Unit := do
  refuseIf (id = "") "episode_id must not be empty"
  refuseIf (!id.toList.all fun c => c.isAlphanum || c == '_' || c == '-')
    "episode_id must contain only letters, digits, '_' or '-'"

/-- The tag of an episode, if the request names one. -/
def episodeTags : Option String → Except OperationError (List String)
  | none => .ok []
  | some id => do
    validateEpisodeId id
    pure [s!"episode:{id}"]

/-- `parse_ingestion_mode`. -/
def parseIngestionMode (mode : Option String) : Except OperationError IngestionMode :=
  match (mode.map fun m => String.ofList (trim m.toList)).filter (· ≠ "") with
  | none => .ok .document
  | some "conversation" => .ok .conversation
  | some "document" => .ok .document
  | some value => .error (.invalidParams
      s!"invalid ingestion mode '{value}': validation error: unknown ingestion mode: {value}; expected 'conversation' or 'document'")

/-- A request that passed the gate. -/
structure Prepared where
  chunk : MemoryChunk
  delta : LifecycleDelta
  callerTags : List String
  callerRequestedLifecycle : Bool
  now : ℤ

/-- The statements both handlers run on a request.  The chunk gets its id and its hash when it
is stored. -/
def prepareAdd (env : AddEnv) (rejection : String) (t : TenantId) (req : AddRequest) (now : ℤ) :
    Except OperationError Prepared := do
  let chunkType ← parseChunkType env.ext.toLowercase req.chunkType
  let episode ← episodeTags req.episodeId
  let callerTags := episode ++ req.tags
  let mode ← parseIngestionMode req.mode
  let admission := prepareWriteAt env.gate
    { chunkType := chunkType, text := req.text, tags := callerTags, ingestionMode := mode,
      expiresAtMs := req.expiresAtMs, reviewAfterMs := req.reviewAfterMs } now
  refuseIf (admission.isRejected = true) s!"{rejection} by quality gate: {admission.outcome.reason}"
  let chunk : MemoryChunk :=
    { chunkId := 0, tenantId := t, projectId := req.projectId, timestampCreated := now,
      timestampObserved := req.eventTimeMs, chunkType := chunkType, source := req.source.getD {},
      text := req.text, tags := callerTags }
  pure { chunk := admission.applyToChunk chunk, delta := admission.lifecycleDelta,
         callerTags := callerTags,
         callerRequestedLifecycle := req.expiresAtMs.isSome || req.reviewAfterMs.isSome, now := now }

/-! ## The store -/

/-- The stored rows with their texts, and the next chunk id. -/
structure ContentStore where
  rows : List ResolvedChunk
  nextId : ChunkId

/-- The overlay of a new row: an empty delta leaves the default. -/
def initialLifecycle (delta : LifecycleDelta) (now : ℤ) : LifecycleMetadata :=
  if delta.isEmpty then {}
  else
    { tier := delta.tier.getD .longTerm, supersedes := delta.supersedes,
      supersededBy := delta.supersededBy, expiresAtMs := delta.expiresAtMs.getD none,
      reviewAfterMs := delta.reviewAfterMs.getD none,
      lifecycleUpdatedAtMs := delta.lifecycleUpdatedAtMs.getD now }

/-- The row of one physical chunk. -/
def storedRow (ext : Externals) (delta : LifecycleDelta) (now : ℤ) (id : ChunkId)
    (part : MemoryChunk) : ResolvedChunk :=
  { chunk := { part with chunkId := id, hash := ext.sha256Hex part.text }
    status := delta.status.getD part.status
    lifecycle := initialLifecycle delta now }

/-- The rows a chunk is stored as. -/
def physicalRows (ext : Externals) (p : Prepared) (id : ChunkId) : List ResolvedChunk :=
  (splitForAdd ext p.chunk).mapIdx fun i part => storedRow ext p.delta p.now (id + i) part

/-- `add_with_stored_ids` and `add_chunk_with_lifecycle`: the store, and the id of the first
physical chunk. -/
def ContentStore.store (ext : Externals) (s : ContentStore) (p : Prepared) : ContentStore × ChunkId :=
  ({ rows := s.rows ++ physicalRows ext p s.nextId
     nextId := s.nextId + (splitForAdd ext p.chunk).length }, s.nextId)

/-- `Store::add_batch`, which knows no lifecycle. -/
def ContentStore.storeAll (ext : Externals) : ContentStore → List Prepared →
    ContentStore × List ChunkId
  | s, [] => (s, [])
  | s, p :: ps =>
    let (s', id) := s.store ext { p with delta := {} }
    let (s'', ids) := ContentStore.storeAll ext s' ps
    (s'', id :: ids)

/-! ## Content duplicates -/

/-- What a row must share with a chunk to be looked at: tenant, project, type and hash, and it
must be a live head. -/
def isContentRow (ext : Externals) (c : MemoryChunk) (r : ResolvedChunk) : Bool :=
  r.chunk.tenantId = c.tenantId && r.chunk.projectId = c.projectId
    && r.chunk.chunkType = c.chunkType && r.chunk.hash = ext.sha256Hex c.text
    && r.status = .final && r.lifecycle.tier ≠ .history && r.lifecycle.supersededBy = none

/-- `list_live_by_content_hash`: the newest rows of the content; the order of rows created in
the same millisecond is the order of the table. -/
def listLiveByContentHash (ext : Externals) (rows : List ResolvedChunk) (c : MemoryChunk)
    (limit : ℕ) : List ResolvedChunk :=
  ((rows.filter (isContentRow ext c)).insertionSort fun a b =>
    b.chunk.timestampCreated ≤ a.chunk.timestampCreated).take limit

/-- `is_digest_projection_tag`. -/
def isDigestProjectionTag (tag : String) : Bool :=
  tag == "task:kind:digest" || tag == "task:projection:digest"
    || startsWith tag.toList "task:digest:" || startsWith tag.toList "task:role:"

/-- `default_content_dedupe_exempt`. -/
def defaultContentDedupeExempt (g : GateExternals) (p : Prepared) : Bool :=
  (p.callerTags ++ p.chunk.tags).any isDigestProjectionTag || hasExplicitPriority g p.callerTags

/-- `caller_tags_already_preserved`. -/
def callerTagsAlreadyPreserved (existing : MemoryChunk) (callerTags : List String) : Bool :=
  callerTags.all fun t => existing.tags.contains t

/-- The comparison of a chunk with a stored chunk, or with an earlier chunk of a batch. -/
def isSameContent (p : Prepared) (existing : MemoryChunk) : Bool :=
  existing.text = p.chunk.text && existing.chunkType = p.chunk.chunkType
    && existing.projectId = p.chunk.projectId
    && (p.chunk.source = {} || p.chunk.source = existing.source)
    && callerTagsAlreadyPreserved existing p.callerTags

/-- `find_default_content_duplicate`. -/
def findDefaultContentDuplicate (env : AddEnv) (s : ContentStore) (p : Prepared) : Option ChunkId :=
  if defaultContentDedupeExempt env.gate p then none
  else
    ((listLiveByContentHash env.ext s.rows p.chunk 8).find? fun r => isSameContent p r.chunk).map
      (·.chunk.chunkId)

/-! ## Single adds -/

/-- The two `dedupe_decision` texts. -/
inductive DedupeDecision
  | inserted | reusedExistingExactContent
  deriving DecidableEq, Repr

/-- The answer to one request: the chunk id and how it came about. -/
structure AddOutcome where
  chunkId : ChunkId
  decision : DedupeDecision
  deriving DecidableEq, Repr

/-- The lookup and the write of one chunk. -/
def addPrepared (env : AddEnv) (s : ContentStore) (p : Prepared) : ContentStore × AddOutcome :=
  match if p.callerRequestedLifecycle then none else findDefaultContentDuplicate env s p with
  | some existing => (s, { chunkId := existing, decision := .reusedExistingExactContent })
  | none =>
    let (s', id) := s.store env.ext p
    (s', { chunkId := id, decision := .inserted })

/-- `handle_memory_add`. -/
def handleMemoryAdd (env : AddEnv) (tenant : String) (s : ContentStore) (req : AddRequest) (now : ℤ) :
    Except OperationError (ContentStore × AddOutcome) := do
  let t ← resolveTenantId env.cfg tenant
  invalid (ProjectId.validateOpt req.projectId)
  let p ← prepareAdd env "memory.add rejected" t req now
  pure (addPrepared env s p)

/-- The requests one after another. -/
def addSequentially (env : AddEnv) (tenant : String) : ContentStore → List (AddRequest × ℤ) →
    Except OperationError (ContentStore × List AddOutcome)
  | s, [] => .ok (s, [])
  | s, (req, now) :: reqs => do
    let (s', outcome) ← handleMemoryAdd env tenant s req now
    let (s'', outcomes) ← addSequentially env tenant s' reqs
    pure (s'', outcome :: outcomes)

/-! ## A batch -/

/-- The pre-pass of `handle_memory_add_batch`; an error names the position. -/
def prepareBatch (env : AddEnv) (t : TenantId) : ℕ → List (AddRequest × ℤ) →
    Except OperationError (List Prepared)
  | _, [] => .ok []
  | position, (req, now) :: reqs => do
    let p ← prepareAdd env s!"memory.add_batch rejected chunk {position}" t req now
    let ps ← prepareBatch env t (position + 1) reqs
    pure (p :: ps)

/-- The branch of a batch in which some chunk gets a lifecycle. -/
def lifecycleAdd (env : AddEnv) : ContentStore → List Prepared → ContentStore × List AddOutcome
  | s, [] => (s, [])
  | s, p :: ps =>
    let (s', outcome) := addPrepared env s p
    let (s'', outcomes) := lifecycleAdd env s' ps
    (s'', outcome :: outcomes)

/-- What the persistent bulk branch decides for one chunk. -/
inductive BulkDecision
  | existing (id : ChunkId)
  | earlier (position : ℕ)
  | insert
  deriving DecidableEq, Repr

/-- The decision for one chunk: the store before the batch, then the earlier chunks of the batch
that will be inserted, from the first on. -/
def bulkDecide (env : AddEnv) (s : ContentStore) (pending : List (ℕ × Prepared)) (p : Prepared) :
    BulkDecision :=
  match findDefaultContentDuplicate env s p with
  | some id => .existing id
  | none =>
    if defaultContentDedupeExempt env.gate p then .insert
    else
      match pending.find? fun prior => isSameContent p prior.2.chunk with
      | some prior => .earlier prior.1
      | none => .insert

/-- The loop of the bulk branch: the decisions, and the chunks to insert with their positions. -/
def bulkPlan (env : AddEnv) (s : ContentStore) : ℕ → List (ℕ × Prepared) → List Prepared →
    List BulkDecision × List (ℕ × Prepared)
  | _, pending, [] => ([], pending)
  | position, pending, p :: ps =>
    let decision := bulkDecide env s pending p
    let pending' := if decision = .insert then pending ++ [(position, p)] else pending
    let (decisions, planned) := bulkPlan env s (position + 1) pending' ps
    (decision :: decisions, planned)

/-- The id and the decision of one position, from the ids of the inserted positions. -/
def bulkOutcome (ids : List (ℕ × ChunkId)) (position : ℕ) : BulkDecision →
    Except OperationError AddOutcome
  | .existing id => .ok { chunkId := id, decision := .reusedExistingExactContent }
  | .earlier prior =>
    match ids.lookup prior with
    | some id => .ok { chunkId := id, decision := .reusedExistingExactContent }
    | none => .error (.toolError "memory.add_batch missing inserted id for within-batch duplicate")
  | .insert =>
    match ids.lookup position with
    | some id => .ok { chunkId := id, decision := .inserted }
    | none => .error (.toolError
        s!"memory.add_batch did not produce chunk id for position {position}")

/-- The outcomes of all positions. -/
def bulkOutcomes (ids : List (ℕ × ChunkId)) : ℕ → List BulkDecision →
    Except OperationError (List AddOutcome)
  | _, [] => .ok []
  | position, d :: ds => do
    let outcome ← bulkOutcome ids position d
    let outcomes ← bulkOutcomes ids (position + 1) ds
    pure (outcome :: outcomes)

/-- The persistent bulk branch. -/
def bulkAdd (env : AddEnv) (s : ContentStore) (ps : List Prepared) :
    Except OperationError (ContentStore × List AddOutcome) := do
  let (decisions, planned) := bulkPlan env s 0 [] ps
  let (s', inserted) := s.storeAll env.ext (planned.map (·.2))
  let outcomes ← bulkOutcomes ((planned.map (·.1)).zip inserted) 0 decisions
  pure (s', outcomes)

/-- `handle_memory_add_batch` over a persistent store. -/
def handleMemoryAddBatch (env : AddEnv) (tenant : String) (s : ContentStore)
    (reqs : List (AddRequest × ℤ)) : Except OperationError (ContentStore × List AddOutcome) := do
  let t ← resolveTenantId env.cfg tenant
  reqs.forM fun r => invalid (ProjectId.validateOpt r.1.projectId)
  let ps ← prepareBatch env t 0 reqs
  if ps.any fun p => !p.delta.isEmpty then pure (lifecycleAdd env s ps)
  else bulkAdd env s ps
