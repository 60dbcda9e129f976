/-
# Where the hits of a search come from

The first half of `memory.search` (`ops/search.rs`, `ops/mod.rs`): the scopes a request
reaches (`projectScopesForProject`), the order in which scored chunks are merged
(`mergeScoredChunkLists`), and the four sources of candidates — the ranked search of the
store, with or without tier timings, the exact-term rescue, the lexical-overlap rescue and
the summaries kept for a query mode.

What the store's rankers and listings return is not constrained: they are functions of a
`SearchBackend` and may repeat chunks, return stale copies or rows of another project.  Only
the overlay rows, which the visibility check reads, are data with an invariant.

An `f32` score is given by its bits and compared by `F32.rank`, the order of `partial_cmp` on
the numbers; a NaN, for which `sort_by` promises no order, gets a place beyond them.
`f32` addition is a field of `SearchExternals`.
-/
import Memd.Database
import Memd.RankedMerge
import Memd.RetrievalEpisode

open Text

/-! ## Data -/

/-- `OperationError`, the two kinds a search returns. -/
inductive OperationError
  | invalidParams (msg : String)
  | toolError (msg : String)
  deriving DecidableEq, Repr

/-- `map_err(|e| McpError::ToolError(e.to_string()))`. -/
def tool {α : Type} : Except MemdError α → Except OperationError α
  | .ok a => .ok a
  | .error e => .error (.toolError e.display)

/-- `QueryMode`. -/
inductive QueryMode
  | generic | briefProject | resumeTask | findFailures | findDecisions | findEvidence
  | findHighlights
  deriving DecidableEq, Repr

/-- `query_mode_name`. -/
def queryModeName : QueryMode → String
  | .generic => "generic"
  | .briefProject => "brief_project"
  | .resumeTask => "resume_task"
  | .findFailures => "find_failures"
  | .findDecisions => "find_decisions"
  | .findEvidence => "find_evidence"
  | .findHighlights => "find_highlights"

/-- `VisibilityPolicy`. -/
structure VisibilityPolicy where
  includeSuperseded : Bool := false
  includeExpired : Bool := false
  includeHistory : Bool := false
  deriving DecidableEq, Repr

/-- `VisibilityPolicy::is_visible`. -/
def VisibilityPolicy.isVisible (p : VisibilityPolicy) (status : ChunkStatus) (tier : MemoryTier) :
    Bool :=
  match status with
  | .candidate | .deleted | .error => false
  | .superseded => p.includeSuperseded && (tier != .history || p.includeHistory)
  | .expired => p.includeExpired && (tier != .history || p.includeHistory)
  | _ => tier != .history || p.includeHistory

/-- `VisibilityPolicy::is_visible_at`. -/
def VisibilityPolicy.isVisibleAt (p : VisibilityPolicy) (status : ChunkStatus)
    (lifecycle : LifecycleMetadata) (now : ℤ) : Bool :=
  p.isVisible status lifecycle.tier
    && (p.includeExpired || !(lifecycle.expiresAtMs.any fun exp => exp ≤ now))

/-- A chunk with the overlay row kept for it. -/
structure ResolvedChunk where
  chunk : MemoryChunk
  status : ChunkStatus
  lifecycle : LifecycleMetadata
  deriving DecidableEq, Repr

/-- What the overlay finds a row by. -/
def ResolvedChunk.key (r : ResolvedChunk) : TenantId × ChunkId :=
  (r.chunk.tenantId, r.chunk.chunkId)

/-- A chunk with its score. -/
abbrev Scored := MemoryChunk × F32

/-- `TieredTiming`. -/
structure TieredTiming where
  cacheLookupMs : ℕ
  hotTierMs : ℕ
  warmTierMs : ℕ
  deriving DecidableEq, Repr

/-- `ProjectSearchScope`. -/
structure ProjectSearchScope where
  tenantId : TenantId
  projectId : Option String
  deriving DecidableEq, Repr

/-- One alias of a `project_aliases` rule. -/
structure ProjectAliasScopeConfig where
  tenantId : String
  projectId : Option String := none
  reason : Option String := none
  deriving DecidableEq, Repr

/-- `ProjectAliasConfig`. -/
structure ProjectAliasConfig where
  tenantId : String
  projectId : String
  aliases : List ProjectAliasScopeConfig
  deriving DecidableEq, Repr

/-- What the process is configured with. -/
structure SearchConfig where
  projectAliases : List ProjectAliasConfig := []
  /-- `server.allow_cross_tenant_project_fallback` -/
  crossTenantProjectFallback : Bool := false
  /-- `$MEMD_DEFAULT_TENANT` and the contents of `~/.memd/default_tenant`, those that exist,
  each with the name used in its error -/
  defaultTenants : List (String × String) := []

/-- The store behind a search. -/
structure SearchBackend where
  /-- the chunks of all tenants with their overlay rows, in the order they are listed -/
  rows : List ResolvedChunk
  rows_nodup : (rows.map ResolvedChunk.key).Nodup
  /-- the rows that cannot be read -/
  unreadable : TenantId → ChunkId → Option MemdError := fun _ _ => none
  /-- `list_tenants` -/
  listTenants : Except MemdError (List TenantId) := .ok []
  /-- `list_tasks` returns a task of the project -/
  hasTasks : TenantId → String → Except MemdError Bool := fun _ _ => .ok false
  /-- `list_chunks_for_project`, all pages -/
  listChunksForProject : TenantId → Option String → Except MemdError (List MemoryChunk) :=
    fun _ _ => .ok []
  /-- `search_with_scores`, `search_with_scores_at` -/
  searchWithScores : TenantId → String → ℕ → Option ℤ → Except MemdError (List Scored)
  /-- `search_with_tier_info`, `search_with_tier_info_at` -/
  searchWithTierInfo : TenantId → String → ℕ → Option ℤ →
    Except MemdError (List Scored × Option TieredTiming)
  /-- `candidate_chunk_ids_for_mode`, for the project of a scope -/
  candidateChunkIdsForMode : TenantId → QueryMode → Option String → ℕ →
    Except OperationError (List ChunkId) := fun _ _ _ _ => .ok []
  /-- `rerank_chunks_for_query`, `rerank_chunks_for_query_at` -/
  rerankChunksForQuery : TenantId → String → List ChunkId → ℕ → Option ℤ →
    Except MemdError (List Scored) := fun _ _ _ _ _ => .ok []
  /-- `outcome_priors` with the bounded adjustment of each -/
  outcomePriors : TenantId → Option String → List ChunkId → ℤ →
    Except MemdError (List (ChunkId × F32)) := fun _ _ _ _ => .ok []
  /-- `resolve_artifacts_for_chunks` -/
  resolveArtifactsForChunks : TenantId → List ChunkId →
    Except MemdError (List (ChunkId × TaskArtifact)) := fun _ _ => .ok []
  /-- `record_retrieval_episode` -/
  recordRetrievalEpisode : RetrievalEpisode → List RetrievalEpisodeItem → Except MemdError Unit :=
    fun _ _ => .ok ()
  isReadOnly : Bool := false
  retrievalMode : String := "hybrid"

namespace SearchBackend

/-- `get_with_lifecycle`. -/
def getWithLifecycle (b : SearchBackend) (t : TenantId) (c : ChunkId) :
    Except MemdError (Option ResolvedChunk) :=
  match b.unreadable t c with
  | some e => .error e
  | none => .ok ((b.rows.find? fun r => r.key = (t, c)).filter fun r => r.status ≠ .deleted)

/-- `list_chunks`, all pages: the rows of a tenant that are not deleted. -/
def listChunks (b : SearchBackend) (t : TenantId) : List MemoryChunk :=
  (b.rows.filter fun r => r.chunk.tenantId = t && r.status != .deleted).map (·.chunk)

end SearchBackend

/-- Code the search calls and that is not modelled. -/
structure SearchExternals where
  /-- `f32` addition -/
  addF32 : F32 → F32 → F32
  /-- `char::is_alphanumeric` -/
  isAlphanumeric : Char → Bool
  /-- `str::to_lowercase` -/
  toLowercase : String → String
  /-- `parse_iso_datetime` -/
  parseIsoDatetime : String → Except String ℤ
  /-- `score_candidate_chunk` -/
  scoreCandidateChunk : String → MemoryChunk → F32
  /-- `stable_query_hash` -/
  stableQueryHash : String → String
  /-- the JSON text of the two lane scores of an item -/
  laneScoresJson : F32 → F32 → String

/-! ## The order of scored chunks -/

/-- The place of a score among all: its magnitude bits, with its sign. -/
def F32.rank (x : F32) : ℤ :=
  if x.msb then -(x.extractLsb' 0 31).toNat else (x.extractLsb' 0 31).toNat

/-- The number is not a number. -/
def F32.isNan (x : F32) : Bool :=
  x.extractLsb' 23 8 = 255#8 && x.extractLsb' 0 23 ≠ 0#23

/-- The comparison of every `sort_by` of the search: higher value, then later creation, then
smaller chunk id. -/
def rankedBefore (value : Scored → F32) (a b : Scored) : Prop :=
  F32.rank (value b) < F32.rank (value a)
    ∨ F32.rank (value b) = F32.rank (value a)
      ∧ (b.1.timestampCreated < a.1.timestampCreated
        ∨ b.1.timestampCreated = a.1.timestampCreated ∧ a.1.chunkId ≤ b.1.chunkId)

instance (value : Scored → F32) : DecidableRel (rankedBefore value) :=
  fun _ _ => inferInstanceAs (Decidable (_ ∨ _))

instance (value : Scored → F32) : IsTrans Scored (rankedBefore value) where
  trans a b c hab hbc := by
    simp only [rankedBefore, ChunkId] at hab hbc ⊢
    omega

instance (value : Scored → F32) : Std.Total (rankedBefore value) where
  total a b := by
    simp only [rankedBefore, ChunkId]
    omega

/-- `compare_scored_chunks`. -/
abbrev scoredBefore : Scored → Scored → Prop :=
  rankedBefore Prod.snd

/-- `merge_scored_chunk_lists`. -/
def mergeScoredChunkLists (lists : List (List Scored)) (limit : ℕ) : List Scored :=
  Ranked.mergeRanked scoredBefore (fun s => s.1.chunkId) lists limit

/-- `merge_preferred_and_raw`: a preferred chunk is boosted and stands for a raw one. -/
def mergePreferredAndRaw (x : SearchExternals) (preferred raw : List Scored) (limit : ℕ) :
    List Scored :=
  let kept := Ranked.firstOf (fun s : Scored => s.1.chunkId) ∅ preferred
  let others := Ranked.firstOf (fun s : Scored => s.1.chunkId)
    (kept.map fun s => s.1.chunkId).toFinset raw
  -- 10.0 as `f32`
  let boosted := kept.map fun s => (s.1, x.addF32 s.2 0x41200000#32)
  ((boosted ++ others).insertionSort scoredBefore).take limit

/-! ## Scopes -/

/-- `TenantId::new`. -/
def TenantId.new (id : String) : Except MemdError TenantId :=
  if id = "" then .error (.validationError "tenant_id cannot be empty")
  else if !id.toList.all fun c => c.isAlphanum || c == '_' then
    .error (.validationError s!"tenant_id '{id}' contains invalid characters (only alphanumeric and underscore allowed)")
  else .ok id

/-- `ProjectId::validate_opt`. -/
def ProjectId.validateOpt : Option String → Except MemdError Unit
  | none => .ok ()
  | some id =>
    if id = "" then .ok ()
    else if contains id.toList ".." then
      .error (.validationError s!"project_id '{id}' must not contain '..'")
    else if !id.toList.all fun c => c.isAlphanum || c == '_' || c == '-' || c == '.' then
      .error (.validationError s!"project_id '{id}' contains invalid characters (only alphanumeric, '_', '-', and '.' allowed)")
    else .ok ()

/-- `map_err(|e| McpError::InvalidParams(e.to_string()))`. -/
def invalid {α : Type} : Except MemdError α → Except OperationError α
  | .ok a => .ok a
  | .error e => .error (.invalidParams e.display)

/-- `resolve_tenant_id`: the first value that is not blank. -/
def resolveTenantId (cfg : SearchConfig) (explicit : String) : Except OperationError TenantId :=
  let sources := ("call params", explicit) :: cfg.defaultTenants
  match sources.find? fun s => trim s.2.toList ≠ [] with
  | none => invalid (TenantId.new "default")
  | some (source, value) =>
    match TenantId.new (String.ofList (trim value.toList)) with
    | .ok t => .ok t
    | .error e => .error (.invalidParams s!"invalid tenant_id from {source}: {e.display}")

/-- Where a result comes from, as the response says it. -/
structure OriginScope where
  requestedTenantId : String
  originTenantId : String
  originProjectId : Option String
  aliasReason : String
  deriving DecidableEq, Repr

/-- `configured_project_aliases`. -/
def configuredProjectAliases (cfg : SearchConfig) (primary : TenantId) (project : String) :
    List OriginScope :=
  (cfg.projectAliases.filter fun rule => rule.tenantId = primary && rule.projectId = project).flatMap
    fun rule => rule.aliases.map fun a =>
      { requestedTenantId := primary
        originTenantId := a.tenantId
        originProjectId := some (a.projectId.getD project)
        aliasReason := a.reason.getD "configured_project_alias" }

/-- `tenant_has_project`: a task of the project, or a chunk of it. -/
def tenantHasProject (b : SearchBackend) (t : TenantId) (project : String) :
    Except OperationError Bool := do
  let tasks ← tool (b.hasTasks t project)
  pure (tasks || (b.listChunks t).any fun c => c.projectId = some project)

/-- The scopes among the candidates that are new and have material; a candidate that is no
tenant is an error. -/
def widenScopes (b : SearchBackend) : List ProjectSearchScope →
    List (Except OperationError TenantId × String) → Except OperationError (List ProjectSearchScope)
  | scopes, [] => .ok scopes
  | scopes, (candidate, project) :: candidates => do
    let t ← candidate
    let scope : ProjectSearchScope := { tenantId := t, projectId := some project }
    -- the source remembers a pair without material too; looking it up again gives the
    -- same answer
    if scope ∈ scopes then widenScopes b scopes candidates
    else
      let present ← tenantHasProject b t project
      widenScopes b (if present then scopes ++ [scope] else scopes) candidates

/-- `project_scopes_for_project`. -/
def projectScopesForProject (cfg : SearchConfig) (b : SearchBackend) (primary : TenantId)
    (project : Option String) : Except OperationError (List ProjectSearchScope) :=
  match project.filter fun p => trim p.toList ≠ [] with
  | none => .ok [{ tenantId := primary, projectId := none }]
  | some project =>
    let own : ProjectSearchScope := { tenantId := primary, projectId := some project }
    let aliases := configuredProjectAliases cfg primary project
    if aliases ≠ [] then
      widenScopes b [own] (aliases.map fun a =>
        (invalid (TenantId.new a.originTenantId), a.originProjectId.getD project))
    else if !cfg.crossTenantProjectFallback then .ok [own]
    else do
      let tenants ← tool b.listTenants
      widenScopes b [own] (tenants.map fun t => (.ok t, project))

/-! ## The ranked search -/

/-- `retain`: a scope with a project keeps the chunks of that project. -/
def ProjectSearchScope.retain (s : ProjectSearchScope) (scored : List Scored) : List Scored :=
  match s.projectId with
  | none => scored
  | some p => scored.filter fun r => r.1.projectId = some p

/-- The lists of all scopes, from the first on. -/
def forScopes {α : Type} (f : ProjectSearchScope → Except OperationError α) :
    List ProjectSearchScope → Except OperationError (List α)
  | [] => .ok []
  | s :: scopes => do
    let a ← f s
    let rest ← forScopes f scopes
    pure (a :: rest)

/-- `search_with_scores_for_project_scopes`. -/
def searchWithScoresForProjectScopes (b : SearchBackend) (scopes : List ProjectSearchScope)
    (query : String) (fetchK : ℕ) (time : Option ℤ) : Except OperationError (List Scored) := do
  let lists ← forScopes (fun s => do
    let scored ← tool (b.searchWithScores s.tenantId query fetchK time)
    pure (s.retain scored)) scopes
  pure (mergeScoredChunkLists lists (fetchK * max scopes.length 1))

/-- `search_with_tier_info_for_project_scopes`: a single scope is returned as the store
ranked it, with its timing. -/
def searchWithTierInfoForProjectScopes (b : SearchBackend) (scopes : List ProjectSearchScope)
    (query : String) (fetchK : ℕ) (time : Option ℤ) :
    Except OperationError (List Scored × Option TieredTiming) :=
  match scopes with
  | [s] => do
    let (scored, timing) ← tool (b.searchWithTierInfo s.tenantId query fetchK time)
    pure (s.retain scored, timing)
  | _ => do
    let lists ← forScopes (fun s => do
      let (scored, _) ← tool (b.searchWithTierInfo s.tenantId query fetchK time)
      pure (s.retain scored)) scopes
    pure (mergeScoredChunkLists lists (fetchK * max scopes.length 1), none)

/-! ## Rescue by exact terms and by overlap -/

/-- `char::is_ascii_alphanumeric`. -/
def isAsciiAlphanumeric (c : Char) : Bool :=
  c.isAlphanum

/-- `str::len` of a run of characters. -/
def byteLen (s : List Char) : ℕ :=
  (String.ofList s).utf8ByteSize

/-- The first of each term. -/
def distinctTerms (terms : List (List Char)) : List (List Char) :=
  Ranked.firstOf id ∅ terms

/-- `exact_rescue_terms`: the code-like words of a query. -/
def exactRescueTerms (query : String) : List (List Char) :=
  let inner := fun c => isAsciiAlphanumeric c || c == '_' || c == '-'
  let cleaned := (splitWhitespace query.toList).map fun term =>
    asciiLower (((term.dropWhile fun c => !inner c).reverse.dropWhile fun c => !inner c).reverse)
  distinctTerms (cleaned.filter fun t =>
    3 ≤ byteLen t && t.any isAsciiAlphanumeric
      && (t.contains '_' || t.contains '-' || t.any Char.isDigit))

/-- `is_lexical_overlap_stopword`. -/
def isLexicalOverlapStopword (term : List Char) : Bool :=
  ["about", "after", "again", "also", "because", "before", "could", "from", "have", "into",
    "need", "needs", "only", "over", "should", "than", "that", "their", "there", "these", "this",
    "those", "when", "where", "with", "would"].any fun w => w.toList == term

/-- `lexical_overlap_terms`. -/
def lexicalOverlapTerms (query : String) : List (List Char) :=
  distinctTerms (((query.toList.splitOnP fun c => !isAsciiAlphanumeric c).map fun t =>
    asciiLower (trim t)).filter fun t => 4 ≤ byteLen t && !isLexicalOverlapStopword t)

/-- The text and the tags of a chunk, in lower case. -/
def haystack (c : MemoryChunk) : List Char :=
  asciiLower (c.text.toList ++ ' ' :: (" ".intercalate c.tags).toList)

/-- `chunk_contains_exact_rescue_term`. -/
def chunkContainsExactRescueTerm (c : MemoryChunk) (terms : List (List Char)) : Bool :=
  terms.any fun t => decide (t <:+: haystack c)

/-- `chunk_lexical_overlap_count`. -/
def chunkLexicalOverlapCount (c : MemoryChunk) (terms : List (List Char)) : ℕ :=
  (terms.filter fun t => decide (t <:+: haystack c)).length

/-- `lexical_overlap_minimum`. -/
def lexicalOverlapMinimum (terms : List (List Char)) : ℕ :=
  if 8 ≤ terms.length then 4 else if 6 ≤ terms.length then 3 else 2

/-- `should_run_lexical_overlap_rescue`. -/
def shouldRunLexicalOverlapRescue (scored : List Scored) (query : String) (k : ℕ) : Bool :=
  let terms := lexicalOverlapTerms query
  if terms.length < 4 then false
  else !(scored.take k).any fun s =>
    lexicalOverlapMinimum terms ≤ chunkLexicalOverlapCount s.1 terms

/-- `score <= 0.0`, false for a NaN. -/
def F32.nonpos (x : F32) : Bool :=
  !x.isNan && F32.rank x ≤ 0

/-- `score > 0.0`, false for a NaN. -/
def F32.pos (x : F32) : Bool :=
  !x.isNan && 0 < F32.rank x

/-- `retain_exact_rescue_candidate`. -/
def retainExactRescueCandidate (x : SearchExternals) (query : String) (limit : ℕ)
    (candidates : List Scored) (c : MemoryChunk) : List Scored :=
  let score := x.scoreCandidateChunk query c
  if score.nonpos then candidates
  else ((candidates ++ [(c, score)]).insertionSort scoredBefore).take limit

/-- `EXACT_RESCUE_PROJECT_SCAN_LIMIT`. -/
def exactRescueProjectScanLimit : ℕ := 50000

/-- `EXACT_RESCUE_GLOBAL_SCAN_LIMIT`. -/
def exactRescueGlobalScanLimit : ℕ := 10000

/-- `LEXICAL_OVERLAP_PROJECT_SCAN_LIMIT`. -/
def lexicalOverlapProjectScanLimit : ℕ := 500

/-- `LEXICAL_OVERLAP_MAX_CANDIDATES`. -/
def lexicalOverlapMaxCandidates : ℕ := 100

/-- The chunks of a scope that a rescue scans: the listing up to the scan limit, and in
a scope with a project only the chunks of the project. -/
def scanScope (b : SearchBackend) (s : ProjectSearchScope) (scanLimit : ℕ) :
    Except OperationError (List MemoryChunk) := do
  let listed ← tool (b.listChunksForProject s.tenantId s.projectId)
  let scanned := listed.take scanLimit
  pure (match s.projectId with
    | none => scanned
    | some p => scanned.filter fun c => c.projectId = some p)

/-- `exact_lexical_candidates_for_project_scopes`. -/
def exactLexicalCandidatesForProjectScopes (x : SearchExternals) (b : SearchBackend)
    (scopes : List ProjectSearchScope) (query : String) (limit : ℕ) :
    Except OperationError (List Scored) := do
  let terms := exactRescueTerms query
  if terms = [] ∨ limit = 0 then pure []
  else
    let lists ← forScopes (fun s => scanScope b s
      (if s.projectId.isSome then exactRescueProjectScanLimit else exactRescueGlobalScanLimit)) scopes
    let hits := lists.flatten.filter fun c => chunkContainsExactRescueTerm c terms
    -- 20.0 as `f32`
    pure ((hits.foldl (retainExactRescueCandidate x query limit) []).map fun s =>
      (s.1, x.addF32 s.2 0x41A00000#32))

/-- `rank_candidate_chunks`. -/
def rankCandidateChunks (x : SearchExternals) (chunks : List MemoryChunk) (query : String)
    (k : ℕ) : List Scored :=
  let scored := (chunks.map fun c => (c, x.scoreCandidateChunk query c)).insertionSort scoredBefore
  let kept := if trim query.toList = [] then scored else scored.filter fun s => F32.pos s.2
  kept.take k

/-- The scan of `lexical_overlap_candidates_for_project_scopes`: it stops at the cap. -/
def scanOverlap (b : SearchBackend) (terms : List (List Char)) (candidateCap : ℕ) :
    List ProjectSearchScope → List MemoryChunk → Except OperationError (List MemoryChunk)
  | [], candidates => .ok candidates
  | s :: scopes, candidates =>
    if s.projectId = none ∨ candidateCap ≤ candidates.length then
      scanOverlap b terms candidateCap scopes candidates
    else do
      let scanned ← scanScope b s lexicalOverlapProjectScanLimit
      let hits := scanned.filter fun c =>
        lexicalOverlapMinimum terms ≤ chunkLexicalOverlapCount c terms
      scanOverlap b terms candidateCap scopes ((candidates ++ hits).take candidateCap)

/-- `lexical_overlap_candidates_for_project_scopes`. -/
def lexicalOverlapCandidatesForProjectScopes (x : SearchExternals) (b : SearchBackend)
    (scopes : List ProjectSearchScope) (query : String) (limit : ℕ) :
    Except OperationError (List Scored) := do
  let terms := lexicalOverlapTerms query
  if limit = 0 ∨ (∀ s ∈ scopes, s.projectId = none) ∨ terms.length < 4 then pure []
  else
    let candidateCap := max limit (min (limit * 20) lexicalOverlapMaxCandidates)
    let candidates ← scanOverlap b terms candidateCap scopes []
    -- 16.0 as `f32`
    pure ((rankCandidateChunks x candidates query limit).map fun s =>
      (s.1, x.addF32 s.2 0x41800000#32))

/-! ## Summaries -/

/-- `contains_empty_generated_digest_summary`. -/
def containsEmptyGeneratedDigestSummary (text : String) : Bool :=
  ["contains 0 ranked lessons", "contains 0 recent failure summaries",
    "contains 0 explicit or inferred decisions", "contains 0 evidence highlights",
    "has 0 active tasks, 0 recent completed tasks, 0 recent failures, 0 decisions, and 0 evidence highlights"].any
    fun phrase => contains (asciiLower text.toList) phrase

/-- The tags of a generated digest. -/
def isGenerated (c : MemoryChunk) : Bool :=
  c.tags.contains "task:status:generated"

/-- `is_empty_generated_digest_chunk`. -/
def isEmptyGeneratedDigestChunk (c : MemoryChunk) : Bool :=
  isGenerated c
    && c.tags.any (fun t => startsWith t.toList "task:role:" || startsWith t.toList "task:digest:")
    && containsEmptyGeneratedDigestSummary c.text

/-- `is_generated_digest_projection_chunk`. -/
def isGeneratedDigestProjectionChunk (c : MemoryChunk) : Bool :=
  isGenerated c
    && c.tags.any fun t => t == "task:kind:digest" || t == "task:projection:digest"
      || startsWith t.toList "task:role:" || startsWith t.toList "task:digest:"

/-- The modes whose summaries a search prefers. -/
def summaryModes (scopes : List ProjectSearchScope) (mode : QueryMode) : List QueryMode :=
  if mode ≠ .generic then [mode]
  else if scopes.any fun s => s.projectId.isSome then
    [.briefProject, .findFailures, .findDecisions, .findEvidence, .findHighlights]
  else []

/-- The candidate ids of all modes, each once. -/
def summaryIds (b : SearchBackend) (s : ProjectSearchScope) (limit : ℕ) : List QueryMode →
    Except OperationError (List ChunkId)
  | [] => .ok []
  | mode :: modes => do
    let ids ← b.candidateChunkIdsForMode s.tenantId mode s.projectId limit
    let rest ← summaryIds b s limit modes
    pure (ids ++ rest)

/-- `summary_preferred_results_for_project_scopes`. -/
def summaryPreferredResultsForProjectScopes (b : SearchBackend) (scopes : List ProjectSearchScope)
    (query : String) (mode : QueryMode) (limit : ℕ) (time : Option ℤ) :
    Except OperationError (List Scored) := do
  let modes := summaryModes scopes mode
  if modes = [] ∨ limit = 0 then pure []
  else
    let lists ← forScopes (fun s => do
      let ids ← summaryIds b s (limit * 4) modes
      let ranked ← tool (b.rerankChunksForQuery s.tenantId query (Ranked.firstOf id ∅ ids) limit time)
      pure (ranked.filter fun r => !isEmptyGeneratedDigestChunk r.1)) scopes
    pure (mergeScoredChunkLists lists (limit * max scopes.length 1))
