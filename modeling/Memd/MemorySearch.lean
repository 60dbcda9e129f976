/-
# Answering a search

The second half of `memory.search` (`handle_memory_search` of `ops/search.rs` with its helpers
in `ops/mod.rs`): the request and its checks, the filters, the visibility check against the
overlay rows, the candidate pool with the outcome scores beside it, event siblings, the shape
of the answer and the retrieval episode that is recorded.

The source holds two copies of the pipeline, one for requests with `debug_tiers` and one for
all others.  They run the same statements and differ in the ranked search they call; both are
`answerWith` here, applied to that search (`searchTiers`, `searchStandard`).

One clock value is used for the whole request.  The packer that fits results into a token
budget and the length of a result's JSON text are fields of `ResponseExternals`; the packer of
the source is `packWith`.
-/
import Mathlib.Algebra.GroupWithZero.Nat
import Memd.ContextPacker
import Memd.SearchSources
import Memd.Utf8Text

open Text

/-! ## The request -/

/-- `TimeRange`. -/
structure TimeRange where
  start : Option String := none
  stop : Option String := none
  deriving DecidableEq, Repr

/-- `SearchFilters`. -/
structure SearchFilters where
  types : Option (List String) := none
  episodeId : Option String := none
  timeRange : Option TimeRange := none
  deriving DecidableEq, Repr

/-- `SearchParams`. -/
structure SearchParams where
  tenantId : String := ""
  query : String
  projectId : Option String := none
  k : ℕ := 20
  filters : Option SearchFilters := none
  debugTiers : Option Bool := none
  mode : Option QueryMode := none
  includeSuperseded : Option Bool := none
  includeExpired : Option Bool := none
  includeHistory : Option Bool := none
  oversampleFactor : Option ℕ := none
  expandEventSiblings : Bool := false
  renderEventTime : Bool := false
  rankingTimeMs : Option ℤ := none
  dedupeBySource : Bool := false
  compact : Bool := false
  tokenBudget : Option ℕ := none
  includeText : Option Bool := none
  includeArtifact : Option Bool := none
  taskId : Option String := none
  threadId : Option String := none
  rankingPolicy : Option RankingPolicyMode := none
  candidateMultiplier : Option ℕ := none
  suppressRetrievalEpisode : Bool := false
  deriving DecidableEq, Repr

/-- An early return with an `InvalidParams` error. -/
def refuseIf (bad : Prop) [Decidable bad] (msg : String) : Except OperationError Unit :=
  if bad then .error (.invalidParams msg) else .ok ()

/-- `ParsedSearchFilters`. -/
structure ParsedSearchFilters where
  chunkTypes : Option (List ChunkType) := none
  episodeId : Option String := none
  fromMs : Option ℤ := none
  toMs : Option ℤ := none
  deriving DecidableEq, Repr

/-- `parse_chunk_type`. -/
def parseChunkType (toLowercase : String → String) (s : String) :
    Except OperationError ChunkType :=
  match toLowercase s with
  | "code" => .ok .code
  | "doc" | "scientific" => .ok .doc
  | "trace" => .ok .trace
  | "decision" => .ok .decision
  | "plan" => .ok .plan
  | "research" => .ok .research
  | "message" => .ok .message
  | "summary" => .ok .summary
  | "general" | "other" => .ok .other
  | _ => .error (.invalidParams s!"invalid chunk type '{s}', must be one of: code, doc, scientific, trace, decision, plan, research, message, summary, general, other")

/-- One bound of `validate_search_time_range`. -/
def parseBound (x : SearchExternals) (name : String) :
    Option String → Except OperationError (Option ℤ)
  | none => .ok none
  | some s =>
    match x.parseIsoDatetime s with
    | .ok ms => .ok (some ms)
    | .error e => .error (.invalidParams s!"invalid filters.time_range.{name}: {e}")

/-- `validate_search_time_range`. -/
def validateSearchTimeRange (x : SearchExternals) (range : Option TimeRange) :
    Except OperationError (Option ℤ × Option ℤ) := do
  let fromMs ← parseBound x "from" (range.bind (·.start))
  let toMs ← parseBound x "to" (range.bind (·.stop))
  refuseIf (∃ a ∈ fromMs, ∃ z ∈ toMs, z < a) "invalid filters.time_range: 'from' must be <= 'to'"
  pure (fromMs, toMs)

/-- `parse_search_filters`. -/
def parseSearchFilters (x : SearchExternals) (filters : Option SearchFilters) :
    Except OperationError ParsedSearchFilters := do
  let (fromMs, toMs) ← validateSearchTimeRange x (filters.bind (·.timeRange))
  let chunkTypes ← match filters.bind (·.types) with
    | none => .ok none
    | some types => (types.mapM (parseChunkType x.toLowercase)).map some
  pure { chunkTypes := chunkTypes, episodeId := filters.bind (·.episodeId), fromMs := fromMs,
         toMs := toMs }

/-- `has_active_search_filters`. -/
def hasActiveSearchFilters (project : Option String) (f : ParsedSearchFilters) : Bool :=
  project.isSome || f.chunkTypes.isSome || f.episodeId.isSome || f.fromMs.isSome || f.toMs.isSome

/-- `resolve_visibility_and_oversample`. -/
def resolveVisibilityAndOversample (params : SearchParams) : VisibilityPolicy × ℕ :=
  let policy : VisibilityPolicy :=
    { includeSuperseded := params.includeSuperseded.getD false
      includeExpired := params.includeExpired.getD false
      includeHistory := params.includeHistory.getD false }
  let allPermissive := policy.includeSuperseded && policy.includeExpired && policy.includeHistory
  (policy, if allPermissive then 1 else max 1 (min (params.oversampleFactor.getD 3) 10))

/-- `adaptive_fetch_k`. -/
def adaptiveFetchK (k : ℕ) (query : String) (hasFilters : Bool) : ℕ :=
  if hasFilters then 100
  else if 6 ≤ (splitWhitespace query.toList).length ∨ 80 ≤ query.utf8ByteSize then
    max 1 (min (k * 2) 100)
  else k

/-- `normalize_query_for_repair`. -/
def normalizeQueryForRepair (x : SearchExternals) (query : String) : Option String :=
  let spaced := String.ofList (query.toList.map fun c => if x.isAlphanumeric c then c else ' ')
  let normalized := x.toLowercase (collapseWhitespace spaced)
  if normalized = "" ∨ normalized = x.toLowercase (collapseWhitespace query) then none
  else some normalized

/-- What a request comes down to once it is checked. -/
structure SearchPlan where
  tenantId : TenantId
  scopes : List ProjectSearchScope
  filters : ParsedSearchFilters
  policy : VisibilityPolicy
  outcomeCandidateCap : ℕ
  preVisibilityCap : ℕ
  fetchK : ℕ

/-- The statements of `handle_memory_search` before its two branches. -/
def planSearch (x : SearchExternals) (cfg : SearchConfig) (b : SearchBackend)
    (params : SearchParams) : Except OperationError SearchPlan := do
  let tenantId ← resolveTenantId cfg params.tenantId
  invalid (ProjectId.validateOpt params.projectId)
  refuseIf (params.k < 1 ∨ 100 < params.k) "invalid 'k': must be between 1 and 100"
  refuseIf (∃ ms ∈ params.rankingTimeMs, ms < 0) "ranking_time_ms must be non-negative"
  let filters ← parseSearchFilters x params.filters
  let (policy, oversample) := resolveVisibilityAndOversample params
  let multiplier := max 1 (min (params.candidateMultiplier.getD 4) 20)
  let outcomeCap := max params.k (min (params.k * multiplier) 200)
  let preVisibilityCap := min (max (params.k * oversample) outcomeCap) 200
  let adaptive := adaptiveFetchK params.k params.query (hasActiveSearchFilters params.projectId filters)
  let scopes ← projectScopesForProject cfg b tenantId params.projectId
  pure { tenantId := tenantId, scopes := scopes, filters := filters, policy := policy,
         outcomeCandidateCap := outcomeCap, preVisibilityCap := preVisibilityCap,
         fetchK := min (max adaptive preVisibilityCap) 200 }

/-! ## Filters and visibility -/

/-- The test of `apply_search_filters`. -/
def ParsedSearchFilters.passes (f : ParsedSearchFilters) (c : MemoryChunk) : Bool :=
  (f.chunkTypes.all fun types => types.contains c.chunkType)
    && (f.episodeId.all fun id => c.tags.contains s!"episode:{id}")
    && (f.fromMs.all fun ms => ms ≤ c.timestampCreated)
    && (f.toMs.all fun ms => c.timestampCreated ≤ ms)

/-- `apply_search_filters`; every call passes no project. -/
def applySearchFilters (f : ParsedSearchFilters) (k : ℕ) (scored : List Scored) : List Scored :=
  (scored.filter fun s => f.passes s.1).take k

/-- `apply_visibility_filter`: the row is looked up under the tenant and the id of the hit, and
the chunk of the row replaces the hit. -/
def applyVisibilityFilter (b : SearchBackend) (policy : VisibilityPolicy) (now : ℤ) :
    ℕ → List Scored → List Scored
  | 0, _ => []
  | _, [] => []
  | k + 1, (c, score) :: ranked =>
    match b.getWithLifecycle c.tenantId c.chunkId with
    | .ok (some r) =>
      if policy.isVisibleAt r.status r.lifecycle now then
        (r.chunk, score) :: applyVisibilityFilter b policy now k ranked
      else applyVisibilityFilter b policy now (k + 1) ranked
    -- a row that is gone, or that cannot be read, is dropped
    | _ => applyVisibilityFilter b policy now (k + 1) ranked

/-- `suppress_generated_digest_projection_chunks`. -/
def suppressGeneratedDigestProjectionChunks (scored : List Scored) : List Scored :=
  scored.filter fun s => !isGeneratedDigestProjectionChunk s.1

/-- `dedupe_scored_chunks_by_source_uri`: the first chunk of each source. -/
def dedupeScoredChunksBySourceUri : List String → List Scored → List Scored
  | _, [] => []
  | seen, s :: scored =>
    match s.1.source.uri with
    | none => s :: dedupeScoredChunksBySourceUri seen scored
    | some uri =>
      if uri = "" then s :: dedupeScoredChunksBySourceUri seen scored
      else if uri ∈ seen then dedupeScoredChunksBySourceUri seen scored
      else s :: dedupeScoredChunksBySourceUri (uri :: seen) scored

/-! ## The candidate pool -/

/-- The pool with and without the outcome priors, and what they changed. -/
structure OutcomeRankedPool where
  base : List Scored
  served : List Scored
  adjustments : List (ChunkId × F32)
  shadowRanks : List (ChunkId × ℕ)
  shadowOrderChanged : Bool

/-- A map built by inserting the entries in order: the last one of a key counts. -/
def lastEntry {α : Type} (entries : List (ChunkId × α)) (c : ChunkId) : Option α :=
  (entries.reverse.find? fun e => e.1 = c).map (·.2)

/-- The entries of a list with their positions. -/
def positions (ids : List ChunkId) : List (ChunkId × ℕ) :=
  ids.zipIdx

/-- `outcome_rank_candidate_pool`: the shadow order is measured and not served. -/
def outcomeRankCandidatePool (x : SearchExternals) (b : SearchBackend) (t : TenantId)
    (project : Option String) (candidates : List Scored) (policyMode : RankingPolicyMode)
    (time : ℤ) : Except OperationError OutcomeRankedPool :=
  match policyMode with
  | .serve => .error (.invalidParams "ranking_policy=serve is not activated; pass shadow until the frozen longitudinal gate and rollback check pass")
  | .off => .ok { base := candidates, served := candidates, adjustments := [], shadowRanks := [],
                  shadowOrderChanged := false }
  | .shadow => do
    let ids := candidates.map fun s => s.1.chunkId
    let adjustments ← tool (b.outcomePriors t project ids time)
    let value := fun s : Scored => x.addF32 s.2 ((lastEntry adjustments s.1.chunkId).getD 0#32)
    let shadow := (candidates.insertionSort (rankedBefore value)).map fun s => s.1.chunkId
    pure { base := candidates, served := candidates, adjustments := adjustments,
           shadowRanks := positions shadow, shadowOrderChanged := decide (ids ≠ shadow) }

/-! ## Rendering -/

/-- A number in at least `width` digits, as `{:0width}` writes it. -/
def paddedInt (width : ℕ) (n : ℤ) : String :=
  if n < 0 then "-" ++ String.ofList ((toString n.natAbs).toList.leftpad (width - 1) '0')
  else String.ofList ((toString n.natAbs).toList.leftpad width '0')

/-- `format_epoch_ms_date`. -/
def formatEpochMsDate (ms : ℤ) : String :=
  let days := ms / 86400000
  let z := days + 719468
  let era := z / 146097
  let doe := z - era * 146097
  let yoe := (doe - doe / 1460 + doe / 36524 - doe / 146096) / 365
  let doy := doe - (365 * yoe + yoe / 4 - yoe / 100)
  let mp := (5 * doy + 2) / 153
  let day := doy - (153 * mp + 2) / 5 + 1
  let month := if mp < 10 then mp + 3 else mp - 9
  let year := if month ≤ 2 then yoe + era * 400 + 1 else yoe + era * 400
  s!"{paddedInt 4 year}-{paddedInt 2 month}-{paddedInt 2 day}"

/-- `render_observed_time_into_text`. -/
def renderObservedTimeIntoText (s : Scored) : Scored :=
  match s.1.timestampObserved with
  | none => s
  | some ms => ({ s.1 with text := s!"[{formatEpochMsDate ms}] {s.1.text}" }, s.2)

/-- A chunk as it is shown.  Citation, episode id and the other fields computed from the chunk
follow from `chunk`, trust tier, grounding and hint from `linked`. -/
structure RenderedChunk where
  chunk : MemoryChunk
  text : String
  score : F32
  sourceTier : Option String
  linked : Option TaskArtifact
  artifact : Option TaskArtifact

/-- One result of a search. -/
structure ChunkResult extends RenderedChunk where
  origin : Option OriginScope := none
  expandedSiblings : List RenderedChunk := []

/-- `chunk_to_result`. -/
def chunkToResult (s : Scored) (sourceTier : Option String) (artifact : Option TaskArtifact) :
    RenderedChunk :=
  { chunk := s.1, text := s.1.text, score := s.2, sourceTier := sourceTier, linked := artifact,
    artifact := artifact }

/-- `resolve_artifacts_for_ranked_chunks`: one lookup for each tenant. -/
def resolveArtifactsForRankedChunks (b : SearchBackend) (ranked : List Scored) :
    Except OperationError (List (ChunkId × TaskArtifact)) := do
  let tenants := Ranked.firstOf id ∅ (ranked.map fun s => s.1.tenantId)
  let found ← tenants.mapM fun t => tool (b.resolveArtifactsForChunks t
    ((ranked.filter fun s => s.1.tenantId = t).map fun s => s.1.chunkId))
  pure found.flatten

/-- `EVENT_SIBLING_EXPANSION_LIMIT`. -/
def eventSiblingExpansionLimit : ℕ := 20

/-- `event_tags`. -/
def eventTags (tags : List String) : List String :=
  tags.filter fun t => startsWith t.toList "event:" && 6 < t.utf8ByteSize

/-- The loop of `collect_event_siblings` over the listed chunks, with room for `limit` more. -/
def siblingsAmong (b : SearchBackend) (base : MemoryChunk) (policy : VisibilityPolicy) (now : ℤ) :
    ℕ → List ChunkId → List MemoryChunk → List MemoryChunk
  | 0, _, _ => []
  | _, _, [] => []
  | limit + 1, seen, c :: listed =>
    -- the base itself, and what another event tag has listed already
    if c.chunkId ∈ seen then siblingsAmong b base policy now (limit + 1) seen listed
    else if c.projectId ≠ base.projectId then
      siblingsAmong b base policy now (limit + 1) (c.chunkId :: seen) listed
    else if !c.tags.any fun t => (eventTags base.tags).contains t then
      siblingsAmong b base policy now (limit + 1) (c.chunkId :: seen) listed
    else
      -- a sibling is served with the status it has now
      match b.getWithLifecycle c.tenantId c.chunkId with
      | .ok (some r) =>
        if policy.isVisibleAt r.status r.lifecycle now then
          r.chunk :: siblingsAmong b base policy now limit (c.chunkId :: seen) listed
        else siblingsAmong b base policy now (limit + 1) (c.chunkId :: seen) listed
      | _ => siblingsAmong b base policy now (limit + 1) (c.chunkId :: seen) listed

/-- `collect_event_siblings`. -/
def collectEventSiblings (b : SearchBackend) (base : MemoryChunk) (policy : VisibilityPolicy)
    (now : ℤ) (limit : ℕ) : List MemoryChunk :=
  if eventTags base.tags = [] then []
  else siblingsAmong b base policy now limit [base.chunkId] (b.listChunks base.tenantId)

/-- The siblings of one result, rendered. -/
def renderSiblings (b : SearchBackend) (base : MemoryChunk) (policy : VisibilityPolicy) (now : ℤ) :
    Except OperationError (List RenderedChunk) := do
  let siblings := (collectEventSiblings b base policy now eventSiblingExpansionLimit).map fun c =>
    ((c, 0#32) : Scored)
  let artifacts ← resolveArtifactsForRankedChunks b siblings
  pure (siblings.map fun s => chunkToResult s none (lastEntry artifacts s.1.chunkId))

/-- One iteration of `build_chunk_results`. -/
def buildChunkResult (b : SearchBackend) (sourceTier : Option String)
    (artifacts : List (ChunkId × TaskArtifact)) (expand : Bool) (policy : VisibilityPolicy)
    (now : ℤ) (s : Scored) : Except OperationError ChunkResult := do
  let rendered := chunkToResult s sourceTier (lastEntry artifacts s.1.chunkId)
  let siblings ← if expand then renderSiblings b s.1 policy now else pure []
  pure { rendered with origin := none, expandedSiblings := siblings }

/-- `build_chunk_results`. -/
def buildChunkResults (b : SearchBackend) (scored : List Scored) (sourceTier : Option String)
    (artifacts : List (ChunkId × TaskArtifact)) (expand : Bool) (policy : VisibilityPolicy)
    (now : ℤ) : Except OperationError (List ChunkResult) :=
  scored.mapM (buildChunkResult b sourceTier artifacts expand policy now)

/-- `origin_for_result`. -/
def originForResult (requested : TenantId) (aliases : List OriginScope) (originTenant : TenantId)
    (originProject : Option String) : Option OriginScope :=
  match aliases.find? fun a => a.originTenantId = originTenant && a.originProjectId = originProject with
  | some a => some a
  | none =>
    if originTenant = requested then none
    else some { requestedTenantId := requested, originTenantId := originTenant,
                originProjectId := originProject,
                aliasReason := "legacy_cross_tenant_project_fallback" }

/-- `scope_expansion_for`: the aliases of the requested project. -/
def scopeExpansionFor (cfg : SearchConfig) (t : TenantId) : Option String → List OriginScope
  | none => []
  | some project => configuredProjectAliases cfg t project

/-- `annotate_chunk_origins`. -/
def annotateChunkOrigin (requested : TenantId) (aliases : List OriginScope) (r : ChunkResult) :
    ChunkResult :=
  { r with origin := originForResult requested aliases r.chunk.tenantId r.chunk.projectId }

/-! ## Fitting the answer into a budget -/

/-- What the response takes as given: the packer, and how long a result is as JSON text. -/
structure ResponseExternals where
  /-- the packer with a token limit -/
  pack : ℕ → List (ContextPacker.PackerInput ChunkId F32) → ContextPacker.PackedContext ChunkId F32
  /-- the bytes of a result's JSON text without its `source_tier` -/
  resultJsonLen : ChunkResult → ℕ

/-- `ContextPacker::pack` with a token limit and the default configuration otherwise; nothing is
packed where a product does not fit a `usize`. -/
def packWith (o : ContextPacker.FloatOps F32) (mmrLambda dedupThreshold : F32) (maxTokens : ℕ)
    (inputs : List (ContextPacker.PackerInput ChunkId F32)) :
    ContextPacker.PackedContext ChunkId F32 :=
  (ContextPacker.pack o { ContextPacker.PackerConfig.default mmrLambda dedupThreshold with
    maxTokens := maxTokens } inputs).getD
    { chunks := [], totalTokens := 0, duplicatesRemoved := 0, diversityAdjustments := 0 }

/-- `BudgetInfo`. -/
structure BudgetInfo where
  requestedBudget : Option ℕ
  estimatedOutputTokens : ℕ
  truncated : Bool
  omittedFields : List String
  droppedResultCount : ℕ
  duplicateDropCount : ℕ
  deriving DecidableEq, Repr

/-- The bytes of `"source_tier":"…",`, a field that is skipped when it is empty. -/
def sourceTierJsonLen : Option String → ℕ
  | none => 0
  | some tier => tier.utf8ByteSize + 17

/-- `estimate_tokens_for_json` of the results. -/
def estimateTokensForJson (y : ResponseExternals) (results : List ChunkResult) : ℕ :=
  let lens := results.map fun r =>
    y.resultJsonLen { r with sourceTier := none } + sourceTierJsonLen r.sourceTier
  -- brackets, and a comma between two results
  (lens.sum + 2 + (results.length - 1) + 3) / 4

/-- `compact_snippet`. -/
def compactSnippet (text : String) : String :=
  if text.utf8ByteSize ≤ 600 then text
  else String.ofList
    (((Utf8Text.takeFitting 600 text.toList).reverse.dropWhile isWhitespace).reverse)

/-- What the packer gets of a result, which has no embedding. -/
def packerInput (r : ChunkResult) : ContextPacker.PackerInput ChunkId F32 :=
  { chunkId := r.chunk.chunkId, text := r.text, chunkType := r.chunk.chunkType, score := r.score,
    hash := r.chunk.hash, embedding := none, sourceUri := r.chunk.source.uri }

/-- `pack_chunk_results`: the results kept, how many were dropped, how many as duplicates, and
whether the budget cut something. -/
def packChunkResults (y : ResponseExternals) (results : List ChunkResult) (budget : Option ℕ) :
    List ChunkResult × ℕ × ℕ × Bool :=
  match budget with
  | none => (results, 0, 0, false)
  | some maxTokens =>
    if results.isEmpty then (results, 0, 0, false)
    else
      let packed := y.pack maxTokens (results.map packerInput)
      let selected := packed.chunks.map (·.chunkId)
      let kept := results.filter fun r => selected.contains r.chunk.chunkId
      let dropped := results.length - kept.length
      (kept, dropped, packed.duplicatesRemoved, decide (0 < dropped ∨ maxTokens ≤ packed.totalTokens))

/-- What a compact answer shows of one result. -/
def compactResult (includeText includeArtifact : Bool) (r : ChunkResult) : ChunkResult :=
  { r with
    text := if includeText then compactSnippet r.text else ""
    artifact := if includeArtifact then r.artifact else none
    expandedSiblings := [] }

/-- `shape_memory_results`. -/
def shapeMemoryResults (y : ResponseExternals) (params : SearchParams) (results : List ChunkResult) :
    List ChunkResult × Option BudgetInfo :=
  if !params.compact && params.tokenBudget.isNone then (results, none)
  else
    let budget := params.tokenBudget.or (some 4000)
    let (packed, dropped, duplicates, truncatedByPack) := packChunkResults y results budget
    let includeText := params.includeText.getD true
    let includeArtifact := params.includeArtifact.getD false
    let shaped := packed.map (compactResult includeText includeArtifact)
    -- in the order of `sort`, without repeats
    let omitted := (if includeArtifact then [] else ["artifact"])
      ++ (if packed.any fun r => !r.expandedSiblings.isEmpty then ["expanded_siblings"] else [])
      ++ (if includeText then [] else ["text"])
    let estimated := estimateTokensForJson y shaped
    (shaped, some
      { requestedBudget := budget, estimatedOutputTokens := estimated,
        truncated := truncatedByPack || budget.any fun limit => limit < estimated,
        omittedFields := omitted, droppedResultCount := dropped, duplicateDropCount := duplicates })

/-! ## What is recorded and reported -/

/-- `RankingPolicyInfo`. -/
structure RankingPolicyInfo where
  version : String
  mode : RankingPolicyMode
  candidateCount : ℕ
  shadowOrderChanged : Bool
  deriving DecidableEq, Repr

/-- `RETRIEVAL_EPISODE_TTL_MS`. -/
def retrievalEpisodeTtlMs : ℤ := 90 * 24 * 60 * 60 * 1000

/-- `OUTCOME_POLICY_VERSION`. -/
def outcomePolicyVersion : String := "outcome-v1"

/-- One item of `record_search_retrieval_episode`. -/
def episodeItem (x : SearchExternals) (id : RetrievalEpisodeId) (pool : OutcomeRankedPool)
    (served : List (ChunkId × ℕ)) (entry : Scored × ℕ) : RetrievalEpisodeItem :=
  let ((c, score), rank) := entry
  let adjustment := (lastEntry pool.adjustments c.chunkId).getD 0#32
  let servedRank := lastEntry served c.chunkId
  { episodeId := id, chunkId := c.chunkId, originTenantId := c.tenantId,
    originProjectId := c.projectId, originalRank := BitVec.ofNat 64 rank, originalScore := score,
    laneScoresJson := x.laneScoresJson score adjustment, outcomeAdjustment := adjustment,
    servedRank := servedRank.map (BitVec.ofNat 64),
    shadowRank := (lastEntry pool.shadowRanks c.chunkId).map (BitVec.ofNat 64),
    rendered := servedRank.isSome,
    sourceDedupGroup := (c.source.uri.filter fun uri => uri ≠ "").map x.stableQueryHash }

/-- The episode and the items of `record_search_retrieval_episode`. -/
def searchRetrievalEpisode (x : SearchExternals) (plan : SearchPlan) (params : SearchParams)
    (id : RetrievalEpisodeId) (now : ℤ) (pool : OutcomeRankedPool) (results : List ChunkResult) :
    RetrievalEpisode × List RetrievalEpisodeItem :=
  let served := positions (results.map fun r => r.chunk.chunkId)
  let items := pool.base.zipIdx.map (episodeItem x id pool served)
  ({ episodeId := id, tenantId := plan.tenantId, projectId := params.projectId,
     queryHash := x.stableQueryHash params.query,
     queryMode := queryModeName (params.mode.getD .generic), requestedK := params.k,
     fetchedK := items.length, renderedK := results.length, policyVersion := outcomePolicyVersion,
     policyMode := params.rankingPolicy.getD .shadow, taskId := params.taskId,
     threadId := params.threadId, createdAtMs := now,
     -- `saturating_add` of an `i64`
     expiresAtMs := min (now + retrievalEpisodeTtlMs) (2 ^ 63 - 1) },
   items)

/-- What the response says about the scope it searched. -/
structure ScopeStatus where
  tenantId : TenantId
  projectId : Option String
  retrievalMode : String
  widerScopeHits : Option ℕ
  widenHint : Option String
  warnings : List String
  deriving DecidableEq, Repr

/-- The hits of a tenant-wide search outside the requested project. -/
def widerScopeHits (b : SearchBackend) (plan : SearchPlan) (params : SearchParams) (now : ℤ)
    (retrieved : ℕ) : Option (ℕ × String) :=
  match params.projectId.filter fun p => trim p.toList ≠ [] with
  | none => none
  | some project =>
    if params.k ≤ retrieved ∨ params.query = "" then none
    else
      match b.searchWithScores plan.tenantId params.query (max params.k 8) params.rankingTimeMs with
      | .error _ => none
      | .ok scored =>
        let filtered := applySearchFilters plan.filters scored.length scored
        let visible := applyVisibilityFilter b plan.policy now filtered.length filtered
        let outside := (visible.filter fun s => s.1.projectId ≠ some project).length
        if outside = 0 then none else some (outside, project)

/-- `scope_status_for_search`. -/
def scopeStatusForSearch (b : SearchBackend) (plan : SearchPlan) (params : SearchParams) (now : ℤ)
    (retrieved : ℕ) : ScopeStatus :=
  let fallback := if b.retrievalMode = "text_fallback" then
    ["semantic retrieval unavailable; results come from substring matching at constant score and ranking is unreliable"]
    else []
  let unknown := match b.listTenants with
    | .error _ => []
    | .ok tenants =>
      if tenants.contains plan.tenantId then []
      else [s!"tenant '{plan.tenantId}' has no stored memory on this machine ({tenants.length} known tenant(s)); a mistyped --tenant-id returns empty results instead of failing"]
  let wider := widerScopeHits b plan params now retrieved
  { tenantId := plan.tenantId, projectId := params.projectId, retrievalMode := b.retrievalMode,
    widerScopeHits := wider.map (·.1),
    widenHint := wider.map fun w =>
      s!"{w.1} hit(s) for this query exist in tenant '{plan.tenantId}' outside project '{w.2}'; rerun without --project-id to search tenant-wide",
    warnings := fallback ++ unknown }

/-- `TierDebugInfo`. -/
structure TierDebugInfo where
  sourceTier : String
  cacheHit : Bool
  hotTierHit : Bool
  cacheLookupMs : ℕ
  hotTierMs : ℕ
  warmTierMs : ℕ
  deriving DecidableEq, Repr

/-- The tier report of a timing. -/
def tierDebugInfo (t : TieredTiming) : TierDebugInfo :=
  let cacheHit := decide (0 < t.cacheLookupMs ∧ t.hotTierMs = 0 ∧ t.warmTierMs = 0)
  let hotTierHit := decide (0 < t.hotTierMs ∧ t.warmTierMs = 0)
  { sourceTier := if cacheHit then "cache" else if hotTierHit then "hot"
      else if 0 < t.warmTierMs then "warm" else "hybrid"
    cacheHit := cacheHit, hotTierHit := hotTierHit, cacheLookupMs := t.cacheLookupMs,
    hotTierMs := t.hotTierMs, warmTierMs := t.warmTierMs }

/-- What the response says about a repaired query. -/
structure RepairInfo where
  attempted : Bool
  repaired : Bool
  originalQuery : String
  repairedQuery : Option String
  deriving DecidableEq, Repr

/-- The answer, and the episode the store was given. -/
structure SearchResult where
  results : List ChunkResult
  retrievalEpisodeId : Option RetrievalEpisodeId
  rankingPolicy : Option RankingPolicyInfo
  budgetInfo : Option BudgetInfo
  scopeExpansion : List OriginScope
  tierInfo : Option TierDebugInfo
  repairInfo : Option RepairInfo
  scopeStatus : ScopeStatus
  recorded : Option (RetrievalEpisode × List RetrievalEpisodeItem)

/-! ## The handler -/

/-- What surrounds a request: the code outside the model, the configuration, the store, the
clock and the id the next episode gets. -/
structure SearchEnv where
  x : SearchExternals
  y : ResponseExternals
  cfg : SearchConfig
  store : SearchBackend
  now : ℤ
  episodeId : RetrievalEpisodeId

namespace SearchEnv

/-- The first list of candidates: ranked search, exact terms, summaries, and the overlap
rescue where nothing fits the words of the query. -/
def firstPass (e : SearchEnv) (plan : SearchPlan) (params : SearchParams) (scored : List Scored) :
    Except OperationError (List Scored) := do
  let exactCandidates ← exactLexicalCandidatesForProjectScopes e.x e.store plan.scopes params.query
    (min params.k plan.fetchK)
  let preferred ← summaryPreferredResultsForProjectScopes e.store plan.scopes params.query
    (params.mode.getD .generic) (min params.k 8) params.rankingTimeMs
  let merged := mergePreferredAndRaw e.x preferred
    (mergeScoredChunkLists [exactCandidates, scored] plan.fetchK) plan.fetchK
  if shouldRunLexicalOverlapRescue merged params.query params.k then
    let lexicalCandidates ← lexicalOverlapCandidatesForProjectScopes e.x e.store plan.scopes
      params.query (min params.k plan.fetchK)
    pure (mergeScoredChunkLists [lexicalCandidates, merged] plan.fetchK)
  else pure merged

/-- The candidates after a repair, the timing of the search they came from, and the report. -/
structure Repaired where
  scored : List Scored
  timing : Option TieredTiming
  info : Option RepairInfo

/-- A first pass that leaves nothing is repeated once, with the words of the query only. -/
def repair (e : SearchEnv) (plan : SearchPlan) (params : SearchParams)
    (search : String → Except OperationError (List Scored × Option TieredTiming))
    (scored : List Scored) (timing : Option TieredTiming) : Except OperationError Repaired :=
  -- a query that found something is not touched
  if scored ≠ [] ∨ params.query = "" then
    .ok { scored := scored, timing := timing, info := none }
  else
    match normalizeQueryForRepair e.x params.query with
    | none => .ok { scored := scored, timing := timing, info := none }
    | some repairedQuery => do
      let (repairScored, repairTiming) ← search repairedQuery
      let filtered := applySearchFilters plan.filters plan.preVisibilityCap repairScored
      let repaired := !filtered.isEmpty
      pure
        { scored := if repaired then filtered else scored
          timing := if repaired then repairTiming else timing
          info := some { attempted := true, repaired := repaired, originalQuery := params.query,
                         repairedQuery := some repairedQuery } }

/-- The chunks a pool is made of. -/
def poolCandidates (e : SearchEnv) (plan : SearchPlan) (params : SearchParams)
    (scored : List Scored) : List Scored :=
  let kept := if params.mode.getD .generic = .generic then
    suppressGeneratedDigestProjectionChunks scored else scored
  applyVisibilityFilter e.store plan.policy e.now plan.outcomeCandidateCap kept

/-- The chunks that are served. -/
def servedChunks (params : SearchParams) (pool : OutcomeRankedPool) : List Scored :=
  let deduped := if params.dedupeBySource then dedupeScoredChunksBySourceUri [] pool.served
    else pool.served
  let top := deduped.take params.k
  if params.renderEventTime then top.map renderObservedTimeIntoText else top

/-- The store is told what was fetched and shown, unless the request asks for a replay. -/
def recordEpisode (e : SearchEnv) (plan : SearchPlan) (params : SearchParams)
    (pool : OutcomeRankedPool) (results : List ChunkResult) :
    Except OperationError (Option (RetrievalEpisode × List RetrievalEpisodeItem)) :=
  if params.suppressRetrievalEpisode ∨ params.rankingTimeMs.isSome ∨ e.store.isReadOnly then .ok none
  else do
    let episode := searchRetrievalEpisode e.x plan params e.episodeId e.now pool results
    tool (e.store.recordRetrievalEpisode episode.1 episode.2)
    pure (some episode)

/-- The statements after the pool: render, shape, record, report. -/
def finish (e : SearchEnv) (plan : SearchPlan) (params : SearchParams) (r : Repaired) :
    Except OperationError SearchResult := do
  let aliases := scopeExpansionFor e.cfg plan.tenantId params.projectId
  -- the outcome priors are measured in the shadow and do not change what is served
  let pool ← outcomeRankCandidatePool e.x e.store plan.tenantId params.projectId
    (poolCandidates e plan params r.scored) (params.rankingPolicy.getD .shadow)
    (params.rankingTimeMs.getD e.now)
  let served := servedChunks params pool
  let tierInfo := r.timing.map tierDebugInfo
  let artifacts ← resolveArtifactsForRankedChunks e.store served
  let built ← buildChunkResults e.store served (tierInfo.map (·.sourceTier)) artifacts
    params.expandEventSiblings plan.policy e.now
  -- the answer is cut to its budget before it is recorded
  let (results, budgetInfo) := shapeMemoryResults e.y params
    (built.map (annotateChunkOrigin plan.tenantId aliases))
  let recorded ← recordEpisode e plan params pool results
  pure
    { results := results
      retrievalEpisodeId := recorded.map fun _ => e.episodeId
      rankingPolicy := recorded.map fun _ =>
        { version := outcomePolicyVersion, mode := params.rankingPolicy.getD .shadow,
          candidateCount := pool.base.length, shadowOrderChanged := pool.shadowOrderChanged }
      budgetInfo := budgetInfo
      scopeExpansion := aliases
      tierInfo := tierInfo
      repairInfo := r.info
      scopeStatus := scopeStatusForSearch e.store plan params e.now served.length
      recorded := recorded }

/-- The pipeline of both branches, over the ranked search of the branch. -/
def answerWith (e : SearchEnv) (plan : SearchPlan) (params : SearchParams)
    (search : String → Except OperationError (List Scored × Option TieredTiming)) :
    Except OperationError SearchResult := do
  let (scored, timing) ← search params.query
  let merged ← firstPass e plan params scored
  let repaired ← repair e plan params search
    (applySearchFilters plan.filters plan.preVisibilityCap merged) timing
  finish e plan params repaired

/-- The ranked search of the `debug_tiers` branch. -/
def searchTiers (e : SearchEnv) (plan : SearchPlan) (params : SearchParams) (query : String) :
    Except OperationError (List Scored × Option TieredTiming) :=
  searchWithTierInfoForProjectScopes e.store plan.scopes query plan.fetchK params.rankingTimeMs

/-- The ranked search of the standard branch, which has no timing. -/
def searchStandard (e : SearchEnv) (plan : SearchPlan) (params : SearchParams) (query : String) :
    Except OperationError (List Scored × Option TieredTiming) :=
  (searchWithScoresForProjectScopes e.store plan.scopes query plan.fetchK params.rankingTimeMs).map
    fun scored => (scored, none)

/-- `handle_memory_search`. -/
def handleMemorySearch (e : SearchEnv) (params : SearchParams) :
    Except OperationError SearchResult := do
  let plan ← planSearch e.x e.cfg e.store params
  if params.debugTiers.getD false then answerWith e plan params (searchTiers e plan params)
  else answerWith e plan params (searchStandard e plan params)

end SearchEnv
