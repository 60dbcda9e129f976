/-
# The tier report does not change the answer

`debug_tiers` asks for a report on where the hits came from.  The flag selects another copy
of the pipeline and another ranked search: over one scope that search returns the list of the
store as it is, where the standard one sorts it, removes repeats and cuts it
(`searchWithScoresForProjectScopes`).

* `firstPass_merge` — the first pass does not see the difference, because it merges the list
  again (`Ranked.mergeRanked_absorb`);
* `finish_withoutTiers` — the timing only reaches the tier fields and the size of the answer;
* `DriftingRepair` — the one place where the list is used as it is: a repair over one scope;
* `debugTiers_same_answer` — outside of it both branches return the same answer, record the
  same episode and report the same repair.

In a compact answer the size estimate counts the tier labels too (`tier_labels_are_counted`).
-/
import Memd.MemorySearch
import Memd.Proc

/-! ## What a tier report adds -/

/-- The label of the tier a result came from. -/
def ChunkResult.setTier (tier : Option String) (r : ChunkResult) : ChunkResult :=
  { r with sourceTier := tier }

/-- A budget report up to the size of the answer. -/
def BudgetInfo.withoutSize (b : BudgetInfo) : BudgetInfo :=
  { b with estimatedOutputTokens := 0, truncated := false }

/-- An answer without the tier report, the tier labels and the size estimate of a compact
answer. -/
def SearchResult.withoutTiers (r : SearchResult) : SearchResult :=
  { r with
    tierInfo := none
    results := r.results.map (ChunkResult.setTier none)
    budgetInfo := r.budgetInfo.map BudgetInfo.withoutSize }

section Map

variable {ε α β γ : Type}

theorem except_map_bind (x : Except ε α) (f : α → Except ε β) (g : β → γ) :
    (x >>= f).map g = x >>= fun a => (f a).map g := by
  cases x with
  | error err => rfl
  | ok a => rfl

theorem except_bind_map (x : Except ε α) (g : α → β) (f : β → Except ε γ) :
    (x.map g >>= f) = x >>= fun a => f (g a) := by
  cases x with
  | error err => rfl
  | ok a => rfl

theorem except_mapM_map (f : α → Except ε β) (g : β → γ) (l : List α) :
    l.mapM (fun a => (f a).map g) = (l.mapM f).map (List.map g) := by
  induction l with
  | nil => rfl
  | cons a l ih =>
    rw [List.mapM_cons, List.mapM_cons, ih]
    cases hf : f a with
    | error err => rfl
    | ok b =>
      cases hl : l.mapM f with
      | error err => rfl
      | ok bs => rfl

end Map

/-! ## The timing reaches the tier fields only -/

theorem buildChunkResult_tier (b : SearchBackend) (tier : Option String)
    (artifacts : List (ChunkId × TaskArtifact)) (expand : Bool) (policy : VisibilityPolicy)
    (now : ℤ) (s : Scored) :
    buildChunkResult b tier artifacts expand policy now s
      = (buildChunkResult b none artifacts expand policy now s).map (ChunkResult.setTier tier) := by
  cases expand with
  | false => rfl
  | true =>
    cases h : renderSiblings b s.1 policy now with
    | error err => simp only [buildChunkResult, h]; rfl
    | ok siblings => simp only [buildChunkResult, h]; rfl

theorem buildChunkResults_tier (b : SearchBackend) (scored : List Scored) (tier : Option String)
    (artifacts : List (ChunkId × TaskArtifact)) (expand : Bool) (policy : VisibilityPolicy)
    (now : ℤ) :
    buildChunkResults b scored tier artifacts expand policy now
      = (buildChunkResults b scored none artifacts expand policy now).map
          (List.map (ChunkResult.setTier tier)) := by
  unfold buildChunkResults
  rw [← except_mapM_map]
  congr 1
  funext s
  exact buildChunkResult_tier b tier artifacts expand policy now s

/-- Packing looks at no tier. -/
theorem packChunkResults_setTier (y : ResponseExternals) (tier : Option String)
    (results : List ChunkResult) (budget : Option ℕ) :
    packChunkResults y (results.map (ChunkResult.setTier tier)) budget
      = ((packChunkResults y results budget).1.map (ChunkResult.setTier tier),
          (packChunkResults y results budget).2) := by
  unfold packChunkResults
  cases budget with
  | none => rfl
  | some maxTokens =>
    cases results with
    | nil => rfl
    | cons r rest =>
      have hinput : ∀ l : List ChunkResult,
          (l.map (ChunkResult.setTier tier)).map packerInput = l.map packerInput := by
        intro l
        rw [List.map_map]
        rfl
      have hfilter : ∀ (p : List ChunkId) (l : List ChunkResult),
          (l.map (ChunkResult.setTier tier)).filter (fun r => p.contains r.chunk.chunkId)
            = (l.filter fun r => p.contains r.chunk.chunkId).map (ChunkResult.setTier tier) := by
        intro p l
        rw [List.filter_map]
        rfl
      simp only [hinput, hfilter, List.length_map, List.isEmpty_map]
      rfl

/-- The shape of an answer with tier labels, against the one without. -/
theorem shapeMemoryResults_setTier (y : ResponseExternals) (params : SearchParams)
    (tier : Option String) (results : List ChunkResult) :
    (shapeMemoryResults y params (results.map (ChunkResult.setTier tier))).1
        = (shapeMemoryResults y params results).1.map (ChunkResult.setTier tier)
      ∧ (shapeMemoryResults y params (results.map (ChunkResult.setTier tier))).2.map
          BudgetInfo.withoutSize
        = (shapeMemoryResults y params results).2.map BudgetInfo.withoutSize := by
  unfold shapeMemoryResults
  by_cases h : (!params.compact && params.tokenBudget.isNone) = true
  · rw [if_pos h, if_pos h]
    exact ⟨rfl, rfl⟩
  · rw [if_neg h, if_neg h]
    simp only [packChunkResults_setTier]
    refine ⟨?_, ?_⟩
    · rw [List.map_map, List.map_map]
      rfl
    · simp only [Option.map_some, BudgetInfo.withoutSize, List.any_map]
      rfl

namespace SearchEnv

variable {e : SearchEnv} {plan : SearchPlan} {params : SearchParams}

theorem recordEpisode_setTier (pool : OutcomeRankedPool) (tier : Option String)
    (results : List ChunkResult) :
    recordEpisode e plan params pool (results.map (ChunkResult.setTier tier))
      = recordEpisode e plan params pool results := by
  have hepisode : searchRetrievalEpisode e.x plan params e.episodeId e.now pool
      (results.map (ChunkResult.setTier tier))
        = searchRetrievalEpisode e.x plan params e.episodeId e.now pool results := by
    unfold searchRetrievalEpisode
    simp only [List.map_map, List.length_map]
    rfl
  unfold recordEpisode
  rw [hepisode]

/-- **The timing changes the tier fields and the size estimate only.** -/
theorem finish_withoutTiers (r : Repaired) :
    (finish e plan params r).map SearchResult.withoutTiers
      = (finish e plan params { r with timing := none }).map SearchResult.withoutTiers := by
  unfold finish
  dsimp only
  simp only [except_map_bind]
  congr 1
  funext pool
  congr 1
  funext artifacts
  generalize Option.map (fun t : TierDebugInfo => t.sourceTier)
    (Option.map tierDebugInfo r.timing) = tier
  generalize scopeExpansionFor e.cfg plan.tenantId params.projectId = aliases
  rw [buildChunkResults_tier _ _ tier, except_bind_map]
  congr 1
  funext built
  obtain ⟨hresults, hbudget⟩ := shapeMemoryResults_setTier e.y params tier
    (built.map (annotateChunkOrigin plan.tenantId aliases))
  have hannotate : (built.map (ChunkResult.setTier tier)).map
      (annotateChunkOrigin plan.tenantId aliases)
        = (built.map (annotateChunkOrigin plan.tenantId aliases)).map (ChunkResult.setTier tier) := by
    rw [List.map_map, List.map_map]
    rfl
  rw [hannotate, hresults, recordEpisode_setTier]
  congr 1
  funext recorded
  show Except.ok _ = Except.ok _
  simp only [SearchResult.withoutTiers, hbudget]
  rw [List.map_map]
  rfl

/-- Two repairs that agree up to the timing. -/
theorem finish_congr {r r' : Repaired} (hscored : r.scored = r'.scored) (hinfo : r.info = r'.info) :
    (finish e plan params r).map SearchResult.withoutTiers
      = (finish e plan params r').map SearchResult.withoutTiers := by
  rw [finish_withoutTiers r, finish_withoutTiers r', hscored, hinfo]

/-! ## The ranked searches -/

/-- `search_with_tier_info` returns the list of `search_with_scores`. -/
def SameRanking (b : SearchBackend) : Prop :=
  ∀ t query k time,
    (b.searchWithTierInfo t query k time).map Prod.fst = b.searchWithScores t query k time

/-- What both searches return over one scope. -/
theorem search_single (params : SearchParams) (hsame : SameRanking e.store)
    {s : ProjectSearchScope} (hscopes : plan.scopes = [s]) (query : String) :
    (∃ err, searchTiers e plan params query = .error err
        ∧ searchStandard e plan params query = .error err)
      ∨ ∃ rows timing,
        e.store.searchWithScores s.tenantId query plan.fetchK params.rankingTimeMs = .ok rows
          ∧ searchTiers e plan params query = .ok (s.retain rows, timing)
          ∧ searchStandard e plan params query
            = .ok (mergeScoredChunkLists [s.retain rows] plan.fetchK, none) := by
  have hrows := hsame s.tenantId query plan.fetchK params.rankingTimeMs
  unfold searchTiers searchStandard searchWithTierInfoForProjectScopes
    searchWithScoresForProjectScopes
  rw [hscopes]
  cases htier : e.store.searchWithTierInfo s.tenantId query plan.fetchK params.rankingTimeMs with
  | error err =>
    rw [htier] at hrows
    refine .inl ⟨.toolError err.display, ?_, ?_⟩
    · simp only [htier]
      rfl
    · simp only [forScopes, ← hrows]
      rfl
  | ok ranked =>
    rw [htier] at hrows
    refine .inr ⟨ranked.1, ranked.2, hrows.symm, ?_, ?_⟩
    · simp only [htier]
      rfl
    · simp only [forScopes, ← hrows]
      show Except.ok (mergeScoredChunkLists [s.retain ranked.1] (plan.fetchK * 1), none) = _
      rw [Nat.mul_one]

theorem forScopes_congr {α : Type} {f g : ProjectSearchScope → Except OperationError α}
    (h : ∀ s, f s = g s) (scopes : List ProjectSearchScope) : forScopes f scopes = forScopes g scopes := by
  rw [funext h]

/-- Over no scope or several, both searches are the same. -/
theorem search_several (hsame : SameRanking e.store) (hscopes : plan.scopes.length ≠ 1)
    (query : String) : searchTiers e plan params query = searchStandard e plan params query := by
  have hlists : forScopes (fun s => do
        let ranked ← tool (e.store.searchWithTierInfo s.tenantId query plan.fetchK
          params.rankingTimeMs)
        pure (s.retain ranked.1)) plan.scopes
      = forScopes (fun s => do
        let scored ← tool (e.store.searchWithScores s.tenantId query plan.fetchK
          params.rankingTimeMs)
        pure (s.retain scored)) plan.scopes := by
    apply forScopes_congr
    intro s
    rw [← hsame]
    cases e.store.searchWithTierInfo s.tenantId query plan.fetchK params.rankingTimeMs with
    | error err => rfl
    | ok ranked => rfl
  unfold searchTiers searchStandard searchWithTierInfoForProjectScopes
    searchWithScoresForProjectScopes
  rw [except_map_bind, ← hlists]
  cases hscoped : plan.scopes with
  | nil => rfl
  | cons s rest =>
    cases rest with
    | nil =>
      rw [hscoped] at hscopes
      exact absurd rfl hscopes
    | cons s' rest => rfl

/-- **The first pass merges the list again**, so it does not matter whether it was merged on
its own before. -/
theorem firstPass_merge (e : SearchEnv) (plan : SearchPlan) (params : SearchParams)
    (scored : List Scored) :
    firstPass e plan params (mergeScoredChunkLists [scored] plan.fetchK)
      = firstPass e plan params scored := by
  have hmerge : ∀ exactCandidates : List Scored,
      mergeScoredChunkLists [exactCandidates, mergeScoredChunkLists [scored] plan.fetchK] plan.fetchK
        = mergeScoredChunkLists [exactCandidates, scored] plan.fetchK :=
    fun exactCandidates => Ranked.mergeRanked_absorb exactCandidates scored plan.fetchK
  unfold firstPass
  simp only [hmerge]

/-! ## The two branches -/

/-- A request over one scope whose first pass leaves nothing, so that the query is repaired, and
the list the store then returns is not what a merge makes of it: it is out of order, repeats
a chunk or is longer than what was asked for. -/
def DriftingRepair (e : SearchEnv) (params : SearchParams) : Prop :=
  ∃ plan s scored merged query rows,
    planSearch e.x e.cfg e.store params = .ok plan ∧ plan.scopes = [s]
      ∧ searchStandard e plan params params.query = .ok (scored, none)
      ∧ firstPass e plan params scored = .ok merged
      ∧ applySearchFilters plan.filters plan.preVisibilityCap merged = []
      ∧ params.query ≠ "" ∧ normalizeQueryForRepair e.x params.query = some query
      ∧ e.store.searchWithScores s.tenantId query plan.fetchK params.rankingTimeMs = .ok rows
      ∧ mergeScoredChunkLists [s.retain rows] plan.fetchK ≠ s.retain rows

/-- The list that drifts, in plain terms. -/
theorem mergeScoredChunkLists_eq_self_iff {l : List Scored} {n : ℕ} :
    mergeScoredChunkLists [l] n = l
      ↔ l.Pairwise scoredBefore ∧ (l.map fun s => s.1.chunkId).Nodup ∧ l.length ≤ n :=
  Ranked.mergeRanked_eq_self_iff

/-- Both branches from the same candidates on, over one scope. -/
theorem repair_finish_eq (hsame : SameRanking e.store) {s : ProjectSearchScope}
    (hscopes : plan.scopes = [s]) {scored : List Scored} (timing : Option TieredTiming)
    (hsettled : scored = [] → params.query ≠ "" → ∀ query rows,
      normalizeQueryForRepair e.x params.query = some query →
      e.store.searchWithScores s.tenantId query plan.fetchK params.rankingTimeMs = .ok rows →
      mergeScoredChunkLists [s.retain rows] plan.fetchK = s.retain rows) :
    ((repair e plan params (searchTiers e plan params) scored timing >>= finish e plan params).map
        SearchResult.withoutTiers)
      = (repair e plan params (searchStandard e plan params) scored none
          >>= finish e plan params).map SearchResult.withoutTiers := by
  unfold repair
  by_cases hskip : scored ≠ [] ∨ params.query = ""
  · rw [if_pos hskip, if_pos hskip]
    exact finish_congr rfl rfl
  · rw [if_neg hskip, if_neg hskip]
    rw [not_or, not_not] at hskip
    cases hquery : normalizeQueryForRepair e.x params.query with
    | none => exact finish_congr rfl rfl
    | some query =>
      dsimp only
      rcases search_single params hsame hscopes query with
        ⟨err, htiers, hstd⟩ | ⟨rows, repairTiming, hrows, htiers, hstd⟩
      · rw [htiers, hstd]
        rfl
      · rw [htiers, hstd, hsettled hskip.1 hskip.2 query rows hquery hrows]
        exact finish_congr rfl rfl

/-- **`debug_tiers` does not change the answer.**  Where the store ranks the same with and
without tier timings, and unless a repair over one scope drifts, both branches return the same
chunks in the same order with the same scores and siblings, the same repair report and scope
status, and record the same episode; a request that fails fails the same way.  What differs is
the tier report, the tier labels, and with them the size estimate of a compact answer. -/
theorem debugTiers_same_answer (e : SearchEnv) (params : SearchParams)
    (hstd : params.debugTiers.getD false = false) (hsame : SameRanking e.store)
    (hdrift : ¬ DriftingRepair e params) :
    (handleMemorySearch e { params with debugTiers := some true }).map SearchResult.withoutTiers
      = (handleMemorySearch e params).map SearchResult.withoutTiers := by
  have hplan : planSearch e.x e.cfg e.store { params with debugTiers := some true }
      = planSearch e.x e.cfg e.store params := rfl
  unfold handleMemorySearch
  rw [hplan, except_map_bind, except_map_bind]
  cases hp : planSearch e.x e.cfg e.store params with
  | error err => rfl
  | ok plan =>
    show (if (true = true) then answerWith e plan params (searchTiers e plan params)
        else answerWith e plan params (searchStandard e plan params)).map _
      = (if params.debugTiers.getD false = true then answerWith e plan params (searchTiers e plan params)
        else answerWith e plan params (searchStandard e plan params)).map _
    rw [if_pos rfl, if_neg (by rw [hstd]; decide)]
    by_cases hscopes : plan.scopes.length = 1
    · obtain ⟨s, hs⟩ := List.length_eq_one_iff.mp hscopes
      rcases search_single params hsame hs params.query with
        ⟨err, htiers, hstandard⟩ | ⟨rows, timing, hrows, htiers, hstandard⟩
      · simp only [answerWith, htiers, hstandard]
        rfl
      · have hfirst := firstPass_merge e plan params (s.retain rows)
        cases hmerged : firstPass e plan params (s.retain rows) with
        | error err =>
          rw [hmerged] at hfirst
          simp only [answerWith, htiers, hstandard]
          show (firstPass e plan params _ >>= _).map _ = (firstPass e plan params _ >>= _).map _
          rw [hmerged, hfirst]
          rfl
        | ok merged =>
          rw [hmerged] at hfirst
          simp only [answerWith, htiers, hstandard]
          show (firstPass e plan params _ >>= _).map _ = (firstPass e plan params _ >>= _).map _
          rw [hmerged, hfirst]
          apply repair_finish_eq hsame hs
          intro hempty hquery query rows' hnorm hrows'
          by_contra hne
          exact hdrift ⟨plan, s, _, merged, query, rows', hp, hs, hstandard, hfirst, hempty, hquery,
            hnorm, hrows', hne⟩
    · have hsearch : searchTiers e plan params = searchStandard e plan params :=
        funext fun query => search_several hsame hscopes query
      rw [hsearch]

/-! ## A request -/

/-- A stored chunk. -/
def sampleNote : MemoryChunk :=
  { chunkId := 1, tenantId := "a", timestampCreated := 1000, text := "note" }

/-- The store of one chunk, which ranks it for every query of plain words and measures its
tiers. -/
def sampleStore : SearchBackend :=
  let ranked := fun query : String =>
    if query.toList.all fun c => c.isAlphanum || c == ' ' then [(sampleNote, 0x3F800000#32)] else []
  { rows := [{ chunk := sampleNote, status := .final, lifecycle := {} }]
    rows_nodup := by decide
    searchWithScores := fun _ query _ _ => .ok (ranked query)
    searchWithTierInfo := fun _ query _ _ =>
      .ok (ranked query, some { cacheLookupMs := 0, hotTierMs := 0, warmTierMs := 3 }) }

/-- ASCII text, and scores that stay as they are when nothing is added. -/
def sampleExternals : SearchExternals :=
  { addF32 := fun a _ => a
    isAlphanumeric := Char.isAlphanum
    toLowercase := fun s => String.ofList (s.toList.map Char.toLower)
    parseIsoDatetime := fun _ => .error "invalid datetime"
    scoreCandidateChunk := fun _ _ => 0x3F800000#32
    stableQueryHash := id
    laneScoresJson := fun _ _ => "" }

/-- Operations that leave a single score as it is. -/
def sampleFloats : ContextPacker.FloatOps F32 :=
  { gt := fun _ _ => false, eq := fun a b => a == b, add := fun a _ => a, sub := fun a _ => a
    mul := fun a _ => a, div := fun a _ => a, max := fun _ b => b, min := fun _ b => b
    abs := id, sqrt := id, ofNat := fun _ => 0x3F800000#32, half := 0x3F000000#32
    epsilon := 0x34000000#32, infinity := 0x7F800000#32, negInfinity := 0xFF800000#32 }

/-- The packer of the source; the JSON text of the one result has 488 bytes. -/
def sampleResponse : ResponseExternals :=
  { pack := packWith sampleFloats 0x3F333333#32 0x3F666666#32
    resultJsonLen := fun _ => 488 }

/-- The environment of the sample search. -/
def sampleEnv : SearchEnv :=
  { x := sampleExternals, y := sampleResponse, cfg := {}, store := sampleStore, now := 2000,
    episodeId := 7 }

/-- A query that finds nothing before it is repaired. -/
def sampleRepair : SearchParams :=
  { tenantId := "a", query := "no-te!" }

theorem sampleStore_sameRanking : SameRanking sampleEnv.store := by
  intro t query k time
  rfl

theorem sampleRepair_settled : ¬ DriftingRepair sampleEnv sampleRepair := by
  rintro ⟨plan, s, scored, merged, query, rows, hplan, hscopes, -, -, -, -, -, hrows, hdrift⟩
  have hfetch : (planSearch sampleEnv.x sampleEnv.cfg sampleEnv.store sampleRepair).toOption.map
      (fun p => (p.scopes, p.fetchK)) = some ([{ tenantId := "a", projectId := none }], 80) := by
    decide
  rw [hplan] at hfetch
  injection hfetch with hfetch
  injection hfetch with hsc hk
  rw [hscopes] at hsc
  injection hsc with hs
  -- the rows are the one chunk or none: sorted, without repeats, within the limit
  have hone : rows = [(sampleNote, 0x3F800000#32)] ∨ rows = [] := by
    injection hrows with hrows
    rw [← hrows]
    show ite _ _ _ = _ ∨ ite _ _ _ = _
    split
    · exact .inl rfl
    · exact .inr rfl
  apply hdrift
  rw [hs, hk]
  apply mergeScoredChunkLists_eq_self_iff.mpr
  rcases hone with rfl | rfl
  · exact ⟨List.pairwise_singleton _ _, List.nodup_singleton _, by decide⟩
  · exact ⟨List.Pairwise.nil, List.nodup_nil, by decide⟩

/-- Both branches repair the query and find the chunk. -/
theorem debugTiers_same_answer_sampleRepair :
    (handleMemorySearch sampleEnv { sampleRepair with debugTiers := some true }).map
        SearchResult.withoutTiers
      = (handleMemorySearch sampleEnv sampleRepair).map SearchResult.withoutTiers
      ∧ ((handleMemorySearch sampleEnv sampleRepair).map fun r =>
          r.results.map fun c => c.chunk.chunkId).toOption = some [1] :=
  ⟨debugTiers_same_answer sampleEnv sampleRepair rfl sampleStore_sameRanking sampleRepair_settled,
    by decide⟩

/-- The same request in a compact form, for plain words. -/
def sampleCompact : SearchParams :=
  { tenantId := "a", query := "note", compact := true }

/-- The token estimate of an answer. -/
def estimateOf (e : SearchEnv) (params : SearchParams) : Option ℕ :=
  (handleMemorySearch e params).toOption.bind fun r => r.budgetInfo.map (·.estimatedOutputTokens)

/-- **Tier labels are part of the size.**  The budget report of a compact answer estimates the
answer with its labels: 128 tokens where the standard branch reports 123. -/
theorem tier_labels_are_counted :
    SameRanking sampleEnv.store
      ∧ estimateOf sampleEnv { sampleCompact with debugTiers := some true } = some 128
      ∧ estimateOf sampleEnv { sampleCompact with debugTiers := some false } = some 123 :=
  ⟨sampleStore_sameRanking, by decide, by decide⟩

/-- A store that returns the note twice. -/
def repeatingStore : SearchBackend :=
  { sampleStore with
    searchWithScores := fun t query k time =>
      (sampleStore.searchWithScores t query k time).map fun rows => rows ++ rows
    searchWithTierInfo := fun t query k time =>
      (sampleStore.searchWithTierInfo t query k time).map fun r => (r.1 ++ r.1, r.2) }

/-- The ids of an answer. -/
def answeredIds (e : SearchEnv) (params : SearchParams) : Option (List ChunkId) :=
  (handleMemorySearch e params).toOption.map fun r => r.results.map fun c => c.chunk.chunkId

-- a repair that drifts: only the standard branch removes the repeat
example : answeredIds { sampleEnv with store := repeatingStore }
      { sampleRepair with rankingTimeMs := some 0 } = some [1]
    ∧ answeredIds { sampleEnv with store := repeatingStore }
      { sampleRepair with rankingTimeMs := some 0, debugTiers := some true } = some [1, 1] := by
  decide

end SearchEnv
