/-
# What a search can return

The rankers and listings behind `memory.search` are arbitrary here.  Whatever they return, an
answer holds at most `k` results, and every result and every expanded sibling is the chunk of
a row that the visibility policy lets through at the time of the request: the overlay decides,
not the copy a ranker holds (`visible_of_isVisibleAt`, `applyVisibilityFilter_shown`).

The scope and the filters are checked on the copy the ranker returned (`Offered`).  The tenant
is not checked at all, and the project of a summary is not checked: the store is asked for the
scope and trusted.  `FaithfulScope` states that trust; under it every result belongs to a scope
of the request and passes its filters.

Chunk ids are different wherever the candidates went through a merge (`firstPass_nodup`).

* `search_safe` — the statement about whole answers;
* `rows_of_the_ranker_pass` — an answer over a store whose rankers return rows of another
  tenant, of another project and outdated copies.
-/
import Memd.SearchTiers

open Proc (except_bind_eq_ok)

/-! ## Visibility -/

/-- A row the policy lets through: never a deleted, failed or candidate row, and a superseded,
expired or history row only with its flag. -/
structure Visible (p : VisibilityPolicy) (now : ℤ) (r : ResolvedChunk) : Prop where
  live : r.status ≠ .deleted ∧ r.status ≠ .error ∧ r.status ≠ .candidate
  superseded : r.status = .superseded → p.includeSuperseded = true
  expired : r.status = .expired → p.includeExpired = true
  deadline : ∀ ms, r.lifecycle.expiresAtMs = some ms → ms ≤ now → p.includeExpired = true
  history : r.lifecycle.tier = .history → p.includeHistory = true

/-- What the policy lets pass is visible. -/
theorem visible_of_isVisibleAt {p : VisibilityPolicy} {now : ℤ} {r : ResolvedChunk}
    (h : p.isVisibleAt r.status r.lifecycle now = true) : Visible p now r := by
  rw [VisibilityPolicy.isVisibleAt, Bool.and_eq_true] at h
  obtain ⟨hstatus, hclock⟩ := h
  have htier : r.lifecycle.tier = .history → p.includeHistory = true := by
    intro htier
    rw [htier] at hstatus
    cases hs : r.status <;> rw [hs] at hstatus <;> simp [VisibilityPolicy.isVisible] at hstatus
    · exact hstatus
    · exact hstatus
    · exact hstatus.2
    · exact hstatus.2
  refine ⟨?_, ?_, ?_, ?_, htier⟩
  · refine ⟨?_, ?_, ?_⟩ <;> intro hs <;> rw [hs] at hstatus <;>
      simp [VisibilityPolicy.isVisible] at hstatus
  · intro hs
    rw [hs] at hstatus
    simp only [VisibilityPolicy.isVisible, Bool.and_eq_true] at hstatus
    exact hstatus.1
  · intro hs
    rw [hs] at hstatus
    simp only [VisibilityPolicy.isVisible, Bool.and_eq_true] at hstatus
    exact hstatus.1
  · intro ms hms hle
    rw [hms] at hclock
    simp only [Option.any_some, Bool.or_eq_true, Bool.not_eq_true', decide_eq_false_iff_not] at hclock
    rcases hclock with hflag | hfuture
    · exact hflag
    · exact absurd hle hfuture

namespace SearchBackend

variable {b : SearchBackend} {t : TenantId} {c : ChunkId} {r : ResolvedChunk}

/-- A lookup finds a stored row under its key. -/
theorem mem_of_getWithLifecycle (h : b.getWithLifecycle t c = .ok (some r)) :
    r ∈ b.rows ∧ r.key = (t, c) := by
  unfold getWithLifecycle at h
  split at h
  · cases h
  · injection h with h
    obtain ⟨hfind, -⟩ := Option.filter_eq_some_iff.mp h
    exact ⟨List.mem_of_find?_eq_some hfind, by simpa using List.find?_some hfind⟩

/-- Rows with the same key are the same row. -/
theorem eq_of_key_eq {r' : ResolvedChunk} (h : r ∈ b.rows) (h' : r' ∈ b.rows)
    (hkey : r.key = r'.key) : r = r' :=
  List.inj_on_of_nodup_map b.rows_nodup h h' hkey

end SearchBackend

/-! ## What the rankers offer -/

/-- The chunk has the project of the scope, if the scope has one. -/
def ProjectSearchScope.InProject (s : ProjectSearchScope) (c : MemoryChunk) : Prop :=
  ∀ p, s.projectId = some p → c.projectId = some p

/-- The chunk belongs to the scope. -/
def ProjectSearchScope.Holds (s : ProjectSearchScope) (c : MemoryChunk) : Prop :=
  c.tenantId = s.tenantId ∧ s.InProject c

/-- A copy of a chunk that some source returned for a scope.  The ranked searches and the
listings are checked for the project of the scope, the reranked summaries are not. -/
inductive Offered (b : SearchBackend) (s : ProjectSearchScope) (c : MemoryChunk) : Prop
  | ranked {query : String} {k : ℕ} {time : Option ℤ} {rows : List Scored} {score : F32}
      (h : b.searchWithScores s.tenantId query k time = .ok rows) (hmem : (c, score) ∈ rows)
      (hproject : s.InProject c)
  | tiered {query : String} {k : ℕ} {time : Option ℤ} {rows : List Scored}
      {timing : Option TieredTiming} {score : F32}
      (h : b.searchWithTierInfo s.tenantId query k time = .ok (rows, timing))
      (hmem : (c, score) ∈ rows) (hproject : s.InProject c)
  | listed {chunks : List MemoryChunk}
      (h : b.listChunksForProject s.tenantId s.projectId = .ok chunks) (hmem : c ∈ chunks)
      (hproject : s.InProject c)
  | summary {query : String} {ids : List ChunkId} {k : ℕ} {time : Option ℤ} {rows : List Scored}
      {score : F32} (h : b.rerankChunksForQuery s.tenantId query ids k time = .ok rows)
      (hmem : (c, score) ∈ rows)

/-- Every entry of the list was offered for one of the scopes. -/
def AllOffered (b : SearchBackend) (scopes : List ProjectSearchScope) (scored : List Scored) : Prop :=
  ∀ r ∈ scored, ∃ s ∈ scopes, Offered b s r.1

section Sources

variable {b : SearchBackend} {scopes : List ProjectSearchScope} {x : SearchExternals}

/-- An error of a store stays an error. -/
theorem tool_eq_ok {α : Type} {r : Except MemdError α} {a : α} (h : tool r = .ok a) : r = .ok a := by
  cases r with
  | error e => cases h
  | ok a' => exact congrArg Except.ok (Except.ok.inj h)

/-- No rows are all offered. -/
theorem AllOffered.nil : AllOffered b scopes [] := by
  intro r hr
  cases hr

/-- A list of the loop over scopes is one of a scope. -/
theorem forScopes_mem {α : Type} {f : ProjectSearchScope → Except OperationError α} :
    ∀ {scopes : List ProjectSearchScope} {lists : List α}, forScopes f scopes = .ok lists →
      ∀ a ∈ lists, ∃ s ∈ scopes, f s = .ok a
  | [], lists, h, a, ha => by
    cases h
    cases ha
  | s :: scopes, lists, h, a, ha => by
    obtain ⟨first, hfirst, h⟩ := except_bind_eq_ok.mp h
    obtain ⟨rest, hrest, h⟩ := except_bind_eq_ok.mp h
    cases h
    rcases List.mem_cons.mp ha with rfl | ha
    · exact ⟨s, List.mem_cons_self, hfirst⟩
    · obtain ⟨s', hs', hf⟩ := forScopes_mem hrest a ha
      exact ⟨s', List.mem_cons_of_mem _ hs', hf⟩

/-- A row that is retained is in the project of the scope. -/
theorem mem_retain {s : ProjectSearchScope} {scored : List Scored} {r : Scored}
    (h : r ∈ s.retain scored) : r ∈ scored ∧ s.InProject r.1 := by
  unfold ProjectSearchScope.retain at h
  split at h
  · next hnone => exact ⟨h, fun p hp => by rw [hnone] at hp; cases hp⟩
  · next project hproject =>
    obtain ⟨hmem, hp⟩ := List.mem_filter.mp h
    refine ⟨hmem, fun p hp' => ?_⟩
    rw [hproject] at hp'
    cases hp'
    simpa using hp

/-- A merge of lists that were offered for the scopes. -/
theorem allOffered_merge {lists : List (List Scored)} {n : ℕ}
    (h : ∀ l ∈ lists, AllOffered b scopes l) : AllOffered b scopes (mergeScoredChunkLists lists n) := by
  intro r hr
  obtain ⟨l, hl, hmem⟩ := Ranked.mem_of_mem_mergeRanked hr
  exact h l hl r hmem

/-- The rows of a search are offered by the store. -/
theorem allOffered_searchWithScores {query : String} {k : ℕ} {time : Option ℤ}
    {scored : List Scored}
    (h : searchWithScoresForProjectScopes b scopes query k time = .ok scored) :
    AllOffered b scopes scored := by
  obtain ⟨lists, hlists, h⟩ := except_bind_eq_ok.mp h
  cases h
  apply allOffered_merge
  intro l hl r hr
  obtain ⟨s, hs, hf⟩ := forScopes_mem hlists l hl
  obtain ⟨rows, hrows, hf⟩ := except_bind_eq_ok.mp hf
  cases hf
  obtain ⟨hmem, hproject⟩ := mem_retain hr
  exact ⟨s, hs, .ranked (tool_eq_ok hrows) hmem hproject⟩

/-- So are those of a search with tiers. -/
theorem allOffered_searchWithTierInfo {query : String} {k : ℕ} {time : Option ℤ}
    {scored : List Scored} {timing : Option TieredTiming}
    (h : searchWithTierInfoForProjectScopes b scopes query k time = .ok (scored, timing)) :
    AllOffered b scopes scored := by
  unfold searchWithTierInfoForProjectScopes at h
  split at h
  · next s =>
    obtain ⟨ranked, hranked, h⟩ := except_bind_eq_ok.mp h
    cases h
    intro r hr
    obtain ⟨hmem, hproject⟩ := mem_retain hr
    exact ⟨s, List.mem_singleton_self s, .tiered (tool_eq_ok hranked) hmem hproject⟩
  · obtain ⟨lists, hlists, h⟩ := except_bind_eq_ok.mp h
    cases h
    apply allOffered_merge
    intro l hl r hr
    obtain ⟨s, hs, hf⟩ := forScopes_mem hlists l hl
    obtain ⟨ranked, hranked, hf⟩ := except_bind_eq_ok.mp hf
    cases hf
    obtain ⟨hmem, hproject⟩ := mem_retain hr
    exact ⟨s, hs, .tiered (tool_eq_ok hranked) hmem hproject⟩

/-- A scan keeps the chunks of the scope's project. -/
theorem offered_scanScope {s : ProjectSearchScope} {n : ℕ} {chunks : List MemoryChunk}
    (h : scanScope b s n = .ok chunks) {c : MemoryChunk} (hc : c ∈ chunks) : Offered b s c := by
  obtain ⟨all, hall, h⟩ := except_bind_eq_ok.mp h
  cases h
  split at hc
  · next hnone =>
    exact .listed (tool_eq_ok hall) (List.mem_of_mem_take hc) fun p hp => by rw [hnone] at hp; cases hp
  · next project hproject =>
    obtain ⟨hmem, hp⟩ := List.mem_filter.mp hc
    refine .listed (tool_eq_ok hall) (List.mem_of_mem_take hmem) fun p hp' => ?_
    rw [hproject] at hp'
    cases hp'
    simpa using hp

/-- A candidate behind a rescue is an old one or the rescued chunk. -/
theorem mem_retainExactRescueCandidate {query : String} {limit : ℕ} {candidates : List Scored}
    {c : MemoryChunk} {r : Scored}
    (h : r ∈ retainExactRescueCandidate x query limit candidates c) : r ∈ candidates ∨ r.1 = c := by
  unfold retainExactRescueCandidate at h
  dsimp only at h
  split at h
  · exact .inl h
  · have hmem := (List.mem_insertionSort _).mp (List.mem_of_mem_take h)
    rcases List.mem_append.mp hmem with hmem | hmem
    · exact .inl hmem
    · exact .inr (by rw [List.mem_singleton.mp hmem])

/-- A candidate behind all rescues is an old one or a rescued chunk. -/
theorem mem_foldl_retain {query : String} {limit : ℕ} {r : Scored} (hits : List MemoryChunk) :
    ∀ candidates : List Scored,
      r ∈ hits.foldl (retainExactRescueCandidate x query limit) candidates →
        r ∈ candidates ∨ r.1 ∈ hits := by
  induction hits with
  | nil => intro candidates h; exact .inl h
  | cons c hits ih =>
    intro candidates h
    rcases ih _ h with h | h
    · rcases mem_retainExactRescueCandidate h with h | h
      · exact .inl h
      · exact .inr (h ▸ List.mem_cons_self)
    · exact .inr (List.mem_cons_of_mem _ h)

/-- Exact candidates are offered. -/
theorem allOffered_exact {query : String} {limit : ℕ} {scored : List Scored}
    (h : exactLexicalCandidatesForProjectScopes x b scopes query limit = .ok scored) :
    AllOffered b scopes scored := by
  unfold exactLexicalCandidatesForProjectScopes at h
  dsimp only at h
  split at h
  · cases h
    exact .nil
  · obtain ⟨lists, hlists, h⟩ := except_bind_eq_ok.mp h
    cases h
    intro r hr
    obtain ⟨r', hr', rfl⟩ := List.mem_map.mp hr
    rcases mem_foldl_retain _ _ hr' with hmem | hmem
    · cases hmem
    · obtain ⟨l, hl, hc⟩ := List.mem_flatten.mp (List.mem_filter.mp hmem).1
      obtain ⟨s, hs, hscan⟩ := forScopes_mem hlists l hl
      exact ⟨s, hs, offered_scanScope hscan hc⟩

/-- A chunk of the scan is a chunk of one of the scopes. -/
theorem scanOverlap_mem {terms : List (List Char)} {cap : ℕ} {all : List ProjectSearchScope} :
    ∀ {scopes : List ProjectSearchScope} {acc chunks : List MemoryChunk}, scopes ⊆ all →
      (∀ c ∈ acc, ∃ s ∈ all, Offered b s c) → scanOverlap b terms cap scopes acc = .ok chunks →
      ∀ c ∈ chunks, ∃ s ∈ all, Offered b s c
  | [], acc, chunks, _, hacc, h => by
    cases h
    exact hacc
  | s :: scopes, acc, chunks, hsub, hacc, h => by
    have hsub' : scopes ⊆ all := fun s' hs' => hsub (List.mem_cons_of_mem s hs')
    unfold scanOverlap at h
    split at h
    · exact scanOverlap_mem hsub' hacc h
    · obtain ⟨scanned, hscan, h⟩ := except_bind_eq_ok.mp h
      refine scanOverlap_mem hsub' ?_ h
      intro c hc
      rcases List.mem_append.mp (List.mem_of_mem_take hc) with hc | hc
      · exact hacc c hc
      · exact ⟨s, hsub List.mem_cons_self, offered_scanScope hscan (List.mem_filter.mp hc).1⟩

/-- Lexical candidates are offered. -/
theorem allOffered_lexical {query : String} {limit : ℕ} {scored : List Scored}
    (h : lexicalOverlapCandidatesForProjectScopes x b scopes query limit = .ok scored) :
    AllOffered b scopes scored := by
  unfold lexicalOverlapCandidatesForProjectScopes at h
  dsimp only at h
  split at h
  · cases h
    exact .nil
  · obtain ⟨chunks, hscan, h⟩ := except_bind_eq_ok.mp h
    cases h
    intro r hr
    obtain ⟨r', hr', rfl⟩ := List.mem_map.mp hr
    have hsorted : r' ∈ (chunks.map fun c => (c, x.scoreCandidateChunk query c)).insertionSort
        scoredBefore := by
      unfold rankCandidateChunks at hr'
      dsimp only at hr'
      split at hr'
      · exact List.mem_of_mem_take hr'
      · exact (List.mem_filter.mp (List.mem_of_mem_take hr')).1
    obtain ⟨c, hc, rfl⟩ := List.mem_map.mp ((List.mem_insertionSort _).mp hsorted)
    exact scanOverlap_mem (List.Subset.refl scopes) (by intro c hc; cases hc) hscan c hc

/-- Preferred summaries are offered. -/
theorem allOffered_summary {query : String} {mode : QueryMode} {limit : ℕ} {time : Option ℤ}
    {scored : List Scored}
    (h : summaryPreferredResultsForProjectScopes b scopes query mode limit time = .ok scored) :
    AllOffered b scopes scored := by
  unfold summaryPreferredResultsForProjectScopes at h
  dsimp only at h
  split at h
  · cases h
    exact .nil
  · obtain ⟨lists, hlists, h⟩ := except_bind_eq_ok.mp h
    cases h
    apply allOffered_merge
    intro l hl r hr
    obtain ⟨s, hs, hf⟩ := forScopes_mem hlists l hl
    obtain ⟨ids, -, hf⟩ := except_bind_eq_ok.mp hf
    obtain ⟨rows, hrows, hf⟩ := except_bind_eq_ok.mp hf
    cases hf
    exact ⟨s, hs, .summary (tool_eq_ok hrows) (List.mem_filter.mp hr).1⟩

end Sources

/-! ## The candidates -/

/-- The ids of a scored list. -/
def scoredIds (scored : List Scored) : List ChunkId :=
  scored.map fun s => s.1.chunkId

section Candidates

variable {b : SearchBackend} {scopes : List ProjectSearchScope} {x : SearchExternals}

/-- A merged row has a chunk of one of the lists. -/
theorem mem_mergePreferredAndRaw {preferred raw : List Scored} {n : ℕ} {r : Scored}
    (h : r ∈ mergePreferredAndRaw x preferred raw n) : ∃ r' ∈ preferred ++ raw, r'.1 = r.1 := by
  have hmem := (List.mem_insertionSort _).mp (List.mem_of_mem_take h)
  rcases List.mem_append.mp hmem with hmem | hmem
  · obtain ⟨r', hr', rfl⟩ := List.mem_map.mp hmem
    exact ⟨r', List.mem_append_left _ ((Ranked.firstOf_sublist _ _ _).subset hr'), rfl⟩
  · exact ⟨r, List.mem_append_right _ ((Ranked.firstOf_sublist _ _ _).subset hmem), rfl⟩

/-- A preferred chunk is kept once, and its raw copies are left out. -/
theorem nodup_mergePreferredAndRaw (preferred raw : List Scored) (n : ℕ) :
    (scoredIds (mergePreferredAndRaw x preferred raw n)).Nodup := by
  unfold mergePreferredAndRaw scoredIds
  set kept := Ranked.firstOf (fun s : Scored => s.1.chunkId) ∅ preferred with hkept
  set others := Ranked.firstOf (fun s : Scored => s.1.chunkId)
    (kept.map fun s => s.1.chunkId).toFinset raw with hothers
  have hboosted : ((kept.map fun s => (s.1, x.addF32 s.2 0x41200000#32)) ++ others).map
      (fun s : Scored => s.1.chunkId) = (kept.map fun s => s.1.chunkId) ++ scoredIds others := by
    rw [List.map_append, List.map_map]
    rfl
  have hnodup : ((kept.map fun s => s.1.chunkId) ++ scoredIds others).Nodup := by
    refine List.Nodup.append (Ranked.firstOf_nodup _ _ _) (Ranked.firstOf_nodup _ _ _) ?_
    intro c hc hc'
    obtain ⟨r, hr, rfl⟩ := List.mem_map.mp hc'
    exact (Ranked.firstOf_keys _ _ _).1 r hr (List.mem_toFinset.mpr hc)
  rw [← hboosted] at hnodup
  have hperm := (List.perm_insertionSort scoredBefore
    ((kept.map fun s => (s.1, x.addF32 s.2 0x41200000#32)) ++ others)).map
      fun s : Scored => s.1.chunkId
  exact (hperm.nodup_iff.mpr hnodup).sublist ((List.take_sublist _ _).map _)

/-- Merged lists have no chunk twice. -/
theorem nodup_mergeScoredChunkLists (lists : List (List Scored)) (n : ℕ) :
    (scoredIds (mergeScoredChunkLists lists n)).Nodup :=
  Ranked.nodup_mergeRanked

/-- A filtered row passes the filters. -/
theorem mem_applySearchFilters {f : ParsedSearchFilters} {n : ℕ} {scored : List Scored} {r : Scored}
    (h : r ∈ applySearchFilters f n scored) : r ∈ scored ∧ f.passes r.1 = true :=
  List.mem_filter.mp (List.mem_of_mem_take h)

/-- Filters drop rows in place. -/
theorem applySearchFilters_sublist (f : ParsedSearchFilters) (n : ℕ) (scored : List Scored) :
    (applySearchFilters f n scored).Sublist scored :=
  (List.take_sublist _ _).trans List.filter_sublist

end Candidates

namespace SearchEnv

variable {e : SearchEnv} {plan : SearchPlan} {params : SearchParams}

/-- The merged rows of the first pass are offered. -/
theorem firstPass_offered {scored merged : List Scored} (hscored : AllOffered e.store plan.scopes scored)
    (h : firstPass e plan params scored = .ok merged) : AllOffered e.store plan.scopes merged := by
  unfold firstPass at h
  obtain ⟨exactCandidates, hexact, h⟩ := except_bind_eq_ok.mp h
  obtain ⟨preferred, hpreferred, h⟩ := except_bind_eq_ok.mp h
  have hmerged : AllOffered e.store plan.scopes (mergePreferredAndRaw e.x preferred
      (mergeScoredChunkLists [exactCandidates, scored] plan.fetchK) plan.fetchK) := by
    intro r hr
    obtain ⟨r', hr', heq⟩ := mem_mergePreferredAndRaw hr
    rw [← heq]
    rcases List.mem_append.mp hr' with hr' | hr'
    · exact allOffered_summary hpreferred r' hr'
    · refine allOffered_merge ?_ r' hr'
      intro l hl
      rcases List.mem_pair.mp hl with rfl | rfl
      · exact allOffered_exact hexact
      · exact hscored
  dsimp only at h
  split at h
  · obtain ⟨lexical, hlexical, h⟩ := except_bind_eq_ok.mp h
    cases h
    apply allOffered_merge
    intro l hl
    rcases List.mem_pair.mp hl with rfl | rfl
    · exact allOffered_lexical hlexical
    · exact hmerged
  · cases h
    exact hmerged

/-- **The first pass repeats no chunk**, whatever the sources repeat. -/
theorem firstPass_nodup {scored merged : List Scored}
    (h : firstPass e plan params scored = .ok merged) : (scoredIds merged).Nodup := by
  unfold firstPass at h
  obtain ⟨exactCandidates, -, h⟩ := except_bind_eq_ok.mp h
  obtain ⟨preferred, -, h⟩ := except_bind_eq_ok.mp h
  dsimp only at h
  split at h
  · obtain ⟨lexical, -, h⟩ := except_bind_eq_ok.mp h
    cases h
    exact nodup_mergeScoredChunkLists _ _
  · cases h
    exact nodup_mergePreferredAndRaw _ _ _

/-- What a branch knows about its ranked search. -/
structure SearchOk (e : SearchEnv) (plan : SearchPlan)
    (search : String → Except OperationError (List Scored × Option TieredTiming)) : Prop where
  offered : ∀ query scored timing, search query = .ok (scored, timing) →
    AllOffered e.store plan.scopes scored

/-- A search with tiers keeps its promises. -/
theorem searchTiers_ok : SearchOk e plan (searchTiers e plan params) where
  offered _ _ _ h := allOffered_searchWithTierInfo h

/-- A standard search is one without tiers. -/
theorem searchStandard_eq_ok {query : String} {scored : List Scored} {timing : Option TieredTiming}
    (h : searchStandard e plan params query = .ok (scored, timing)) :
    searchWithScoresForProjectScopes e.store plan.scopes query plan.fetchK params.rankingTimeMs
      = .ok scored := by
  unfold searchStandard at h
  cases hs : searchWithScoresForProjectScopes e.store plan.scopes query plan.fetchK
      params.rankingTimeMs with
  | error err => rw [hs] at h; cases h
  | ok scored' => rw [hs] at h; cases h; rfl

/-- It keeps its promises. -/
theorem searchStandard_ok : SearchOk e plan (searchStandard e plan params) where
  offered _ _ _ h := allOffered_searchWithScores (searchStandard_eq_ok h)

/-- The candidates a branch goes on with: offered for a scope and let through by the filters. -/
def Candidates (e : SearchEnv) (plan : SearchPlan) (scored : List Scored) : Prop :=
  ∀ r ∈ scored, (∃ s ∈ plan.scopes, Offered e.store s r.1) ∧ plan.filters.passes r.1 = true

/-- Offered rows that pass the filters are candidates. -/
theorem candidates_filters {scored : List Scored} {n : ℕ} (h : AllOffered e.store plan.scopes scored) :
    Candidates e plan (applySearchFilters plan.filters n scored) := by
  intro r hr
  obtain ⟨hmem, hpass⟩ := mem_applySearchFilters hr
  exact ⟨h r hmem, hpass⟩

/-- A repair goes on with what it was given, or with the filtered list of the repaired query. -/
theorem repair_cases {search : String → Except OperationError (List Scored × Option TieredTiming)}
    {scored : List Scored} {timing : Option TieredTiming} {r : Repaired}
    (h : repair e plan params search scored timing = .ok r) :
    (r.scored = scored ∧ ∀ i ∈ r.info, i.repaired = false)
      ∨ ∃ query rows t, search query = .ok (rows, t)
        ∧ r.scored = applySearchFilters plan.filters plan.preVisibilityCap rows
        ∧ ∃ i, r.info = some i ∧ i.repaired = true := by
  unfold repair at h
  split at h
  · cases h
    exact .inl ⟨rfl, by intro i hi; cases hi⟩
  · split at h
    · cases h
      exact .inl ⟨rfl, by intro i hi; cases hi⟩
    · next query hquery =>
      obtain ⟨⟨rows, t⟩, hsearch, h⟩ := except_bind_eq_ok.mp h
      cases h
      by_cases hrep : (!(applySearchFilters plan.filters plan.preVisibilityCap rows).isEmpty) = true
      · exact .inr ⟨query, rows, t, hsearch, if_pos hrep, _, rfl, hrep⟩
      · refine .inl ⟨if_neg hrep, ?_⟩
        intro i hi
        cases hi
        exact Bool.eq_false_iff.mpr hrep

end SearchEnv

/-! ## The chunks that are served -/

/-- What the visibility check lets through is the chunk of a visible row under the tenant and
the id of a hit. -/
theorem applyVisibilityFilter_shown {b : SearchBackend} {policy : VisibilityPolicy} {now : ℤ} :
    ∀ {k : ℕ} {ranked : List Scored} {r : Scored}, r ∈ applyVisibilityFilter b policy now k ranked →
      ∃ hit ∈ ranked, ∃ row ∈ b.rows, row.key = (hit.1.tenantId, hit.1.chunkId)
        ∧ Visible policy now row ∧ row.chunk = r.1
  | 0, ranked, r, h => by
    rw [applyVisibilityFilter] at h
    cases h
  | k + 1, [], r, h => by
    simp [applyVisibilityFilter] at h
  | k + 1, (c, score) :: ranked, r, h => by
    rw [applyVisibilityFilter] at h
    have hrest : ∀ k', r ∈ applyVisibilityFilter b policy now k' ranked →
        ∃ hit ∈ (c, score) :: ranked, ∃ row ∈ b.rows, row.key = (hit.1.tenantId, hit.1.chunkId)
          ∧ Visible policy now row ∧ row.chunk = r.1 := by
      intro k' h'
      obtain ⟨hit, hhit, hrow⟩ := applyVisibilityFilter_shown h'
      exact ⟨hit, List.mem_cons_of_mem _ hhit, hrow⟩
    split at h
    · next row hrow =>
      split at h
      · next hvisible =>
        rcases List.mem_cons.mp h with rfl | h
        · obtain ⟨hmem, hkey⟩ := SearchBackend.mem_of_getWithLifecycle hrow
          exact ⟨_, List.mem_cons_self, row, hmem, hkey, visible_of_isVisibleAt hvisible, rfl⟩
        · exact hrest k h
      · exact hrest (k + 1) h
    · exact hrest (k + 1) h

/-- The visibility filter drops rows in place. -/
theorem applyVisibilityFilter_ids {b : SearchBackend} {policy : VisibilityPolicy} {now : ℤ} :
    ∀ (k : ℕ) (ranked : List Scored),
      (scoredIds (applyVisibilityFilter b policy now k ranked)).Sublist (scoredIds ranked)
  | 0, ranked => by
    rw [applyVisibilityFilter]
    exact List.nil_sublist _
  | k + 1, [] => by
    simp [applyVisibilityFilter, scoredIds]
  | k + 1, (c, score) :: ranked => by
    rw [applyVisibilityFilter]
    split
    · next row hrow =>
      split
      · have hid : row.chunk.chunkId = c.chunkId :=
          congrArg Prod.snd (SearchBackend.mem_of_getWithLifecycle hrow).2
        show (row.chunk.chunkId :: scoredIds _).Sublist (c.chunkId :: scoredIds ranked)
        rw [hid]
        exact (applyVisibilityFilter_ids k ranked).cons_cons _
      · exact (applyVisibilityFilter_ids (k + 1) ranked).cons _
    · exact (applyVisibilityFilter_ids (k + 1) ranked).cons _

/-- So does dropping a source that was seen. -/
theorem dedupeScoredChunksBySourceUri_sublist (scored : List Scored) :
    ∀ seen, (dedupeScoredChunksBySourceUri seen scored).Sublist scored := by
  induction scored with
  | nil => intro seen; exact List.Sublist.refl _
  | cons s scored ih =>
    intro seen
    unfold dedupeScoredChunksBySourceUri
    split
    · exact (ih seen).cons_cons s
    · split
      · exact (ih seen).cons_cons s
      · split
        · exact (ih seen).cons s
        · exact (ih _).cons_cons s

/-- Rendering a time changes the text only. -/
theorem renderObservedTimeIntoText_chunk (s : Scored) :
    (renderObservedTimeIntoText s).1 = { s.1 with text := (renderObservedTimeIntoText s).1.text } := by
  unfold renderObservedTimeIntoText
  split <;> rfl

/-- Both chunk lists of a pool are the candidates; the shadow order is not served. -/
theorem outcomeRankCandidatePool_served {x : SearchExternals} {b : SearchBackend} {t : TenantId}
    {project : Option String} {candidates : List Scored} {mode : RankingPolicyMode} {time : ℤ}
    {pool : OutcomeRankedPool}
    (h : outcomeRankCandidatePool x b t project candidates mode time = .ok pool) :
    pool.served = candidates := by
  unfold outcomeRankCandidatePool at h
  split at h
  · cases h
  · cases h
    rfl
  · obtain ⟨adjustments, -, h⟩ := except_bind_eq_ok.mp h
    cases h
    rfl

namespace SearchEnv

variable {e : SearchEnv} {plan : SearchPlan} {params : SearchParams}

/-- **What is served**: at most `k` rows of the pool, in its order. -/
theorem servedChunks_spec (params : SearchParams) (pool : OutcomeRankedPool) :
    (servedChunks params pool).length ≤ params.k
      ∧ (scoredIds (servedChunks params pool)).Sublist (scoredIds pool.served)
      ∧ ∀ s ∈ servedChunks params pool, ∃ s₀ ∈ pool.served, s.1 = { s₀.1 with text := s.1.text } := by
  unfold servedChunks
  set deduped := if params.dedupeBySource then dedupeScoredChunksBySourceUri [] pool.served
    else pool.served with hdeduped
  have hsub : (deduped.take params.k).Sublist pool.served := by
    refine (List.take_sublist _ _).trans ?_
    rw [hdeduped]
    split
    · exact dedupeScoredChunksBySourceUri_sublist _ _
    · exact List.Sublist.refl _
  have hlen : (deduped.take params.k).length ≤ params.k := List.length_take_le _ _
  dsimp only
  split
  · refine ⟨by rw [List.length_map]; exact hlen, ?_, ?_⟩
    · have hids : scoredIds ((deduped.take params.k).map renderObservedTimeIntoText)
          = scoredIds (deduped.take params.k) := by
        unfold scoredIds
        rw [List.map_map]
        apply List.map_congr_left
        intro s _
        show (renderObservedTimeIntoText s).1.chunkId = s.1.chunkId
        rw [renderObservedTimeIntoText_chunk]
      rw [hids]
      exact hsub.map _
    · intro s hs
      obtain ⟨s₀, hs₀, rfl⟩ := List.mem_map.mp hs
      exact ⟨s₀, hsub.subset hs₀, renderObservedTimeIntoText_chunk s₀⟩
  · exact ⟨hlen, hsub.map _, fun s hs => ⟨s, hsub.subset hs, rfl⟩⟩

/-- The chunk of a result: the row of a copy that was offered for a scope and passed the
filters, and that the policy lets through; its text may carry the rendered event date. -/
def Traced (e : SearchEnv) (plan : SearchPlan) (c : MemoryChunk) : Prop :=
  ∃ s ∈ plan.scopes, ∃ copy, Offered e.store s copy ∧ plan.filters.passes copy = true
    ∧ ∃ row ∈ e.store.rows, row.key = (copy.tenantId, copy.chunkId)
      ∧ Visible plan.policy e.now row ∧ c = { row.chunk with text := c.text }

/-- The pool is taken from the candidates, in their order. -/
theorem poolCandidates_ids (e : SearchEnv) (plan : SearchPlan) (params : SearchParams)
    (scored : List Scored) :
    (scoredIds (poolCandidates e plan params scored)).Sublist (scoredIds scored) := by
  unfold poolCandidates
  refine (applyVisibilityFilter_ids _ _).trans (List.Sublist.map _ ?_)
  split
  · exact List.filter_sublist
  · exact List.Sublist.refl _

/-- A chunk of the pool was offered and passes. -/
theorem traced_poolCandidates {scored : List Scored} (h : Candidates e plan scored) {r : Scored}
    (hr : r ∈ poolCandidates e plan params scored) : Traced e plan r.1 := by
  obtain ⟨hit, hhit, row, hrow, hkey, hvisible, hchunk⟩ := applyVisibilityFilter_shown hr
  have hmem : hit ∈ scored := by
    split at hhit
    · exact List.mem_of_mem_filter hhit
    · exact hhit
  obtain ⟨⟨s, hs, hoffered⟩, hpass⟩ := h hit hmem
  exact ⟨s, hs, hit.1, hoffered, hpass, row, hrow, hkey, hvisible, by rw [← hchunk]⟩

/-! ## Siblings -/

/-- A sibling of a chunk: a visible row of the same tenant and project. -/
def SiblingOf (e : SearchEnv) (plan : SearchPlan) (base sibling : MemoryChunk) : Prop :=
  sibling.tenantId = base.tenantId ∧ sibling.projectId = base.projectId
    ∧ ∃ row ∈ e.store.rows, row.chunk = sibling ∧ Visible plan.policy e.now row

/-- A sibling is one of the listed chunks. -/
theorem siblingsAmong_mem {b : SearchBackend} {base : MemoryChunk} {policy : VisibilityPolicy}
    {now : ℤ} {c : MemoryChunk} :
    ∀ {limit : ℕ} {listed : List MemoryChunk} {seen : List ChunkId},
      c ∈ siblingsAmong b base policy now limit seen listed →
      ∃ c₀ ∈ listed, c₀.projectId = base.projectId
        ∧ ∃ row ∈ b.rows, row.key = (c₀.tenantId, c₀.chunkId) ∧ Visible policy now row
          ∧ row.chunk = c
  | 0, listed, seen, h => by
    rw [siblingsAmong] at h
    cases h
  | limit + 1, [], seen, h => by
    simp [siblingsAmong] at h
  | limit + 1, c₁ :: listed, seen, h => by
    rw [siblingsAmong] at h
    have hrest : ∀ limit' seen', c ∈ siblingsAmong b base policy now limit' seen' listed →
        ∃ c₀ ∈ c₁ :: listed, c₀.projectId = base.projectId
          ∧ ∃ row ∈ b.rows, row.key = (c₀.tenantId, c₀.chunkId) ∧ Visible policy now row
            ∧ row.chunk = c := by
      intro limit' seen' h'
      obtain ⟨c₀, hc₀, hrow⟩ := siblingsAmong_mem h'
      exact ⟨c₀, List.mem_cons_of_mem _ hc₀, hrow⟩
    split at h
    · exact hrest _ _ h
    · split at h
      · exact hrest _ _ h
      · next hproject =>
        split at h
        · exact hrest _ _ h
        · split at h
          · next row hrow =>
            split at h
            · next hvisible =>
              rcases List.mem_cons.mp h with rfl | h
              · obtain ⟨hmem, hkey⟩ := SearchBackend.mem_of_getWithLifecycle hrow
                exact ⟨c₁, List.mem_cons_self, not_not.mp hproject, row, hmem, hkey,
                  visible_of_isVisibleAt hvisible, rfl⟩
              · exact hrest _ _ h
            · exact hrest _ _ h
          · exact hrest _ _ h

/-- A listed chunk is the chunk of its row, so a sibling has the tenant and the project it was
selected by. -/
theorem siblingOf_collectEventSiblings {base sibling : MemoryChunk} {limit : ℕ}
    (h : sibling ∈ collectEventSiblings e.store base plan.policy e.now limit) :
    SiblingOf e plan base sibling := by
  unfold collectEventSiblings at h
  split at h
  · cases h
  · obtain ⟨c₀, hc₀, hproject, row, hrow, hkey, hvisible, rfl⟩ := siblingsAmong_mem h
    obtain ⟨row', hrow', rfl⟩ := List.mem_map.mp hc₀
    obtain ⟨hmem', htenant⟩ := List.mem_filter.mp hrow'
    have heq : row = row' := SearchBackend.eq_of_key_eq hrow hmem' hkey
    subst heq
    rw [Bool.and_eq_true, decide_eq_true_eq] at htenant
    exact ⟨htenant.1, hproject, row, hrow, rfl, hvisible⟩

/-! ## Results -/

/-- A loop that goes through pairs its results with the list. -/
theorem except_mapM_forall₂ {α β : Type} {f : α → Except OperationError β} :
    ∀ {l : List α} {l' : List β}, l.mapM f = .ok l' → List.Forall₂ (fun a b => f a = .ok b) l l'
  | [], l', h => by
    cases h
    exact .nil
  | a :: l, l', h => by
    rw [List.mapM_cons] at h
    obtain ⟨b, hb, h⟩ := except_bind_eq_ok.mp h
    obtain ⟨bs, hbs, h⟩ := except_bind_eq_ok.mp h
    cases h
    exact .cons hb (except_mapM_forall₂ hbs)

/-- A rendered result shows its chunk, and siblings of it. -/
def Renders (e : SearchEnv) (plan : SearchPlan) (c : MemoryChunk) (r : ChunkResult) : Prop :=
  r.chunk = c ∧ ∀ sibling ∈ r.expandedSiblings, SiblingOf e plan c sibling.chunk

/-- A result renders its row. -/
theorem renders_buildChunkResult {tier : Option String} {artifacts : List (ChunkId × TaskArtifact)}
    {expand : Bool} {s : Scored} {r : ChunkResult}
    (h : buildChunkResult e.store tier artifacts expand plan.policy e.now s = .ok r) :
    Renders e plan s.1 r := by
  unfold buildChunkResult at h
  cases expand with
  | false =>
    cases h
    exact ⟨rfl, by intro sibling hs; cases hs⟩
  | true =>
    obtain ⟨siblings, hsiblings, h⟩ := except_bind_eq_ok.mp h
    cases h
    refine ⟨rfl, ?_⟩
    obtain ⟨found, -, hsiblings⟩ := except_bind_eq_ok.mp hsiblings
    cases hsiblings
    intro sibling hs
    obtain ⟨s', hs', rfl⟩ := List.mem_map.mp hs
    obtain ⟨c, hc, rfl⟩ := List.mem_map.mp hs'
    exact siblingOf_collectEventSiblings hc

/-- The results show the served chunks, in order. -/
theorem renders_buildChunkResults {tier : Option String} {artifacts : List (ChunkId × TaskArtifact)}
    {expand : Bool} {scored : List Scored} {results : List ChunkResult}
    (h : buildChunkResults e.store scored tier artifacts expand plan.policy e.now = .ok results) :
    (results.map fun r => r.chunk) = scored.map Prod.fst
      ∧ ∀ r ∈ results, ∃ s ∈ scored, Renders e plan s.1 r := by
  have hbuilt := except_mapM_forall₂ h
  clear h
  induction hbuilt with
  | nil => exact ⟨rfl, by intro r hr; cases hr⟩
  | @cons s r scored results hr _ ih =>
    have hrenders := renders_buildChunkResult hr
    refine ⟨?_, ?_⟩
    · rw [List.map_cons, List.map_cons, ih.1, hrenders.1]
    · intro r' hr'
      rcases List.mem_cons.mp hr' with rfl | hr'
      · exact ⟨s, List.mem_cons_self, hrenders⟩
      · obtain ⟨s', hs', hrenders'⟩ := ih.2 r' hr'
        exact ⟨s', List.mem_cons_of_mem _ hs', hrenders'⟩

/-- The shape of an answer keeps some of the results, with their chunks and at most their
siblings. -/
theorem shapeMemoryResults_keeps (y : ResponseExternals) (params : SearchParams)
    (results : List ChunkResult) :
    ((shapeMemoryResults y params results).1.map fun r => r.chunk).Sublist
        (results.map fun r => r.chunk)
      ∧ ∀ r ∈ (shapeMemoryResults y params results).1,
        ∃ r₀ ∈ results, r.chunk = r₀.chunk ∧ r.expandedSiblings ⊆ r₀.expandedSiblings := by
  have hpacked : ∀ budget, (packChunkResults y results budget).1.Sublist results := by
    intro budget
    unfold packChunkResults
    split
    · exact List.Sublist.refl _
    · split
      · exact List.Sublist.refl _
      · exact List.filter_sublist
  unfold shapeMemoryResults
  split
  · exact ⟨List.Sublist.refl _, fun r hr => ⟨r, hr, rfl, List.Subset.refl _⟩⟩
  · dsimp only
    refine ⟨?_, ?_⟩
    · rw [List.map_map]
      exact (hpacked _).map _
    · intro r hr
      obtain ⟨r₀, hr₀, rfl⟩ := List.mem_map.mp hr
      exact ⟨r₀, (hpacked _).subset hr₀, rfl, by intro c hc; cases hc⟩

/-- What `finish` shows, from the candidates it is given. -/
theorem finish_shows {r : Repaired} {result : SearchResult} (hcand : Candidates e plan r.scored)
    (h : finish e plan params r = .ok result) :
    result.results.length ≤ params.k
      ∧ result.repairInfo = r.info
      ∧ (result.results.map fun c => c.chunk.chunkId).Sublist (scoredIds r.scored)
      ∧ ∀ c ∈ result.results, Traced e plan c.chunk
        ∧ ∀ sibling ∈ c.expandedSiblings, SiblingOf e plan c.chunk sibling.chunk := by
  unfold finish at h
  dsimp only at h
  obtain ⟨pool, hpool, h⟩ := except_bind_eq_ok.mp h
  obtain ⟨artifacts, -, h⟩ := except_bind_eq_ok.mp h
  obtain ⟨built, hbuilt, h⟩ := except_bind_eq_ok.mp h
  obtain ⟨recorded, -, h⟩ := except_bind_eq_ok.mp h
  cases h
  have hserved := outcomeRankCandidatePool_served hpool
  obtain ⟨hlen, hids, htext⟩ := servedChunks_spec params pool
  obtain ⟨hbuiltChunks, hrendered⟩ := renders_buildChunkResults hbuilt
  have hchunks : (built.map (annotateChunkOrigin plan.tenantId
      (scopeExpansionFor e.cfg plan.tenantId params.projectId))).map (fun c => c.chunk)
        = (servedChunks params pool).map Prod.fst := by
    rw [List.map_map, ← hbuiltChunks]
    rfl
  obtain ⟨hsub, hkeeps⟩ := shapeMemoryResults_keeps e.y params (built.map (annotateChunkOrigin
    plan.tenantId (scopeExpansionFor e.cfg plan.tenantId params.projectId)))
  rw [hchunks] at hsub
  refine ⟨?_, rfl, ?_, ?_⟩
  · have := hsub.length_le
    rw [List.length_map, List.length_map] at this
    exact this.trans hlen
  · have hmap := hsub.map MemoryChunk.chunkId
    rw [List.map_map, List.map_map] at hmap
    refine List.Sublist.trans hmap (hids.trans ?_)
    rw [hserved]
    exact poolCandidates_ids e plan params r.scored
  · intro c hc
    obtain ⟨c₀, hc₀, hchunk, hsiblings⟩ := hkeeps c hc
    obtain ⟨c₁, hc₁, rfl⟩ := List.mem_map.mp hc₀
    -- the result comes from a served chunk, and that one from the pool
    obtain ⟨s, hs, hrenders⟩ := hrendered c₁ hc₁
    obtain ⟨s₀, hs₀, htext⟩ := htext s hs
    rw [hserved] at hs₀
    obtain ⟨scope, hscope, copy, hoffered, hpass, row, hrow, hkey, hvisible, hs₀row⟩ :=
      traced_poolCandidates hcand hs₀
    have hc : c.chunk = s.1 := hchunk.trans hrenders.1
    refine ⟨⟨scope, hscope, copy, hoffered, hpass, row, hrow, hkey, hvisible, ?_⟩, ?_⟩
    · rw [hc, htext, hs₀row]
    · intro sibling hsib
      rw [hc]
      exact hrenders.2 sibling (hsiblings hsib)

/-! ## Whole answers -/

/-- The trust in the store: what it returns for a scope is of the tenant and the project it was
asked for, and a copy agrees with the stored row on what the scope and the filters look at.  The
project is only a matter of the summaries, since the other sources check it. -/
def FaithfulScope (b : SearchBackend) (s : ProjectSearchScope) : Prop :=
  ∀ copy, Offered b s copy → s.Holds copy ∧ ∀ row ∈ b.rows,
    row.key = (copy.tenantId, copy.chunkId) →
      row.chunk.projectId = copy.projectId ∧ row.chunk.chunkType = copy.chunkType
        ∧ row.chunk.tags = copy.tags ∧ row.chunk.timestampCreated = copy.timestampCreated

/-- A repair whose candidates did not go through a merge. -/
def RepairsOneScopeInDebug (params : SearchParams) (plan : SearchPlan) (result : SearchResult) : Prop :=
  params.debugTiers.getD false = true ∧ plan.scopes.length = 1
    ∧ ∃ i, result.repairInfo = some i ∧ i.repaired = true

/-- On faithful scopes, a served chunk passes the filters and is in a scope. -/
theorem traced_faithful {c : MemoryChunk} (h : Traced e plan c)
    (hfaithful : ∀ s ∈ plan.scopes, FaithfulScope e.store s) :
    plan.filters.passes c = true ∧ ∃ s ∈ plan.scopes, s.Holds c := by
  obtain ⟨s, hs, copy, hoffered, hpass, row, hrow, hkey, -, hc⟩ := h
  obtain ⟨⟨htenant, hproject⟩, hcopy⟩ := hfaithful s hs copy hoffered
  obtain ⟨hp, htype, htags, htime⟩ := hcopy row hrow hkey
  have htenant' : row.chunk.tenantId = copy.tenantId := congrArg Prod.fst hkey
  rw [hc]
  refine ⟨?_, s, hs, htenant'.trans htenant, ?_⟩
  · unfold ParsedSearchFilters.passes at hpass ⊢
    simpa only [htype, htags, htime] using hpass
  · intro p hp'
    exact hp.trans (hproject p hp')

/-- A sibling is in the scope of its chunk. -/
theorem holds_sibling {s : ProjectSearchScope} {base sibling : MemoryChunk} (h : s.Holds base)
    (hsib : SiblingOf e plan base sibling) : s.Holds sibling :=
  ⟨hsib.1.trans h.1, fun p hp => hsib.2.1.trans (h.2 p hp)⟩

/-- The ids of a ranked search that went through a merge are different. -/
theorem nodup_searchStandard {query : String} {rows : List Scored} {t : Option TieredTiming}
    (h : searchStandard e plan params query = .ok (rows, t)) : (scoredIds rows).Nodup := by
  obtain ⟨lists, -, h⟩ := except_bind_eq_ok.mp (searchStandard_eq_ok h)
  cases h
  exact nodup_mergeScoredChunkLists _ _

/-- Over several scopes no chunk comes twice. -/
theorem nodup_searchTiers {query : String} {rows : List Scored} {t : Option TieredTiming}
    (hscopes : plan.scopes.length ≠ 1) (h : searchTiers e plan params query = .ok (rows, t)) :
    (scoredIds rows).Nodup := by
  unfold searchTiers searchWithTierInfoForProjectScopes at h
  split at h
  · next s hs => rw [hs] at hscopes; exact absurd rfl hscopes
  · obtain ⟨lists, -, h⟩ := except_bind_eq_ok.mp h
    cases h
    exact nodup_mergeScoredChunkLists _ _

/-- What a branch shows, from what it knows about its ranked search. -/
theorem answerWith_shows {search : String → Except OperationError (List Scored × Option TieredTiming)}
    {result : SearchResult} (hsearch : SearchOk e plan search)
    (h : answerWith e plan params search = .ok result) :
    result.results.length ≤ params.k
      ∧ ((∀ query rows t, search query = .ok (rows, t) → (scoredIds rows).Nodup)
          ∨ (∀ i, result.repairInfo = some i → i.repaired = false) →
        (result.results.map fun c => c.chunk.chunkId).Nodup)
      ∧ ∀ c ∈ result.results, Traced e plan c.chunk
        ∧ ∀ sibling ∈ c.expandedSiblings, SiblingOf e plan c.chunk sibling.chunk := by
  unfold answerWith at h
  obtain ⟨⟨scored, timing⟩, hscored, h⟩ := except_bind_eq_ok.mp h
  obtain ⟨merged, hmerged, h⟩ := except_bind_eq_ok.mp h
  obtain ⟨r, hr, h⟩ := except_bind_eq_ok.mp h
  have hfirst := firstPass_offered (hsearch.offered _ _ _ hscored) hmerged
  rcases repair_cases hr with ⟨hsame, hinfo⟩ | ⟨query, rows, t, hquery, hrows, i, hi, hrepaired⟩
  · obtain ⟨hlen, -, hids, hshown⟩ := finish_shows (hsame ▸ candidates_filters hfirst) h
    refine ⟨hlen, fun _ => ?_, hshown⟩
    refine List.Nodup.sublist hids ?_
    rw [hsame]
    exact (firstPass_nodup hmerged).sublist ((applySearchFilters_sublist _ _ _).map _)
  · obtain ⟨hlen, hreport, hids, hshown⟩ :=
      finish_shows (hrows ▸ candidates_filters (hsearch.offered _ _ _ hquery)) h
    refine ⟨hlen, fun hcase => ?_, hshown⟩
    refine List.Nodup.sublist hids ?_
    rw [hrows]
    rcases hcase with hnodup | hnot
    · exact (hnodup query rows t hquery).sublist ((applySearchFilters_sublist _ _ _).map _)
    · have hfalse := hnot i (hreport.trans hi)
      rw [hrepaired] at hfalse
      cases hfalse

/-- **What a search can return.**  For every store, every request and whatever the rankers and
listings return: at most `k` results; different chunk ids, unless the debug branch repaired the
query over a single scope; every result is a row the policy lets through, found under the tenant
and the id of a copy that was offered for a scope of the request and passed its filters; every
expanded sibling is a row the policy lets through, of the tenant and the project of its result.
If the store returns for a scope what belongs to it, in copies that agree with the rows, then
every result passes the filters and belongs, with its siblings, to a scope of the request. -/
theorem search_safe (e : SearchEnv) (params : SearchParams) (plan : SearchPlan)
    (result : SearchResult) (hplan : planSearch e.x e.cfg e.store params = .ok plan)
    (h : handleMemorySearch e params = .ok result) :
    result.results.length ≤ params.k
      ∧ (¬ RepairsOneScopeInDebug params plan result →
          (result.results.map fun c => c.chunk.chunkId).Nodup)
      ∧ (∀ c ∈ result.results, Traced e plan c.chunk
          ∧ ∀ sibling ∈ c.expandedSiblings, SiblingOf e plan c.chunk sibling.chunk)
      ∧ ((∀ s ∈ plan.scopes, FaithfulScope e.store s) → ∀ c ∈ result.results,
          plan.filters.passes c.chunk = true
            ∧ ∃ s ∈ plan.scopes, s.Holds c.chunk ∧ ∀ sibling ∈ c.expandedSiblings, s.Holds sibling.chunk) := by
  have hshows : result.results.length ≤ params.k
      ∧ (¬ RepairsOneScopeInDebug params plan result →
          (result.results.map fun c => c.chunk.chunkId).Nodup)
      ∧ ∀ c ∈ result.results, Traced e plan c.chunk
        ∧ ∀ sibling ∈ c.expandedSiblings, SiblingOf e plan c.chunk sibling.chunk := by
    unfold handleMemorySearch at h
    rw [hplan] at h
    change (if params.debugTiers.getD false = true then
        answerWith e plan params (searchTiers e plan params)
      else answerWith e plan params (searchStandard e plan params)) = .ok result at h
    split at h
    · next hdebug =>
      obtain ⟨hlen, hnodup, hshown⟩ := answerWith_shows searchTiers_ok h
      refine ⟨hlen, fun hnot => hnodup ?_, hshown⟩
      by_cases hscopes : plan.scopes.length = 1
      · refine .inr fun i hi => ?_
        by_contra hne
        exact hnot ⟨hdebug, hscopes, i, hi, Bool.eq_true_of_not_eq_false hne⟩
      · exact .inl fun query rows t hq => nodup_searchTiers hscopes hq
    · obtain ⟨hlen, hnodup, hshown⟩ := answerWith_shows searchStandard_ok h
      exact ⟨hlen, fun _ => hnodup (.inl fun query rows t hq => nodup_searchStandard hq), hshown⟩
  refine ⟨hshows.1, hshows.2.1, hshows.2.2, ?_⟩
  intro hfaithful c hc
  obtain ⟨htraced, hsiblings⟩ := hshows.2.2 c hc
  obtain ⟨hpass, s, hs, hholds⟩ := traced_faithful htraced hfaithful
  exact ⟨hpass, s, hs, hholds, fun sibling hsib => holds_sibling hholds (hsiblings sibling hsib)⟩

/-- A result that is some is a result. -/
theorem exists_of_toOption {α : Type} {x : Except OperationError α}
    (h : x.toOption.isSome = true) : ∃ a, x = .ok a := by
  cases x with
  | error err => cases h
  | ok a => exact ⟨a, rfl⟩

/-- A request that is answered, over the store of one note. -/
theorem search_safe_sampleRepair :
    ∃ plan result, planSearch sampleEnv.x sampleEnv.cfg sampleEnv.store sampleRepair = .ok plan
      ∧ handleMemorySearch sampleEnv sampleRepair = .ok result
      ∧ (result.results.map fun c => c.chunk.chunkId) = [1]
      ∧ ∀ c ∈ result.results, Traced sampleEnv plan c.chunk := by
  obtain ⟨plan, hplan⟩ := exists_of_toOption
    (x := planSearch sampleEnv.x sampleEnv.cfg sampleEnv.store sampleRepair) (by decide)
  obtain ⟨result, hresult⟩ := exists_of_toOption (x := handleMemorySearch sampleEnv sampleRepair)
    (by decide)
  have hids : ((handleMemorySearch sampleEnv sampleRepair).map fun r =>
      r.results.map fun c => c.chunk.chunkId).toOption = some [1] := by
    decide
  rw [hresult] at hids
  refine ⟨plan, result, hplan, hresult, Option.some.inj hids, ?_⟩
  intro c hc
  exact ((search_safe sampleEnv sampleRepair plan result hplan hresult).2.2.1 c hc).1

/-! ## A store that cannot be trusted -/

/-- A decision of the project `p` in another tenant. -/
def foreignDecision : MemoryChunk :=
  { chunkId := 1, tenantId := "b", projectId := some "p", chunkType := .decision, text := "note" }

/-- A message; the ranker still holds the copy it made when the chunk was a decision. -/
def formerDecision : MemoryChunk :=
  { chunkId := 2, tenantId := "a", projectId := some "p", chunkType := .message, text := "note" }

/-- A decision of another project, linked to a summary. -/
def otherDecision : MemoryChunk :=
  { chunkId := 3, tenantId := "a", projectId := some "q", chunkType := .decision, text := "note" }

/-- The ranked search returns the first two chunks, the summaries the third. -/
def untrustedStore : SearchBackend :=
  { rows := [foreignDecision, formerDecision, otherDecision].map fun c =>
      { chunk := c, status := .final, lifecycle := {} }
    rows_nodup := by decide
    searchWithScores := fun _ _ _ _ =>
      .ok [(foreignDecision, 0x40000000#32),
        ({ formerDecision with chunkType := .decision }, 0x3F800000#32)]
    searchWithTierInfo := fun _ _ _ _ => .ok ([], none)
    candidateChunkIdsForMode := fun _ _ _ _ => .ok [3]
    rerankChunksForQuery := fun _ _ _ _ _ => .ok [(otherDecision, 0x3F800000#32)] }

/-- As `sampleEnv`, with the one addition that is made here: 1.0 + 10.0 = 11.0. -/
def untrustedEnv : SearchEnv :=
  { sampleEnv with
    store := untrustedStore
    x := { sampleExternals with
      addF32 := fun a b => if b = 0x41200000#32 then 0x41300000#32 else a } }

/-- The decisions of the project `p`. -/
def decisionsOfP : SearchParams :=
  { tenantId := "a", query := "note", projectId := some "p",
    filters := some { types := some ["decision"] } }

/-- **The rows of the rankers pass.**  A request for the decisions of one project is answered
with a chunk of another project, a chunk of another tenant and a message. -/
theorem rows_of_the_ranker_pass :
    ((planSearch untrustedEnv.x untrustedEnv.cfg untrustedEnv.store decisionsOfP).map fun p =>
        (p.scopes, p.filters.chunkTypes)).toOption
      = some ([{ tenantId := "a", projectId := some "p" }], some [.decision])
    ∧ ((handleMemorySearch untrustedEnv decisionsOfP).map fun r =>
        r.results.map fun c => (c.chunk.tenantId, c.chunk.projectId, c.chunk.chunkType)).toOption
      = some [("a", some "q", .decision), ("b", some "p", .decision), ("a", some "p", .message)] := by
  decide

end SearchEnv
