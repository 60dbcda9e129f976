/-
# The episode a search records

`record_search_retrieval_episode` writes one item for each chunk of the candidate pool, with the
place it was served at, and an episode with the counts.  The store checks both before it inserts
them (`validateRetrievalEpisode`), and an error of the check is an error of the search.

The results come from the pool through source dedup, truncation, rendering and packing.  Each
stage leaves chunks out and none adds one or changes an id, so the places of the results are
places of items (`shownIn_searchRetrievalEpisode`), the counts agree, and the check passes.

* `EpisodePool` — what the visibility filter and the merges guarantee for a candidate pool
  (`episodePool_poolCandidates`);
* `ShownIn` — the rendered items, in the order they were served, are the results;
* `recorded_valid` — the check never fails on what a search records.
-/
import Memd.SearchSafety
import Memd.EpisodeInvariant

open Text
open Proc (except_bind_eq_ok)

/-! ## Maps from ids to places -/

/-- A map without repeated keys holds its entries. -/
theorem lastEntry_eq_some {α : Type} {entries : List (ChunkId × α)}
    (h : (entries.map (·.1)).Nodup) {c : ChunkId} {a : α} :
    lastEntry entries c = some a ↔ (c, a) ∈ entries := by
  unfold lastEntry
  rw [Option.map_eq_some_iff]
  constructor
  · rintro ⟨⟨c', a'⟩, hfind, rfl⟩
    obtain rfl : c' = c := by simpa using List.find?_some hfind
    exact List.mem_reverse.mp (List.mem_of_find?_eq_some hfind)
  · intro hmem
    cases hfind : entries.reverse.find? fun e => e.1 = c with
    | none =>
      have hno := List.find?_eq_none.mp hfind (c, a) (List.mem_reverse.mpr hmem)
      exact absurd (decide_eq_true rfl) hno
    | some e =>
      have hkey : e.1 = c := by simpa using List.find?_some hfind
      have he := List.mem_reverse.mp (List.mem_of_find?_eq_some hfind)
      refine ⟨e, rfl, ?_⟩
      rw [List.inj_on_of_nodup_map h he hmem hkey]

theorem mem_of_lastEntry {α : Type} {entries : List (ChunkId × α)} {c : ChunkId} {a : α}
    (h : lastEntry entries c = some a) : (c, a) ∈ entries := by
  obtain ⟨⟨c', a'⟩, hfind, rfl⟩ := Option.map_eq_some_iff.mp h
  obtain rfl : c' = c := by simpa using List.find?_some hfind
  exact List.mem_reverse.mp (List.mem_of_find?_eq_some hfind)

theorem lastEntry_positions {ids : List ChunkId} (h : ids.Nodup) {c : ChunkId} {k : ℕ} :
    lastEntry (positions ids) c = some k ↔ ids[k]? = some c := by
  have hkeys : ((positions ids).map (·.1)).Nodup := by
    unfold positions
    rw [List.zipIdx_map_fst]
    exact h
  rw [lastEntry_eq_some hkeys]
  exact List.mem_zipIdx_iff_getElem?

theorem isSome_lastEntry_positions {ids : List ChunkId} (h : ids.Nodup) {c : ChunkId} :
    (lastEntry (positions ids) c).isSome = true ↔ c ∈ ids := by
  rw [Option.isSome_iff_exists, List.mem_iff_getElem?]
  exact exists_congr fun k => lastEntry_positions h

/-- The rank column of a list of places. -/
def rankOf (places : List (ChunkId × ℕ)) (c : ChunkId) : Option (BitVec 64) :=
  (lastEntry places c).map (BitVec.ofNat 64)

/-- Ranks below `2^64` are pairwise different. -/
theorem nodup_filterMap_rankOf {ids among : List ChunkId} (h : ids.Nodup) (hamong : among.Nodup)
    (hlen : ids.length ≤ 2 ^ 64) : (among.filterMap (rankOf (positions ids))).Nodup := by
  refine List.Nodup.filterMap ?_ hamong
  intro c c' rank hc hc'
  obtain ⟨k, hk, hrank⟩ := Option.map_eq_some_iff.mp hc
  obtain ⟨k', hk', hrank'⟩ := Option.map_eq_some_iff.mp hc'
  rw [lastEntry_positions h] at hk hk'
  have hlt : k < ids.length := (List.getElem?_eq_some_iff.mp hk).1
  have hlt' : k' < ids.length := (List.getElem?_eq_some_iff.mp hk').1
  have heq : k = k' := by
    have hval := congrArg BitVec.toNat (hrank.trans hrank'.symm)
    rw [BitVec.toNat_ofNat, BitVec.toNat_ofNat, Nat.mod_eq_of_lt (by omega),
      Nat.mod_eq_of_lt (by omega)] at hval
    exact hval
  rw [heq, hk'] at hk
  exact (Option.some.inj hk).symm

/-! ## The pool -/

/-- What a candidate pool is: different chunks, at most as many as the cap of the request, with
finite scores. -/
structure EpisodePool (plan : SearchPlan) (candidates : List Scored) : Prop where
  nodup : (scoredIds candidates).Nodup
  capped : candidates.length ≤ plan.outcomeCandidateCap
  finite : ∀ s ∈ candidates, s.2.isFinite = true

theorem length_applyVisibilityFilter_le {b : SearchBackend} {policy : VisibilityPolicy} {now : ℤ} :
    ∀ (k : ℕ) (ranked : List Scored), (applyVisibilityFilter b policy now k ranked).length ≤ k
  | 0, ranked => by
    rw [applyVisibilityFilter]
    exact Nat.le_refl 0
  | k + 1, [] => by
    simp [applyVisibilityFilter]
  | k + 1, (c, score) :: ranked => by
    rw [applyVisibilityFilter]
    split
    · split
      · rw [List.length_cons]
        exact Nat.succ_le_succ (length_applyVisibilityFilter_le k ranked)
      · exact length_applyVisibilityFilter_le (k + 1) ranked
    · exact length_applyVisibilityFilter_le (k + 1) ranked

/-- A row that passes keeps the score of its hit. -/
theorem applyVisibilityFilter_scores {b : SearchBackend} {policy : VisibilityPolicy} {now : ℤ} :
    ∀ (k : ℕ) (ranked : List Scored),
      ∀ s ∈ applyVisibilityFilter b policy now k ranked, ∃ s₀ ∈ ranked, s.2 = s₀.2
  | 0, ranked, s, h => by
    rw [applyVisibilityFilter] at h
    cases h
  | k + 1, [], s, h => by
    simp [applyVisibilityFilter] at h
  | k + 1, (c, score) :: ranked, s, h => by
    have hrest : ∀ k', s ∈ applyVisibilityFilter b policy now k' ranked →
        ∃ s₀ ∈ (c, score) :: ranked, s.2 = s₀.2 := by
      intro k' h'
      obtain ⟨s₀, hs₀, heq⟩ := applyVisibilityFilter_scores k' ranked s h'
      exact ⟨s₀, List.mem_cons_of_mem _ hs₀, heq⟩
    rw [applyVisibilityFilter] at h
    split at h
    · split at h
      · rcases List.mem_cons.mp h with rfl | h
        · exact ⟨(c, score), List.mem_cons_self, rfl⟩
        · exact hrest k h
      · exact hrest (k + 1) h
    · exact hrest (k + 1) h

/-- **What reaches the pool is a pool**: the candidates of a merge have different ids, and the
visibility filter caps them. -/
theorem episodePool_poolCandidates (e : SearchEnv) (plan : SearchPlan) (params : SearchParams)
    {scored : List Scored} (hnodup : (scoredIds scored).Nodup)
    (hfinite : ∀ s ∈ scored, s.2.isFinite = true) :
    EpisodePool plan (e.poolCandidates plan params scored) where
  nodup := hnodup.sublist (SearchEnv.poolCandidates_ids e plan params scored)
  capped := length_applyVisibilityFilter_le _ _
  finite s hs := by
    unfold SearchEnv.poolCandidates at hs
    obtain ⟨s₀, hs₀, heq⟩ := applyVisibilityFilter_scores _ _ s hs
    rw [heq]
    split at hs₀
    · exact hfinite s₀ (List.mem_of_mem_filter hs₀)
    · exact hfinite s₀ hs₀

/-- What the outcome stage makes of the candidates. -/
structure RankedPool (candidates : List Scored) (pool : OutcomeRankedPool) : Prop where
  base : pool.base = candidates
  served : pool.served = candidates
  shadow : pool.shadowRanks = [] ∨
    ∃ ids, ids.Perm (scoredIds candidates) ∧ pool.shadowRanks = positions ids

theorem rankedPool_outcomeRankCandidatePool {x : SearchExternals} {b : SearchBackend} {t : TenantId}
    {project : Option String} {candidates : List Scored} {mode : RankingPolicyMode} {time : ℤ}
    {pool : OutcomeRankedPool}
    (h : outcomeRankCandidatePool x b t project candidates mode time = .ok pool) :
    RankedPool candidates pool := by
  unfold outcomeRankCandidatePool at h
  split at h
  · cases h
  · cases h
    exact ⟨rfl, rfl, .inl rfl⟩
  · obtain ⟨adjustments, -, h⟩ := except_bind_eq_ok.mp h
    cases h
    exact ⟨rfl, rfl, .inr ⟨_, (List.perm_insertionSort _ _).map _, rfl⟩⟩

/-- The adjustments are what the store returns for the priors, bounded. -/
def FinitePriors (b : SearchBackend) : Prop :=
  ∀ t project ids time priors, b.outcomePriors t project ids time = .ok priors →
    ∀ p ∈ priors, p.2.isFinite = true

theorem finite_adjustments {x : SearchExternals} {b : SearchBackend} (hb : FinitePriors b)
    {t : TenantId} {project : Option String} {candidates : List Scored} {mode : RankingPolicyMode}
    {time : ℤ} {pool : OutcomeRankedPool}
    (h : outcomeRankCandidatePool x b t project candidates mode time = .ok pool) (c : ChunkId) :
    F32.isFinite ((lastEntry pool.adjustments c).getD 0#32) = true := by
  have hall : ∀ p ∈ pool.adjustments, p.2.isFinite = true := by
    unfold outcomeRankCandidatePool at h
    split at h
    · cases h
    · cases h
      intro p hp
      cases hp
    · obtain ⟨adjustments, hpriors, h⟩ := except_bind_eq_ok.mp h
      cases h
      exact hb _ _ _ _ _ (tool_eq_ok hpriors)
  cases hc : lastEntry pool.adjustments c with
  | none => decide
  | some a =>
    show F32.isFinite a = true
    exact hall (c, a) (mem_of_lastEntry hc)

/-! ## The items -/

/-- The rendered items, in the order they were served, have the ids. -/
def ShownIn (items : List RetrievalEpisodeItem) (ids : List ChunkId) : Prop :=
  ∃ shown : List RetrievalEpisodeItem, shown.Perm (items.filter (·.rendered)) ∧
    shown.map (·.chunkId) = ids ∧
    shown.map (·.servedRank) = (List.range ids.length).map fun k => some (BitVec.ofNat 64 k)

section Recorded

variable {x : SearchExternals} {plan : SearchPlan} {params : SearchParams}
  {id : RetrievalEpisodeId} {now : ℤ} {pool : OutcomeRankedPool} {results : List ChunkResult}

/-- The ids of the results. -/
def resultIds (results : List ChunkResult) : List ChunkId :=
  results.map fun r => r.chunk.chunkId

theorem map_chunkId_items :
    (searchRetrievalEpisode x plan params id now pool results).2.map (·.chunkId) =
      scoredIds pool.base := by
  show (pool.base.zipIdx.map _).map _ = _
  rw [List.map_map]
  show pool.base.zipIdx.map ((fun s : Scored => s.1.chunkId) ∘ Prod.fst) = _
  rw [← List.map_map, List.zipIdx_map_fst]
  rfl

theorem map_originalRank_items :
    (searchRetrievalEpisode x plan params id now pool results).2.map (·.originalRank) =
      (List.range pool.base.length).map (BitVec.ofNat 64) := by
  show (pool.base.zipIdx.map _).map _ = _
  rw [List.map_map]
  show pool.base.zipIdx.map (BitVec.ofNat 64 ∘ Prod.snd) = _
  rw [← List.map_map, List.zipIdx_map_snd, List.range_eq_range']

theorem mem_items {item : RetrievalEpisodeItem}
    (h : item ∈ (searchRetrievalEpisode x plan params id now pool results).2) :
    ∃ s ∈ pool.base, ∃ rank,
      item = episodeItem x id pool (positions (resultIds results)) (s, rank) := by
  obtain ⟨⟨s, rank⟩, hmem, rfl⟩ := List.mem_map.mp h
  exact ⟨s, (List.mem_zipIdx' hmem).2 ▸ List.getElem_mem _, rank, rfl⟩

/-- The columns of an item that depend on its id only. -/
theorem columns_items {item : RetrievalEpisodeItem}
    (h : item ∈ (searchRetrievalEpisode x plan params id now pool results).2) :
    item.servedRank = rankOf (positions (resultIds results)) item.chunkId ∧
      item.shadowRank = rankOf pool.shadowRanks item.chunkId ∧
      item.rendered = (lastEntry (positions (resultIds results)) item.chunkId).isSome := by
  obtain ⟨s, -, rank, rfl⟩ := mem_items h
  exact ⟨rfl, rfl, rfl⟩

/-- A column that depends on the id only. -/
theorem filterMap_items {α : Type} {column : RetrievalEpisodeItem → Option α}
    {value : ChunkId → Option α}
    (h : ∀ item ∈ (searchRetrievalEpisode x plan params id now pool results).2,
      column item = value item.chunkId) :
    (searchRetrievalEpisode x plan params id now pool results).2.filterMap column =
      (scoredIds pool.base).filterMap value := by
  have hmap : (searchRetrievalEpisode x plan params id now pool results).2.map (·.chunkId) =
      scoredIds pool.base := map_chunkId_items
  rw [← hmap, List.filterMap_map]
  exact List.filterMap_congr h

theorem rendered_items (hids : (resultIds results).Nodup) {item : RetrievalEpisodeItem}
    (h : item ∈ (searchRetrievalEpisode x plan params id now pool results).2) :
    item.rendered = true ↔ item.chunkId ∈ resultIds results := by
  rw [(columns_items h).2.2]
  exact isSome_lastEntry_positions hids

/-- **The rendered items are the results**, as long as no result comes from outside the pool. -/
theorem shownIn_searchRetrievalEpisode (hbase : (scoredIds pool.base).Nodup)
    (hids : (resultIds results).Nodup) (hsub : resultIds results ⊆ scoredIds pool.base) :
    ShownIn (searchRetrievalEpisode x plan params id now pool results).2 (resultIds results) := by
  obtain ⟨items, hitems⟩ : ∃ items,
      items = (searchRetrievalEpisode x plan params id now pool results).2 := ⟨_, rfl⟩
  have hchunkIds : items.map (·.chunkId) = scoredIds pool.base := by
    rw [hitems]
    exact map_chunkId_items
  have hnodup : (items.map (·.chunkId)).Nodup := by
    rw [hchunkIds]
    exact hbase
  have hrendered : ∀ item ∈ items, item.rendered = true ↔ item.chunkId ∈ resultIds results := by
    intro item hmem
    rw [hitems] at hmem
    exact rendered_items hids hmem
  have hrank : ∀ item ∈ items,
      item.servedRank = rankOf (positions (resultIds results)) item.chunkId := by
    intro item hmem
    rw [hitems] at hmem
    exact (columns_items hmem).1
  rw [← hitems]
  -- each result has its item
  have hitem : ∀ c ∈ resultIds results, ∃ item ∈ items, item.chunkId = c := by
    intro c hc
    have hmem : c ∈ items.map (·.chunkId) := by
      rw [hchunkIds]
      exact hsub hc
    exact List.mem_map.mp hmem
  choose f hf hfid using hitem
  have hchunks : ((resultIds results).attach.map fun c => f c.1 c.2).map (·.chunkId) =
      resultIds results := by
    rw [List.map_map]
    have hval : ((·.chunkId) ∘ fun c : { c // c ∈ resultIds results } => f c.1 c.2) =
        Subtype.val := by
      funext c
      exact hfid c.1 c.2
    rw [hval, List.attach_map_subtype_val]
  refine ⟨(resultIds results).attach.map fun c => f c.1 c.2, ?_, hchunks, ?_⟩
  · have hshown : ((resultIds results).attach.map fun c => f c.1 c.2).Nodup :=
      List.Nodup.of_map (·.chunkId) (by rw [hchunks]; exact hids)
    have hfiltered : (items.filter (·.rendered)).Nodup :=
      (List.Nodup.of_map (·.chunkId) hnodup).filter _
    refine (List.perm_ext_iff_of_nodup hshown hfiltered).mpr fun item => ?_
    rw [List.mem_filter]
    constructor
    · intro hmem
      obtain ⟨c, -, rfl⟩ := List.mem_map.mp hmem
      refine ⟨hf c.1 c.2, (hrendered _ (hf c.1 c.2)).mpr ?_⟩
      rw [hfid c.1 c.2]
      exact c.2
    · rintro ⟨hmem, hr⟩
      have hc := (hrendered item hmem).mp hr
      have heq : f item.chunkId hc = item :=
        List.inj_on_of_nodup_map hnodup (hf _ hc) hmem (hfid _ hc)
      exact List.mem_map.mpr ⟨⟨item.chunkId, hc⟩, List.mem_attach _ _, heq⟩
  · have hranks : ((resultIds results).attach.map fun c => f c.1 c.2).map (·.servedRank) =
        ((resultIds results).attach.map fun c => f c.1 c.2).map
          (rankOf (positions (resultIds results)) ∘ (·.chunkId)) := by
      apply List.map_congr_left
      intro item hmem
      obtain ⟨c, -, rfl⟩ := List.mem_map.mp hmem
      exact hrank _ (hf c.1 c.2)
    rw [hranks, ← List.map_map, hchunks]
    apply List.ext_getElem
    · rw [List.length_map, List.length_map, List.length_range]
    · intro k hk hk'
      rw [List.length_map] at hk
      rw [List.getElem_map, List.getElem_map, List.getElem_range]
      unfold rankOf
      rw [(lastEntry_positions hids).mpr (List.getElem?_eq_getElem hk)]
      rfl

end Recorded

/-! ## The check -/

/-- A task or thread id that is not blank and not too long. -/
def ContextId (value : Option String) : Prop :=
  ∀ id ∈ value, trim id.toList ≠ [] ∧ id.utf8ByteSize ≤ 512

theorem checkContextId_ok {name : String} {value : Option String} (h : ContextId value) :
    checkContextId name value = .ok () := by
  refine rejectIf_eq_ok.mpr ?_
  cases value with
  | none => simp
  | some id =>
    obtain ⟨hblank, hlen⟩ := h id rfl
    have hlen' : ¬ 512 < id.utf8ByteSize := Nat.not_lt.mpr hlen
    simp [hblank, hlen']

/-- The texts an episode stores: a query hash is a SHA-256 digest in hexadecimal, and the two
lane scores are a short JSON object. -/
structure EpisodeTexts (isJsonObject : String → Bool) (x : SearchExternals) : Prop where
  hash : ∀ query, (x.stableQueryHash query).utf8ByteSize = 64 ∧
    (x.stableQueryHash query).toList.all isHexDigit = true
  lanes : ∀ base outcome : F32, base.isFinite = true → outcome.isFinite = true →
    (x.laneScoresJson base outcome).utf8ByteSize ≤ 4096 ∧
      isJsonObject (x.laneScoresJson base outcome) = true

theorem queryModeName_ne_blank (m : QueryMode) : trim (queryModeName m).toList ≠ [] := by
  cases m <;> decide

theorem outcomePolicyVersion_ne_blank : trim outcomePolicyVersion.toList ≠ [] := by
  decide

/-- The bounds of a checked request. -/
theorem planSearch_bounds {x : SearchExternals} {cfg : SearchConfig} {b : SearchBackend}
    {params : SearchParams} {plan : SearchPlan} (h : planSearch x cfg b params = .ok plan) :
    params.k ≤ 100 ∧ plan.outcomeCandidateCap ≤ 200 := by
  unfold planSearch at h
  obtain ⟨_, -, h⟩ := except_bind_eq_ok.mp h
  obtain ⟨_, -, h⟩ := except_bind_eq_ok.mp h
  obtain ⟨_, hk, h⟩ := except_bind_eq_ok.mp h
  obtain ⟨_, -, h⟩ := except_bind_eq_ok.mp h
  obtain ⟨_, -, h⟩ := except_bind_eq_ok.mp h
  obtain ⟨_, -, h⟩ := except_bind_eq_ok.mp h
  have hk' : ¬ (params.k < 1 ∨ 100 < params.k) := by
    intro hbad
    unfold refuseIf at hk
    rw [if_pos hbad] at hk
    cases hk
  cases h
  refine ⟨by omega, ?_⟩
  show max params.k _ ≤ 200
  omega

section Valid

variable {e : SearchEnv} {plan : SearchPlan} {params : SearchParams} {candidates : List Scored}
  {pool : OutcomeRankedPool}

/-- The results are served chunks, in the order they were served. -/
theorem resultIds_sublist {tier : Option String} {artifacts : List (ChunkId × TaskArtifact)}
    {aliases : List OriginScope} {built : List ChunkResult}
    (hbuilt : buildChunkResults e.store (SearchEnv.servedChunks params pool) tier artifacts
      params.expandEventSiblings plan.policy e.now = .ok built) :
    (resultIds (shapeMemoryResults e.y params
        (built.map (annotateChunkOrigin plan.tenantId aliases))).1).Sublist
      (scoredIds (SearchEnv.servedChunks params pool)) := by
  obtain ⟨hkeeps, -⟩ := SearchEnv.shapeMemoryResults_keeps e.y params
    (built.map (annotateChunkOrigin plan.tenantId aliases))
  obtain ⟨hchunks, -⟩ := SearchEnv.renders_buildChunkResults hbuilt
  have hmap : (built.map (annotateChunkOrigin plan.tenantId aliases)).map (fun r => r.chunk) =
      (SearchEnv.servedChunks params pool).map Prod.fst := by
    rw [List.map_map, ← hchunks]
    rfl
  rw [hmap] at hkeeps
  have hids := hkeeps.map MemoryChunk.chunkId
  rw [List.map_map, List.map_map] at hids
  exact hids

/-- **What a search records passes the check**, from the facts about pool and results. -/
theorem wellFormed_searchRetrievalEpisode {isJsonObject : String → Bool}
    (hx : EpisodeTexts isJsonObject e.x) (htask : ContextId params.taskId)
    (hthread : ContextId params.threadId) (hclock : e.now < 2 ^ 63 - 1) (hk : params.k ≤ 100)
    (hcap : plan.outcomeCandidateCap ≤ 200) (hcandidates : EpisodePool plan candidates)
    (hpool : RankedPool candidates pool)
    (hadjust : ∀ c, F32.isFinite ((lastEntry pool.adjustments c).getD 0#32) = true)
    {results : List ChunkResult} (hlen : results.length ≤ params.k)
    (hids : (resultIds results).Sublist (scoredIds candidates)) :
    WellFormed isJsonObject
      (searchRetrievalEpisode e.x plan params e.episodeId e.now pool results).1
      (searchRetrievalEpisode e.x plan params e.episodeId e.now pool results).2 := by
  have hbase : (scoredIds pool.base).Nodup := by
    rw [hpool.base]
    exact hcandidates.nodup
  have hresults : (resultIds results).Nodup := hcandidates.nodup.sublist hids
  have hsub : resultIds results ⊆ scoredIds pool.base := by
    rw [hpool.base]
    exact hids.subset
  have hpoolLen : pool.base.length ≤ 200 := by
    rw [hpool.base]
    exact hcandidates.capped.trans hcap
  obtain ⟨shown, hperm, hshown, -⟩ :
      ShownIn (searchRetrievalEpisode e.x plan params e.episodeId e.now pool results).2
        (resultIds results) :=
    shownIn_searchRetrievalEpisode hbase hresults hsub
  refine ⟨⟨hx.hash _, ⟨queryModeName_ne_blank _, outcomePolicyVersion_ne_blank⟩,
    checkContextId_ok htask, checkContextId_ok hthread, ?_⟩, rfl, ⟨?_, ?_, ?_⟩, ?_, ?_, ?_, ?_,
    ?_, ?_⟩
  -- the record expires behind the present, also where the sum saturates
  · show e.now < min (e.now + retrievalEpisodeTtlMs) (2 ^ 63 - 1)
    unfold retrievalEpisodeTtlMs
    omega
  · show params.k ≤ 200
    omega
  · show (pool.base.zipIdx.map _).length ≤ 200
    rw [List.length_map, List.length_zipIdx]
    exact hpoolLen
  · show results.length ≤ 200
    omega
  -- as many items are shown as results were answered
  · show results.length = _
    have hcount := congrArg List.length hshown
    rw [List.length_map] at hcount
    rw [← hperm.length_eq, hcount]
    exact (List.length_map _).symm
  -- scores and lanes of an item are finite, and what was shown has a position
  · intro item hitem
    obtain ⟨s, hs, rank, rfl⟩ := mem_items hitem
    have hscore : s.2.isFinite = true := by
      rw [hpool.base] at hs
      exact hcandidates.finite s hs
    exact ⟨rfl, ⟨hscore, hadjust _⟩, hx.lanes _ _ hscore (hadjust _), fun hr => by
      rw [(columns_items hitem).1]
      unfold rankOf
      rw [Option.isSome_map]
      exact hr⟩
  -- no chunk is recorded twice, and no two share a rank
  · rw [map_chunkId_items]
    exact hbase
  · rw [map_originalRank_items]
    refine List.Nodup.map_on ?_ List.nodup_range
    intro i hi j hj heq
    rw [List.mem_range] at hi hj
    have hval := congrArg BitVec.toNat heq
    rw [BitVec.toNat_ofNat, BitVec.toNat_ofNat, Nat.mod_eq_of_lt (by omega),
      Nat.mod_eq_of_lt (by omega)] at hval
    exact hval
  · rw [filterMap_items fun item h => (columns_items h).1]
    exact nodup_filterMap_rankOf hresults hbase (by
      have : (resultIds results).length = results.length := List.length_map _
      omega)
  -- without outcome priors no shadow rank is recorded
  · rw [filterMap_items fun item h => (columns_items h).2.1]
    rcases hpool.shadow with hnil | ⟨ids, hperm', hshadow⟩
    · rw [hnil]
      have hnone : rankOf ([] : List (ChunkId × ℕ)) = fun _ => none := by
        funext c
        rfl
      rw [hnone, List.filterMap_none]
      exact List.nodup_nil
    · rw [hshadow]
      refine nodup_filterMap_rankOf (hperm'.nodup_iff.mpr hcandidates.nodup) hbase ?_
      rw [hperm'.length_eq]
      have : (scoredIds candidates).length = candidates.length := List.length_map _
      have := hcandidates.capped
      omega

end Valid

/-- **A search never fails on its own episode.**  For every request that is planned, every pool
of finite scores, whatever is ranked, deduplicated, cut, rendered, compacted or packed: the
episode and the items pass `validateRetrievalEpisode`, the rendered items are the results that
are returned, in the order of their served ranks, and a store that takes valid episodes takes
this one. -/
theorem recorded_valid (isJsonObject : String → Bool) (e : SearchEnv) (params : SearchParams)
    (hx : EpisodeTexts isJsonObject e.x) (hpriors : FinitePriors e.store)
    (htask : ContextId params.taskId) (hthread : ContextId params.threadId)
    (hclock : e.now < 2 ^ 63 - 1) (plan : SearchPlan)
    (hplan : planSearch e.x e.cfg e.store params = .ok plan) (candidates : List Scored)
    (hcandidates : EpisodePool plan candidates) (pool : OutcomeRankedPool)
    (hpool : outcomeRankCandidatePool e.x e.store plan.tenantId params.projectId candidates
      (params.rankingPolicy.getD .shadow) (params.rankingTimeMs.getD e.now) = .ok pool)
    (tier : Option String) (artifacts : List (ChunkId × TaskArtifact)) (aliases : List OriginScope)
    (built : List ChunkResult)
    (hbuilt : buildChunkResults e.store (SearchEnv.servedChunks params pool) tier artifacts
      params.expandEventSiblings plan.policy e.now = .ok built) :
    let results := (shapeMemoryResults e.y params
      (built.map (annotateChunkOrigin plan.tenantId aliases))).1
    let recorded := searchRetrievalEpisode e.x plan params e.episodeId e.now pool results
    validateRetrievalEpisode isJsonObject recorded.1 recorded.2 = .ok () ∧
      ShownIn recorded.2 (resultIds results) ∧
      ((∀ episode items, validateRetrievalEpisode isJsonObject episode items = .ok () →
          e.store.recordRetrievalEpisode episode items = .ok ()) →
        ∃ r, e.recordEpisode plan params pool results = .ok r) := by
  intro results recorded
  have hranked := rankedPool_outcomeRankCandidatePool hpool
  obtain ⟨hk, hcap⟩ := planSearch_bounds hplan
  obtain ⟨hservedLen, hserved, -⟩ := SearchEnv.servedChunks_spec params pool
  have hsub : (resultIds results).Sublist (scoredIds (SearchEnv.servedChunks params pool)) :=
    resultIds_sublist hbuilt
  have hids : (resultIds results).Sublist (scoredIds candidates) := by
    rw [hranked.served] at hserved
    exact hsub.trans hserved
  have hlen : results.length ≤ params.k := by
    have hle := hsub.length_le
    unfold resultIds scoredIds at hle
    rw [List.length_map, List.length_map] at hle
    exact hle.trans hservedLen
  have hvalid : validateRetrievalEpisode isJsonObject recorded.1 recorded.2 = .ok () :=
    validateRetrievalEpisode_eq_ok.mpr (wellFormed_searchRetrievalEpisode hx htask hthread hclock
      hk hcap hcandidates hranked (finite_adjustments hpriors hpool) hlen hids)
  refine ⟨hvalid, ?_, ?_⟩
  · apply shownIn_searchRetrievalEpisode
    · rw [hranked.base]
      exact hcandidates.nodup
    · exact hcandidates.nodup.sublist hids
    · rw [hranked.base]
      exact hids.subset
  · intro hstore
    unfold SearchEnv.recordEpisode
    split
    · exact ⟨none, rfl⟩
    · refine ⟨some recorded, except_bind_eq_ok.mpr ⟨(), ?_, rfl⟩⟩
      show tool (e.store.recordRetrievalEpisode recorded.1 recorded.2) = .ok ()
      rw [hstore _ _ hvalid]
      rfl

/-- The hash of `no-te!`. -/
def recordedHash : String :=
  "e2371d2c67e3a0257ba827f83b402b8c869c4b24201c338f83d19a23dee07957"

/-- The lane scores of a candidate of score 1.0 without an adjustment. -/
def recordedLanes : String :=
  "\x7b\"base\":1.0,\"outcome\":0.0\x7d"

/-- The store of one note, with the texts a request for `no-te!` is recorded with. -/
def recordingEnv : SearchEnv :=
  { SearchEnv.sampleEnv with
    x := { SearchEnv.sampleExternals with
      stableQueryHash := fun _ => recordedHash
      laneScoresJson := fun _ _ => recordedLanes } }

/-- One candidate, which is the one result and the one rendered item. -/
theorem recorded_valid_sampleRepair :
    ∃ (plan : SearchPlan) (pool : OutcomeRankedPool) (built : List ChunkResult),
      outcomeRankCandidatePool recordingEnv.x recordingEnv.store plan.tenantId none
          [(SearchEnv.sampleNote, 0x3F800000#32)] .shadow 2000 = .ok pool ∧
      (let results := (shapeMemoryResults recordingEnv.y SearchEnv.sampleRepair
          (built.map (annotateChunkOrigin plan.tenantId []))).1
        let recorded := searchRetrievalEpisode recordingEnv.x plan SearchEnv.sampleRepair 7 2000
          pool results
        validateRetrievalEpisode (· == recordedLanes) recorded.1 recorded.2
            = .ok () ∧
          ShownIn recorded.2 (resultIds results)) := by
  obtain ⟨plan, hplan⟩ : ∃ plan, planSearch recordingEnv.x recordingEnv.cfg recordingEnv.store
      SearchEnv.sampleRepair = .ok plan := SearchEnv.exists_of_toOption (by decide)
  have hcap : (planSearch recordingEnv.x recordingEnv.cfg recordingEnv.store
      SearchEnv.sampleRepair).toOption.map (·.outcomeCandidateCap) = some 80 := by
    decide
  rw [hplan] at hcap
  have hcap' : plan.outcomeCandidateCap = 80 := Option.some.inj hcap
  have hcandidates : EpisodePool plan [(SearchEnv.sampleNote, 0x3F800000#32)] :=
    ⟨List.nodup_singleton _, by rw [hcap']; decide,
      fun s hs => by rw [List.mem_singleton.mp hs]; decide⟩
  obtain ⟨pool, hpool⟩ : ∃ pool, outcomeRankCandidatePool recordingEnv.x recordingEnv.store
      plan.tenantId none [(SearchEnv.sampleNote, 0x3F800000#32)] .shadow 2000 = .ok pool :=
    SearchEnv.exists_of_toOption rfl
  have hserved : SearchEnv.servedChunks SearchEnv.sampleRepair pool =
      [(SearchEnv.sampleNote, 0x3F800000#32)] := by
    unfold SearchEnv.servedChunks
    rw [(rankedPool_outcomeRankCandidatePool hpool).served]
    rfl
  obtain ⟨built, hbuilt⟩ : ∃ built, buildChunkResults recordingEnv.store
      (SearchEnv.servedChunks SearchEnv.sampleRepair pool) none [] false plan.policy 2000
        = .ok built := by
    rw [hserved]
    exact SearchEnv.exists_of_toOption rfl
  have hhash : recordedHash.utf8ByteSize = 64 ∧ recordedHash.toList.all isHexDigit = true := by
    decide
  have hlanes : recordedLanes.utf8ByteSize ≤ 4096 ∧ (recordedLanes == recordedLanes) = true := by
    decide
  have htexts : EpisodeTexts (· == recordedLanes) recordingEnv.x :=
    ⟨fun _ => hhash, fun _ _ _ _ => hlanes⟩
  have hpriors : FinitePriors recordingEnv.store := by
    intro t project ids time priors h p hp
    cases h
    cases hp
  have hvalid := recorded_valid _ recordingEnv SearchEnv.sampleRepair htexts hpriors
    (fun id hid => by cases hid) (fun id hid => by cases hid) (by decide) plan hplan _ hcandidates
    pool hpool none [] [] built hbuilt
  exact ⟨plan, pool, built, hpool, hvalid.1, hvalid.2.1⟩
