/-
# Packing artifact hits

`pack_artifact_hits` gives each hit of an artifact search to the packer as a chunk, and finds the
hits of the selected chunks again through a map from chunk ids to places.  A hit's chunk id is
that of the chunk it matched, and several hits can match one chunk; the map then holds the place
of the last of them, while the packer tells hits apart by artifact and text.

* `selectedPlaces` — what the packer selects, as places of hits: the packer copies the ids it is
  given, so it can be asked with the places themselves (`pack_artifactInputs`);
* `indexByChunkId_eq_some` — the map holds the last place of each id;
* `artifact_packing_iff` — when the hits that are kept are the selected ones.
-/
import Mathlib.Data.List.Induction
import Memd.PackingLaw

open ContextPacker

/-! ## The code -/

/-- What packing reads of a hit; everything else is handed through. -/
structure ArtifactSearchHit (F : Type) where
  artifactId : String
  summary : Option String
  score : F
  matchedChunkId : Option String
  matchedText : Option String
  deriving DecidableEq, Repr

/-- How the ids of hits are read, and which id stands in where that fails. -/
structure ChunkIdSource (ι : Type) where
  /-- `ChunkId::parse` -/
  parse : String → Option ι
  /-- `ChunkId::new`, for the hit at a place -/
  new : ℕ → ι

section Code

variable {ι F : Type} [DecidableEq ι]

/-- The chunk id a hit is packed under. -/
def ChunkIdSource.idOf (x : ChunkIdSource ι) (hit : ArtifactSearchHit F) (idx : ℕ) : ι :=
  (hit.matchedChunkId.bind x.parse).getD (x.new idx)

/-- The text a hit is packed with. -/
def ArtifactSearchHit.packedText (hit : ArtifactSearchHit F) : String :=
  (hit.matchedText.or hit.summary).getD hit.artifactId

/-- What the packer is given of a hit. -/
def ArtifactSearchHit.packerInput (hit : ArtifactSearchHit F) (id : ι) : PackerInput ι F where
  chunkId := id
  text := hit.packedText
  chunkType := .summary
  score := hit.score
  hash := s!"{hit.artifactId}:{hit.packedText}"
  embedding := none
  sourceUri := none

/-- `index_by_chunk_id`: inserting a place replaces the one before. -/
def indexByChunkId (ids : List ι) : ι → Option ℕ :=
  ids.zipIdx.foldl (fun index e => Function.update index e.1 (some e.2)) fun _ => none

/-- The chunk ids of the hits. -/
def artifactIds (x : ChunkIdSource ι) (hits : List (ArtifactSearchHit F)) : List ι :=
  hits.zipIdx.map fun e => x.idOf e.1 e.2

/-- What the packer is given of the hits. -/
def artifactInputs (x : ChunkIdSource ι) (hits : List (ArtifactSearchHit F)) :
    List (PackerInput ι F) :=
  hits.zipIdx.map fun e => e.1.packerInput (x.idOf e.1 e.2)

/-- `selected_indexes`. -/
def selectedIndexes (ids : List ι) (packed : PackedContext ι F) : List ℕ :=
  packed.chunks.filterMap fun c => indexByChunkId ids c.chunkId

/-- The hits at some places, in their order. -/
def hitsAt (hits : List (ArtifactSearchHit F)) (places : List ℕ) : List (ArtifactSearchHit F) :=
  (hits.zipIdx.filter fun e => places.contains e.2).map Prod.fst

/-- `pack_artifact_hits`: the hits kept, how many were dropped, how many as duplicates, and
whether the budget cut something; the configuration is the default one. -/
def packArtifactHits (o : FloatOps F) (lambda threshold : F) (x : ChunkIdSource ι)
    (hits : List (ArtifactSearchHit F)) (budget : Option ℕ) :
    Option (List (ArtifactSearchHit F) × ℕ × ℕ × Bool) :=
  match budget with
  | none => some (hits, 0, 0, false)
  | some maxTokens =>
    if hits.isEmpty then some (hits, 0, 0, false)
    else
      (pack o { PackerConfig.default lambda threshold with maxTokens := maxTokens }
          (artifactInputs x hits)).map fun packed =>
        let kept := hitsAt hits (selectedIndexes (artifactIds x hits) packed)
        let dropped := hits.length - kept.length
        (kept, dropped, packed.duplicatesRemoved,
          decide (0 < dropped ∨ maxTokens ≤ packed.totalTokens))

end Code

/-! ## The last place of an id -/

section Index

variable {ι : Type} [DecidableEq ι]

theorem indexByChunkId_concat (ids : List ι) (c : ι) :
    indexByChunkId (ids ++ [c]) =
      Function.update (indexByChunkId ids) c (some ids.length) := by
  unfold indexByChunkId
  rw [List.zipIdx_append, List.foldl_append]
  simp

/-- No later entry is the same. -/
def LastOf (ids : List ι) (i : ℕ) : Prop :=
  ∀ j, i < j → ids[j]? ≠ ids[i]?

/-- **The map** holds the last place of each id. -/
theorem indexByChunkId_eq_some {ids : List ι} {c : ι} {i : ℕ} :
    indexByChunkId ids c = some i ↔ ids[i]? = some c ∧ LastOf ids i := by
  induction ids using List.reverseRecOn generalizing i with
  | nil => simp [indexByChunkId]
  | append_singleton ids a ih =>
    rw [indexByChunkId_concat]
    by_cases hc : c = a
    -- the id of the new place: the map now holds this place, and it is the last one
    · subst hc
      rw [Function.update_self, Option.some.injEq]
      constructor
      · rintro rfl
        refine ⟨List.getElem?_concat_length, fun j hj => ?_⟩
        rw [List.getElem?_concat_length, List.getElem?_eq_none (by simp; omega)]
        exact fun h => by cases h
      · rintro ⟨hi, hlast⟩
        by_contra hne
        have hlt : i < ids.length := by
          have hle : i < (ids ++ [c]).length := (List.getElem?_eq_some_iff.mp hi).1
          rw [List.length_append, List.length_singleton] at hle
          omega
        exact hlast ids.length hlt (by rw [List.getElem?_concat_length, hi])
    -- another id: its last place is one of those before
    · rw [Function.update_of_ne hc, ih]
      constructor
      · rintro ⟨hi, hlast⟩
        have hlt : i < ids.length := (List.getElem?_eq_some_iff.mp hi).1
        have hi' : (ids ++ [a])[i]? = some c := by
          rw [List.getElem?_append_left hlt]
          exact hi
        refine ⟨hi', fun j hj hsame => ?_⟩
        rw [hi'] at hsame
        rcases Nat.lt_trichotomy j ids.length with hj' | rfl | hj'
        · rw [List.getElem?_append_left hj'] at hsame
          exact hlast j hj (by rw [hsame, hi])
        · rw [List.getElem?_concat_length] at hsame
          exact hc (Option.some.inj hsame).symm
        · rw [List.getElem?_eq_none (by simp; omega)] at hsame
          cases hsame
      · rintro ⟨hi, hlast⟩
        have hlt : i < ids.length := by
          have hle : i < (ids ++ [a]).length := (List.getElem?_eq_some_iff.mp hi).1
          rw [List.length_append, List.length_singleton] at hle
          have hne : i ≠ ids.length := by
            rintro rfl
            rw [List.getElem?_concat_length] at hi
            exact hc (Option.some.inj hi).symm
          omega
        have happend : (ids ++ [a])[i]? = ids[i]? := List.getElem?_append_left hlt
        have hi' : ids[i]? = some c := by
          rw [← happend]
          exact hi
        refine ⟨hi', fun j hj hsame => ?_⟩
        rw [hi'] at hsame
        have hj' : j < ids.length := (List.getElem?_eq_some_iff.mp hsame).1
        exact hlast j hj (by rw [List.getElem?_append_left hj', hsame, hi])

omit [DecidableEq ι] in
/-- Without repeated ids every place is the last one. -/
theorem lastOf_of_nodup {ids : List ι} (h : ids.Nodup) {i : ℕ} (hi : i < ids.length) :
    LastOf ids i := by
  intro j hj hsame
  have heq : i = j := (List.getElem?_inj hi h).mp hsame.symm
  omega

/-- A place is found again exactly if it is the last one of its id. -/
theorem indexByChunkId_self {ids : List ι} {i : ℕ} {c : ι} (h : ids[i]? = some c) :
    indexByChunkId ids c = some i ↔ LastOf ids i := by
  rw [indexByChunkId_eq_some]
  exact and_iff_right h

end Index

/-! ## What the packer selects -/

section Selected

variable {ι F : Type} {o : FloatOps F} {cfg : PackerConfig F} {x : ChunkIdSource ι}
  {hits : List (ArtifactSearchHit F)}

/-- The hits as they are packed, under their places. -/
def placedInputs (hits : List (ArtifactSearchHit F)) : List (PackerInput ℕ F) :=
  hits.zipIdx.map fun e => e.1.packerInput e.2

/-- The places of the hits that the packer selects, in the order of its output. -/
def selectedPlaces (o : FloatOps F) (cfg : PackerConfig F) (hits : List (ArtifactSearchHit F)) :
    Option (List ℕ) :=
  (pack o cfg (placedInputs hits)).map fun out => out.chunks.map (·.chunkId)

/-- The places of the hits that `deduplicate_by_hash` keeps. -/
def distinctPlaces (o : FloatOps F) (hits : List (ArtifactSearchHit F)) : List ℕ :=
  (distinctChunks o (placedInputs hits)).map (·.chunkId)

theorem length_artifactIds : (artifactIds x hits).length = hits.length := by
  rw [artifactIds, List.length_map, List.length_zipIdx]

theorem map_chunkId_placedInputs :
    (placedInputs hits).map (·.chunkId) = List.range hits.length := by
  unfold placedInputs
  rw [List.map_map]
  show hits.zipIdx.map Prod.snd = _
  rw [List.zipIdx_map_snd, List.range_eq_range']

/-- The id of the hit at a place. -/
def idAt (x : ChunkIdSource ι) (hits : List (ArtifactSearchHit F)) (i : ℕ) : ι :=
  (artifactIds x hits)[i]?.getD (x.new i)

theorem getElem?_artifactIds {i : ℕ} (h : i < hits.length) :
    (artifactIds x hits)[i]? = some (idAt x hits i) := by
  have hlt : i < (artifactIds x hits).length := by
    rw [length_artifactIds]
    exact h
  unfold idAt
  rw [List.getElem?_eq_getElem hlt]
  rfl

/-- **The hits as they are packed** are the placed ones under other ids. -/
theorem pack_artifactInputs :
    pack o cfg (artifactInputs x hits) =
      (pack o cfg (placedInputs hits)).map (PackedContext.relabel (idAt x hits)) := by
  have hinputs : artifactInputs x hits =
      (placedInputs hits).map (PackerInput.relabel (idAt x hits)) := by
    unfold artifactInputs placedInputs
    rw [List.map_map]
    apply List.map_congr_left
    rintro ⟨hit, i⟩ hmem
    obtain ⟨hi, hhit⟩ := List.mem_zipIdx' hmem
    have hid : idAt x hits i = x.idOf hit i := by
      have hget : (artifactIds x hits)[i]? = some (x.idOf hit i) := by
        unfold artifactIds
        rw [List.getElem?_map, List.getElem?_zipIdx, List.getElem?_eq_getElem hi]
        simp [hhit]
      unfold idAt
      rw [hget]
      rfl
    show hit.packerInput (x.idOf hit i) = (hit.packerInput i).relabel (idAt x hits)
    rw [← hid]
    rfl
  rw [hinputs, pack_relabel]

/-- The selected places are distinct places of hits that are kept for their hash. -/
theorem selectedPlaces_of_fits (o : FloatOps F) (hits : List (ArtifactSearchHit F))
    (hcpt : 1 ≤ cfg.charsPerToken) (hbudget : cfg.maxTokens * cfg.charsPerToken < 2 ^ 64)
    (hbytes : totalBytes (placedInputs hits) < 2 ^ 64) :
    ∃ places, selectedPlaces o cfg hits = some places ∧
      places.Nodup ∧ places ⊆ distinctPlaces o hits ∧
        (totalBytes (distinctChunks o (placedInputs hits)) ≤ cfg.maxTokens * cfg.charsPerToken →
          distinctPlaces o hits ⊆ places) := by
  by_cases hnil : placedInputs hits = []
  · refine ⟨[], ?_, List.nodup_nil, List.nil_subset _, fun _ => ?_⟩
    · unfold selectedPlaces
      rw [hnil]
      rfl
    · unfold distinctPlaces
      rw [hnil]
      exact List.Subset.refl _
  · obtain ⟨adjustments, hpack⟩ := pack_eq_some (o := o) hcpt hbudget hbytes hnil
    obtain ⟨selected, hselected⟩ : ∃ selected, selected =
        Greedy.takeWithin PackerInput.bytes (cfg.maxTokens * cfg.charsPerToken)
          (offered o cfg (placedInputs hits)) := ⟨_, rfl⟩
    rw [← hselected] at hpack
    have hdistinct : selected.Subperm (distinctChunks o (placedInputs hits)) := by
      rw [hselected]
      exact (Greedy.takeWithin_isPrefix _ _).sublist.subperm.trans offered_subperm
    refine ⟨selected.map (·.chunkId), ?_, ?_, ?_, ?_⟩
    · unfold selectedPlaces
      rw [hpack]
      show some ((selected.map _).map _) = _
      rw [List.map_map]
      rfl
    · obtain ⟨l, hperm, hsub⟩ := hdistinct.trans distinctChunks_subperm
      refine (hperm.map _).nodup_iff.mp (List.Nodup.sublist (hsub.map _) ?_)
      rw [map_chunkId_placedInputs]
      exact List.nodup_range
    · exact List.map_subset _ hdistinct.subset
    · intro hroom
      have hnone : ∀ c ∈ placedInputs hits, c.embedding = none := by
        intro c hc
        obtain ⟨e, -, rfl⟩ := List.mem_map.mp hc
        rfl
      have hperm : (offered o cfg (placedInputs hits)).Perm
          (distinctChunks o (placedInputs hits)) := offered_perm_distinctChunks hnone
      have hall : selected = offered o cfg (placedInputs hits) := by
        rw [hselected]
        apply Greedy.takeWithin_eq_self
        exact (totalBytes_le_of_subperm hperm.subperm).trans hroom
      rw [hall]
      exact List.map_subset _ hperm.symm.subset

end Selected

/-! ## The hits that are kept -/

section Kept

variable {ι F : Type} [DecidableEq ι] {o : FloatOps F} {lambda threshold : F}
  {x : ChunkIdSource ι} {hits : List (ArtifactSearchHit F)} {maxTokens : ℕ}

/-- The configuration of a budget. -/
def budgetConfig (lambda threshold : F) (maxTokens : ℕ) : PackerConfig F :=
  { PackerConfig.default lambda threshold with maxTokens := maxTokens }

/-- The hits that are kept are those the packer selects, place by place and in their order, and
the number of the others is reported. -/
def KeepsSelected (o : FloatOps F) (lambda threshold : F) (x : ChunkIdSource ι)
    (hits : List (ArtifactSearchHit F)) (maxTokens : ℕ) : Prop :=
  ∃ places packed duplicates truncated,
    selectedPlaces o (budgetConfig lambda threshold maxTokens) hits = some places ∧
      pack o (budgetConfig lambda threshold maxTokens) (artifactInputs x hits) = some packed ∧
      (∀ i, i ∈ selectedIndexes (artifactIds x hits) packed ↔ i ∈ places) ∧
      packArtifactHits o lambda threshold x hits (some maxTokens) =
        some (hitsAt hits places, hits.length - places.length, duplicates, truncated)

theorem hitsAt_congr {places places' : List ℕ} (h : ∀ i, i ∈ places ↔ i ∈ places') :
    hitsAt hits places = hitsAt hits places' := by
  unfold hitsAt
  congr 1
  apply List.filter_congr
  intro e _
  rw [Bool.eq_iff_iff, List.contains_iff_mem, List.contains_iff_mem]
  exact h e.2

theorem length_hitsAt {places : List ℕ} (hnodup : places.Nodup)
    (hlt : ∀ i ∈ places, i < hits.length) : (hitsAt hits places).length = places.length := by
  have hmap : (hits.zipIdx.filter fun e => places.contains e.2).map Prod.snd =
      (List.range hits.length).filter fun i => places.contains i := by
    rw [List.range_eq_range', ← List.zipIdx_map_snd 0 hits, List.filter_map]
    rfl
  have hperm : ((List.range hits.length).filter fun i => places.contains i).Perm places := by
    refine (List.perm_ext_iff_of_nodup (List.nodup_range.filter _) hnodup).mpr fun i => ?_
    rw [List.mem_filter, List.mem_range, List.contains_iff_mem]
    exact ⟨fun h => h.2, fun h => ⟨hlt i h, h⟩⟩
  unfold hitsAt
  rw [List.length_map, ← hperm.length_eq, ← hmap, List.length_map]

/-- Looking the ids of some places up leads to the same places exactly if each is the last one
of its id. -/
theorem lookups_eq_iff {ids : List ι} {id : ℕ → ι} {places : List ℕ}
    (h : ∀ i ∈ places, ids[i]? = some (id i)) :
    (∀ i, i ∈ places.filterMap (fun i => indexByChunkId ids (id i)) ↔ i ∈ places) ↔
      ∀ i ∈ places, LastOf ids i := by
  constructor
  · intro hsame i hi
    obtain ⟨j, hj, hij⟩ := List.mem_filterMap.mp ((hsame i).mpr hi)
    -- the place that leads here has the same id, so this one leads here too
    exact (indexByChunkId_eq_some.mp hij).2
  · intro hlast i
    rw [List.mem_filterMap]
    constructor
    · rintro ⟨j, hj, hij⟩
      rw [(indexByChunkId_self (h j hj)).mpr (hlast j hj)] at hij
      rwa [← Option.some.inj hij]
    · intro hi
      exact ⟨i, hi, (indexByChunkId_self (h i hi)).mpr (hlast i hi)⟩

theorem lt_of_mem_distinctPlaces {i : ℕ} (h : i ∈ distinctPlaces o hits) : i < hits.length := by
  obtain ⟨c, hc, rfl⟩ := List.mem_map.mp h
  have hmem : c.chunkId ∈ (placedInputs hits).map (·.chunkId) :=
    List.mem_map_of_mem (distinctChunks_subperm.subset hc)
  rw [map_chunkId_placedInputs, List.mem_range] at hmem
  exact hmem

/-- **One budget**: the hits that are kept are the selected ones exactly if no selected hit
shares its chunk id with a later one. -/
theorem keepsSelected_iff (hbudget : maxTokens * 4 < 2 ^ 64)
    (hbytes : totalBytes (placedInputs hits) < 2 ^ 64) :
    KeepsSelected o lambda threshold x hits maxTokens ↔
      ∀ places, selectedPlaces o (budgetConfig lambda threshold maxTokens) hits = some places →
        ∀ i ∈ places, LastOf (artifactIds x hits) i := by
  have hcpt : 1 ≤ (budgetConfig lambda threshold maxTokens).charsPerToken := by
    show 1 ≤ 4
    decide
  obtain ⟨places, hplaces, hnodup, hsub, -⟩ :=
    selectedPlaces_of_fits o hits hcpt hbudget hbytes
  have hlt : ∀ i ∈ places, i < hits.length := fun i hi => lt_of_mem_distinctPlaces (hsub hi)
  have hids : ∀ i ∈ places, (artifactIds x hits)[i]? = some (idAt x hits i) := fun i hi =>
    getElem?_artifactIds (hlt i hi)
  obtain ⟨out, hout, hchunks⟩ := Option.map_eq_some_iff.mp hplaces
  have hpack : pack o (budgetConfig lambda threshold maxTokens) (artifactInputs x hits) =
      some (out.relabel (idAt x hits)) := by
    rw [pack_artifactInputs, hout]
    rfl
  have hindexes : selectedIndexes (artifactIds x hits) (out.relabel (idAt x hits)) =
      places.filterMap fun i => indexByChunkId (artifactIds x hits) (idAt x hits i) := by
    unfold selectedIndexes
    rw [← hchunks, List.filterMap_map]
    show (out.chunks.map _).filterMap _ = _
    rw [List.filterMap_map]
    rfl
  have hiff := lookups_eq_iff hids
  rw [← hindexes] at hiff
  constructor
  · rintro ⟨places', packed, _, _, hplaces', hpacked, hsame, -⟩ places'' hplaces''
    obtain rfl : places' = places := Option.some.inj (hplaces'.symm.trans hplaces)
    obtain rfl : places'' = places' := Option.some.inj (hplaces''.symm.trans hplaces')
    obtain rfl : packed = out.relabel (idAt x hits) := Option.some.inj (hpacked.symm.trans hpack)
    exact hiff.mp hsame
  · intro hlast
    have hsame := hiff.mpr (hlast places hplaces)
    have hkept : hitsAt hits (selectedIndexes (artifactIds x hits) (out.relabel (idAt x hits))) =
        hitsAt hits places := hitsAt_congr hsame
    by_cases hnil : hits = []
    · subst hnil
      exact ⟨places, _, 0, false, hplaces, hpack, hsame, by
        rw [List.length_nil, Nat.zero_sub]
        rfl⟩
    · refine ⟨places, _, out.duplicatesRemoved,
        decide (0 < hits.length - places.length ∨ maxTokens ≤ out.totalTokens), hplaces, hpack,
        hsame, ?_⟩
      show (if hits.isEmpty = true then _ else _) = _
      rw [if_neg (by simpa using hnil)]
      show Option.map _ (pack o (budgetConfig lambda threshold maxTokens) _) = _
      rw [hpack, Option.map_some]
      dsimp only
      rw [hkept, length_hitsAt hnodup hlt]
      rfl

/-- **Which hits can be packed.**  For one budget, the hits that are kept are the selected ones
exactly if no selected hit is followed by one with the same chunk id; for all budgets, exactly
if that is so for the hits `deduplicate_by_hash` keeps, the highest-scored of each artifact and
text. -/
theorem artifact_packing_iff (o : FloatOps F) (lambda threshold : F) (x : ChunkIdSource ι)
    (hits : List (ArtifactSearchHit F)) (hbytes : totalBytes (placedInputs hits) < 2 ^ 63) :
    (∀ maxTokens, maxTokens * 4 < 2 ^ 64 →
      (KeepsSelected o lambda threshold x hits maxTokens ↔
        ∀ places, selectedPlaces o (budgetConfig lambda threshold maxTokens) hits = some places →
          ∀ i ∈ places, LastOf (artifactIds x hits) i)) ∧
      ((∀ maxTokens, maxTokens * 4 < 2 ^ 64 → KeepsSelected o lambda threshold x hits maxTokens) ↔
        ∀ i ∈ distinctPlaces o hits, LastOf (artifactIds x hits) i) := by
  have hbytes' : totalBytes (placedInputs hits) < 2 ^ 64 := by omega
  have hcpt : ∀ maxTokens, 1 ≤ (budgetConfig lambda threshold maxTokens).charsPerToken :=
    fun _ => by
      show 1 ≤ 4
      decide
  refine ⟨fun maxTokens hbudget => keepsSelected_iff hbudget hbytes', ?_, ?_⟩
  · intro hall i hi
    -- a budget with room for everything
    have hbudget : (totalBytes (placedInputs hits) / 4 + 1) * 4 < 2 ^ 64 := by omega
    obtain ⟨places, hplaces, -, -, hcomplete⟩ :=
      selectedPlaces_of_fits o hits (hcpt _) hbudget hbytes'
    have hroom : totalBytes (distinctChunks o (placedInputs hits)) ≤
        (totalBytes (placedInputs hits) / 4 + 1) * 4 := by
      have hsub : (distinctChunks o (placedInputs hits)).Subperm (placedInputs hits) :=
        distinctChunks_subperm
      have hle := totalBytes_le_of_subperm hsub
      omega
    exact (keepsSelected_iff hbudget hbytes').mp (hall _ hbudget) places hplaces i
      (hcomplete hroom hi)
  · intro hlast maxTokens hbudget
    refine (keepsSelected_iff hbudget hbytes').mpr fun places hplaces i hi => ?_
    obtain ⟨places', hplaces', -, hsub, -⟩ :=
      selectedPlaces_of_fits o hits (hcpt maxTokens) hbudget hbytes'
    obtain rfl : places = places' := Option.some.inj (hplaces.symm.trans hplaces')
    exact hlast i (hsub hi)

end Kept

/-! ## A search -/

/-- The ids of two stored chunks, and new ones far from them. -/
def sampleChunkIds : ChunkIdSource ℕ where
  parse s :=
    if s = "019498f0-0000-7000-8000-000000000001" then some 0x019498f0000070008000000000000001
    else if s = "019498f0-0000-7000-8000-000000000002" then some 0x019498f0000070008000000000000002
    else none
  new idx := 2 ^ 127 + idx

/-- A hit of an artifact that matched a chunk. -/
def sampleHit (artifactId chunkId : String) (score : ℚ) : ArtifactSearchHit ℚ where
  artifactId := artifactId
  summary := none
  score := score
  matchedChunkId := some chunkId
  matchedText := some "note"

/-- Two artifacts that matched different chunks are both kept. -/
theorem artifact_packing_distinct :
    KeepsSelected exactOps (7 / 10) (9 / 10) sampleChunkIds
      [sampleHit "a" "019498f0-0000-7000-8000-000000000001" (3 / 4),
        sampleHit "b" "019498f0-0000-7000-8000-000000000002" (1 / 2)] 4000 := by
  refine (artifact_packing_iff exactOps (7 / 10) (9 / 10) sampleChunkIds _
    (by decide)).2.mpr ?_ 4000 (by decide)
  intro i hi
  refine lastOf_of_nodup (by decide) ?_
  rw [length_artifactIds]
  exact lt_of_mem_distinctPlaces hi

/-- **A selected hit is lost**: two artifacts matched one chunk, the packer selects both, and
the first is dropped. -/
theorem artifact_hit_lost :
    selectedPlaces exactOps (budgetConfig (7 / 10) (9 / 10) 4000)
        [sampleHit "a" "019498f0-0000-7000-8000-000000000001" (3 / 4),
          sampleHit "b" "019498f0-0000-7000-8000-000000000001" (1 / 2)] = some [0, 1] ∧
      packArtifactHits exactOps (7 / 10) (9 / 10) sampleChunkIds
        [sampleHit "a" "019498f0-0000-7000-8000-000000000001" (3 / 4),
          sampleHit "b" "019498f0-0000-7000-8000-000000000001" (1 / 2)] (some 4000) =
        some ([sampleHit "b" "019498f0-0000-7000-8000-000000000001" (1 / 2)], 1, 0, true) ∧
      ¬ KeepsSelected exactOps (7 / 10) (9 / 10) sampleChunkIds
        [sampleHit "a" "019498f0-0000-7000-8000-000000000001" (3 / 4),
          sampleHit "b" "019498f0-0000-7000-8000-000000000001" (1 / 2)] 4000 := by
  have hplaces : selectedPlaces exactOps (budgetConfig (7 / 10) (9 / 10) 4000)
      [sampleHit "a" "019498f0-0000-7000-8000-000000000001" (3 / 4),
        sampleHit "b" "019498f0-0000-7000-8000-000000000001" (1 / 2)] = some [0, 1] := by
    decide +kernel
  refine ⟨hplaces, by decide +kernel, fun hkeeps => ?_⟩
  have hlast := (keepsSelected_iff (by decide) (by decide)).mp hkeeps [0, 1] hplaces 0
    List.mem_cons_self
  exact hlast 1 Nat.zero_lt_one (by decide)
