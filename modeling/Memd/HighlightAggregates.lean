/-
# What a highlight aggregates

`infer_highlight_items` records every text an artifact offers under a key, in a map from keys to
aggregates.  What it holds under a key is read off the mentions with the key, in the order in
which they come (`aggregateOf_mentions`): sets of ids, the number of validated mentions, the best
promotion, the newest artifact and the text of the first mention.

Sets and maps in ascending order are determined by their members (`sortedSet_eq_iff`,
`Aggregates.eq_of_mem_iff`).  The items returned are those of aggregates, as many as the caps
allow (`exists_aggregate_of_mem`, `countP_foldl_diversifyStep`).
-/
import Mathlib.Data.String.Basic
import Memd.Digests
import Memd.ListSelection

open TaskArtifact Text

/-! ## Sets of ids -/

section SortedSet

/-- What is in a set after an insertion. -/
theorem mem_setInsert {x y : String} {l : List String} : y ∈ setInsert x l ↔ y = x ∨ y ∈ l := by
  unfold setInsert
  split
  · rename_i h
    exact ⟨.inr, fun hy => hy.elim (fun hx => hx ▸ h) id⟩
  · exact List.mem_orderedInsert _

/-- An insertion keeps the set strictly sorted. -/
theorem pairwise_setInsert {x : String} {l : List String} (h : l.Pairwise (· < ·)) :
    (setInsert x l).Pairwise (· < ·) := by
  unfold setInsert
  split
  · exact h
  · rename_i hx
    have hle : (l.orderedInsert (· ≤ ·) x).Pairwise (· ≤ ·) :=
      List.Pairwise.orderedInsert x l (h.imp fun hab => le_of_lt hab)
    have hnodup : (l.orderedInsert (· ≤ ·) x).Nodup :=
      (List.perm_orderedInsert (· ≤ ·) x l).nodup_iff.mpr
        (List.nodup_cons.mpr ⟨hx, h.imp fun hab => ne_of_lt hab⟩)
    exact (hle.and hnodup).imp fun hab => lt_of_le_of_ne hab.1 hab.2

/-- The set of a list with one more element. -/
theorem sortedSet_concat (l : List String) (x : String) :
    sortedSet (l ++ [x]) = setInsert x (sortedSet l) :=
  List.foldl_append

/-- The set of a list has its elements. -/
theorem mem_sortedSet {x : String} {l : List String} : x ∈ sortedSet l ↔ x ∈ l := by
  induction l using List.reverseRecOn with
  | nil => exact Iff.rfl
  | append_singleton l y ih =>
    rw [sortedSet_concat, mem_setInsert, ih, List.mem_append, List.mem_singleton, or_comm]

/-- The set of a list is strictly sorted. -/
theorem pairwise_sortedSet (l : List String) : (sortedSet l).Pairwise (· < ·) := by
  induction l using List.reverseRecOn with
  | nil => exact List.Pairwise.nil
  | append_singleton l y ih =>
    rw [sortedSet_concat]
    exact pairwise_setInsert ih

/-- **A set** is determined by its members. -/
theorem sortedSet_eq_iff {l l' : List String} :
    sortedSet l = sortedSet l' ↔ ∀ x, x ∈ l ↔ x ∈ l' := by
  constructor
  · intro h x
    rw [← mem_sortedSet, h, mem_sortedSet]
  · intro h
    refine Selection.eq_of_mem_iff (fun a b hab => lt_asymm hab) (pairwise_sortedSet l)
      (pairwise_sortedSet l') fun x => ?_
    rw [mem_sortedSet, mem_sortedSet, h]

/-- A set with two members. -/
theorem one_lt_length_sortedSet {l : List String} :
    1 < (sortedSet l).length ↔ ∃ x ∈ l, ∃ y ∈ l, x ≠ y := by
  constructor
  · intro h
    have hpair := pairwise_sortedSet l
    cases hset : sortedSet l with
    | nil => simp [hset] at h
    | cons x rest =>
      cases rest with
      | nil => simp [hset] at h
      | cons y rest =>
        rw [hset] at hpair
        have hxy := (List.pairwise_cons.mp hpair).1 y List.mem_cons_self
        have hmem : ∀ z ∈ x :: y :: rest, z ∈ l := fun z hz => mem_sortedSet.mp (hset ▸ hz)
        exact ⟨x, hmem x (by simp), y, hmem y (by simp), ne_of_lt hxy⟩
  · rintro ⟨x, hx, y, hy, hne⟩
    have hx' := mem_sortedSet.mpr hx
    have hy' := mem_sortedSet.mpr hy
    cases hset : sortedSet l with
    | nil => simp [hset] at hx'
    | cons z rest =>
      cases rest with
      | nil =>
        rw [hset, List.mem_singleton] at hx' hy'
        exact absurd (hx'.trans hy'.symm) hne
      | cons _ rest =>
        simp only [List.length_cons]
        omega

end SortedSet

/-! ## The map of the aggregates -/

namespace Aggregates

/-- The keys ascend. -/
def Sorted (m : Aggregates) : Prop :=
  m.Pairwise fun p q => p.1 < q.1

section Lookup

variable {m m' : Aggregates} {key k : String} {v : HighlightAggregate}

/-- A lookup in a list with one more pair. -/
theorem lookup_cons (p : String × HighlightAggregate) :
    List.lookup k (p :: m) = if k = p.1 then some p.2 else List.lookup k m := by
  rw [List.lookup_cons]
  by_cases hk : k = p.1
  · rw [if_pos hk, beq_iff_eq.mpr hk]
  · rw [if_neg hk, beq_eq_false_iff_ne.mpr hk]

/-- A key below all others has no value. -/
theorem lookup_eq_none (h : ∀ p ∈ m, k < p.1) : List.lookup k m = none := by
  induction m with
  | nil => rfl
  | cons p m ih =>
    rw [lookup_cons, if_neg (ne_of_lt (h p List.mem_cons_self))]
    exact ih fun q hq => h q (List.mem_cons_of_mem p hq)

/-- **An entry** is what is found under its key. -/
theorem mem_iff_lookup (h : m.Sorted) : (k, v) ∈ m ↔ List.lookup k m = some v := by
  induction m with
  | nil => exact ⟨fun hmem => absurd hmem List.not_mem_nil, fun hv => absurd hv (by simp)⟩
  | cons p m ih =>
    obtain ⟨hlt, hm⟩ := List.pairwise_cons.mp h
    rw [lookup_cons, List.mem_cons, ih hm]
    by_cases hk : k = p.1
    · rw [if_pos hk, hk, lookup_eq_none hlt, Prod.ext_iff]
      simp [eq_comm]
    · rw [if_neg hk, Prod.ext_iff]
      simp [hk]

/-- A key has one value. -/
theorem Sorted.unique (h : m.Sorted) {v' : HighlightAggregate} (hv : (k, v) ∈ m)
    (hv' : (k, v') ∈ m) : v = v' := by
  rw [mem_iff_lookup h] at hv hv'
  exact Option.some.inj (hv.symm.trans hv')

/-- **A map** is determined by its entries. -/
theorem eq_of_mem_iff (h : m.Sorted) (h' : m'.Sorted) (hmem : ∀ p, p ∈ m ↔ p ∈ m') : m = m' :=
  Selection.eq_of_mem_iff (fun _ _ hpq => lt_asymm hpq) h h' hmem

variable {fresh : HighlightAggregate} {f : HighlightAggregate → HighlightAggregate}

/-- **An update** changes what is found under its key. -/
theorem lookup_upsert (h : m.Sorted) : List.lookup k (m.upsert key fresh f) =
    if k = key then some (f ((List.lookup key m).getD fresh)) else List.lookup k m := by
  induction m with
  | nil =>
    rw [upsert, lookup_cons]
    rfl
  | cons p m ih =>
    obtain ⟨k', v'⟩ := p
    obtain ⟨hlt, hm⟩ := List.pairwise_cons.mp h
    rw [upsert]
    by_cases hk' : k' = key
    · rw [if_pos hk', lookup_cons, lookup_cons, lookup_cons, if_pos hk'.symm]
      by_cases hk : k = key
      · rw [if_pos (hk.trans hk'.symm), if_pos hk]
        rfl
      · rw [if_neg fun h => hk (h.trans hk'), if_neg hk, if_neg fun h => hk (h.trans hk')]
    · rw [if_neg hk']
      by_cases hbefore : key < k'
      · rw [if_pos hbefore, lookup_cons]
        have hnone : List.lookup key ((k', v') :: m) = none := by
          apply lookup_eq_none
          intro q hq
          rcases List.mem_cons.mp hq with rfl | hq
          · exact hbefore
          · exact lt_trans hbefore (hlt q hq)
        rw [hnone]
        rfl
      · rw [if_neg hbefore, lookup_cons, ih hm, lookup_cons, lookup_cons,
          if_neg fun h : key = k' => hk' h.symm]
        by_cases hk : k = k'
        · rw [if_pos hk, if_pos hk, if_neg fun h => hk' (hk.symm.trans h)]
        · rw [if_neg hk, if_neg hk]

/-- After an update the keys are the old ones and the one updated. -/
theorem mem_keys_upsert {p : String × HighlightAggregate} (hp : p ∈ m.upsert key fresh f) :
    p.1 = key ∨ ∃ q ∈ m, q.1 = p.1 := by
  induction m with
  | nil =>
    rw [upsert, List.mem_singleton] at hp
    exact .inl (by rw [hp])
  | cons q m ih =>
    obtain ⟨k', v'⟩ := q
    rw [upsert] at hp
    split at hp
    · rcases List.mem_cons.mp hp with rfl | hp
      · exact .inr ⟨_, List.mem_cons_self, rfl⟩
      · exact .inr ⟨p, List.mem_cons_of_mem _ hp, rfl⟩
    · split at hp
      · rcases List.mem_cons.mp hp with rfl | hp
        · exact .inl rfl
        · exact .inr ⟨p, hp, rfl⟩
      · rcases List.mem_cons.mp hp with rfl | hp
        · exact .inr ⟨_, List.mem_cons_self, rfl⟩
        · exact (ih hp).imp_right fun ⟨q, hq, heq⟩ => ⟨q, List.mem_cons_of_mem _ hq, heq⟩

/-- An update keeps the keys strictly sorted. -/
theorem Sorted.upsert (h : m.Sorted) : (m.upsert key fresh f).Sorted := by
  induction m with
  | nil => exact List.pairwise_singleton _ _
  | cons p m ih =>
    obtain ⟨k', v'⟩ := p
    obtain ⟨hlt, hm⟩ := List.pairwise_cons.mp h
    rw [Aggregates.upsert]
    split
    · exact List.pairwise_cons.mpr ⟨hlt, hm⟩
    · rename_i hne
      split
      · rename_i hbefore
        refine List.pairwise_cons.mpr ⟨fun q hq => ?_, h⟩
        rcases List.mem_cons.mp hq with rfl | hq
        · exact hbefore
        · exact lt_trans hbefore (hlt q hq)
      · rename_i hafter
        refine List.pairwise_cons.mpr ⟨fun q hq => ?_, ih hm⟩
        rcases mem_keys_upsert hq with heq | ⟨r, hr, heq⟩
        · rw [heq]
          exact lt_of_le_of_ne (not_lt.mp hafter) hne
        · rw [← heq]
          exact hlt r hr

end Lookup

end Aggregates

/-! ## Mentions -/

/-- `normalize_highlight_key`. -/
def normalizeHighlightKey (category : HighlightCategory) (summary : String) : String :=
  sanitizeTagValue category.asStr ++ "::" ++ sanitizeTagValue summary

namespace HighlightCandidate

/-- The text that is recorded. -/
def text (c : HighlightCandidate) : String :=
  String.ofList (trim c.summary.toList)

/-- The key of a candidate: its kind and its folded text. -/
def key (c : HighlightCandidate) : String :=
  normalizeHighlightKey c.category c.text

/-- The candidate is recorded under the key. -/
def hasKey (key : String) (c : HighlightCandidate) : Bool :=
  c.text ≠ "" && c.key = key

end HighlightCandidate

/-- A candidate with the artifact that offers it. -/
abbrev Mention := TaskArtifact × HighlightCandidate

/-- The candidates of an artifact under a key. -/
def TaskArtifact.mentionsOf (key : String) (a : TaskArtifact) : List HighlightCandidate :=
  (highlightCandidates a).filter (HighlightCandidate.hasKey key)

/-- The mentions under a key, in the order in which they are recorded. -/
def mentions (key : String) (artifacts : List TaskArtifact) : List Mention :=
  artifacts.flatMap fun a => (a.mentionsOf key).map (a, ·)

/-- What an aggregate says of the mentions it is made of. -/
structure AggregateOf (ms : List Mention) (agg : HighlightAggregate) : Prop where
  first : ∃ p, ms.head? = some p ∧ agg.summary = p.2.text ∧ agg.category = p.2.category
  newest : ∃ p ∈ ms, (∀ q ∈ ms, q.1.timestampCreated ≤ p.1.timestampCreated) ∧
    agg.artifactId = p.1.artifactId ∧ agg.taskId = p.1.taskId ∧ agg.projectId = p.1.projectId ∧
    agg.timestampCreated = p.1.timestampCreated
  supportingArtifactIds : agg.supportingArtifactIds = sortedSet (ms.map (·.1.artifactId))
  taskIds : agg.taskIds = sortedSet (ms.map (·.1.taskId))
  projectIds : agg.projectIds = sortedSet (ms.filterMap (·.1.projectId))
  validatedCount : agg.validatedCount = ms.countP (·.2.validated)
  promotionState : agg.promotionState = maxPromotion (ms.map (·.1.promotionState))

/-- The aggregate of a new key, before its first mention is counted. -/
def freshAggregate (p : Mention) : HighlightAggregate :=
  { artifactId := p.1.artifactId, taskId := p.1.taskId, projectId := p.1.projectId
    summary := p.2.text, category := p.2.category, promotionState := p.1.promotionState
    timestampCreated := p.1.timestampCreated }

/-- The highest promotion of a list with one more. -/
theorem maxPromotion_concat (l : List PromotionState) (p : PromotionState) :
    maxPromotion (l ++ [p]) = maxPromotion [maxPromotion l, p] := by
  have hraw : ∀ q : PromotionState, maxPromotion [q, p] =
      if q.rank < p.rank then p else q := by
    intro q
    cases q <;> cases p <;> rfl
  rw [hraw, maxPromotion, List.foldl_append]
  rfl

/-- The best promotion of some artifacts does not depend on their order. -/
theorem maxPromotion_perm {l l' : List PromotionState} (h : l.Perm l') :
    maxPromotion l = maxPromotion l' := by
  have hcomm : RightCommutative fun best p : PromotionState =>
      if best.rank < p.rank then p else best :=
    ⟨fun best p q => by cases best <;> cases p <;> cases q <;> rfl⟩
  exact h.foldl_eq _

/-- The aggregate of the first mention. -/
theorem aggregateOf_fresh (p : Mention) :
    AggregateOf [p] ((freshAggregate p).support p.1 p.2.validated) where
  first := ⟨p, rfl, rfl, rfl⟩
  newest := by
    refine ⟨p, List.mem_singleton_self p, fun q hq => ?_, ?_⟩
    · rw [List.mem_singleton.mp hq]
    · simp [freshAggregate, HighlightAggregate.support]
  supportingArtifactIds := rfl
  taskIds := rfl
  projectIds := by
    cases hp : p.1.projectId <;>
      simp [freshAggregate, HighlightAggregate.support, hp, sortedSet]
  validatedCount := by
    cases hv : p.2.validated <;> simp [freshAggregate, HighlightAggregate.support, hv]
  promotionState := by
    show maxPromotion [p.1.promotionState, p.1.promotionState] = maxPromotion [p.1.promotionState]
    cases p.1.promotionState <;> rfl

/-- **One more mention.** -/
theorem AggregateOf.support {ms : List Mention} {agg : HighlightAggregate} (h : AggregateOf ms agg)
    (p : Mention) : AggregateOf (ms ++ [p]) (agg.support p.1 p.2.validated) where
  first := by
    obtain ⟨q, hq, hsummary, hcategory⟩ := h.first
    exact ⟨q, by rw [List.head?_append, hq]; rfl, hsummary, hcategory⟩
  newest := by
    obtain ⟨q, hq, hlatest, hid, htask, hproject, htime⟩ := h.newest
    by_cases hnewer : agg.timestampCreated ≤ p.1.timestampCreated
    · refine ⟨p, by simp, fun r hr => ?_, ?_⟩
      · rcases List.mem_append.mp hr with hr | hr
        · have hle := hlatest r hr
          omega
        · rw [List.mem_singleton.mp hr]
      · simp [HighlightAggregate.support, hnewer]
    · refine ⟨q, List.mem_append_left _ hq, fun r hr => ?_, ?_⟩
      · rcases List.mem_append.mp hr with hr | hr
        · exact hlatest r hr
        · rw [List.mem_singleton.mp hr]
          omega
      · simp only [HighlightAggregate.support, if_neg hnewer]
        exact ⟨hid, htask, hproject, htime⟩
  supportingArtifactIds := by
    rw [List.map_append, List.map_singleton, sortedSet_concat, ← h.supportingArtifactIds]
    rfl
  taskIds := by
    rw [List.map_append, List.map_singleton, sortedSet_concat, ← h.taskIds]
    rfl
  projectIds := by
    rw [List.filterMap_append]
    cases hp : p.1.projectId with
    | none => simp [HighlightAggregate.support, hp, h.projectIds]
    | some project => simp [HighlightAggregate.support, hp, h.projectIds, sortedSet_concat]
  validatedCount := by
    rw [List.countP_append, ← h.validatedCount]
    cases hv : p.2.validated <;> simp [HighlightAggregate.support, hv]
  promotionState := by
    rw [List.map_append, List.map_singleton, maxPromotion_concat, ← h.promotionState]
    rfl

/-! ## Recording -/

/-- What is found under a key after some mentions were recorded. -/
structure Aggregated (ps : List Mention) (m : Aggregates) : Prop where
  sorted : m.Sorted
  lookup : ∀ key, match List.lookup key m with
    | none => ps.filter (fun p => p.2.hasKey key) = []
    | some agg => AggregateOf (ps.filter fun p => p.2.hasKey key) agg

/-- **One candidate.** -/
theorem Aggregated.step {ps : List Mention} {m : Aggregates} (h : Aggregated ps m) (p : Mention) :
    Aggregated (ps ++ [p]) (recordHighlightCandidate p.1 m p.2) := by
  have hrecord : recordHighlightCandidate p.1 m p.2 = if p.2.text = "" then m else
      m.upsert p.2.key (freshAggregate p) (·.support p.1 p.2.validated) := rfl
  rw [hrecord]
  by_cases hblank : p.2.text = ""
  · -- nothing is recorded under any key
    rw [if_pos hblank]
    refine ⟨h.sorted, fun key => ?_⟩
    have hnot : [p].filter (fun p => p.2.hasKey key) = [] := by
      simp [HighlightCandidate.hasKey, hblank]
    rw [List.filter_append, hnot, List.append_nil]
    exact h.lookup key
  · rw [if_neg hblank]
    refine ⟨h.sorted.upsert, fun key => ?_⟩
    rw [Aggregates.lookup_upsert h.sorted, List.filter_append]
    have hold := h.lookup key
    by_cases hkey : key = p.2.key
    · have hone : [p].filter (fun p => p.2.hasKey key) = [p] := by
        simp [HighlightCandidate.hasKey, hblank, hkey]
      rw [if_pos hkey, hone, ← hkey]
      cases hlookup : List.lookup key m with
      | none =>
        rw [hlookup] at hold
        rw [show ps.filter (fun p => p.2.hasKey key) = [] from hold]
        exact aggregateOf_fresh p
      | some agg =>
        rw [hlookup] at hold
        exact AggregateOf.support hold p
    · have hnone : [p].filter (fun p => p.2.hasKey key) = [] := by
        simp [HighlightCandidate.hasKey, Ne.symm hkey]
      rw [if_neg hkey, hnone, List.append_nil]
      exact hold

/-- Every candidate of the artifacts. -/
def allCandidates (artifacts : List TaskArtifact) : List Mention :=
  artifacts.flatMap fun a => (highlightCandidates a).map (a, ·)

/-- The candidates of a key are its mentions. -/
theorem filter_allCandidates (key : String) (artifacts : List TaskArtifact) :
    (allCandidates artifacts).filter (fun p => p.2.hasKey key) = mentions key artifacts := by
  rw [allCandidates, List.filter_flatMap, mentions]
  simp only [List.filter_map, TaskArtifact.mentionsOf, Function.comp_def]

/-- The aggregates are built by one pass over all candidates. -/
theorem highlightAggregates_eq_foldl (artifacts : List TaskArtifact) :
    highlightAggregates artifacts =
      (allCandidates artifacts).foldl (fun m p => recordHighlightCandidate p.1 m p.2) [] := by
  rw [allCandidates, List.foldl_flatMap]
  simp only [List.foldl_map]
  rfl

/-- **The whole run**, by the candidates in their order. -/
theorem aggregated_highlightAggregates (artifacts : List TaskArtifact) :
    Aggregated (allCandidates artifacts) (highlightAggregates artifacts) := by
  rw [highlightAggregates_eq_foldl]
  generalize allCandidates artifacts = ps
  induction ps using List.reverseRecOn with
  | nil => exact ⟨List.Pairwise.nil, fun _ => rfl⟩
  | append_singleton ps p ih =>
    rw [List.foldl_append, List.foldl_cons, List.foldl_nil]
    exact ih.step p

/-- The aggregates are strictly sorted by their keys. -/
theorem sorted_highlightAggregates (artifacts : List TaskArtifact) :
    (highlightAggregates artifacts).Sorted :=
  (aggregated_highlightAggregates artifacts).sorted

/-- **What stands under a key** is the aggregate of its mentions. -/
theorem aggregateOf_mentions {artifacts : List TaskArtifact} {key : String}
    {agg : HighlightAggregate} (h : (key, agg) ∈ highlightAggregates artifacts) :
    AggregateOf (mentions key artifacts) agg := by
  have hlookup := (aggregated_highlightAggregates artifacts).lookup key
  rw [(Aggregates.mem_iff_lookup (sorted_highlightAggregates artifacts)).mp h,
    filter_allCandidates] at hlookup
  exact hlookup

/-- A key with a mention has an aggregate. -/
theorem exists_aggregate {artifacts : List TaskArtifact} {key : String}
    (h : mentions key artifacts ≠ []) : ∃ agg, (key, agg) ∈ highlightAggregates artifacts := by
  have hlookup := (aggregated_highlightAggregates artifacts).lookup key
  rw [filter_allCandidates] at hlookup
  cases hfound : List.lookup key (highlightAggregates artifacts) with
  | none =>
    rw [hfound] at hlookup
    exact absurd hlookup h
  | some agg =>
    exact ⟨agg, (Aggregates.mem_iff_lookup (sorted_highlightAggregates artifacts)).mpr hfound⟩

/-! ## What is returned -/

section Returned

variable {α : Type}

/-- Nothing is lost when two queues are taken in turn. -/
theorem interleave_perm (xs ys : List α) : (interleave xs ys).Perm (xs ++ ys) := by
  induction xs generalizing ys with
  | nil => exact List.Perm.refl ys
  | cons x xs ih =>
    cases ys with
    | nil => rw [interleave, List.append_nil]
    | cons y ys =>
      rw [interleave, List.cons_append]
      exact ((ih ys).cons y).trans List.perm_middle.symm |>.cons x

/-- Rebalancing permutes. -/
theorem rebalance_perm (items : List HighlightViewItem) :
    (rebalanceHighlightsByCategory items).Perm items := by
  have hsplit := List.filter_append_perm (fun i : HighlightViewItem => i.category ≠ .warning) items
  have hnot : (fun i : HighlightViewItem => !decide (i.category ≠ .warning)) =
      fun i => decide (i.category = .warning) := by
    funext i
    simp
  rw [hnot] at hsplit
  exact (interleave_perm _ _).trans hsplit

/-- One pass of the loop of `diversify_highlights`. -/
def diversifyStep (multiProject : Bool) (out : List HighlightViewItem) (item : HighlightViewItem) :
    List HighlightViewItem :=
  if maxHighlightsPerTask ≤ out.countP (·.taskId = item.taskId) then out
  else if multiProject ∧ item.projectId.isSome
      ∧ maxHighlightsPerProject ≤ out.countP (·.projectId = item.projectId) then out
  else out ++ [item]

/-- The items are of several projects. -/
def severalProjects (items : List HighlightViewItem) : Bool :=
  1 < (sortedSet (items.filterMap (·.projectId))).length

/-- The diversification takes the items one by one. -/
theorem diversifyHighlights_eq (items : List HighlightViewItem) :
    diversifyHighlights items = items.foldl (diversifyStep (severalProjects items)) [] := by
  unfold diversifyHighlights diversifyStep severalProjects
  simp only [decide_eq_true_eq]

/-- An item is left out, or it is appended. -/
theorem diversifyStep_cases (multiProject : Bool) (out : List HighlightViewItem)
    (item : HighlightViewItem) : diversifyStep multiProject out item = out ∨
      diversifyStep multiProject out item = out ++ [item] ∧
        out.countP (·.taskId = item.taskId) < maxHighlightsPerTask ∧
        (multiProject = true → item.projectId.isSome = true →
          out.countP (·.projectId = item.projectId) < maxHighlightsPerProject) := by
  unfold diversifyStep
  split
  · exact .inl rfl
  · rename_i htask
    split
    · exact .inl rfl
    · rename_i hproject
      refine .inr ⟨rfl, not_le.mp htask, fun hmulti hsome => ?_⟩
      exact not_le.mp fun hle => hproject ⟨hmulti, hsome, hle⟩

variable {multiProject : Bool}

/-- What is taken stays, and comes from the items. -/
theorem mem_foldl_diversifyStep (items out : List HighlightViewItem) {item : HighlightViewItem} :
    (item ∈ out → item ∈ items.foldl (diversifyStep multiProject) out) ∧
      (item ∈ items.foldl (diversifyStep multiProject) out → item ∈ out ∨ item ∈ items) := by
  induction items generalizing out with
  | nil => exact ⟨id, .inl⟩
  | cons i items ih =>
    rw [List.foldl_cons]
    obtain ⟨hkeep, hfrom⟩ := ih (diversifyStep multiProject out i)
    rcases diversifyStep_cases multiProject out i with heq | ⟨heq, _⟩
    · rw [heq] at hkeep hfrom ⊢
      exact ⟨hkeep, fun h => (hfrom h).imp_right (List.mem_cons_of_mem i)⟩
    · rw [heq] at hkeep hfrom ⊢
      refine ⟨fun h => hkeep (List.mem_append_left _ h), fun h => ?_⟩
      rcases hfrom h with h | h
      · rcases List.mem_append.mp h with h | h
        · exact .inl h
        · exact .inr (List.mem_cons.mpr (.inl (List.mem_singleton.mp h)))
      · exact .inr (List.mem_cons_of_mem i h)

/-- **The caps**, in every pass. -/
theorem countP_foldl_diversifyStep (items : List HighlightViewItem) :
    ∀ out : List HighlightViewItem,
      (∀ task, out.countP (·.taskId = task) ≤ maxHighlightsPerTask) →
      (multiProject = true → ∀ project,
        out.countP (·.projectId = some project) ≤ maxHighlightsPerProject) →
      (∀ task, (items.foldl (diversifyStep multiProject) out).countP (·.taskId = task) ≤
        maxHighlightsPerTask) ∧
      (multiProject = true → ∀ project,
        (items.foldl (diversifyStep multiProject) out).countP (·.projectId = some project) ≤
          maxHighlightsPerProject) := by
  induction items with
  | nil => exact fun out htask hproject => ⟨htask, hproject⟩
  | cons i items ih =>
    intro out htask hproject
    rw [List.foldl_cons]
    rcases diversifyStep_cases multiProject out i with heq | ⟨heq, hroom, hroom'⟩
    · rw [heq]
      exact ih out htask hproject
    · rw [heq]
      -- the item is added only where there is room
      apply ih
      · intro task
        rw [List.countP_append, List.countP_singleton]
        by_cases hi : i.taskId = task
        · subst hi
          simp only [decide_true, if_true]
          omega
        · simpa [hi] using htask task
      · intro hmulti project
        rw [List.countP_append, List.countP_singleton]
        by_cases hi : i.projectId = some project
        · have hlt := hroom' hmulti (by rw [hi]; rfl)
          rw [hi] at hlt
          simp only [hi, decide_true, if_true]
          omega
        · simpa [hi] using hproject hmulti project

instance : Std.Total highlightBefore := ⟨fun a b => by unfold highlightBefore; omega⟩

instance : IsTrans HighlightViewItem highlightBefore := ⟨fun a b c hab hbc => by
  unfold highlightBefore at *
  omega⟩

/-- The items that compete for a place. -/
def candidateItems (x : DigestExternals) (artifacts : List TaskArtifact) : List HighlightViewItem :=
  (highlightAggregates artifacts).filterMap fun p => highlightItem x p.2

variable {x : DigestExternals} {artifacts : List TaskArtifact} {item : HighlightViewItem}

/-- The items inferred are the diversified ones in another order. -/
theorem inferHighlightItems_perm : (inferHighlightItems x artifacts).Perm
    (diversifyHighlights ((candidateItems x artifacts).insertionSort highlightBefore)) :=
  rebalance_perm _

/-- **Every item returned** is that of an aggregate. -/
theorem exists_aggregate_of_mem (h : item ∈ inferHighlightItems x artifacts) :
    ∃ key agg, (key, agg) ∈ highlightAggregates artifacts ∧ highlightItem x agg = some item := by
  have hmem := inferHighlightItems_perm.mem_iff.mp h
  rw [diversifyHighlights_eq] at hmem
  have hin := ((mem_foldl_diversifyStep _ _).2 hmem).resolve_left List.not_mem_nil
  obtain ⟨p, hp, hitem⟩ := List.mem_filterMap.mp ((List.mem_insertionSort _).mp hin)
  exact ⟨p.1, p.2, hp, hitem⟩

/-- **The best item** is returned. -/
theorem mem_inferHighlightItems (hmem : item ∈ candidateItems x artifacts)
    (hbest : ∀ i ∈ candidateItems x artifacts, i = item ∨ ¬ highlightBefore i item) :
    item ∈ inferHighlightItems x artifacts := by
  rw [inferHighlightItems_perm.mem_iff, diversifyHighlights_eq]
  have hsorted := List.pairwise_insertionSort highlightBefore (candidateItems x artifacts)
  have hin : item ∈ (candidateItems x artifacts).insertionSort highlightBefore :=
    (List.mem_insertionSort _).mpr hmem
  have hall : ∀ i ∈ (candidateItems x artifacts).insertionSort highlightBefore,
      i ∈ candidateItems x artifacts := fun i hi => (List.mem_insertionSort _).mp hi
  generalize (candidateItems x artifacts).insertionSort highlightBefore = sorted at hsorted hin hall
  cases sorted with
  | nil => exact absurd hin List.not_mem_nil
  | cons i sorted =>
    have hi : i = item := by
      rcases hbest i (hall i List.mem_cons_self) with heq | hnot
      · exact heq
      · rcases List.mem_cons.mp hin with heq | hin
        · exact heq.symm
        · exact absurd ((List.pairwise_cons.mp hsorted).1 item hin) hnot
    subst hi
    rw [List.foldl_cons]
    apply (mem_foldl_diversifyStep _ _).1
    simp [diversifyStep, maxHighlightsPerTask, maxHighlightsPerProject]

end Returned
