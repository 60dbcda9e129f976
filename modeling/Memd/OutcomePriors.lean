/-
# Outcome priors

`outcome_priors` joins the outcome events with the items and the episodes of a scope, and folds
the rows, the newest first, into one prior for each chunk.  A set of pairs of an episode and a
chunk keeps every row but the first of a pair out.

The weight of an outcome is a function of its timestamp, of any type with a zero and an addition.

* `foldl_priorStep` — the fold is a filter, the first row of each pair, and an addition of each;
* `priorOf_foldl_addRow` — what the additions leave for one chunk;
* `outcomePriors_find` — the prior of a chunk is the aggregate of `newestEvents`;
* `outcomePriors_exact` — what these are, and what they do not depend on.
-/
import Memd.EpisodeInvariant
import Memd.ListSelection
import Memd.RankedMerge

open Ranked Selection
open Proc (except_bind_eq_ok)

/-! ## Priors -/

/-- `OutcomePrior`. -/
structure OutcomePrior (W : Type) where
  chunkId : ChunkId
  eligibleEpisodeCount : ℕ
  positiveWeight : W
  negativeWeight : W
  lastOutcomeAtMs : ℤ
  deriving DecidableEq, Repr

namespace OutcomePrior

variable {W : Type}

/-- `OutcomePrior::new`. -/
def new [Zero W] (c : ChunkId) : OutcomePrior W :=
  ⟨c, 0, 0, 0, 0⟩

/-- `OutcomePrior::add`. -/
def add [Add W] (p : OutcomePrior W) (positive : Bool) (weight : W) (timestampMs : ℤ) : OutcomePrior W where
  chunkId := p.chunkId
  eligibleEpisodeCount := min (p.eligibleEpisodeCount + 1) (2 ^ 64 - 1)
  positiveWeight := if positive then p.positiveWeight + weight else p.positiveWeight
  negativeWeight := if positive then p.negativeWeight else p.negativeWeight + weight
  lastOutcomeAtMs := max p.lastOutcomeAtMs timestampMs

@[simp] theorem add_chunkId [Add W] (p : OutcomePrior W) (positive : Bool) (weight : W) (timestampMs : ℤ) :
    (p.add positive weight timestampMs).chunkId = p.chunkId := rfl

@[simp] theorem new_chunkId [Zero W] (c : ChunkId) : (new c : OutcomePrior W).chunkId = c := rfl

end OutcomePrior

/-! ## The query -/

/-- The chunks an outcome credits, or else those it blames. -/
def creditedOrBlamed (o : OutcomeEvent) : Option (List ChunkId) :=
  if o.outcome.creditsUsed then some o.usedChunkIds
  else if o.outcome.creditsHarmful then some o.harmfulChunkIds
  else none

/-- An event that the legacy Codex scanner recorded. -/
def OutcomeEvent.isLegacy (o : OutcomeEvent) : Bool :=
  isLegacyCodexScannerOutcome o.outcome o.verifier o.evidenceReference

/-- `ORDER BY timestamp_ms DESC, event_id DESC`, for two timestamps and ids. -/
def NewerOrSame (timeA : ℤ) (idA : ℕ) (timeB : ℤ) (idB : ℕ) : Prop :=
  timeB < timeA ∨ timeA = timeB ∧ idB ≤ idA

/-- An event is no older than another one. -/
def eventBefore (a b : OutcomeEvent) : Prop :=
  NewerOrSame a.timestampMs a.eventId b.timestampMs b.eventId

/-- Of two events one comes first. -/
theorem eventBefore_total (a b : OutcomeEvent) : eventBefore a b ∨ eventBefore b a := by
  unfold eventBefore NewerOrSame
  omega

/-- The order of events is transitive. -/
theorem eventBefore_trans {a b c : OutcomeEvent} (hab : eventBefore a b) (hbc : eventBefore b c) :
    eventBefore a c := by
  unfold eventBefore NewerOrSame at *
  omega

/-- Events that come before each other have the same id. -/
theorem eventId_eq_of_before {a b : OutcomeEvent} (hab : eventBefore a b) (hba : eventBefore b a) :
    a.eventId = b.eventId := by
  rcases hab with hlt | ⟨heq, hle⟩
  · rcases hba with hgt | ⟨heq, -⟩
    · omega
    · omega
  · rcases hba with hgt | ⟨-, hge⟩
    · omega
    · exact Nat.le_antisymm hge hle

/-- The order of the rows. -/
def rowBefore (a b : OutcomeEvent × ChunkId) : Prop :=
  eventBefore a.1 b.1

instance : DecidableRel rowBefore := fun _ _ => inferInstanceAs (Decidable (_ ∨ _))

instance : Std.Total rowBefore where
  total a b := eventBefore_total a.1 b.1

instance : IsTrans (OutcomeEvent × ChunkId) rowBefore where
  trans _ _ _ := eventBefore_trans

namespace EpisodeDb

/-- The episode of an event is one of the tenant and of exactly the project. -/
def scopeEpisodes (s : EpisodeDb) (t : TenantId) (project : Option String) (o : OutcomeEvent) :
    List RetrievalEpisode :=
  s.episodes.filter fun e => e.episodeId == o.episodeId && e.tenantId == t && e.projectId == project

/-- The rows of the join: an event with each item of its episode. -/
def joinRows (s : EpisodeDb) (t : TenantId) (project : Option String) (now : ℤ) :
    List (OutcomeEvent × ChunkId) :=
  (s.events.filter fun o => o.rankingEligible && decide (o.timestampMs ≤ now)).flatMap fun o =>
    (s.items.filter fun i => i.episodeId == o.episodeId).flatMap fun i =>
      (s.scopeEpisodes t project o).map fun _ => (o, i.chunkId)

end EpisodeDb

section Fold

variable {W : Type} [Zero W] [Add W] (weight : ℤ → W)

/-- The priors so far and the attributions already counted. -/
structure PriorState (W : Type) where
  priors : List (OutcomePrior W) := []
  seen : Finset (RetrievalEpisodeId × ChunkId) := ∅

/-- `priors.entry(chunk).or_insert_with(..).add(..)`. -/
def addRow (priors : List (OutcomePrior W)) (row : OutcomeEvent × ChunkId) : List (OutcomePrior W) :=
  let add := fun p : OutcomePrior W =>
    p.add row.1.outcome.creditsUsed (weight row.1.timestampMs) row.1.timestampMs
  if priors.any (·.chunkId == row.2) then priors.map fun p => if p.chunkId == row.2 then add p else p
  else priors ++ [add (.new row.2)]

/-- What is counted once: an episode and a chunk. -/
def rowKey (row : OutcomeEvent × ChunkId) : RetrievalEpisodeId × ChunkId :=
  (row.1.episodeId, row.2)

/-- One row of the loop of `outcome_priors`. -/
def priorStep (requested : List ChunkId) (st : PriorState W) (row : OutcomeEvent × ChunkId) :
    PriorState W :=
  if !requested.contains row.2 then st
  else if row.1.isLegacy then st
  else
    match creditedOrBlamed row.1 with
    | none => st
    | some attributed =>
      if !attributed.contains row.2 then st
      else if rowKey row ∈ st.seen then st
      else { priors := addRow weight st.priors row, seen := insert (rowKey row) st.seen }

/-- `outcome_priors`. -/
def EpisodeDb.outcomePriors (s : EpisodeDb) (t : TenantId) (project : Option String)
    (chunkIds : List ChunkId) (now : ℤ) : List (OutcomePrior W) :=
  if chunkIds.isEmpty then []
  else
    let rows := (s.joinRows t project now).insertionSort rowBefore
    (rows.foldl (priorStep weight chunkIds) {}).priors.insertionSort fun a b => a.chunkId ≤ b.chunkId

/-! ## The fold -/

/-- The row attributes a requested chunk, and is no row of the old scanner. -/
def rowCounts (requested : List ChunkId) (row : OutcomeEvent × ChunkId) : Bool :=
  requested.contains row.2 && !row.1.isLegacy && (creditedOrBlamed row.1).any (·.contains row.2)

/-- A row that does not count, or whose pair is seen, is skipped. -/
theorem priorStep_eq (requested : List ChunkId) (st : PriorState W) (row : OutcomeEvent × ChunkId) :
    priorStep weight requested st row =
      if rowCounts requested row then
        if rowKey row ∈ st.seen then st
        else { priors := addRow weight st.priors row, seen := insert (rowKey row) st.seen }
      else st := by
  unfold priorStep rowCounts
  cases requested.contains row.2 with
  | false => rfl
  | true =>
    cases row.1.isLegacy with
    | true => rfl
    | false =>
      cases creditedOrBlamed row.1 with
      | none => rfl
      | some attributed =>
        by_cases hattributed : attributed.contains row.2 = true <;> simp only [hattributed,
          Option.any_some, Bool.not_true, Bool.not_false, Bool.true_and, Bool.and_true,
          Bool.false_eq_true, if_true, if_false]

/-- **The loop** adds the first row of each pair among the rows that count. -/
theorem foldl_priorStep (requested : List ChunkId) (rows : List (OutcomeEvent × ChunkId))
    (st : PriorState W) : (rows.foldl (priorStep weight requested) st).priors =
      (firstOf rowKey st.seen (rows.filter (rowCounts requested))).foldl (addRow weight) st.priors := by
  induction rows generalizing st with
  | nil => rfl
  | cons row rows ih =>
    rw [List.foldl_cons, ih, List.filter_cons, priorStep_eq]
    by_cases hcounts : rowCounts requested row = true
    · by_cases hseen : rowKey row ∈ st.seen
      · rw [if_pos hcounts, if_pos hcounts, if_pos hseen, firstOf_cons_of_mem hseen]
      · rw [if_pos hcounts, if_pos hcounts, if_neg hseen, firstOf_cons_of_notMem hseen,
          List.foldl_cons]
    · rw [if_neg hcounts, if_neg hcounts]

/-- The prior of a chunk. -/
def priorOf (c : ChunkId) (priors : List (OutcomePrior W)) : Option (OutcomePrior W) :=
  priors.find? (·.chunkId == c)

/-- What a row adds to the prior of its chunk. -/
def addTo (row : OutcomeEvent × ChunkId) (p : Option (OutcomePrior W)) : OutcomePrior W :=
  (p.getD (.new row.2)).add row.1.outcome.creditsUsed (weight row.1.timestampMs) row.1.timestampMs

/-- Adding a row changes the prior of its chunk only. -/
theorem priorOf_addRow (c : ChunkId) (priors : List (OutcomePrior W)) (row : OutcomeEvent × ChunkId) :
    priorOf c (addRow weight priors row) =
      if row.2 = c then some (addTo weight row (priorOf c priors)) else priorOf c priors := by
  unfold addRow priorOf
  dsimp only
  by_cases hany : priors.any (·.chunkId == row.2) = true
  · have hsame : ((fun p : OutcomePrior W => p.chunkId == c) ∘ fun p => if p.chunkId == row.2 then
        p.add row.1.outcome.creditsUsed (weight row.1.timestampMs) row.1.timestampMs else p) =
        fun p => p.chunkId == c := by
      funext p
      dsimp only [Function.comp_apply]
      split <;> rfl
    rw [if_pos hany, List.find?_map, hsame]
    cases hfind : priors.find? (·.chunkId == c) with
    | none =>
      rw [Option.map_none, if_neg]
      rintro rfl
      obtain ⟨p, hp, hpc⟩ := List.any_eq_true.mp hany
      exact absurd hpc (List.find?_eq_none.mp hfind p hp)
    | some p =>
      have hpc : p.chunkId = c := by simpa using List.find?_some hfind
      by_cases hc : row.2 = c
      · rw [if_pos hc, Option.map_some, if_pos (by rw [hpc, hc]; exact beq_self_eq_true c)]
        rfl
      · rw [if_neg hc, Option.map_some, if_neg]
        rw [hpc, beq_iff_eq]
        exact fun h => hc h.symm
  · rw [if_neg hany, List.find?_append]
    by_cases hc : row.2 = c
    · subst hc
      have hnone : priors.find? (·.chunkId == row.2) = none := by
        rw [List.find?_eq_none]
        intro p hp hpc
        exact hany (List.any_eq_true.mpr ⟨p, hp, hpc⟩)
      rw [if_pos rfl, hnone]
      simp [addTo]
    · rw [if_neg hc]
      simp [hc]

/-- **The additions** leave for a chunk what its own rows add. -/
theorem priorOf_foldl_addRow (c : ChunkId) (rows : List (OutcomeEvent × ChunkId))
    (priors : List (OutcomePrior W)) : priorOf c (rows.foldl (addRow weight) priors) =
      (rows.filter (·.2 == c)).foldl (fun p row => some (addTo weight row p)) (priorOf c priors) := by
  induction rows generalizing priors with
  | nil => rfl
  | cons row rows ih =>
    rw [List.foldl_cons, ih, priorOf_addRow, List.filter_cons]
    by_cases hc : row.2 = c
    · rw [if_pos hc, if_pos (by rw [hc]; exact beq_self_eq_true c), List.foldl_cons]
    · rw [if_neg hc, if_neg (by rwa [beq_iff_eq])]

/-- Adding a row keeps one prior for each chunk. -/
theorem keys_addRow {priors : List (OutcomePrior W)} (h : (priors.map (·.chunkId)).Nodup)
    (row : OutcomeEvent × ChunkId) : ((addRow weight priors row).map (·.chunkId)).Nodup := by
  unfold addRow
  dsimp only
  split
  · rw [List.map_map]
    have hsame : (fun p : OutcomePrior W => p.chunkId) ∘ (fun p => if p.chunkId == row.2 then
        p.add row.1.outcome.creditsUsed (weight row.1.timestampMs) row.1.timestampMs else p) =
        fun p => p.chunkId := by
      funext p
      dsimp only [Function.comp_apply]
      split <;> rfl
    rwa [hsame]
  · rename_i hany
    rw [List.map_append, List.nodup_append]
    refine ⟨h, List.nodup_singleton _, ?_⟩
    intro c hc c' hc' heq
    obtain ⟨p, hp, rfl⟩ := List.mem_map.mp hc
    rw [List.map_singleton, List.mem_singleton] at hc'
    exact hany (List.any_eq_true.mpr ⟨p, hp, by rw [heq, hc']; exact beq_self_eq_true _⟩)

/-- Adding rows keeps one prior for each chunk. -/
theorem keys_foldl_addRow (rows : List (OutcomeEvent × ChunkId)) {priors : List (OutcomePrior W)}
    (h : (priors.map (·.chunkId)).Nodup) :
    ((rows.foldl (addRow weight) priors).map (·.chunkId)).Nodup := by
  induction rows generalizing priors with
  | nil => exact h
  | cons row rows ih => exact ih (keys_addRow weight h row)

end Fold

/-! ## The newest attributions -/

namespace EpisodeDb

variable (s : EpisodeDb) (t : TenantId) (project : Option String) (now : ℤ) (c : ChunkId)

/-- The event is eligible, no later than now, genuine and of an episode of the scope, and it
credits or blames the chunk, which is an item of its episode. -/
structure Attributes (o : OutcomeEvent) : Prop where
  eligible : o.rankingEligible = true
  time : o.timestampMs ≤ now
  genuine : o.isLegacy = false
  scope : ∃ e ∈ s.episodes, e.episodeId = o.episodeId ∧ e.tenantId = t ∧ e.projectId = project
  item : ∃ i ∈ s.items, i.episodeId = o.episodeId ∧ i.chunkId = c
  chunk : ∃ chunks, creditedOrBlamed o = some chunks ∧ c ∈ chunks

/-- The newest event of each episode that attributes the chunk, the newest first. -/
structure NewestAttributions (l : List OutcomeEvent) : Prop where
  sorted : l.Pairwise fun a b => eventBefore a b ∧ a.eventId ≠ b.eventId
  mem : ∀ o, o ∈ l ↔ o ∈ s.events ∧ s.Attributes t project now c o ∧ ∀ o' ∈ s.events,
    s.Attributes t project now c o' → o'.episodeId = o.episodeId → eventBefore o o'

/-- The key of `outcome_events`. -/
def EventKeys : Prop :=
  (s.events.map (·.eventId)).Nodup

variable {s t project now c}

/-- In a keyed table an event is determined by its id. -/
theorem EventKeys.inj (hs : s.EventKeys) {a b : OutcomeEvent} (ha : a ∈ s.events)
    (hb : b ∈ s.events) (h : a.eventId = b.eventId) : a = b :=
  List.inj_on_of_nodup_map hs ha hb h

/-- A list of newest attributions is determined. -/
theorem NewestAttributions.unique {l l' : List OutcomeEvent}
    (h : s.NewestAttributions t project now c l) (h' : s.NewestAttributions t project now c l') :
    l = l' := by
  have hnodup : ∀ {l : List OutcomeEvent}, s.NewestAttributions t project now c l → l.Nodup :=
    fun h => h.sorted.imp fun hab heq => hab.2 (congrArg _ heq)
  have hperm : l.Perm l' := (List.perm_ext_iff_of_nodup (hnodup h) (hnodup h')).mpr fun o => by
    rw [h.mem, h'.mem]
  exact hperm.eq_of_pairwise
    (fun a b _ _ hab hba => absurd (eventId_eq_of_before hab.1 hba.1) hab.2) h.sorted h'.sorted

variable (s t project now c)

/-- The rows that are added for a chunk. -/
def chunkRows (requested : List ChunkId) : List (OutcomeEvent × ChunkId) :=
  (((s.joinRows t project now).filter (rowCounts requested)).filter (·.2 == c)).insertionSort rowBefore

/-- The events whose rows are added for a chunk. -/
def newestEvents (requested : List ChunkId) : List OutcomeEvent :=
  (firstOf rowKey ∅ (s.chunkRows t project now c requested)).map Prod.fst

variable {s t project now c}

/-- The rows of a chunk are its attributions in the scope. -/
theorem mem_chunkRows {requested : List ChunkId} (hc : c ∈ requested)
    {row : OutcomeEvent × ChunkId} : row ∈ s.chunkRows t project now c requested ↔
      row.2 = c ∧ row.1 ∈ s.events ∧ s.Attributes t project now c row.1 := by
  obtain ⟨o, c'⟩ := row
  rw [chunkRows, (List.perm_insertionSort _ _).mem_iff]
  simp only [List.mem_filter, joinRows, scopeEpisodes, List.mem_flatMap, List.mem_map, rowCounts,
    Bool.and_eq_true, beq_iff_eq, decide_eq_true_eq, Bool.not_eq_true', List.contains_iff_mem,
    Option.any_eq_true, Prod.mk.injEq]
  constructor
  · rintro ⟨⟨⟨o', ⟨ho, heligible, htime⟩, i, ⟨hi, hepisode⟩, e, ⟨he, ⟨hid, htenant⟩, hproject⟩,
      rfl, rfl⟩, ⟨-, hgenuine⟩, chunks, hchunks, hmem⟩, rfl⟩
    exact ⟨rfl, ho, heligible, htime, hgenuine, ⟨e, he, hid, htenant, hproject⟩,
      ⟨i, hi, hepisode, rfl⟩, chunks, hchunks, hmem⟩
  · rintro ⟨rfl, ho, heligible, htime, hgenuine, ⟨e, he, hid, htenant, hproject⟩,
      ⟨i, hi, hepisode, rfl⟩, chunks, hchunks, hmem⟩
    exact ⟨⟨⟨o, ⟨ho, heligible, htime⟩, i, ⟨hi, hepisode⟩, e, ⟨he, ⟨hid, htenant⟩, hproject⟩,
      rfl, rfl⟩, ⟨hc, hgenuine⟩, chunks, hchunks, hmem⟩, rfl⟩

/-- **The events whose rows are added** are the newest attributions. -/
theorem newestEvents_spec (hs : s.EventKeys) {requested : List ChunkId} (hc : c ∈ requested) :
    s.NewestAttributions t project now c (s.newestEvents t project now c requested) := by
  have hsorted : (s.chunkRows t project now c requested).Pairwise rowBefore :=
    List.pairwise_insertionSort _ _
  have hrefl : ∀ row, rowBefore row row := fun row => (eventBefore_total row.1 row.1).elim id id
  constructor
  · have hfirst := hsorted.sublist (firstOf_sublist rowKey _ ∅)
    have hkeys := List.pairwise_map.mp (firstOf_nodup rowKey ∅ (s.chunkRows t project now c requested))
    refine List.pairwise_map.mpr ((hfirst.and hkeys).imp_of_mem ?_)
    rintro a b ha hb ⟨hbefore, hkey⟩
    refine ⟨hbefore, fun hid => hkey ?_⟩
    obtain ⟨hac, hae, -⟩ := (mem_chunkRows hc).mp ((firstOf_sublist rowKey _ ∅).subset ha)
    obtain ⟨hbc, hbe, -⟩ := (mem_chunkRows hc).mp ((firstOf_sublist rowKey _ ∅).subset hb)
    rw [rowKey, rowKey, hac, hbc, hs.inj hae hbe hid]
  · intro o
    have hanti : ∀ a ∈ s.chunkRows t project now c requested,
        ∀ b ∈ s.chunkRows t project now c requested, rowKey a = rowKey b →
        rowBefore a b → rowBefore b a → a = b := by
      intro a ha b hb _ hab hba
      obtain ⟨hac, hae, -⟩ := (mem_chunkRows hc).mp ha
      obtain ⟨hbc, hbe, -⟩ := (mem_chunkRows hc).mp hb
      exact Prod.ext (hs.inj hae hbe (eventId_eq_of_before hab hba)) (hac.trans hbc.symm)
    rw [newestEvents, List.mem_map]
    constructor
    · rintro ⟨⟨o, c'⟩, hrow, rfl⟩
      obtain ⟨hmem, hfront⟩ := (mem_firstOf_iff hrefl hsorted hanti).mp hrow
      obtain ⟨rfl, ho, hattributes⟩ := (mem_chunkRows hc).mp hmem
      refine ⟨ho, hattributes, fun o' ho' hattributes' hepisode => ?_⟩
      exact hfront (o', c') ((mem_chunkRows hc).mpr ⟨rfl, ho', hattributes'⟩)
        (by rw [rowKey, rowKey, hepisode])
    · rintro ⟨ho, hattributes, hnewest⟩
      refine ⟨(o, c), (mem_firstOf_iff hrefl hsorted hanti).mpr
        ⟨(mem_chunkRows hc).mpr ⟨rfl, ho, hattributes⟩, fun row hrow hkey => ?_⟩, rfl⟩
      obtain ⟨-, ho', hattributes'⟩ := (mem_chunkRows hc).mp hrow
      exact hnewest row.1 ho' hattributes' (Prod.mk.inj hkey).1

end EpisodeDb

/-! ## The priors of the chunks -/

section Aggregate

variable {W : Type} [Zero W] [Add W] (weight : ℤ → W)

/-- The prior of a chunk with the given attributions. -/
def aggregate (c : ChunkId) (l : List OutcomeEvent) : OutcomePrior W :=
  l.foldl (fun p o => p.add o.outcome.creditsUsed (weight o.timestampMs) o.timestampMs) (.new c)

/-- The prior of a chunk, summed over its own rows. -/
theorem foldl_addTo (c : ChunkId) (rows : List (OutcomeEvent × ChunkId)) (hc : ∀ row ∈ rows, row.2 = c) :
    rows.foldl (fun p row => some (addTo weight row p)) none =
      if rows.map Prod.fst = [] then none else some (aggregate weight c (rows.map Prod.fst)) := by
  have hgo : ∀ (rows : List (OutcomeEvent × ChunkId)) (p : OutcomePrior W),
      rows.foldl (fun p row => some (addTo weight row p)) (some p) =
        some ((rows.map Prod.fst).foldl (fun p o =>
          p.add o.outcome.creditsUsed (weight o.timestampMs) o.timestampMs) p) := by
    intro rows
    induction rows with
    | nil => intro p; rfl
    | cons row rows ih => intro p; exact ih _
  cases rows with
  | nil => rfl
  | cons row rows =>
    rw [List.foldl_cons, hgo, List.map_cons, if_neg (List.cons_ne_nil _ _), aggregate,
      List.foldl_cons, ← hc row List.mem_cons_self]
    rfl

omit [Zero W] [Add W] in
/-- The prior of a chunk is the one listed for it. -/
theorem priorOf_eq_some {priors : List (OutcomePrior W)} (h : (priors.map (·.chunkId)).Nodup)
    {c : ChunkId} {p : OutcomePrior W} : priorOf c priors = some p ↔ p ∈ priors ∧ p.chunkId = c := by
  unfold priorOf
  constructor
  · intro hfind
    exact ⟨List.mem_of_find?_eq_some hfind, by simpa using List.find?_some hfind⟩
  · rintro ⟨hp, rfl⟩
    obtain ⟨q, hq⟩ : ∃ q, priors.find? (·.chunkId == p.chunkId) = some q :=
      Option.isSome_iff_exists.mp (List.find?_isSome.mpr ⟨p, hp, beq_self_eq_true _⟩)
    have hqp : q.chunkId = p.chunkId := by simpa using List.find?_some hq
    rw [hq, List.inj_on_of_nodup_map h (List.mem_of_find?_eq_some hq) hp hqp]

omit [Zero W] [Add W] in
/-- The prior of a chunk does not depend on the order of the priors. -/
theorem priorOf_perm {priors priors' : List (OutcomePrior W)} (h : (priors.map (·.chunkId)).Nodup)
    (hperm : priors'.Perm priors) (c : ChunkId) : priorOf c priors' = priorOf c priors := by
  have h' : (priors'.map (·.chunkId)).Nodup := (hperm.map _).nodup_iff.mpr h
  ext p
  rw [priorOf_eq_some h, priorOf_eq_some h', hperm.mem_iff]

namespace EpisodeDb

variable (s : EpisodeDb) (t : TenantId) (project : Option String) (requested : List ChunkId) (now : ℤ)

/-- The priors before they are sorted. -/
theorem outcomePriors_perm : ∃ priors : List (OutcomePrior W), (priors.map (·.chunkId)).Nodup ∧
    (s.outcomePriors weight t project requested now).Perm priors ∧
    ∀ c, priorOf c priors = if c ∈ requested ∧ s.newestEvents t project now c requested ≠ [] then
      some (aggregate weight c (s.newestEvents t project now c requested)) else none := by
  cases hrequested : requested with
  | nil =>
    refine ⟨[], List.nodup_nil, List.Perm.refl _, fun c => ?_⟩
    simp [priorOf]
  | cons first others =>
    rw [← hrequested]
    refine ⟨(firstOf rowKey ∅ (((s.joinRows t project now).insertionSort rowBefore).filter
      (rowCounts requested))).foldl (addRow weight) [], ?_, ?_, fun c => ?_⟩
    · exact keys_foldl_addRow weight _ List.nodup_nil
    · have hne : requested.isEmpty = false := by rw [hrequested]; rfl
      unfold outcomePriors
      rw [hne]
      dsimp only [Bool.false_eq_true, if_false]
      rw [if_neg Bool.false_ne_true, foldl_priorStep]
      exact List.perm_insertionSort _ _
    · rw [priorOf_foldl_addRow]
      have hfilter := filter_firstOf rowKey (fun k => k.2 == c)
        (((s.joinRows t project now).insertionSort rowBefore).filter (rowCounts requested)) ∅
      have hrows : (firstOf rowKey ∅ (((s.joinRows t project now).insertionSort rowBefore).filter
          (rowCounts requested))).filter (·.2 == c) =
          firstOf rowKey ∅ (s.chunkRows t project now c requested) := by
        rw [chunkRows, ← filter_insertionSort, ← filter_insertionSort]
        exact hfilter
      have hc : ∀ row ∈ firstOf rowKey ∅ (s.chunkRows t project now c requested), row.2 = c := by
        intro row hrow
        rw [← hrows] at hrow
        simpa using (List.mem_filter.mp hrow).2
      rw [hrows, show priorOf c ([] : List (OutcomePrior W)) = none from rfl,
        foldl_addTo weight c _ hc,
        show (firstOf rowKey ∅ (s.chunkRows t project now c requested)).map Prod.fst =
          s.newestEvents t project now c requested from rfl]
      by_cases hmem : c ∈ requested
      · by_cases hnil : s.newestEvents t project now c requested = []
        · rw [if_pos hnil, if_neg fun h => h.2 hnil]
        · rw [if_neg hnil, if_pos ⟨hmem, hnil⟩]
      · -- no row of a chunk that is not requested counts
        have hnil : s.newestEvents t project now c requested = [] := by
          rw [newestEvents, List.map_eq_nil_iff, List.eq_nil_iff_forall_not_mem]
          intro row hrow
          rw [← hrows] at hrow
          obtain ⟨hfirst, hrc⟩ := List.mem_filter.mp hrow
          have hcounts := (List.mem_filter.mp ((firstOf_sublist rowKey _ ∅).subset hfirst)).2
          simp only [rowCounts, Bool.and_eq_true, List.contains_iff_mem] at hcounts
          rw [beq_iff_eq] at hrc
          exact hmem (hrc ▸ hcounts.1.1)
        rw [if_pos hnil, if_neg fun h => hmem h.1]

/-- **The prior of a chunk** is the aggregate of its newest attributions. -/
theorem outcomePriors_find (c : ChunkId) :
    priorOf c (s.outcomePriors weight t project requested now) =
      if c ∈ requested ∧ s.newestEvents t project now c requested ≠ [] then
        some (aggregate weight c (s.newestEvents t project now c requested)) else none := by
  obtain ⟨priors, hnodup, hperm, hfind⟩ := s.outcomePriors_perm weight t project requested now
  rw [priorOf_perm hnodup hperm, hfind]

/-- The priors stand in the order of their chunks, one for each. -/
theorem pairwise_outcomePriors :
    (s.outcomePriors weight t project requested now).Pairwise fun a b => a.chunkId < b.chunkId := by
  obtain ⟨priors, hnodup, hperm, -⟩ := s.outcomePriors_perm weight t project requested now
  have hkeys := List.pairwise_map.mp ((hperm.map (·.chunkId)).nodup_iff.mpr hnodup)
  have hsorted : (s.outcomePriors weight t project requested now).Pairwise
      fun a b => a.chunkId ≤ b.chunkId := by
    unfold outcomePriors
    split
    · exact List.Pairwise.nil
    · exact List.pairwise_insertionSort _ _
  exact (hsorted.and hkeys).imp fun h => Nat.lt_of_le_of_ne h.1 h.2

end EpisodeDb

end Aggregate

/-! ## What the priors do not depend on -/

namespace EpisodeDb

section Frame

variable {s s' : EpisodeDb} {t : TenantId} {project : Option String} {now : ℤ} {c : ChunkId}

/-- An event that does not attribute the chunk in the scope, or an older one of an episode with a
newer attribution that both tables have. -/
def Ineffective (s s' : EpisodeDb) (t : TenantId) (project : Option String) (now : ℤ) (c : ChunkId)
    (o : OutcomeEvent) : Prop :=
  ¬ s.Attributes t project now c o ∨ ∃ o' ∈ s.events, o' ∈ s'.events ∧
    s.Attributes t project now c o' ∧ o'.episodeId = o.episodeId ∧ ¬ eventBefore o o'

/-- What an event attributes depends on the episodes and their items only. -/
theorem attributes_congr (hepisodes : s'.episodes = s.episodes) (hitems : s'.items = s.items)
    {o : OutcomeEvent} : s'.Attributes t project now c o ↔ s.Attributes t project now c o := by
  constructor
  · rintro ⟨h₁, h₂, h₃, h₄, h₅, h₆⟩
    exact ⟨h₁, h₂, h₃, hepisodes ▸ h₄, hitems ▸ h₅, h₆⟩
  · rintro ⟨h₁, h₂, h₃, h₄, h₅, h₆⟩
    exact ⟨h₁, h₂, h₃, hepisodes.symm ▸ h₄, hitems.symm ▸ h₅, h₆⟩

/-- A newest attribution stays one when only ineffective events differ. -/
theorem newest_of_ineffective (hold : ∀ o ∈ s.events, o ∉ s'.events → s.Ineffective s' t project now c o)
    (hnew : ∀ o ∈ s'.events, o ∉ s.events → s.Ineffective s' t project now c o) {o : OutcomeEvent}
    (ho : o ∈ s.events) (hattributes : s.Attributes t project now c o)
    (hnewest : ∀ o' ∈ s.events, s.Attributes t project now c o' → o'.episodeId = o.episodeId →
      eventBefore o o') : o ∈ s'.events ∧ ∀ o' ∈ s'.events, s.Attributes t project now c o' →
        o'.episodeId = o.episodeId → eventBefore o o' := by
  constructor
  · by_contra hgone
    rcases hold o ho hgone with hnot | ⟨o', ho', -, hattributes', hepisode, hlater⟩
    · exact hnot hattributes
    · exact hlater (hnewest o' ho' hattributes' hepisode)
  · intro o' ho' hattributes' hepisode
    by_cases hmem : o' ∈ s.events
    · exact hnewest o' hmem hattributes' hepisode
    · rcases hnew o' ho' hmem with hnot | ⟨o'', ho'', -, hattributes'', hepisode'', hlater⟩
      · exact absurd hattributes' hnot
      · exact eventBefore_trans (hnewest o'' ho'' hattributes'' (hepisode''.trans hepisode))
          ((eventBefore_total o' o'').resolve_left hlater)

/-- Two tables that differ in events only agree on which are ineffective. -/
theorem Ineffective.symm (hepisodes : s'.episodes = s.episodes) (hitems : s'.items = s.items)
    {o : OutcomeEvent} (h : s.Ineffective s' t project now c o) :
    s'.Ineffective s t project now c o := by
  rcases h with hnot | ⟨o', ho', hmem, hattributes, hepisode, hlater⟩
  · exact .inl fun h => hnot ((attributes_congr hepisodes hitems).mp h)
  · exact .inr ⟨o', hmem, ho', (attributes_congr hepisodes hitems).mpr hattributes, hepisode, hlater⟩

/-- **Ineffective events** do not change the newest attributions. -/
theorem NewestAttributions.congr {l : List OutcomeEvent} (hepisodes : s'.episodes = s.episodes)
    (hitems : s'.items = s.items)
    (hold : ∀ o ∈ s.events, o ∉ s'.events → s.Ineffective s' t project now c o)
    (hnew : ∀ o ∈ s'.events, o ∉ s.events → s.Ineffective s' t project now c o)
    (h : s.NewestAttributions t project now c l) : s'.NewestAttributions t project now c l := by
  refine ⟨h.sorted, fun o => ?_⟩
  rw [h.mem]
  have hsame : ∀ o, s'.Attributes t project now c o ↔ s.Attributes t project now c o :=
    fun o => attributes_congr hepisodes hitems
  constructor
  · rintro ⟨ho, hattributes, hnewest⟩
    obtain ⟨hmem, hnewest'⟩ := newest_of_ineffective hold hnew ho hattributes hnewest
    exact ⟨hmem, (hsame o).mpr hattributes, fun o' ho' h' => hnewest' o' ho' ((hsame o').mp h')⟩
  · rintro ⟨ho, hattributes, hnewest⟩
    obtain ⟨hmem, hnewest'⟩ := newest_of_ineffective
      (fun o ho hno => (hnew o ho hno).symm hepisodes hitems)
      (fun o ho hno => (hold o ho hno).symm hepisodes hitems) ho hattributes hnewest
    exact ⟨hmem, (hsame o).mp hattributes, fun o' ho' h' => hnewest' o' ho' ((hsame o').mpr h')⟩

end Frame

/-! ## Stored outcomes -/

/-- Every chunk that an outcome credits or blames is an item of its episode. -/
def AttributedItems (s : EpisodeDb) : Prop :=
  ∀ o ∈ s.events, ∀ c ∈ attributed o, ∃ i ∈ s.items, i.episodeId = o.episodeId ∧ i.chunkId = c

variable {isJsonObject : String → Bool} {s : EpisodeDb}

/-- A stored outcome has a new id. -/
theorem insertOutcome_new {t : TenantId} {event : OutcomeEvent}
    (h : (insertOutcomeEvent t event s).1 = .ok ()) : ∀ o ∈ s.events, o.eventId ≠ event.eventId := by
  unfold insertOutcomeEvent at h
  rcases transact_cases (fun s => do
      let episode ← s.findEpisode t event.episodeId
      let items ← s.queryItems event.episodeId
      validateOutcomeEvent t episode items event
      insertEventRow event s) s with ⟨e, _, htx⟩ | ⟨s', hok, htx⟩
  · rw [htx] at h
    exact absurd h (by simp)
  · obtain ⟨episode, _, hok⟩ := except_bind_eq_ok.mp hok
    obtain ⟨items, _, hok⟩ := except_bind_eq_ok.mp hok
    obtain ⟨_, _, hrow⟩ := except_bind_eq_ok.mp hok
    unfold insertEventRow at hrow
    split at hrow
    · exact absurd hrow (by simp)
    · rename_i hany
      simpa using hany

/-- **One transaction** keeps the ids of the outcomes distinct and their chunks items. -/
theorem outcomes_step (hk : s.Keys) (hids : s.EventKeys) (hitems : s.AttributedItems) (op : Op) :
    (s.step isJsonObject op).EventKeys ∧ (s.step isJsonObject op).AttributedItems := by
  cases op with
  | insertEpisode episode items =>
    show (insertRetrievalEpisode isJsonObject episode items s).2.EventKeys ∧
      (insertRetrievalEpisode isJsonObject episode items s).2.AttributedItems
    rcases insertEpisode_cases isJsonObject episode items s with ⟨e, h⟩ | ⟨h, -, -⟩
    · rw [h]
      exact ⟨hids, hitems⟩
    · rw [h]
      refine ⟨hids, fun o ho c hc => ?_⟩
      obtain ⟨i, hi, hi'⟩ := hitems o ho c hc
      exact ⟨i, List.mem_append_left _ hi, hi'⟩
  | finalize t id rendered =>
    show (finalizeRetrievalEpisode isJsonObject t id rendered s).2.EventKeys ∧
      (finalizeRetrievalEpisode isJsonObject t id rendered s).2.AttributedItems
    rcases finalize_cases isJsonObject hk t id rendered with ⟨e, h⟩ | ⟨h, -⟩
    · rw [h]
      exact ⟨hids, hitems⟩
    · rw [h]
      refine ⟨hids, fun o ho c hc => ?_⟩
      obtain ⟨i, hi, hepisode, hchunk⟩ := hitems o ho c hc
      refine ⟨_, List.mem_map_of_mem hi, ?_⟩
      split
      · exact ⟨(projected_episodeId rendered i).trans hepisode,
          (projected_chunkId rendered i).trans hchunk⟩
      · exact ⟨hepisode, hchunk⟩
  | insertOutcome t event =>
    show (insertOutcomeEvent t event s).2.EventKeys ∧ (insertOutcomeEvent t event s).2.AttributedItems
    rcases insertOutcome_cases t event s with ⟨e, h⟩ | ⟨h, hshown, -⟩
    · rw [h]
      exact ⟨hids, hitems⟩
    · have hnew : ∀ o ∈ s.events, o.eventId ≠ event.eventId := insertOutcome_new (by rw [h])
      rw [h]
      constructor
      · show ((s.events ++ [event]).map (·.eventId)).Nodup
        rw [List.map_append, List.nodup_append]
        refine ⟨hids, List.nodup_singleton _, ?_⟩
        intro a ha b hb heq
        obtain ⟨o, ho, rfl⟩ := List.mem_map.mp ha
        exact hnew o ho (heq.trans (List.mem_singleton.mp hb))
      · intro o ho c hc
        rcases List.mem_append.mp ho with ho | ho
        · exact hitems o ho c hc
        · obtain rfl := List.mem_singleton.mp ho
          obtain ⟨i, hi, hepisode, hchunk, -⟩ := hshown c hc
          exact ⟨i, hi, hepisode, hchunk⟩
  | other db => exact ⟨hids, hitems⟩

/-- **A run** from the empty tables does. -/
theorem outcomes_run (ops : List Op) : (run isJsonObject {} ops).EventKeys ∧
    (run isJsonObject {} ops).AttributedItems := by
  induction ops using List.reverseRecOn with
  | nil => exact ⟨List.nodup_nil, fun o ho => absurd ho List.not_mem_nil⟩
  | append_singleton ops op ih =>
    rw [run_concat]
    exact outcomes_step (keys_empty.run ops) ih.1 ih.2 op

/-! ## The law of the priors -/

variable {W : Type} [Zero W] [Add W]

omit [Zero W] [Add W] in
/-- Sorted priors are determined by what they say of each chunk. -/
theorem priors_ext {l l' : List (OutcomePrior W)} (h : l.Pairwise fun a b => a.chunkId < b.chunkId)
    (h' : l'.Pairwise fun a b => a.chunkId < b.chunkId) (hsame : ∀ c, priorOf c l = priorOf c l') :
    l = l' := by
  have hkeys : ∀ {l : List (OutcomePrior W)}, (l.Pairwise fun a b => a.chunkId < b.chunkId) →
      (l.map (·.chunkId)).Nodup := fun h =>
    List.pairwise_map.mpr (h.imp fun hlt => Nat.ne_of_lt hlt)
  have hperm : l.Perm l' := by
    refine (List.perm_ext_iff_of_nodup (hkeys h).of_map (hkeys h').of_map).mpr fun p => ?_
    have hp := hsame p.chunkId
    constructor
    · intro hmem
      rw [(priorOf_eq_some (hkeys h)).mpr ⟨hmem, rfl⟩] at hp
      exact ((priorOf_eq_some (hkeys h')).mp hp.symm).1
    · intro hmem
      rw [(priorOf_eq_some (hkeys h')).mpr ⟨hmem, rfl⟩] at hp
      exact ((priorOf_eq_some (hkeys h)).mp hp).1
  exact hperm.eq_of_pairwise (fun a b _ _ hab hba => absurd hba (Nat.lt_asymm hab)) h h'

/-- **Outcome priors.**  The priors are those of the requested chunks, in their order, one for each
that has attributions: the aggregate of the newest attribution of each episode of the tenant and
of exactly the project.  They do not change when events differ that are ineffective for the
requested chunks, in whatever order the table holds its events. -/
theorem outcomePriors_exact (hs : s.EventKeys) (weight : ℤ → W) (t : TenantId)
    (project : Option String) (requested : List ChunkId) (now : ℤ) :
    ((s.outcomePriors weight t project requested now).Pairwise fun a b => a.chunkId < b.chunkId) ∧
    (∀ c ∈ requested, ∃ l, s.NewestAttributions t project now c l ∧
      priorOf c (s.outcomePriors weight t project requested now) =
        if l = [] then none else some (aggregate weight c l)) ∧
    (∀ c, c ∉ requested → priorOf c (s.outcomePriors weight t project requested now) = none) ∧
    ∀ s' : EpisodeDb, s'.EventKeys → s'.episodes = s.episodes → s'.items = s.items →
      (∀ c ∈ requested, ∀ o, (o ∈ s.events ∧ o ∉ s'.events ∨ o ∈ s'.events ∧ o ∉ s.events) →
        s.Ineffective s' t project now c o) →
      s'.outcomePriors weight t project requested now =
        s.outcomePriors weight t project requested now := by
  refine ⟨s.pairwise_outcomePriors weight t project requested now, fun c hc => ?_, fun c hc => ?_,
    fun s' hs' hepisodes hitems hineffective => ?_⟩
  · refine ⟨_, newestEvents_spec hs hc, ?_⟩
    rw [outcomePriors_find]
    by_cases hnil : s.newestEvents t project now c requested = []
    · rw [if_pos hnil, if_neg fun h => h.2 hnil]
    · rw [if_neg hnil, if_pos ⟨hc, hnil⟩]
  · rw [outcomePriors_find, if_neg fun h => hc h.1]
  · apply priors_ext (s'.pairwise_outcomePriors weight t project requested now)
      (s.pairwise_outcomePriors weight t project requested now)
    intro c
    rw [outcomePriors_find, outcomePriors_find]
    by_cases hc : c ∈ requested
    · have hspec : s.NewestAttributions t project now c (s.newestEvents t project now c requested) :=
        newestEvents_spec hs hc
      have hcongr := hspec.congr hepisodes hitems (fun o ho hno => hineffective c hc o (.inl ⟨ho, hno⟩))
        fun o ho hno => hineffective c hc o (.inr ⟨ho, hno⟩)
      rw [(newestEvents_spec hs' hc).unique hcongr]
    · rw [if_neg fun h => hc h.1, if_neg fun h => hc h.1]

/-- An episode with an outcome that is corrected later. -/
def correctedEpisode : EpisodeDb where
  episodes := [{
    episodeId := 0, tenantId := "t", projectId := none, queryHash := "", queryMode := "hybrid"
    requestedK := 1, fetchedK := 1, renderedK := 1, policyVersion := "", policyMode := .off
    taskId := none, threadId := none, createdAtMs := 0, expiresAtMs := 1000 }]
  items := [{
    episodeId := 0, chunkId := 7, originTenantId := "t", originProjectId := none, originalRank := 0
    originalScore := 0, laneScoresJson := "{}", outcomeAdjustment := 0, servedRank := some 0
    shadowRank := none, rendered := true, sourceDedupGroup := none }]
  events := [
    { eventId := 0, episodeId := 0, outcome := .accepted, verifier := .user, usedChunkIds := [7]
      harmfulChunkIds := [], evidenceReference := none, rankingEligible := true, timestampMs := 10 },
    { eventId := 1, episodeId := 0, outcome := .corrected, verifier := .user, usedChunkIds := []
      harmfulChunkIds := [7], evidenceReference := none, rankingEligible := true, timestampMs := 20 }]

/-- Only the correction counts. -/
theorem outcomePriors_corrected :
    (∃ l, correctedEpisode.NewestAttributions "t" none 100 7 l ∧
      priorOf 7 (correctedEpisode.outcomePriors (fun _ => (1 : ℤ)) "t" none [7] 100) =
        if l = [] then none else some (aggregate (fun _ => 1) 7 l)) ∧
    correctedEpisode.outcomePriors (fun _ => (1 : ℤ)) "t" none [7] 100 = [⟨7, 1, 0, 1, 20⟩] :=
  ⟨(outcomePriors_exact (by unfold EventKeys; decide) (fun _ => (1 : ℤ)) "t" none [7] 100).2.1 7
    (by decide), by decide⟩

end EpisodeDb
