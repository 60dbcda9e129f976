/-
# How many copies of a chunk the indexes hold

An index call adds points and documents and looks for none, so what a chunk has afterwards
depends on what it had before.  `Fresh` says that a chunk comes to an index call with
nothing of its own; as long as every call of a run is made so — by `index_batch` itself, by
the repair pass, by a job or by a sweep, and with any batch failing on the way — each chunk
that is indexed and not deleted has one point and one document for each sentence
(`one_copy_each`).  A chunk that is swept while its own job waits in the queue comes to the
second call with both (`swept_and_queued_twice`).
-/
import Memd.HybridIndex

open HnswIndex

namespace HybridSearcher

variable {b : Backend} {s : HybridSearcher} {t t' : TenantId} {c : ChunkId}
  {rows : List (ChunkId × String)}

/-- The documents of a chunk with the given text. -/
def chunkDocs (cfg : HybridConfig) (t : TenantId) (row : ChunkId × String) : List SparseDoc :=
  itemDocs (t, row.1, cfg.processChunk row.2)

/-! ## The documents of an index call -/

/-- The batch of sparse documents is the rows' documents one after another. -/
theorem flatMap_sparseItems (cfg : HybridConfig) (t : TenantId) (rows : List (ChunkId × String)) :
    (sparseItems cfg t rows).flatMap itemDocs = rows.flatMap (chunkDocs cfg t) := by
  induction rows with
  | nil => rfl
  | cons row rows ih =>
    rw [List.flatMap_cons, ← ih, sparseItems, List.filterMap_cons]
    cases hs : cfg.processChunk row.2 with
    | nil => simp [sparseItems, chunkDocs, itemDocs, hs]
    | cons a l => simp [sparseItems, chunkDocs, hs]

/-- A row's documents carry its tenant and its chunk id. -/
theorem mem_chunkDocs {cfg : HybridConfig} {row : ChunkId × String} {d : SparseDoc}
    (h : d ∈ chunkDocs cfg t row) : d.tenantId = t ∧ d.chunkId = row.1 := by
  obtain ⟨_, _, rfl⟩ := List.mem_map.mp h
  exact ⟨rfl, rfl⟩

/-- The documents of one chunk in a batch are those of its own rows. -/
theorem filter_flatMap_chunkDocs (cfg : HybridConfig) (t : TenantId) (c : ChunkId)
    (rows : List (ChunkId × String)) :
    ((rows.flatMap (chunkDocs cfg t)).filter fun d => d.tenantId == t && d.chunkId == c) =
      (rows.filter fun row => row.1 == c).flatMap (chunkDocs cfg t) := by
  induction rows with
  | nil => rfl
  | cons row rows ih =>
    rw [List.flatMap_cons, List.filter_append, ih, List.filter_cons]
    by_cases hc : row.1 = c
    · have hall : ((chunkDocs cfg t row).filter fun d => d.tenantId == t && d.chunkId == c) =
          chunkDocs cfg t row := by
        apply List.filter_eq_self.mpr
        intro d hd
        simp [mem_chunkDocs hd, hc]
      rw [hall, if_pos (by simp [hc]), List.flatMap_cons]
    · have hnone : ((chunkDocs cfg t row).filter fun d => d.tenantId == t && d.chunkId == c) = [] := by
        apply List.filter_eq_nil_iff.mpr
        intro d hd
        simp [mem_chunkDocs hd, hc]
      rw [hnone, if_neg (by simp [hc]), List.nil_append]

/-- Documents of another chunk. -/
theorem filter_chunkDocs_other {cfg : HybridConfig} {l : List SparseDoc}
    (hl : ∀ d ∈ l, d ∈ rows.flatMap (chunkDocs cfg t)) (h : t' ≠ t ∨ c ∉ rows.map Prod.fst) :
    (l.filter fun d => d.tenantId == t' && d.chunkId == c) = [] := by
  apply List.filter_eq_nil_iff.mpr
  intro d hd hdoc
  obtain ⟨row, hrow, hd⟩ := List.mem_flatMap.mp (hl d hd)
  obtain ⟨ht, hc⟩ := mem_chunkDocs hd
  obtain ⟨ht', hc'⟩ : d.tenantId = t' ∧ d.chunkId = c := by simpa using hdoc
  rcases h with hne | hmem
  · exact hne (ht'.symm.trans ht)
  · exact hmem (List.mem_map.mpr ⟨row, hrow, hc.symm.trans hc'⟩)

/-! ## What a call leaves of each side -/

/-- Dense indexing leaves the sparse side alone. -/
theorem indexDense_sparse (b : Backend) (s : HybridSearcher) (t : TenantId)
    (rows : List (ChunkId × String)) :
    (s.indexDense b t rows).1.config = s.config ∧ (s.indexDense b t rows).1.sparse = s.sparse := by
  unfold indexDense
  split <;> exact ⟨rfl, rfl⟩

/-- Sparse indexing leaves the dense side alone. -/
theorem indexSparse_dense (b : Backend) (s : HybridSearcher) (t : TenantId)
    (rows : List (ChunkId × String)) :
    (s.indexSparse b t rows).1.config = s.config ∧ (s.indexSparse b t rows).1.dense = s.dense ∧
      (s.indexSparse b t rows).1.sparse.isSome = s.sparse.isSome := by
  unfold indexSparse
  split
  · rename_i hdocs
    rw [hdocs]
    exact ⟨rfl, rfl, rfl⟩
  · exact ⟨rfl, rfl, rfl⟩

/-- A call either stopped at the graph or went through both sides. -/
theorem indexBatch_cases (b : Backend) (s : HybridSearcher) (t : TenantId)
    (rows : List (ChunkId × String)) :
    (rows = [] ∧ s.indexBatch b t rows = (s, .ok ())) ∨
    (∃ err, (s.indexDense b t rows).2 = .error err ∧
      s.indexBatch b t rows = ((s.indexDense b t rows).1, .error err)) ∨
    ((s.indexDense b t rows).2 = .ok () ∧
      s.indexBatch b t rows = (s.indexDense b t rows).1.indexSparse b t rows) := by
  unfold indexBatch
  cases rows with
  | nil => exact .inl ⟨rfl, rfl⟩
  | cons row rows =>
    refine .inr ?_
    cases hdense : s.indexDense b t (row :: rows) with
    | mk s' outcome =>
      cases outcome with
      | error err => exact .inl ⟨err, rfl, by simp⟩
      | ok u => exact .inr ⟨rfl, by simp⟩

/-- Indexing a batch leaves the configuration alone. -/
theorem sparseOn_indexBatch (b : Backend) (s : HybridSearcher) (t : TenantId)
    (rows : List (ChunkId × String)) :
    (s.indexBatch b t rows).1.config = s.config ∧
      (s.indexBatch b t rows).1.sparseOn = s.sparseOn := by
  have hdense := s.indexDense_sparse b t rows
  have hsparse := (s.indexDense b t rows).1.indexSparse_dense b t rows
  rcases s.indexBatch_cases b t rows with ⟨_, hcall⟩ | ⟨err, _, hcall⟩ | ⟨_, hcall⟩
  · rw [hcall]
    exact ⟨rfl, rfl⟩
  · rw [hcall]
    exact ⟨hdense.1, by rw [sparseOn, hdense.1, hdense.2]; rfl⟩
  · rw [hcall]
    exact ⟨hsparse.1.trans hdense.1, by
      rw [sparseOn, hsparse.1, hsparse.2.2, hdense.1, hdense.2]; rfl⟩

/-- A dense call: the points of a chunk stay, and one that succeeds adds as many as the
batch names the chunk. -/
theorem points_denseIndexBatch (b : Backend) (ix : LoadedIndex) (rows : List (ChunkId × String))
    (c : ChunkId) :
    ∃ pts : List Point, (denseIndexBatch b ix rows).1.points c = ix.points c ++ pts ∧
      pts.length = match (denseIndexBatch b ix rows).2 with
        | .ok () => (rows.map Prod.fst).count c
        | .error _ => 0 := by
  unfold denseIndexBatch
  split
  · exact ⟨[], by simp⟩
  · rename_i es hes
    have hfst : (((rows.map Prod.fst).zip es).map Prod.fst) = rows.map Prod.fst :=
      List.map_fst_zip (by rw [b.embedTexts_length _ _ hes]; simp)
    cases hins : (ix.insertBatch ((rows.map Prod.fst).zip es)).2 with
    | error err => exact ⟨[], by simp [ix.points_insertBatch_error _ hins c]⟩
    | ok u =>
      obtain ⟨pts, hpts, hlen⟩ := ix.points_insertBatch _ hins c
      exact ⟨pts, hpts, hfst ▸ hlen⟩

/-- Chunks that are not of the batch keep their points. -/
theorem points_indexBatch_other (h : t' ≠ t ∨ c ∉ rows.map Prod.fst) :
    (s.indexBatch b t rows).1.points t' c = s.points t' c := by
  have hdense : (s.indexDense b t rows).1.points t' c = s.points t' c := by
    unfold indexDense
    split
    · by_cases ht : t' = t
      · subst ht
        have hc : c ∉ rows.map Prod.fst := h.resolve_left (fun hne => hne rfl)
        obtain ⟨pts, hpts, hlen⟩ := points_denseIndexBatch b (s.dense t') rows c
        have hnil : pts = [] := by
          apply List.eq_nil_of_length_eq_zero
          rw [hlen]
          split
          · exact List.count_eq_zero.mpr hc
          · rfl
        simp [points, hpts, hnil]
      · simp [points, Function.update_of_ne ht]
    · rfl
  rcases s.indexBatch_cases b t rows with ⟨_, hcall⟩ | ⟨err, _, hcall⟩ | ⟨_, hcall⟩
  · rw [hcall]
  · rw [hcall]
    exact hdense
  · rw [hcall, ← hdense]
    simp [points, ((s.indexDense b t rows).1.indexSparse_dense b t rows).2.1]

/-- A call that succeeds adds a point for each time its batch names the chunk. -/
theorem length_points_indexBatch (hok : (s.indexBatch b t rows).2 = .ok ())
    (hk : 0 < s.config.denseK) (c : ChunkId) :
    ((s.indexBatch b t rows).1.points t c).length =
      (s.points t c).length + (rows.map Prod.fst).count c := by
  have hdense : (s.indexDense b t rows).2 = .ok () →
      ((s.indexDense b t rows).1.points t c).length =
        (s.points t c).length + (rows.map Prod.fst).count c := by
    intro hok
    simp only [indexDense, if_pos hk] at hok ⊢
    obtain ⟨pts, hpts, hlen⟩ := points_denseIndexBatch b (s.dense t) rows c
    rw [hok] at hlen
    simp [points, hpts, hlen]
  rcases s.indexBatch_cases b t rows with ⟨rfl, hcall⟩ | ⟨err, _, hcall⟩ | ⟨hdok, hcall⟩
  · rw [hcall]
    simp
  · rw [hcall] at hok
    simp at hok
  · rw [hcall, ← hdense hdok]
    simp [points, ((s.indexDense b t rows).1.indexSparse_dense b t rows).2.1]

/-- What the sparse side of a call adds. -/
theorem docs_indexSparse (b : Backend) (s : HybridSearcher) (t : TenantId)
    (rows : List (ChunkId × String)) :
    ∃ l : List SparseDoc, (∀ t' c, (s.indexSparse b t rows).1.docs t' c =
        s.docs t' c ++ l.filter fun d => d.tenantId == t' && d.chunkId == c) ∧
      (∀ d ∈ l, d ∈ rows.flatMap (chunkDocs s.config t)) ∧
      (s.sparseOn = true → (s.indexSparse b t rows).2 = .ok () →
        l = rows.flatMap (chunkDocs s.config t)) := by
  unfold indexSparse
  split
  · rename_i docs hon hdocs
    unfold sparseInsertBatch
    rw [flatMap_sparseItems]
    split
    · rename_i hempty
      have hnone : rows.flatMap (chunkDocs s.config t) = [] := by
        rw [← flatMap_sparseItems, List.isEmpty_iff.mp hempty]
        rfl
      exact ⟨[], by simp [HybridSearcher.docs, hdocs], by simp, fun _ _ => hnone.symm⟩
    · split
      · exact ⟨_, by simp [HybridSearcher.docs, hdocs], fun _ hd => hd, fun _ _ => rfl⟩
      · rename_i n err _
        exact ⟨(rows.flatMap (chunkDocs s.config t)).take n, by simp [HybridSearcher.docs, hdocs],
          fun _ hd => List.mem_of_mem_take hd, by simp⟩
  · rename_i hoff
    refine ⟨[], by simp, by simp, ?_⟩
    intro hon
    obtain ⟨hen, hsome⟩ := Bool.and_eq_true_iff.mp hon
    obtain ⟨docs, hdocs⟩ := Option.isSome_iff_exists.mp hsome
    exact absurd hdocs (hoff docs hen)

/-- Dense indexing changes no sparse document. -/
theorem docs_indexDense (b : Backend) (s : HybridSearcher) (t t' : TenantId)
    (rows : List (ChunkId × String)) (c : ChunkId) :
    (s.indexDense b t rows).1.docs t' c = s.docs t' c := by
  rw [docs, (s.indexDense_sparse b t rows).2]
  rfl

/-- Chunks that are not of the batch keep their documents. -/
theorem docs_indexBatch_other (h : t' ≠ t ∨ c ∉ rows.map Prod.fst) :
    (s.indexBatch b t rows).1.docs t' c = s.docs t' c := by
  rcases s.indexBatch_cases b t rows with ⟨_, hcall⟩ | ⟨err, _, hcall⟩ | ⟨_, hcall⟩
  · rw [hcall]
  · rw [hcall]
    exact s.docs_indexDense b t t' rows c
  · obtain ⟨l, hdocs, hl, _⟩ := (s.indexDense b t rows).1.docs_indexSparse b t rows
    rw [hcall, hdocs, s.docs_indexDense b t t' rows c, filter_chunkDocs_other hl h,
      List.append_nil]

/-- A call that succeeds adds the sentences of each row. -/
theorem docs_indexBatch (hok : (s.indexBatch b t rows).2 = .ok ()) (hon : s.sparseOn = true)
    (c : ChunkId) :
    (s.indexBatch b t rows).1.docs t c =
      s.docs t c ++ (rows.filter fun row => row.1 == c).flatMap (chunkDocs s.config t) := by
  rcases s.indexBatch_cases b t rows with ⟨rfl, hcall⟩ | ⟨err, _, hcall⟩ | ⟨_, hcall⟩
  · rw [hcall]
    simp
  · rw [hcall] at hok
    simp at hok
  · obtain ⟨l, hdocs, _, hl⟩ := (s.indexDense b t rows).1.docs_indexSparse b t rows
    have hsame := s.indexDense_sparse b t rows
    rw [hcall] at hok ⊢
    rw [hdocs, s.docs_indexDense b t t rows c, hl (by rw [sparseOn, hsame.1, hsame.2]; exact hon) hok,
      hsame.1, filter_flatMap_chunkDocs]

/-! ## Chunks with nothing of their own -/

/-- The batch names each chunk once, and none has a point in the graph or a document. -/
structure Fresh (s : HybridSearcher) (t : TenantId) (rows : List (ChunkId × String)) : Prop where
  nodup : (rows.map Prod.fst).Nodup
  points : 0 < s.config.denseK → ∀ row ∈ rows, s.points t row.1 = []
  docs : s.sparseOn = true → ∀ row ∈ rows, s.docs t row.1 = []

/-- A part of a fresh batch is fresh. -/
theorem Fresh.left {rows' : List (ChunkId × String)} (h : s.Fresh t (rows ++ rows')) :
    s.Fresh t rows where
  nodup := (List.nodup_append.mp (List.map_append ▸ h.nodup)).1
  points hk row hrow := h.points hk row (List.mem_append_left _ hrow)
  docs hon row hrow := h.docs hon row (List.mem_append_left _ hrow)

/-- What is left is still fresh behind the call on the first rows, whatever came of it. -/
theorem Fresh.right {rows' : List (ChunkId × String)} (h : s.Fresh t (rows ++ rows')) :
    (s.indexBatch b t rows).1.Fresh t rows' := by
  have hnodup := List.nodup_append.mp (List.map_append ▸ h.nodup)
  have hsame := s.sparseOn_indexBatch b t rows
  have hother : ∀ row ∈ rows', row.1 ∉ rows.map Prod.fst := by
    intro row hrow hmem
    exact hnodup.2.2 _ hmem _ (List.mem_map_of_mem hrow) rfl
  constructor
  · exact hnodup.2.1
  · intro hk row hrow
    rw [points_indexBatch_other (.inr (hother row hrow))]
    exact h.points (hsame.1 ▸ hk) row (List.mem_append_right _ hrow)
  · intro hon row hrow
    rw [docs_indexBatch_other (.inr (hother row hrow))]
    exact h.docs (hsame.2 ▸ hon) row (List.mem_append_right _ hrow)

/-- The chunk has exactly one point, and exactly one document for each sentence. -/
structure OneCopy (s : HybridSearcher) (t : TenantId) (row : ChunkId × String) : Prop where
  points : 0 < s.config.denseK → (s.points t row.1).length = 1
  docs : s.sparseOn = true → s.docs t row.1 = chunkDocs s.config t row

/-- In a list without a repeated id, one id selects one entry. -/
theorem filter_fst_of_nodup {α : Type} {l : List (ChunkId × α)} (h : (l.map Prod.fst).Nodup)
    {x : ChunkId × α} (hx : x ∈ l) : (l.filter fun y => y.1 == x.1) = [x] := by
  induction l with
  | nil => exact absurd hx (List.not_mem_nil)
  | cons y l ih =>
    rw [List.map_cons, List.nodup_cons] at h
    rcases List.mem_cons.mp hx with rfl | hmem
    · rw [List.filter_cons, if_pos (by simp), List.filter_eq_nil_iff.mpr]
      intro y hy heq
      exact h.1 ((beq_iff_eq.mp heq) ▸ List.mem_map_of_mem hy)
    · have hne : ¬ (y.1 == x.1) = true := by
        intro heq
        exact h.1 ((beq_iff_eq.mp heq) ▸ List.mem_map_of_mem hmem)
      rw [List.filter_cons, if_neg hne]
      exact ih h.2 hmem

/-- **A call on fresh rows** that succeeds leaves one copy of each. -/
theorem Fresh.oneCopy (h : s.Fresh t rows) (hok : (s.indexBatch b t rows).2 = .ok ())
    {row : ChunkId × String} (hrow : row ∈ rows) : (s.indexBatch b t rows).1.OneCopy t row := by
  have hsame := s.sparseOn_indexBatch b t rows
  constructor
  · intro hk
    have hk : 0 < s.config.denseK := hsame.1 ▸ hk
    rw [length_points_indexBatch hok hk, h.points hk row hrow,
      List.count_eq_one_of_mem h.nodup (List.mem_map_of_mem hrow)]
    rfl
  · intro hon
    have hon : s.sparseOn = true := hsame.2 ▸ hon
    rw [docs_indexBatch hok hon, h.docs hon row hrow, filter_fst_of_nodup h.nodup hrow, hsame.1,
      List.flatMap_singleton, List.nil_append]

/-- Chunks that are not of the batch keep their copy. -/
theorem OneCopy.indexBatch_other {row : ChunkId × String} (h : s.OneCopy t' row)
    (hother : t' ≠ t ∨ row.1 ∉ rows.map Prod.fst) : (s.indexBatch b t rows).1.OneCopy t' row := by
  have hsame := s.sparseOn_indexBatch b t rows
  constructor
  · intro hk
    rw [points_indexBatch_other hother]
    exact h.points (hsame.1 ▸ hk)
  · intro hon
    rw [docs_indexBatch_other hother, hsame.1]
    exact h.docs (hsame.2 ▸ hon)

/-- Deleting another chunk keeps the copy. -/
theorem OneCopy.deleteChunk {row : ChunkId × String} (h : s.OneCopy t row)
    (hother : ¬ (t = t' ∧ row.1 = c)) : (s.deleteChunk t' c).OneCopy t row := by
  unfold HybridSearcher.deleteChunk
  split
  · rename_i docs hon hdocs
    refine ⟨h.points, ?_⟩
    intro hsparse
    have hsparse : s.sparseOn = true := by simp [sparseOn, hon, hdocs]
    rw [← h.docs hsparse]
    simp only [HybridSearcher.docs, Option.getD_some, hdocs, List.filter_filter]
    apply List.filter_congr
    intro d _
    by_cases hd : d.tenantId = t ∧ d.chunkId = row.1
    · have hkeep : ¬ (t = t' ∧ row.1 = c) := hother
      simp only [hd.1, hd.2, beq_self_eq_true, Bool.and_self, Bool.true_and, Bool.not_eq_true',
        Bool.and_eq_false_iff, beq_eq_false_iff_ne]
      tauto
    · have hoff : (d.tenantId == t && d.chunkId == row.1) = false := by
        simpa using hd
      rw [hoff, Bool.false_and]
  · exact h

/-- Fresh rows of which each has its one copy add nothing: the dense side is off and none of
them has a sentence. -/
theorem Fresh.unchanged (h : s.Fresh t rows) (hcopy : ∀ row ∈ rows, s.OneCopy t row) :
    (s.indexBatch b t rows).1.sparse = s.sparse ∧ (s.indexBatch b t rows).1.dense = s.dense := by
  cases hrows : rows with
  | nil => exact ⟨rfl, rfl⟩
  | cons row rows' =>
    rw [← hrows]
    have hrow : row ∈ rows := by simp [hrows]
    have hk : ¬ 0 < s.config.denseK := by
      intro hk
      have hone := (hcopy row hrow).points hk
      rw [h.points hk row hrow] at hone
      exact absurd hone (by simp)
    have hdense : s.indexDense b t rows = (s, .ok ()) := if_neg hk
    have hsparse : (s.indexSparse b t rows).1 = s := by
      unfold indexSparse
      split
      · rename_i docs hon hdocs
        have hnone : (sparseItems s.config t rows) = [] := by
          apply List.filterMap_eq_nil_iff.mpr
          intro row hrow
          have hson : s.sparseOn = true := by simp [sparseOn, hon, hdocs]
          have hempty := (hcopy row hrow).docs hson
          rw [h.docs hson row hrow] at hempty
          have hsent : s.config.processChunk row.2 = [] := by
            simpa [chunkDocs, itemDocs] using hempty.symm
          simp [hsent]
        simp [hnone, sparseInsertBatch, ← hdocs]
      · rfl
    rcases s.indexBatch_cases b t rows with ⟨_, hcall⟩ | ⟨err, herr, _⟩ | ⟨_, hcall⟩
    · rw [hcall]
      exact ⟨rfl, rfl⟩
    · rw [hdense] at herr
      exact absurd herr (by simp)
    · rw [hcall, hdense, hsparse]
      exact ⟨rfl, rfl⟩

end HybridSearcher

/-! ## Batches -/

/-- Cutting a list into pieces loses and reorders nothing, with the pieces cut so far. -/
theorem flatten_toChunks_go {α : Type} (n : ℕ) (l : List α) (acc : Array α)
    (out : Array (List α)) :
    (List.toChunks.go n l acc out).flatten = out.toList.flatten ++ acc.toList ++ l := by
  induction l generalizing acc out with
  | nil => simp [List.toChunks.go]
  | cons x l ih =>
    rw [List.toChunks.go]
    split
    · rw [ih]
      simp
    · rw [ih]
      simp

/-- Batches hold the list, in order. -/
theorem flatten_toChunks {α : Type} (n : ℕ) (l : List α) : (l.toChunks n).flatten = l := by
  cases l with
  | nil => cases n <;> rfl
  | cons x l =>
    cases n with
    | zero => simp [List.toChunks]
    | succ n => simp [List.toChunks, flatten_toChunks_go]

namespace IndexedStore

variable {s : IndexedStore} {t : TenantId}

/-- Each chunk that is indexed has one copy. -/
def OneCopyEach (s : IndexedStore) : Prop :=
  ∀ e ∈ s.indexed, s.searcher.OneCopy e.1 e.2

/-- What is left after some chunks are forgotten. -/
theorem mem_forget {indexed : List (TenantId × ChunkId × String)} {t : TenantId}
    {ids : List ChunkId} {e : TenantId × ChunkId × String} :
    e ∈ forget indexed t ids ↔ e ∈ indexed ∧ (e.1 ≠ t ∨ e.2.1 ∉ ids) := by
  rw [forget, List.mem_filter]
  refine and_congr_right fun _ => ?_
  simp only [Bool.not_eq_true', Bool.and_eq_false_iff, beq_eq_false_iff_ne, decide_eq_false_iff_not]

/-- **One index call** on fresh rows, whatever comes of it. -/
theorem OneCopyEach.indexBatch {b : Backend} {rows : List (ChunkId × String)} (h : s.OneCopyEach)
    (hfresh : s.searcher.Fresh t rows) : (s.indexBatch b t rows).1.OneCopyEach := by
  have hkept : ∀ e ∈ forget s.indexed t (rows.map Prod.fst),
      (s.searcher.indexBatch b t rows).1.OneCopy e.1 e.2 := by
    intro e he
    obtain ⟨he, hother⟩ := mem_forget.mp he
    exact (h e he).indexBatch_other hother
  unfold IndexedStore.indexBatch
  dsimp only
  split
  · rename_i hout
    intro e he
    rcases List.mem_append.mp he with he | he
    · exact hkept e he
    · obtain ⟨row, hrow, rfl⟩ := List.mem_map.mp he
      exact hfresh.oneCopy hout hrow
  · exact hkept

/-- The searcher after a batch. -/
theorem searcher_indexBatch (b : Backend) (s : IndexedStore) (t : TenantId)
    (rows : List (ChunkId × String)) :
    (s.indexBatch b t rows).1.searcher = (s.searcher.indexBatch b t rows).1 := by
  unfold IndexedStore.indexBatch
  dsimp only
  split <;> rfl

/-- **A delete** keeps one copy of each indexed chunk. -/
theorem OneCopyEach.deleteChunk (h : s.OneCopyEach) (t : TenantId) (c : ChunkId) :
    (s.deleteChunk t c).OneCopyEach := by
  intro e he
  obtain ⟨he, hother⟩ := mem_forget.mp he
  refine (h e he).deleteChunk ?_
  rintro ⟨ht, hc⟩
  rcases hother with hne | hmem
  · exact hne ht
  · exact hmem (by simp [hc])

/-! ### Loops -/

/-- A job keeps one copy of each, up to the batch that fails. -/
theorem OneCopyEach.jobLoop (bs : ℕ → Backend) (n : ℕ) (batches : List (List (ChunkId × String)))
    (h : s.OneCopyEach) (hfresh : s.searcher.Fresh t batches.flatten) :
    (jobLoop bs t n batches s).1.OneCopyEach := by
  induction batches generalizing s n with
  | nil => exact h
  | cons batch batches ih =>
    rw [List.flatten_cons] at hfresh
    have hstep : (s.indexBatch (bs n) t batch).1.OneCopyEach := h.indexBatch hfresh.left
    have hrest : (s.indexBatch (bs n) t batch).1.searcher.Fresh t batches.flatten := by
      rw [searcher_indexBatch]
      exact hfresh.right
    rw [IndexedStore.jobLoop]
    split
    · rename_i s' heq
      rw [heq] at hstep hrest
      exact ih (n + 1) hstep hrest
    · rename_i s' err heq
      rw [heq] at hstep
      exact hstep

/-- **An index job** over chunks that are not yet indexed keeps one copy of each. -/
theorem OneCopyEach.runAsyncIndexJob (bs : ℕ → Backend) (h : s.OneCopyEach)
    {rows : List (ChunkId × String)} (hfresh : s.searcher.Fresh t rows) (batchSize : ℕ)
    (chunkIds : List ChunkId) (now : ℤ) :
    (runAsyncIndexJob bs s t batchSize chunkIds rows now).OneCopyEach := by
  have hloop := h.jobLoop bs 0 (rows.toChunks (max batchSize 1))
    (by rw [flatten_toChunks]; exact hfresh)
  unfold IndexedStore.runAsyncIndexJob
  split
  · rename_i s' err heq
    rw [heq] at hloop
    exact hloop
  · rename_i s' heq
    rw [heq] at hloop
    exact hloop

/-- What a row load reads stays what it is while batches are indexed. -/
theorem loadRows_indexBatch (b : Backend) (s : IndexedStore) (t t' : TenantId)
    (rows : List (ChunkId × String)) (ids : List ChunkId) :
    (s.indexBatch b t rows).1.loadRows t' ids = s.loadRows t' ids := by
  have hsame : (s.indexBatch b t rows).1.db = s.db ∧
      (s.indexBatch b t rows).1.readPayload = s.readPayload := by
    unfold IndexedStore.indexBatch
    dsimp only
    split <;> exact ⟨rfl, rfl⟩
  simp only [loadRows, loadChunkTextForIndex, hsame.1, hsame.2]

/-- The rows of two lists of ids are loaded one after the other. -/
theorem loadRows_append (s : IndexedStore) (t : TenantId) (ids ids' : List ChunkId) :
    s.loadRows t (ids ++ ids') = s.loadRows t ids ++ s.loadRows t ids' :=
  List.filterMap_append

/-- One batch of the repair pass is an index call on the rows it loads. -/
theorem backfillBatch_fst (b : Backend) (t : TenantId) (acc : IndexedStore × BackfillStats)
    (batch : List ChunkId) :
    (backfillBatch b t acc batch).1 = acc.1 ∧ acc.1.loadRows t batch = [] ∨
      (backfillBatch b t acc batch).1 = (acc.1.indexBatch b t (acc.1.loadRows t batch)).1 := by
  unfold backfillBatch
  dsimp only
  split
  · rename_i hempty
    exact .inl ⟨rfl, List.isEmpty_iff.mp hempty⟩
  · refine .inr ?_
    split <;> rename_i heq <;> rw [heq]

/-- The backfill's loop keeps one copy of each, batch after batch. -/
theorem OneCopyEach.backfillLoop (bs : ℕ → Backend) (n : ℕ) (batches : List (List ChunkId))
    {acc : IndexedStore × BackfillStats} (h : acc.1.OneCopyEach)
    (hfresh : acc.1.searcher.Fresh t (acc.1.loadRows t batches.flatten)) :
    (backfillLoop bs t n batches acc).1.OneCopyEach := by
  induction batches generalizing acc n with
  | nil => exact h
  | cons batch batches ih =>
    rw [List.flatten_cons, loadRows_append] at hfresh
    rw [IndexedStore.backfillLoop]
    rcases backfillBatch_fst (bs n) t acc batch with ⟨hsame, hnone⟩ | hcall
    · rw [hnone, List.nil_append] at hfresh
      refine ih (n + 1) (hsame ▸ h) ?_
      rw [hsame]
      exact hfresh
    · refine ih (n + 1) (hcall ▸ h.indexBatch hfresh.left) ?_
      rw [hcall, loadRows_indexBatch, searcher_indexBatch]
      exact hfresh.right

/-- **The backfill** of chunks that are not yet indexed keeps one copy of each. -/
theorem OneCopyEach.backfillTenant (bs : ℕ → Backend) {acc : IndexedStore × BackfillStats}
    (h : acc.1.OneCopyEach)
    (hfresh : acc.1.searcher.Fresh t (acc.1.loadRows t (acc.1.missing t))) :
    (backfillTenant bs acc t).1.OneCopyEach := by
  have hloop := h.backfillLoop bs 0 ((acc.1.missing t).toChunks backfillBatchSize)
    (by rw [flatten_toChunks]; exact hfresh)
  unfold IndexedStore.backfillTenant
  dsimp only
  split <;> exact hloop

/-! ### Sweeps -/

/-- Marking a row as failed changes nothing that is read of any row. -/
theorem get_markIndexFailed (db : Db) (t t' : TenantId) (c c' : ChunkId) (error : String) (now : ℤ) :
    (db.markIndexFailed t c error now).get t' c' = db.get t' c' := by
  have hfind : ∀ l : List ChunkRow,
      (((Table.updateWhere (ChunkRow.isRow t c) (fun r =>
          { r with indexState := .failed, indexAttempts := r.indexAttempts + 1,
                   indexLastError := some error, indexUpdatedAtMs := now }) l).find? fun r =>
        ChunkRow.isRow t' c' r && ChunkRow.isLive r).map (·.toChunkMetadata)) =
      ((l.find? fun r => ChunkRow.isRow t' c' r && ChunkRow.isLive r).map (·.toChunkMetadata)) := by
    intro l
    induction l with
    | nil => rfl
    | cons r l ih =>
      rw [Table.updateWhere, List.map_cons, ← Table.updateWhere, List.find?_cons, List.find?_cons]
      by_cases hr : ChunkRow.isRow t c r = true
      · rw [if_pos hr]
        -- the columns of the mark are neither part of the key nor of the liveness
        have hsame : (ChunkRow.isRow t' c' { r with
              indexState := .failed, indexAttempts := r.indexAttempts + 1,
              indexLastError := some error, indexUpdatedAtMs := now } &&
            ChunkRow.isLive { r with
              indexState := .failed, indexAttempts := r.indexAttempts + 1,
              indexLastError := some error, indexUpdatedAtMs := now }) =
            (ChunkRow.isRow t' c' r && ChunkRow.isLive r) := rfl
        rw [hsame]
        cases ChunkRow.isRow t' c' r && ChunkRow.isLive r with
        | true => rfl
        | false => exact ih
      · rw [if_neg hr]
        cases ChunkRow.isRow t' c' r && ChunkRow.isLive r with
        | true => rfl
        | false => exact ih
  exact hfind db.chunks

/-- The rows a sweep loads, and that it touches nothing but index columns. -/
theorem foldl_sweepLoad (t : TenantId) (now : ℤ) (ids : List ChunkId)
    (acc : IndexedStore × List (ChunkId × String)) :
    (ids.foldl (sweepLoad t now) acc).2 = acc.2 ++ acc.1.loadRows t ids ∧
      (ids.foldl (sweepLoad t now) acc).1.searcher = acc.1.searcher ∧
      (ids.foldl (sweepLoad t now) acc).1.indexed = acc.1.indexed := by
  induction ids generalizing acc with
  | nil => exact ⟨by simp [loadRows], rfl, rfl⟩
  | cons c ids ih =>
    obtain ⟨hrows, hsearcher, hindexed⟩ := ih (sweepLoad t now acc c)
    have hload : ∀ c', (sweepLoad t now acc c).1.loadChunkTextForIndex t c' =
        acc.1.loadChunkTextForIndex t c' := by
      intro c'
      unfold sweepLoad
      dsimp only
      split
      · rfl
      · show loadChunkTextForIndex { acc.1 with db := acc.1.db.markIndexFailed t c _ now } t c' = _
        simp only [loadChunkTextForIndex, get_markIndexFailed]
      · show loadChunkTextForIndex { acc.1 with db := acc.1.db.markIndexFailed t c _ now } t c' = _
        simp only [loadChunkTextForIndex, get_markIndexFailed]
    have hrest : (sweepLoad t now acc c).1.loadRows t ids = acc.1.loadRows t ids := by
      simp only [loadRows, hload]
    have hone : (sweepLoad t now acc c).2 = acc.2 ++ acc.1.loadRows t [c] ∧
        (sweepLoad t now acc c).1.searcher = acc.1.searcher ∧
        (sweepLoad t now acc c).1.indexed = acc.1.indexed := by
      unfold sweepLoad
      dsimp only
      split <;> rename_i heq <;> simp [loadRows, heq]
    refine ⟨?_, hsearcher.trans hone.2.1, hindexed.trans hone.2.2⟩
    rw [List.foldl_cons, hrows, hrest, hone.1, List.append_assoc, ← loadRows_append]
    rfl

/-- **The sweep** over chunks that are not yet indexed keeps one copy of each. -/
theorem OneCopyEach.sweepPendingIndexJobs (bs : ℕ → Backend) (h : s.OneCopyEach) {batchSize : ℕ}
    (hfresh : s.searcher.Fresh t (s.loadRows t (s.db.listPendingIndexChunkIds t batchSize)))
    (now : ℤ) : (sweepPendingIndexJobs bs s t batchSize now).OneCopyEach := by
  obtain ⟨hrows, hsearcher, hindexed⟩ :=
    foldl_sweepLoad t now (s.db.listPendingIndexChunkIds t batchSize) (s, [])
  rw [List.nil_append] at hrows
  have hloaded : ((s.db.listPendingIndexChunkIds t batchSize).foldl (sweepLoad t now)
      (s, [])).1.OneCopyEach := by
    intro e he
    rw [hsearcher]
    exact h e (hindexed ▸ he)
  unfold IndexedStore.sweepPendingIndexJobs
  dsimp only
  split
  · exact hloaded
  · refine hloaded.runAsyncIndexJob bs ?_ batchSize _ now
    rw [hsearcher, hrows]
    exact hfresh

end IndexedStore

/-! ## Runs -/

/-- What can happen to a store and its hybrid index. -/
inductive HybridOp
  /-- rows are added, deleted or changed -/
  | metadata (db : Db) (readPayload : TenantId → ChunkId → ℕ → ℕ → Except MemdError (Option String))
  | index (b : Backend) (t : TenantId) (rows : List (ChunkId × String))
  | delete (t : TenantId) (c : ChunkId)
  /-- `run_hnsw_backfill` comes to a tenant -/
  | backfill (bs : ℕ → Backend) (t : TenantId)
  /-- a job of the queue -/
  | job (bs : ℕ → Backend) (t : TenantId) (batchSize : ℕ) (chunkIds : List ChunkId)
      (rows : List (ChunkId × String)) (now : ℤ)
  /-- `sweep_pending_index_jobs` comes to a tenant -/
  | sweep (bs : ℕ → Backend) (t : TenantId) (batchSize : ℕ) (now : ℤ)

namespace IndexedStore

/-- The store after one operation. -/
def step (s : IndexedStore) : HybridOp → IndexedStore
  | .metadata db readPayload => { s with db := db, readPayload := readPayload }
  | .index b t rows => (s.indexBatch b t rows).1
  | .delete t c => s.deleteChunk t c
  | .backfill bs t => (backfillTenant bs (s, {}) t).1
  | .job bs t batchSize chunkIds rows now => runAsyncIndexJob bs s t batchSize chunkIds rows now
  | .sweep bs t batchSize now => sweepPendingIndexJobs bs s t batchSize now

/-- The store after a list of operations. -/
def run (s : IndexedStore) (ops : List HybridOp) : IndexedStore :=
  ops.foldl step s

/-- A store over any rows and any indexes, in which no call has been made. -/
def opened (db : Db) (readPayload : TenantId → ChunkId → ℕ → ℕ → Except MemdError (Option String))
    (searcher : HybridSearcher) : IndexedStore :=
  { db := db, readPayload := readPayload, searcher := searcher }

/-- The rows that the step indexes have nothing in the indexes yet. -/
def FreshFor (s : IndexedStore) : HybridOp → Prop
  | .metadata _ _ => True
  | .index _ t rows => s.searcher.Fresh t rows
  | .delete _ _ => True
  | .backfill _ t => s.searcher.Fresh t (s.loadRows t (s.missing t))
  | .job _ t _ _ rows _ => s.searcher.Fresh t rows
  | .sweep _ t batchSize _ =>
    s.searcher.Fresh t (s.loadRows t (s.db.listPendingIndexChunkIds t batchSize))

/-- Every index call of the run is about chunks that are not indexed when it starts. -/
def FreshRun : IndexedStore → List HybridOp → Prop
  | _, [] => True
  | s, op :: ops => s.FreshFor op ∧ FreshRun (s.step op) ops

/-- **One step.** -/
theorem OneCopyEach.step {s : IndexedStore} (h : s.OneCopyEach) {op : HybridOp}
    (hfresh : s.FreshFor op) : (s.step op).OneCopyEach := by
  cases op with
  | metadata db readPayload => exact h
  | index b t rows => exact h.indexBatch hfresh
  | delete t c => exact h.deleteChunk t c
  | backfill bs t => exact OneCopyEach.backfillTenant bs (show (s, _).1.OneCopyEach from h) hfresh
  | job bs t batchSize chunkIds rows now => exact h.runAsyncIndexJob bs hfresh batchSize chunkIds now
  | sweep bs t batchSize now => exact h.sweepPendingIndexJobs bs hfresh now

/-- **One copy of each chunk** is kept by every run whose index calls are about chunks that are not
yet indexed. -/
theorem OneCopyEach.run {s : IndexedStore} (h : s.OneCopyEach) {ops : List HybridOp}
    (hfresh : s.FreshRun ops) (n : ℕ) : (s.run (ops.take n)).OneCopyEach := by
  induction ops generalizing s n with
  | nil => rwa [List.take_nil]
  | cons op ops ih =>
    cases n with
    | zero => exact h
    | succ n => exact ih (h.step hfresh.1) hfresh.2 n

/-- **One copy of each**: in a run from any rows and any indexes, in which every index call
is made on chunks with nothing of their own, every state has, for each chunk that is indexed
and not deleted, one point and one document for each sentence; and a further such call on
chunks that are indexed changes neither side. -/
theorem one_copy_each (db : Db)
    (readPayload : TenantId → ChunkId → ℕ → ℕ → Except MemdError (Option String)) (searcher : HybridSearcher)
    (ops : List HybridOp) (hfresh : (opened db readPayload searcher).FreshRun ops) (n : ℕ) :
    ((opened db readPayload searcher).run (ops.take n)).OneCopyEach ∧
    ∀ (b : Backend) (t : TenantId) (rows : List (ChunkId × String)),
      ((opened db readPayload searcher).run (ops.take n)).searcher.Fresh t rows →
      (∀ row ∈ rows, (t, row) ∈ ((opened db readPayload searcher).run (ops.take n)).indexed) →
      let after := (((opened db readPayload searcher).run (ops.take n)).indexBatch b t rows).1
      after.searcher.sparse = ((opened db readPayload searcher).run (ops.take n)).searcher.sparse ∧
        after.searcher.dense =
          ((opened db readPayload searcher).run (ops.take n)).searcher.dense := by
  have hstart : (opened db readPayload searcher).OneCopyEach := by
    intro e he
    exact absurd he (List.not_mem_nil)
  have hrun := hstart.run hfresh n
  refine ⟨hrun, ?_⟩
  intro b t rows hrows hindexed
  dsimp only
  rw [searcher_indexBatch]
  exact hrows.unchanged fun row hrow => hrun (t, row) (hindexed row hrow)

/-! ### Two runs -/

/-- An embedder of dimension one and a writer that does not fail. -/
def sampleBackend : Backend where
  embedTexts texts := .ok (texts.map fun _ => [0])
  addDocument _ := none
  embedTexts_length := by
    intro texts es h
    rw [← Except.ok.inj h, List.length_map]

/-- A pending row. -/
def samplePending : ChunkRow where
  chunkId := 1
  tenantId := "acme"
  projectId := none
  segmentId := 0
  ordinal := 0
  chunkType := .doc
  status := .final
  timestampCreated := 0
  hash := ""
  sourceUri := none
  lifecycle := {}
  canonicalText := none
  ingestionMode := .document
  indexState := .pending

/-- A store with one pending row and empty indexes; a text is one sentence. -/
def sampleStore : IndexedStore :=
  opened { chunks := [samplePending] } (fun _ _ _ _ => .ok (some "note"))
    { config := { processChunk := fun text => [text] }
      sparse := some []
      dense := fun _ => .new 1 }

/-- A sweep, then a job of two other chunks whose second batch fails in the sparse index. -/
def sampleFresh : List HybridOp :=
  [.sweep (fun _ => sampleBackend) "acme" 16 0,
   .job (fun n => if n = 0 then sampleBackend
      else { sampleBackend with addDocument := fun _ => some (0, .storageError "add document") })
    "acme" 1 [2, 3] [(2, "a"), (3, "b")] 0]

/-- An add and an index job for it: the condition holds and so does the invariant. -/
theorem one_copy_each_sampleFresh :
    sampleStore.FreshRun sampleFresh ∧ (sampleStore.run (sampleFresh.take 2)).OneCopyEach := by
  have hfresh : sampleStore.FreshRun sampleFresh := by
    refine ⟨⟨by decide +kernel, ?_, ?_⟩, ⟨by decide +kernel, ?_, ?_⟩, trivial⟩
    all_goals
      intro _
      decide +kernel
  exact ⟨hfresh, (one_copy_each _ _ _ sampleFresh hfresh 2).1⟩

/-- The sweep comes to the pending row before the job that waits for it in the queue. -/
def sampleRun : List HybridOp :=
  [.sweep (fun _ => sampleBackend) "acme" 16 0,
   .job (fun _ => sampleBackend) "acme" 16 [1] [(1, "note")] 0]

/-- The chunk has two points and each sentence twice. -/
theorem swept_and_queued_twice :
    ¬ (sampleStore.run sampleRun).OneCopyEach ∧
      ((sampleStore.run sampleRun).searcher.points "acme" 1).length = 2 ∧
      (sampleStore.run sampleRun).searcher.docs "acme" 1 =
        [⟨"acme", 1, 0, "note"⟩, ⟨"acme", 1, 0, "note"⟩] := by
  have hpoints : ((sampleStore.run sampleRun).searcher.points "acme" 1).length = 2 := by
    decide +kernel
  refine ⟨?_, hpoints, by decide +kernel⟩
  intro h
  have hone := (h ("acme", 1, "note") (by decide +kernel)).points (by decide +kernel)
  rw [hpoints] at hone
  exact absurd hone (by decide)

end IndexedStore
