/-
# The context packer

`retrieval/packer.rs`: ranked chunks go in, a selection that fits a token budget comes out.  The
chunks are sorted by score, cut to one for each content hash, thinned where an embedding is too
close to that of an earlier chunk, reordered by maximal marginal relevance and cut at the budget.

Scores, similarities and the arithmetic on them are 32-bit floats in the source and any type with
any operations here (`FloatOps`).  Sizes are `usize`: a product or sum that does not fit is no
result (`pack` is `none`).  The packer is generic in the chunk id, which it copies and never
looks at.

* `mmrSelect_perm` — the reordering loses and repeats nothing;
* `mmrSelect_relabel` … `pack_relabel` — a pass does not look at the ids;
* `pack_eq_some` — what comes out when the sizes fit, `pack_eq_none` when the budget does not.
-/
import Mathlib.Algebra.Order.BigOperators.Group.List
import Mathlib.Algebra.Order.Group.Nat
import Mathlib.Data.List.Sort
import Memd.Chunk
import Memd.GreedySelection
import Memd.RankedMerge

namespace ContextPacker

/-! ## Data -/

/-- The operations on scores, which come from the machine's floats. -/
structure FloatOps (F : Type) where
  /-- `a > b` -/
  gt : F → F → Bool
  /-- `a == b` -/
  eq : F → F → Bool
  add : F → F → F
  sub : F → F → F
  mul : F → F → F
  div : F → F → F
  max : F → F → F
  min : F → F → F
  abs : F → F
  sqrt : F → F
  /-- `as f32` -/
  ofNat : ℕ → F
  half : F
  epsilon : F
  infinity : F
  negInfinity : F

/-- `PackerConfig`. -/
structure PackerConfig (F : Type) where
  maxTokens : ℕ
  charsPerToken : ℕ
  mmrLambda : F
  dedupThreshold : F
  minPerType : ℕ
  deriving DecidableEq, Repr

/-- `PackerConfig::default`, with 0.7 and 0.9 as floats. -/
def PackerConfig.default {F : Type} (mmrLambda dedupThreshold : F) : PackerConfig F where
  maxTokens := 4000
  charsPerToken := 4
  mmrLambda := mmrLambda
  dedupThreshold := dedupThreshold
  minPerType := 1

/-- `PackerInput`. -/
structure PackerInput (ι F : Type) where
  chunkId : ι
  text : String
  chunkType : ChunkType
  score : F
  hash : String
  embedding : Option (List F)
  sourceUri : Option String
  deriving DecidableEq, Repr

/-- `PackedChunk`. -/
structure PackedChunk (ι F : Type) where
  chunkId : ι
  text : String
  chunkType : ChunkType
  score : F
  sourceUri : Option String
  tokenCount : ℕ
  deriving DecidableEq, Repr

/-- `PackedContext`. -/
structure PackedContext (ι F : Type) where
  chunks : List (PackedChunk ι F)
  totalTokens : ℕ
  duplicatesRemoved : ℕ
  diversityAdjustments : ℕ
  deriving DecidableEq, Repr

/-- A `usize`, unless the number does not fit. -/
def checkedUsize (n : ℕ) : Option ℕ :=
  if n < 2 ^ 64 then some n else none

/-- The quotient, rounded up. -/
def roundUp (n d : ℕ) : ℕ :=
  n / d + if n % d = 0 then 0 else 1

/-- `div_ceil`, without a result when the divisor is zero. -/
def divCeil (n d : ℕ) : Option ℕ :=
  if d = 0 then none else some (roundUp n d)

/-- A quotient that is rounded up. -/
theorem roundUp_le {n m d : ℕ} (hd : 1 ≤ d) (h : n ≤ m * d) : roundUp n d ≤ m := by
  have hle : n / d ≤ m := Nat.div_le_of_le_mul (by rw [Nat.mul_comm]; exact h)
  unfold roundUp
  split
  · exact hle
  · rename_i hmod
    have hlt : n / d < m := by
      apply (Nat.div_lt_iff_lt_mul hd).mpr
      have hne : n ≠ m * d := by
        rintro rfl
        exact hmod (Nat.mul_mod_left m d)
      omega
    exact hlt

/-! ## The passes -/

section Passes

variable {ι F : Type} (o : FloatOps F) (cfg : PackerConfig F)

/-- What `sort_by` keeps in this order: `b` has no higher score. -/
def notBeaten (a b : PackerInput ι F) : Prop :=
  o.gt b.score a.score = false

instance : DecidableRel (notBeaten (ι := ι) o) := fun a b =>
  inferInstanceAs (Decidable (o.gt b.score a.score = false))

/-- The first step of `pack`. -/
def sortByScore (chunks : List (PackerInput ι F)) : List (PackerInput ι F) :=
  chunks.insertionSort (notBeaten o)

/-- The loop of `deduplicate_by_hash`, with the hashes seen before. -/
def dedupLoop : Finset String → List (PackerInput ι F) → List (PackerInput ι F) × ℕ
  | _, [] => ([], 0)
  | seen, c :: chunks =>
    if c.hash ∈ seen then
      let (result, removed) := dedupLoop seen chunks
      (result, removed + 1)
    else
      let (result, removed) := dedupLoop (insert c.hash seen) chunks
      (c :: result, removed)

/-- `deduplicate_by_hash`. -/
def deduplicateByHash (chunks : List (PackerInput ι F)) : List (PackerInput ι F) × ℕ :=
  dedupLoop ∅ chunks

/-- `iter().sum::<f32>()`. -/
def floatSum (xs : List F) : F :=
  xs.foldl o.add (o.ofNat 0)

/-- `cosine_similarity`. -/
def cosineSimilarity (a b : List F) : F :=
  if a.length ≠ b.length then o.ofNat 0
  else
    let dot := floatSum o ((a.zip b).map fun p => o.mul p.1 p.2)
    let normA := o.sqrt (floatSum o (a.map fun x => o.mul x x))
    let normB := o.sqrt (floatSum o (b.map fun x => o.mul x x))
    if o.eq normA (o.ofNat 0) || o.eq normB (o.ofNat 0) then o.ofNat 0
    else o.div dot (o.mul normA normB)

/-- Is an earlier chunk too close? -/
def dominated (result : List (PackerInput ι F)) (c : PackerInput ι F) : Bool :=
  c.embedding.any fun emb => result.any fun selected =>
    selected.embedding.any fun selEmb =>
      o.gt (cosineSimilarity o emb selEmb) cfg.dedupThreshold

/-- `deduplicate_by_similarity`. -/
def deduplicateBySimilarity (chunks : List (PackerInput ι F)) : List (PackerInput ι F) :=
  chunks.foldl (fun result c => if dominated o cfg result c then result else result ++ [c]) []

/-- `compute_diversity`. -/
def computeDiversity (candidate : PackerInput ι F) (selected : List (PackerInput ι F)) : F :=
  if selected = [] then o.ofNat 1
  else
    match candidate.embedding with
    | some emb =>
      let sims := selected.filterMap fun s => s.embedding.map (cosineSimilarity o emb)
      o.sub (o.ofNat 1) (sims.foldl o.max (o.ofNat 0))
    | none =>
      let sameType := (selected.filter fun s => s.chunkType = candidate.chunkType).length
      if sameType = 0 then o.ofNat 1 else o.div o.half (o.ofNat sameType)

/-- The best candidate of a round so far. -/
structure Best (F : Type) where
  idx : ℕ
  mmr : F
  wouldChangeTop : Bool

/-- The loop over the candidates of a round. -/
def bestOf (mmr : PackerInput ι F → F) (remaining : List (PackerInput ι F)) : Best F :=
  remaining.zipIdx.foldl
    (fun best e =>
      if o.gt (mmr e.1) best.mmr then ⟨e.2, mmr e.1, best.wouldChangeTop || decide (e.2 ≠ 0)⟩
      else best)
    ⟨0, o.negInfinity, false⟩

/-- The range the scores are normalized to. -/
def scoreRange (chunks : List (PackerInput ι F)) : F :=
  let scores := chunks.map (·.score)
  let spread := o.sub (scores.foldl o.max o.negInfinity) (scores.foldl o.min o.infinity)
  if o.gt o.epsilon (o.abs spread) then o.ofNat 1 else spread

/-- The marginal relevance of a candidate. -/
def mmrOf (minScore range : F) (selected : List (PackerInput ι F)) (c : PackerInput ι F) : F :=
  let relevance := o.div (o.sub c.score minScore) range
  o.add (o.mul cfg.mmrLambda relevance)
    (o.mul (o.sub (o.ofNat 1) cfg.mmrLambda) (computeDiversity o c selected))

/-- One round of `mmr_select`: the place of the best candidate, and whether it is an adjustment. -/
def mmrPick (minScore range : F) (selected remaining : List (PackerInput ι F)) : ℕ × ℕ :=
  let best := bestOf o (mmrOf o cfg minScore range selected) remaining
  (best.idx, if best.wouldChangeTop && decide (best.idx ≠ 0) then 1 else 0)

/-- `mmr_select`. -/
def mmrSelect (chunks : List (PackerInput ι F)) : List (PackerInput ι F) × ℕ :=
  let minScore := (chunks.map (·.score)).foldl o.min o.infinity
  Greedy.select (mmrPick o cfg minScore (scoreRange o chunks)) chunks.length [] 0 chunks

/-- The chunk types with fewer than `min_per_type` chunks. -/
def missingTypes (chunks : List (PackerInput ι F)) : List ChunkType :=
  (chunks.map (·.chunkType)).dedup.filter fun t =>
    decide ((chunks.filter fun c => c.chunkType = t).length < cfg.minPerType)

/-- `enforce_type_diversity`: the loop over the missing types changes nothing. -/
def enforceTypeDiversity (chunks : List (PackerInput ι F)) : List (PackerInput ι F) :=
  if cfg.minPerType = 0 ∨ chunks.length < 2 then chunks
  else (missingTypes cfg chunks).foldl (fun chunks _ => chunks) chunks

/-- The bytes of a chunk's text. -/
def PackerInput.bytes (c : PackerInput ι F) : ℕ :=
  c.text.utf8ByteSize

/-- A chunk as it stands in the output. -/
def PackerInput.packed (c : PackerInput ι F) (tokenCount : ℕ) : PackedChunk ι F where
  chunkId := c.chunkId
  text := c.text
  chunkType := c.chunkType
  score := c.score
  sourceUri := c.sourceUri
  tokenCount := tokenCount

/-- The loop of `build_output`, with the bytes taken so far. -/
def buildLoop (maxChars : ℕ) : ℕ → List (PackerInput ι F) → Option (List (PackedChunk ι F) × ℕ)
  | totalChars, [] => some ([], totalChars)
  | totalChars, c :: chunks => do
    let chunkTokens ← divCeil c.bytes cfg.charsPerToken
    let next ← checkedUsize (totalChars + c.bytes)
    if maxChars < next then some ([], totalChars)
    else (buildLoop maxChars next chunks).map fun r => (c.packed chunkTokens :: r.1, r.2)

/-- `build_output`. -/
def buildOutput (chunks : List (PackerInput ι F)) (duplicatesRemoved diversityAdjustments : ℕ) :
    Option (PackedContext ι F) := do
  let maxChars ← checkedUsize (cfg.maxTokens * cfg.charsPerToken)
  let (result, totalChars) ← buildLoop cfg maxChars 0 chunks
  let totalTokens ← divCeil totalChars cfg.charsPerToken
  pure
    { chunks := result, totalTokens := totalTokens, duplicatesRemoved := duplicatesRemoved
      diversityAdjustments := diversityAdjustments }

/-- `ContextPacker::pack`. -/
def pack (chunks : List (PackerInput ι F)) : Option (PackedContext ι F) :=
  if chunks.isEmpty then
    some { chunks := [], totalTokens := 0, duplicatesRemoved := 0, diversityAdjustments := 0 }
  else
    let (deduped, duplicatesRemoved) := deduplicateByHash (sortByScore o chunks)
    let (selected, diversityAdjustments) := mmrSelect o cfg (deduplicateBySimilarity o cfg deduped)
    buildOutput cfg (enforceTypeDiversity cfg selected) duplicatesRemoved diversityAdjustments

end Passes

/-! ## What a pass keeps -/

section Keeps

variable {ι F : Type} {o : FloatOps F} {cfg : PackerConfig F} {chunks : List (PackerInput ι F)}

/-- A chunk whose hash was seen is dropped and counted. -/
theorem dedupLoop_cons_of_mem {c : PackerInput ι F} {seen : Finset String} (h : c.hash ∈ seen) :
    dedupLoop seen (c :: chunks) =
      ((dedupLoop seen chunks).1, (dedupLoop seen chunks).2 + 1) := by
  rw [dedupLoop, if_pos h]

/-- Any other is kept. -/
theorem dedupLoop_cons_of_notMem {c : PackerInput ι F} {seen : Finset String}
    (h : c.hash ∉ seen) : dedupLoop seen (c :: chunks) =
      (c :: (dedupLoop (insert c.hash seen) chunks).1,
        (dedupLoop (insert c.hash seen) chunks).2) := by
  rw [dedupLoop, if_neg h]

/-- **The loop keeps the first chunk of each hash**, and counts the others. -/
theorem dedupLoop_eq (chunks : List (PackerInput ι F)) : ∀ seen,
    (dedupLoop seen chunks).1 = Ranked.firstOf (·.hash) seen chunks ∧
      (dedupLoop seen chunks).1.length + (dedupLoop seen chunks).2 = chunks.length := by
  induction chunks with
  | nil => intro seen; exact ⟨rfl, rfl⟩
  | cons c chunks ih =>
    intro seen
    by_cases hc : c.hash ∈ seen
    · rw [dedupLoop_cons_of_mem hc, Ranked.firstOf_cons_of_mem hc]
      obtain ⟨hfirst, hlen⟩ := ih seen
      refine ⟨hfirst, ?_⟩
      show _ + ((dedupLoop seen chunks).2 + 1) = chunks.length + 1
      rw [← hlen]
      exact (Nat.add_assoc _ _ 1).symm
    · rw [dedupLoop_cons_of_notMem hc, Ranked.firstOf_cons_of_notMem hc]
      obtain ⟨hfirst, hlen⟩ := ih (insert c.hash seen)
      refine ⟨congrArg (c :: ·) hfirst, ?_⟩
      show (dedupLoop (insert c.hash seen) chunks).1.length + 1 + _ = chunks.length + 1
      rw [← hlen]
      exact Nat.add_right_comm _ 1 _

/-- The scores can be ranked, as `sort_by` asks for: of two at most one is higher, and not
being beaten is transitive. -/
structure Comparable (o : FloatOps F) (chunks : List (PackerInput ι F)) : Prop where
  total : ∀ a ∈ chunks, ∀ b ∈ chunks, notBeaten o a b ∨ notBeaten o b a
  trans : ∀ a ∈ chunks, ∀ b ∈ chunks, ∀ c ∈ chunks,
    notBeaten o a b → notBeaten o b c → notBeaten o a c

/-- Sorting keeps the chunks. -/
theorem perm_sortByScore : (sortByScore o chunks).Perm chunks :=
  List.perm_insertionSort _ _

/-- The sort of `Comparable` scores, by way of the chunks of the list as a type of their own. -/
theorem pairwise_sortByScore (h : Comparable o chunks) :
    (sortByScore o chunks).Pairwise (notBeaten o) := by
  let r : {c // c ∈ chunks} → {c // c ∈ chunks} → Prop := fun a b => notBeaten o a.1 b.1
  have : DecidableRel r := fun a b => inferInstanceAs (Decidable (notBeaten o a.1 b.1))
  have : Std.Total r := ⟨fun a b => h.total a.1 a.2 b.1 b.2⟩
  have : IsTrans _ r := ⟨fun a b c => h.trans a.1 a.2 b.1 b.2 c.1 c.2⟩
  have hmap : (chunks.attach.insertionSort r).map Subtype.val = sortByScore o chunks := by
    rw [List.map_insertionSort r (notBeaten o) Subtype.val _ fun a _ b _ => Iff.rfl,
      List.attach_map_subtype_val]
    rfl
  rw [← hmap]
  exact List.pairwise_map.mpr (List.pairwise_insertionSort r _)

/-- The loop over similar chunks keeps a sublist. -/
theorem foldl_similarity (o : FloatOps F) (cfg : PackerConfig F) (chunks : List (PackerInput ι F)) :
    ∀ acc : List (PackerInput ι F),
    ∃ kept, kept.Sublist chunks ∧
      chunks.foldl (fun result c => if dominated o cfg result c then result else result ++ [c]) acc
        = acc ++ kept := by
  induction chunks with
  | nil => intro acc; exact ⟨[], List.Sublist.refl _, (List.append_nil acc).symm⟩
  | cons c chunks ih =>
    intro acc
    rw [List.foldl_cons]
    by_cases hc : dominated o cfg acc c = true
    · obtain ⟨kept, hsub, heq⟩ := ih acc
      rw [if_pos hc]
      exact ⟨kept, hsub.cons c, heq⟩
    · obtain ⟨kept, hsub, heq⟩ := ih (acc ++ [c])
      rw [if_neg hc]
      exact ⟨c :: kept, hsub.cons_cons c, by rw [heq, List.append_assoc]; rfl⟩

/-- Chunks that are too similar are dropped, in place. -/
theorem deduplicateBySimilarity_sublist (o : FloatOps F) (cfg : PackerConfig F)
    (chunks : List (PackerInput ι F)) :
    (deduplicateBySimilarity o cfg chunks).Sublist chunks := by
  obtain ⟨kept, hsub, heq⟩ := foldl_similarity o cfg chunks []
  unfold deduplicateBySimilarity
  rw [heq]
  exact hsub

/-- Without embeddings nothing is too close. -/
theorem deduplicateBySimilarity_eq_self (h : ∀ c ∈ chunks, c.embedding = none) :
    deduplicateBySimilarity o cfg chunks = chunks := by
  have hfold : ∀ (chunks acc : List (PackerInput ι F)), (∀ c ∈ chunks, c.embedding = none) →
      chunks.foldl (fun result c => if dominated o cfg result c then result else result ++ [c]) acc
        = acc ++ chunks := by
    intro chunks
    induction chunks with
    | nil => intro acc _; exact (List.append_nil acc).symm
    | cons c chunks ih =>
      intro acc hnone
      have hc : dominated o cfg acc c = false := by
        unfold dominated
        rw [hnone c List.mem_cons_self]
        rfl
      rw [List.foldl_cons, hc, if_neg Bool.false_ne_true,
        ih _ fun b hb => hnone b (List.mem_cons_of_mem c hb), List.append_assoc]
      rfl
  exact hfold chunks [] h

/-- The best chunk is one of them. -/
theorem bestOf_idx_lt (mmr : PackerInput ι F → F) (h : chunks ≠ []) :
    (bestOf o mmr chunks).idx < chunks.length := by
  have hfold : ∀ (entries : List (PackerInput ι F × ℕ)) (best : Best F) (n : ℕ), best.idx < n →
      (∀ e ∈ entries, e.2 < n) →
      (entries.foldl (fun best e => if o.gt (mmr e.1) best.mmr then
        ⟨e.2, mmr e.1, best.wouldChangeTop || decide (e.2 ≠ 0)⟩ else best) best).idx < n := by
    intro entries
    induction entries with
    | nil => intro best n hbest _; exact hbest
    | cons e entries ih =>
      intro best n hbest hall
      rw [List.foldl_cons]
      apply ih
      · split
        · exact hall e List.mem_cons_self
        · exact hbest
      · exact fun e' he' => hall e' (List.mem_cons_of_mem e he')
  apply hfold
  · exact List.length_pos_iff.mpr h
  · intro e he
    exact (List.mem_zipIdx' he).1

/-- **Reordering loses and repeats nothing.** -/
theorem mmrSelect_perm (o : FloatOps F) (cfg : PackerConfig F) (chunks : List (PackerInput ι F)) :
    (mmrSelect o cfg chunks).1.Perm chunks := by
  unfold mmrSelect
  refine (Greedy.select_perm ?_ _ [] 0 chunks rfl).trans ?_
  · intro selected remaining hne
    exact bestOf_idx_lt _ hne
  · exact List.Perm.refl _

/-- The step for diversity of types changes nothing. -/
theorem enforceTypeDiversity_eq (cfg : PackerConfig F) (chunks : List (PackerInput ι F)) :
    enforceTypeDiversity cfg chunks = chunks := by
  unfold enforceTypeDiversity
  split
  · rfl
  · exact List.foldl_fixed _

/-! ## What comes out -/

/-- The chunk of each hash that `deduplicate_by_hash` keeps. -/
def distinctChunks (o : FloatOps F) (inputs : List (PackerInput ι F)) : List (PackerInput ι F) :=
  (deduplicateByHash (sortByScore o inputs)).1

/-- The chunks in the order in which they are offered to the budget. -/
def offered (o : FloatOps F) (cfg : PackerConfig F) (inputs : List (PackerInput ι F)) :
    List (PackerInput ι F) :=
  (mmrSelect o cfg (deduplicateBySimilarity o cfg (distinctChunks o inputs))).1

/-- The bytes of all texts. -/
def totalBytes (chunks : List (PackerInput ι F)) : ℕ :=
  (chunks.map PackerInput.bytes).sum

variable {inputs : List (PackerInput ι F)}

/-- The distinct chunks: the first of each hash, by score. -/
theorem distinctChunks_eq :
    distinctChunks o inputs = Ranked.firstOf (·.hash) ∅ (sortByScore o inputs) :=
  (dedupLoop_eq _ ∅).1

/-- They are among the inputs. -/
theorem distinctChunks_subperm : (distinctChunks o inputs).Subperm inputs := by
  rw [distinctChunks_eq]
  exact (Ranked.firstOf_sublist _ _ ∅).subperm.trans perm_sortByScore.subperm

/-- No two of them have one hash. -/
theorem nodup_distinctChunks : ((distinctChunks o inputs).map (·.hash)).Nodup := by
  rw [distinctChunks_eq]
  exact Ranked.firstOf_nodup _ _ _

/-- Every hash of the inputs is among theirs. -/
theorem exists_distinctChunk {c : PackerInput ι F} (hc : c ∈ inputs) :
    ∃ kept ∈ distinctChunks o inputs, kept.hash = c.hash := by
  rw [distinctChunks_eq]
  exact Ranked.exists_mem_firstOf _ _ ∅ c (perm_sortByScore.mem_iff.mpr hc) (Finset.notMem_empty _)

/-- The chunk that is kept is one of the highest score. -/
theorem distinctChunk_highest (h : Comparable o inputs) {kept c : PackerInput ι F}
    (hkept : kept ∈ distinctChunks o inputs) (hc : c ∈ inputs) (hhash : c.hash = kept.hash) :
    notBeaten o kept c := by
  rw [distinctChunks_eq] at hkept
  have hrefl : ∀ a ∈ sortByScore o inputs, notBeaten o a a := fun a ha =>
    (h.total a (perm_sortByScore.mem_iff.mp ha) a (perm_sortByScore.mem_iff.mp ha)).elim id id
  exact Ranked.firstOf_before _ hrefl (pairwise_sortByScore h) ∅ kept hkept c
    (perm_sortByScore.mem_iff.mpr hc) hhash

/-- The packer is offered what is left when similar chunks are dropped. -/
theorem offered_perm :
    (offered o cfg inputs).Perm (deduplicateBySimilarity o cfg (distinctChunks o inputs)) :=
  mmrSelect_perm o cfg _

/-- Which is among the distinct chunks. -/
theorem offered_subperm : (offered o cfg inputs).Subperm (distinctChunks o inputs) :=
  offered_perm.subperm.trans (deduplicateBySimilarity_sublist o cfg _).subperm

/-- Without embeddings every hash is offered. -/
theorem offered_perm_distinctChunks (h : ∀ c ∈ inputs, c.embedding = none) :
    (offered o cfg inputs).Perm (distinctChunks o inputs) := by
  have hnone : ∀ c ∈ distinctChunks o inputs, c.embedding = none := fun c hc =>
    h c (distinctChunks_subperm.subset hc)
  have hperm : (offered o cfg inputs).Perm
      (deduplicateBySimilarity o cfg (distinctChunks o inputs)) := offered_perm
  rw [deduplicateBySimilarity_eq_self hnone] at hperm
  exact hperm

/-- Fewer chunks have fewer bytes. -/
theorem totalBytes_le_of_subperm {chunks : List (PackerInput ι F)} (h : chunks.Subperm inputs) :
    totalBytes chunks ≤ totalBytes inputs := by
  obtain ⟨l, hperm, hsub⟩ := h
  unfold totalBytes
  rw [← (hperm.map PackerInput.bytes).sum_nat]
  exact (hsub.map PackerInput.bytes).sum_le_sum fun n _ => Nat.zero_le n

/-- **The packer** is its stages, one behind the other. -/
theorem pack_eq (hne : inputs ≠ []) : pack o cfg inputs =
    buildOutput cfg (offered o cfg inputs) (deduplicateByHash (sortByScore o inputs)).2
      (mmrSelect o cfg (deduplicateBySimilarity o cfg (distinctChunks o inputs))).2 := by
  unfold pack
  rw [if_neg (by simpa using hne)]
  show buildOutput cfg (enforceTypeDiversity cfg (offered o cfg inputs)) _ _ = _
  rw [enforceTypeDiversity_eq]
  rfl

/-- A size that fits is no overflow. -/
theorem checkedUsize_of_lt {n : ℕ} (h : n < 2 ^ 64) : checkedUsize n = some n :=
  if_pos h

/-- A division by a size that is not zero works. -/
theorem divCeil_of_pos {n d : ℕ} (h : 1 ≤ d) : divCeil n d = some (roundUp n d) :=
  if_neg (by omega)

/-- The loop takes the chunks that fit into what is left. -/
theorem buildLoop_eq (hcpt : 1 ≤ cfg.charsPerToken) {maxChars : ℕ}
    (chunks : List (PackerInput ι F)) : ∀ totalChars, totalChars ≤ maxChars →
      totalChars + totalBytes chunks < 2 ^ 64 →
      buildLoop cfg maxChars totalChars chunks =
        some ((Greedy.takeWithin PackerInput.bytes (maxChars - totalChars) chunks).map
            (fun c => c.packed (roundUp c.bytes cfg.charsPerToken)),
          totalChars + totalBytes
            (Greedy.takeWithin PackerInput.bytes (maxChars - totalChars) chunks)) := by
  induction chunks with
  | nil => intro totalChars _ _; rfl
  | cons c chunks ih =>
    intro totalChars hle hfits
    have hsum : totalBytes (c :: chunks) = c.bytes + totalBytes chunks := List.sum_cons
    rw [hsum] at hfits
    rw [buildLoop, divCeil_of_pos hcpt]
    show (checkedUsize (totalChars + c.bytes) >>= _) = _
    rw [checkedUsize_of_lt (by omega)]
    show (if maxChars < totalChars + c.bytes then _ else _) = _
    by_cases hbig : maxChars < totalChars + c.bytes
    · rw [if_pos hbig, Greedy.takeWithin, if_neg (by omega)]
      rfl
    · rw [if_neg hbig, ih (totalChars + c.bytes) (by omega) (by omega), Greedy.takeWithin,
        if_pos (by omega)]
      have hleft : maxChars - (totalChars + c.bytes) = maxChars - totalChars - c.bytes := by omega
      rw [hleft]
      refine congrArg some (Prod.ext rfl ?_)
      show totalChars + c.bytes + _ = totalChars + totalBytes (c :: _)
      rw [Nat.add_assoc]
      rfl

/-- **The output**, when the budget and the texts fit into a `usize`. -/
theorem pack_eq_some (hcpt : 1 ≤ cfg.charsPerToken)
    (hbudget : cfg.maxTokens * cfg.charsPerToken < 2 ^ 64) (hbytes : totalBytes inputs < 2 ^ 64)
    (hne : inputs ≠ []) :
    ∃ adjustments, pack o cfg inputs = some
      { chunks := (Greedy.takeWithin PackerInput.bytes (cfg.maxTokens * cfg.charsPerToken)
          (offered o cfg inputs)).map fun c => c.packed (roundUp c.bytes cfg.charsPerToken)
        totalTokens := roundUp (totalBytes (Greedy.takeWithin PackerInput.bytes
          (cfg.maxTokens * cfg.charsPerToken) (offered o cfg inputs))) cfg.charsPerToken
        duplicatesRemoved := inputs.length - (distinctChunks o inputs).length
        diversityAdjustments := adjustments } := by
  refine ⟨(mmrSelect o cfg (deduplicateBySimilarity o cfg (distinctChunks o inputs))).2, ?_⟩
  have hoffered : 0 + totalBytes (offered o cfg inputs) < 2 ^ 64 := by
    have hsub : (offered o cfg inputs).Subperm inputs :=
      offered_subperm.trans distinctChunks_subperm
    have hle := totalBytes_le_of_subperm hsub
    omega
  have hremoved : (deduplicateByHash (sortByScore o inputs)).2 =
      inputs.length - (distinctChunks o inputs).length := by
    have hlen : (distinctChunks o inputs).length + (deduplicateByHash (sortByScore o inputs)).2 =
        (sortByScore o inputs).length := (dedupLoop_eq (sortByScore o inputs) ∅).2
    rw [perm_sortByScore.length_eq] at hlen
    omega
  rw [pack_eq hne, buildOutput, checkedUsize_of_lt hbudget, hremoved]
  show (buildLoop cfg _ 0 _ >>= _) = _
  rw [buildLoop_eq hcpt _ 0 (Nat.zero_le _) hoffered]
  show (divCeil _ _ >>= _) = _
  rw [divCeil_of_pos hcpt, Nat.sub_zero, Nat.zero_add]
  rfl

/-- The budget of a list that is not empty has to fit. -/
theorem pack_eq_none (hne : inputs ≠ []) (h : ¬ cfg.maxTokens * cfg.charsPerToken < 2 ^ 64) :
    pack o cfg inputs = none := by
  rw [pack_eq hne, buildOutput, checkedUsize, if_neg h]
  rfl

end Keeps

/-! ## The ids are copied -/

section Ids

variable {ι κ F : Type} (f : ι → κ) (o : FloatOps F) (cfg : PackerConfig F)

/-- The chunk under another id. -/
def PackerInput.relabel (c : PackerInput ι F) : PackerInput κ F where
  chunkId := f c.chunkId
  text := c.text
  chunkType := c.chunkType
  score := c.score
  hash := c.hash
  embedding := c.embedding
  sourceUri := c.sourceUri

/-- A packed chunk under another id. -/
def PackedChunk.relabel (c : PackedChunk ι F) : PackedChunk κ F where
  chunkId := f c.chunkId
  text := c.text
  chunkType := c.chunkType
  score := c.score
  sourceUri := c.sourceUri
  tokenCount := c.tokenCount

/-- The output under other ids. -/
def PackedContext.relabel (out : PackedContext ι F) : PackedContext κ F where
  chunks := out.chunks.map (PackedChunk.relabel f)
  totalTokens := out.totalTokens
  duplicatesRemoved := out.duplicatesRemoved
  diversityAdjustments := out.diversityAdjustments

/-- Sorting does not look at ids. -/
theorem sortByScore_relabel (chunks : List (PackerInput ι F)) :
    sortByScore o (chunks.map (PackerInput.relabel f)) =
      (sortByScore o chunks).map (PackerInput.relabel f) :=
  (List.map_insertionSort (notBeaten o) (notBeaten o) (PackerInput.relabel f) chunks
    fun _ _ _ _ => Iff.rfl).symm

/-- Nor does dropping hashes that were seen. -/
theorem dedupLoop_relabel (chunks : List (PackerInput ι F)) : ∀ seen,
    dedupLoop seen (chunks.map (PackerInput.relabel f)) =
      ((dedupLoop seen chunks).1.map (PackerInput.relabel f), (dedupLoop seen chunks).2) := by
  induction chunks with
  | nil => intro seen; rfl
  | cons c chunks ih =>
    intro seen
    have hhash : (c.relabel f).hash = c.hash := rfl
    rw [List.map_cons]
    by_cases hc : c.hash ∈ seen
    · rw [dedupLoop_cons_of_mem hc, dedupLoop_cons_of_mem (by rw [hhash]; exact hc), ih]
    · rw [dedupLoop_cons_of_notMem hc, dedupLoop_cons_of_notMem (by rw [hhash]; exact hc), hhash,
        ih]
      rfl

/-- So the distinct chunks do not depend on ids. -/
theorem distinctChunks_relabel (chunks : List (PackerInput ι F)) :
    distinctChunks o (chunks.map (PackerInput.relabel f)) =
      (distinctChunks o chunks).map (PackerInput.relabel f) := by
  unfold distinctChunks deduplicateByHash
  rw [sortByScore_relabel, dedupLoop_relabel]

/-- Nor does the comparison of similar chunks. -/
theorem dominated_relabel (result : List (PackerInput ι F)) (c : PackerInput ι F) :
    dominated o cfg (result.map (PackerInput.relabel f)) (c.relabel f) =
      dominated o cfg result c := by
  unfold dominated
  simp only [List.any_map]
  rfl

/-- Nor dropping them. -/
theorem deduplicateBySimilarity_relabel (chunks : List (PackerInput ι F)) :
    deduplicateBySimilarity o cfg (chunks.map (PackerInput.relabel f)) =
      (deduplicateBySimilarity o cfg chunks).map (PackerInput.relabel f) := by
  have hfold : ∀ (chunks acc : List (PackerInput ι F)),
      (chunks.map (PackerInput.relabel f)).foldl (fun result c =>
          if dominated o cfg result c then result else result ++ [c])
          (acc.map (PackerInput.relabel f)) =
        (chunks.foldl (fun result c =>
          if dominated o cfg result c then result else result ++ [c]) acc).map
            (PackerInput.relabel f) := by
    intro chunks
    induction chunks with
    | nil => intro acc; rfl
    | cons c chunks ih =>
      intro acc
      rw [List.map_cons, List.foldl_cons, List.foldl_cons, dominated_relabel]
      by_cases hc : dominated o cfg acc c = true
      · rw [if_pos hc, if_pos hc, ih]
      · rw [if_neg hc, if_neg hc, ← ih, List.map_append, List.map_singleton]
  exact hfold chunks []

/-- Nor the diversity of a chunk. -/
theorem computeDiversity_relabel (c : PackerInput ι F) (selected : List (PackerInput ι F)) :
    computeDiversity o (c.relabel f) (selected.map (PackerInput.relabel f)) =
      computeDiversity o c selected := by
  unfold computeDiversity
  simp only [List.map_eq_nil_iff, List.filterMap_map, List.filter_map, List.length_map]
  rfl

/-- Nor the best chunk. -/
theorem bestOf_relabel {mmr : PackerInput ι F → F} {mmr' : PackerInput κ F → F}
    (h : ∀ c, mmr' (c.relabel f) = mmr c) (chunks : List (PackerInput ι F)) :
    bestOf o mmr' (chunks.map (PackerInput.relabel f)) = bestOf o mmr chunks := by
  unfold bestOf
  rw [List.zipIdx_map, List.foldl_map]
  congr 1
  funext best e
  have hmmr : mmr' (Prod.map (PackerInput.relabel f) id e).1 = mmr e.1 := h e.1
  rw [hmmr]
  rfl

/-- Other ids, the same scores. -/
theorem map_score_relabel (chunks : List (PackerInput ι F)) :
    (chunks.map (PackerInput.relabel f)).map (·.score) = chunks.map (·.score) := by
  rw [List.map_map]
  rfl

/-- The selection does not look at ids. -/
theorem mmrSelect_relabel (chunks : List (PackerInput ι F)) :
    mmrSelect o cfg (chunks.map (PackerInput.relabel f)) =
      ((mmrSelect o cfg chunks).1.map (PackerInput.relabel f), (mmrSelect o cfg chunks).2) := by
  unfold mmrSelect
  dsimp only
  have hrange : scoreRange o (chunks.map (PackerInput.relabel f)) = scoreRange o chunks := by
    unfold scoreRange
    rw [map_score_relabel]
  rw [map_score_relabel, hrange, List.length_map]
  refine Greedy.select_map (PackerInput.relabel f) ?_ _ [] 0 chunks
  intro selected remaining
  have hmmr : ∀ (minScore range : F) (c : PackerInput ι F),
      mmrOf o cfg minScore range (selected.map (PackerInput.relabel f)) (c.relabel f) =
        mmrOf o cfg minScore range selected c := by
    intro minScore range c
    unfold mmrOf
    rw [computeDiversity_relabel]
    rfl
  unfold mmrPick
  rw [bestOf_relabel f o (hmmr _ _)]

/-- Nor does the loop over the budget. -/
theorem buildLoop_relabel (maxChars : ℕ) (chunks : List (PackerInput ι F)) : ∀ totalChars,
    buildLoop cfg maxChars totalChars (chunks.map (PackerInput.relabel f)) =
      (buildLoop cfg maxChars totalChars chunks).map fun r =>
        (r.1.map (PackedChunk.relabel f), r.2) := by
  induction chunks with
  | nil => intro totalChars; rfl
  | cons c chunks ih =>
    intro totalChars
    rw [List.map_cons, buildLoop, buildLoop]
    show (divCeil c.bytes cfg.charsPerToken >>= fun chunkTokens =>
      checkedUsize (totalChars + c.bytes) >>= fun next => _) = _
    cases divCeil c.bytes cfg.charsPerToken with
    | none => rfl
    | some chunkTokens =>
      cases checkedUsize (totalChars + c.bytes) with
      | none => rfl
      | some next =>
        show (if maxChars < next then _ else _) = Option.map _ (if maxChars < next then _ else _)
        by_cases hbig : maxChars < next
        · rw [if_pos hbig, if_pos hbig]
          rfl
        · rw [if_neg hbig, if_neg hbig, ih, Option.map_map, Option.map_map]
          rfl

/-- **The packer copies the ids**: what it selects does not depend on them. -/
theorem pack_relabel (chunks : List (PackerInput ι F)) :
    pack o cfg (chunks.map (PackerInput.relabel f)) =
      (pack o cfg chunks).map (PackedContext.relabel f) := by
  by_cases hnil : chunks = []
  · subst hnil
    rfl
  · have hmap : chunks.map (PackerInput.relabel f) ≠ [] := by simpa using hnil
    have hremoved : (deduplicateByHash (sortByScore o (chunks.map (PackerInput.relabel f)))).2 =
        (deduplicateByHash (sortByScore o chunks)).2 := by
      unfold deduplicateByHash
      rw [sortByScore_relabel, dedupLoop_relabel]
    rw [pack_eq hmap, pack_eq hnil, hremoved]
    unfold offered
    rw [distinctChunks_relabel, deduplicateBySimilarity_relabel, mmrSelect_relabel]
    unfold buildOutput
    cases checkedUsize (cfg.maxTokens * cfg.charsPerToken) with
    | none => rfl
    | some maxChars =>
      show (buildLoop cfg maxChars 0 _ >>= _) = Option.map _ (buildLoop cfg maxChars 0 _ >>= _)
      rw [buildLoop_relabel]
      cases buildLoop cfg maxChars 0
          (mmrSelect o cfg (deduplicateBySimilarity o cfg (distinctChunks o chunks))).1 with
      | none => rfl
      | some r =>
        show (divCeil r.2 cfg.charsPerToken >>= _) =
          Option.map _ (divCeil r.2 cfg.charsPerToken >>= _)
        cases divCeil r.2 cfg.charsPerToken with
        | none => rfl
        | some tokens => rfl

end Ids

end ContextPacker
