/-
# What a packing is

Six passes sort, deduplicate, thin, reorder and cut the chunks of an answer.  Together they
select some of the inputs, none twice and one for each content hash at most, that one among the
highest-scored of its hash, within the budget; without embeddings and with room for all of them
nothing but duplicates is left out.

The law holds as long as the budget in bytes fits into a `usize`.  `token_budget` is a number of
the request that no check bounds, and the product with the four bytes of a token is a plain one:
from `2 ^ 62` tokens on it overflows.

* `PacksAs` — the output and the inputs it was selected from;
* `packing_law_iff` — when the packer keeps the law;
* `packing_overflows` — one result and a budget of `2 ^ 62` tokens.
-/
import Mathlib.Data.Rat.Defs
import Memd.ContextPacker

namespace ContextPacker

section Law

variable {ι F : Type} {o : FloatOps F} {cfg : PackerConfig F} {inputs : List (PackerInput ι F)}

/-- The budget has room for one chunk of each hash. -/
def RoomForAll (o : FloatOps F) (cfg : PackerConfig F) (inputs : List (PackerInput ι F)) : Prop :=
  totalBytes (distinctChunks o inputs) ≤ cfg.maxTokens * cfg.charsPerToken

/-- The output is made of selected inputs.  Where the scores cannot be ranked (`Comparable`, for
floats a NaN among them) there is no highest one. -/
structure PacksAs (o : FloatOps F) (cfg : PackerConfig F) (inputs : List (PackerInput ι F))
    (selected : List (PackerInput ι F)) (out : PackedContext ι F) : Prop where
  chunks : out.chunks = selected.map fun c => c.packed (roundUp c.bytes cfg.charsPerToken)
  among : selected.Subperm inputs
  hashes : (selected.map (·.hash)).Nodup
  highest : Comparable o inputs →
    ∀ s ∈ selected, ∀ c ∈ inputs, c.hash = s.hash → notBeaten o s c
  budget : (out.chunks.map fun c => c.text.utf8ByteSize).sum ≤ cfg.maxTokens * cfg.charsPerToken
  tokens : out.totalTokens ≤ cfg.maxTokens
  complete : (∀ c ∈ inputs, c.embedding = none) → RoomForAll o cfg inputs →
    (∀ c ∈ inputs, ∃ s ∈ selected, s.hash = c.hash) ∧
      inputs.length = out.chunks.length + out.duplicatesRemoved

/-- The packer comes to an end without an overflow, with a packing of the inputs. -/
def PackingLaw (o : FloatOps F) (cfg : PackerConfig F) (inputs : List (PackerInput ι F)) : Prop :=
  ∃ selected out, pack o cfg inputs = some out ∧ PacksAs o cfg inputs selected out

/-- The chunks that fit, taken from those that are offered, are a packing. -/
theorem packsAs_takeWithin (hcpt : 1 ≤ cfg.charsPerToken) (adjustments : ℕ) :
    PacksAs o cfg inputs
      (Greedy.takeWithin PackerInput.bytes (cfg.maxTokens * cfg.charsPerToken)
        (offered o cfg inputs))
      { chunks := (Greedy.takeWithin PackerInput.bytes (cfg.maxTokens * cfg.charsPerToken)
          (offered o cfg inputs)).map fun c => c.packed (roundUp c.bytes cfg.charsPerToken)
        totalTokens := roundUp (totalBytes (Greedy.takeWithin PackerInput.bytes
          (cfg.maxTokens * cfg.charsPerToken) (offered o cfg inputs))) cfg.charsPerToken
        duplicatesRemoved := inputs.length - (distinctChunks o inputs).length
        diversityAdjustments := adjustments } := by
  obtain ⟨selected, hselected⟩ : ∃ selected, selected =
      Greedy.takeWithin PackerInput.bytes (cfg.maxTokens * cfg.charsPerToken)
        (offered o cfg inputs) := ⟨_, rfl⟩
  have hoffered : selected.Subperm (offered o cfg inputs) := by
    rw [hselected]
    exact (Greedy.takeWithin_isPrefix _ _).sublist.subperm
  have hdistinct : selected.Subperm (distinctChunks o inputs) := hoffered.trans offered_subperm
  have hbytes : totalBytes selected ≤ cfg.maxTokens * cfg.charsPerToken := by
    rw [hselected]
    exact Greedy.sum_takeWithin_le _ _
  rw [← hselected]
  refine ⟨rfl, hdistinct.trans distinctChunks_subperm, ?_, ?_, ?_, roundUp_le hcpt hbytes, ?_⟩
  · obtain ⟨l, hperm, hsub⟩ := hdistinct
    exact (hperm.map _).nodup_iff.mp (nodup_distinctChunks.sublist (hsub.map _))
  · intro hcomparable s hs c hc hhash
    exact distinctChunk_highest hcomparable (hdistinct.subset hs) hc hhash
  · rw [List.map_map]
    exact hbytes
  · intro hnone hroom
    -- the offered chunks are the distinct ones in another order, so all of them fit
    have hperm : (offered o cfg inputs).Perm (distinctChunks o inputs) :=
      offered_perm_distinctChunks hnone
    have hall : selected = offered o cfg inputs := by
      rw [hselected]
      apply Greedy.takeWithin_eq_self
      exact (totalBytes_le_of_subperm hperm.subperm).trans hroom
    constructor
    · intro c hc
      obtain ⟨kept, hkept, hhash⟩ := exists_distinctChunk (o := o) hc
      rw [hall]
      exact ⟨kept, hperm.mem_iff.mpr hkept, hhash⟩
    · show inputs.length = (selected.map _).length + (inputs.length - _)
      rw [List.length_map, hall, hperm.length_eq]
      have hsub : (distinctChunks o inputs).Subperm inputs := distinctChunks_subperm
      have hle := hsub.length_le
      omega

/-- **The packing law**, for texts that are all in memory: it holds exactly where there is
nothing to pack or the budget in bytes fits. -/
theorem packing_law_iff (o : FloatOps F) (cfg : PackerConfig F) (hcpt : 1 ≤ cfg.charsPerToken)
    (inputs : List (PackerInput ι F)) (hbytes : totalBytes inputs < 2 ^ 64) :
    PackingLaw o cfg inputs ↔ inputs = [] ∨ cfg.maxTokens * cfg.charsPerToken < 2 ^ 64 := by
  constructor
  · rintro ⟨selected, out, hpack, -⟩
    by_contra hnot
    obtain ⟨hne, hbudget⟩ := not_or.mp hnot
    rw [pack_eq_none hne hbudget] at hpack
    cases hpack
  · intro h
    by_cases hne : inputs = []
    · subst hne
      refine ⟨[], _, rfl, rfl, List.Subperm.refl _, List.nodup_nil, ?_, ?_, ?_, ?_⟩
      · intro _ s hs
        cases hs
      · exact Nat.zero_le _
      · exact Nat.zero_le _
      · intro _ _
        exact ⟨fun c hc => absurd hc List.not_mem_nil, rfl⟩
    · have hbudget : cfg.maxTokens * cfg.charsPerToken < 2 ^ 64 := h.resolve_left hne
      obtain ⟨adjustments, hpack⟩ := pack_eq_some (o := o) hcpt hbudget hbytes hne
      exact ⟨_, _, hpack, packsAs_takeWithin hcpt adjustments⟩

end Law

/-! ## A request -/

/-- Exact arithmetic, with bounds beyond every finite `f32`; no root is taken without an
embedding. -/
def exactOps : FloatOps ℚ where
  gt a b := decide (b < a)
  eq a b := decide (a = b)
  add a b := a + b
  sub a b := a - b
  mul a b := a * b
  div a b := a / b
  max a b := if a < b then b else a
  min a b := if b < a then b else a
  abs a := if a < 0 then -a else a
  sqrt a := a
  ofNat n := n
  half := 1 / 2
  epsilon := 1 / 2 ^ 23
  infinity := 2 ^ 128
  negInfinity := -2 ^ 128

/-- The default configuration with a token budget. -/
def withBudget (maxTokens : ℕ) : PackerConfig ℚ where
  maxTokens := maxTokens
  charsPerToken := 4
  mmrLambda := 7 / 10
  dedupThreshold := 9 / 10
  minPerType := 1

/-- One result of a search. -/
def sampleInput (id : ℕ) (score : ℚ) (hash : String) : PackerInput ℕ ℚ where
  chunkId := id
  text := "note"
  chunkType := .other
  score := score
  hash := hash
  embedding := none
  sourceUri := none

/-- Two copies of a note and another one, with the default budget. -/
theorem packing_law_default :
    PackingLaw exactOps (withBudget 4000)
      [sampleInput 1 (1 / 2) "a", sampleInput 2 (3 / 4) "a", sampleInput 3 (1 / 4) "b"] :=
  (packing_law_iff exactOps (withBudget 4000) (by decide) _ (by decide)).mpr (.inr (by decide))

example : (pack exactOps (withBudget 4000)
    [sampleInput 1 (1 / 2) "a", sampleInput 2 (3 / 4) "a", sampleInput 3 (1 / 4) "b"]).map
      (fun out => (out.chunks.map (·.chunkId), out.totalTokens, out.duplicatesRemoved))
    = some ([2, 3], 2, 1) := by
  decide +kernel

/-- **A budget that overflows**: `2 ^ 62` tokens of four bytes each. -/
theorem packing_overflows :
    pack exactOps (withBudget (2 ^ 62)) [sampleInput 1 1 "a"] = none ∧
      ¬ PackingLaw exactOps (withBudget (2 ^ 62)) [sampleInput 1 1 "a"] := by
  have hnone : pack exactOps (withBudget (2 ^ 62)) [sampleInput 1 1 "a"] = none :=
    pack_eq_none (List.cons_ne_nil _ _) (by decide)
  refine ⟨hnone, ?_⟩
  rintro ⟨selected, out, hpack, -⟩
  rw [hnone] at hpack
  cases hpack

end ContextPacker
