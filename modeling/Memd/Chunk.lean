/-
# Memory chunks

The data of the store as `types.rs` and `store/metadata/mod.rs` declare it: the chunk
a caller writes, the lifecycle overlay kept beside it, the row of the `chunks` table,
and the two pure functions every write runs through — `splitForAdd`
(`store/shared_add.rs`) and `canonicalizeForType` (`store/supersession.rs`).

Three functions lie outside the modelled code and are the fields of `Externals`: the
SHA-256 digest, the Unicode lower-casing of the standard library and the sentence
based chunker.  A chunk id is a UUIDv7; only its freshness and its creation order
matter here, so it is the number of ids handed out before it.
-/
import Mathlib.Data.List.Basic
import Mathlib.Data.Int.Notation

/-! ## Chunks -/

/-- `TenantId`. -/
abbrev TenantId := String

/-- A chunk id: the rank of its creation. -/
abbrev ChunkId := ℕ

/-- An `f32`, by its bits. -/
abbrev F32 := BitVec 32

/-- `f32::is_finite`: the exponent is not all ones. -/
def F32.isFinite (x : F32) : Bool :=
  x.extractLsb' 23 8 != 255#8

/-- `ChunkType`. -/
inductive ChunkType
  | code | doc | trace | decision | plan | research | message | summary | other
  deriving DecidableEq, Repr

/-- `ChunkStatus`. -/
inductive ChunkStatus
  | draft | candidate | final | error | deleted | superseded | expired
  deriving DecidableEq, Repr

/-- `ChunkStatus::to_string`. -/
def ChunkStatus.asStr : ChunkStatus → String
  | .draft => "draft"
  | .candidate => "candidate"
  | .final => "final"
  | .error => "error"
  | .deleted => "deleted"
  | .superseded => "superseded"
  | .expired => "expired"

/-- `PromotionState`. -/
inductive PromotionState
  | raw | summarized | canonical | verified
  deriving DecidableEq, Repr

/-- `IngestionMode`. -/
inductive IngestionMode
  | conversation | document
  deriving DecidableEq, Repr

/-- `MemoryTier`. -/
inductive MemoryTier
  | working | longTerm | history
  deriving DecidableEq, Repr

/-- Provenance of a chunk. -/
structure Source where
  uri : Option String := none
  repo : Option String := none
  commit : Option String := none
  path : Option String := none
  toolName : Option String := none
  toolCallId : Option String := none
  deriving DecidableEq, Repr

/-- What a caller stores, and what a segment payload and a WAL Add record carry. -/
structure MemoryChunk where
  chunkId : ChunkId
  tenantId : TenantId
  projectId : Option String := none
  agentId : Option String := none
  timestampCreated : ℤ := 0
  timestampObserved : Option ℤ := none
  chunkType : ChunkType := .other
  status : ChunkStatus := .final
  promotionState : PromotionState := .raw
  source : Source := {}
  text : String
  tags : List String := []
  hash : String := ""
  ingestionMode : IngestionMode := .document
  deriving DecidableEq, Repr

/-! ## The lifecycle overlay -/

/-- `LifecycleMetadata`. -/
structure LifecycleMetadata where
  tier : MemoryTier := .longTerm
  supersedes : Option ChunkId := none
  supersededBy : Option ChunkId := none
  expiresAtMs : Option ℤ := none
  reviewAfterMs : Option ℤ := none
  lifecycleUpdatedAtMs : ℤ := 0
  deriving DecidableEq, Repr

/-- A partial update of the overlay: `none` leaves a field alone, and for the two
deadlines `some none` clears it. -/
structure LifecycleDelta where
  status : Option ChunkStatus := none
  tier : Option MemoryTier := none
  supersedes : Option ChunkId := none
  supersededBy : Option ChunkId := none
  expiresAtMs : Option (Option ℤ) := none
  reviewAfterMs : Option (Option ℤ) := none
  lifecycleUpdatedAtMs : Option ℤ := none
  deriving DecidableEq, Repr

/-- `LifecycleDelta::is_empty`. -/
def LifecycleDelta.isEmpty (d : LifecycleDelta) : Bool :=
  d.status.isNone && d.tier.isNone && d.supersedes.isNone && d.supersededBy.isNone
    && d.expiresAtMs.isNone && d.reviewAfterMs.isNone && d.lifecycleUpdatedAtMs.isNone

/-! ## Rows of the `chunks` table -/

/-- `ChunkMetadata`: a row of the `chunks` table. -/
structure ChunkMetadata where
  chunkId : ChunkId
  tenantId : TenantId
  projectId : Option String
  segmentId : ℕ
  ordinal : ℕ
  chunkType : ChunkType
  status : ChunkStatus
  timestampCreated : ℤ
  hash : String
  sourceUri : Option String
  lifecycle : LifecycleMetadata
  canonicalText : Option String
  ingestionMode : IngestionMode
  deriving DecidableEq, Repr

/-- The `index_state` of a row. -/
inductive IndexState
  | pending | indexed | failed
  deriving DecidableEq, Repr

/-- A row: the metadata and the indexing columns, with the column defaults. -/
structure ChunkRow extends ChunkMetadata where
  indexState : IndexState := .indexed
  indexAttempts : ℕ := 0
  indexLastError : Option String := none
  indexedAtMs : Option ℤ := none
  indexUpdatedAtMs : ℤ := 0
  deriving DecidableEq, Repr

/-- The errors the modelled code returns.  `walkCutOff` is no error of the code: it ends
a walk that other calls keep extending. -/
inductive MemdError
  | validationError (msg : String)
  | storageError (msg : String)
  | walkCutOff
  deriving DecidableEq, Repr

/-- `MemdError::to_string`. -/
def MemdError.display : MemdError → String
  | .validationError msg => s!"validation error: {msg}"
  | .storageError msg => s!"storage error: {msg}"
  | .walkCutOff => ""

/-! ## Code outside the model -/

/-- One piece of a chunked document. -/
structure TextChunk where
  text : String
  startChar : ℕ
  endChar : ℕ
  deriving DecidableEq, Repr

/-- The functions the store takes from libraries. -/
structure Externals where
  /-- SHA-256 of the text, in hexadecimal -/
  sha256Hex : String → String
  /-- `str::to_lowercase` -/
  toLowercase : String → String
  /-- `chunk_text` with the default configuration -/
  chunkText : String → List TextChunk

/-! ## Splitting a long chunk -/

/-- Split threshold for long-document chunking, in bytes. -/
def addChunkThreshold : ℕ := 1000

/-- The sub-chunk of one piece of a split document. -/
def subChunk (chunk : MemoryChunk) (totalChunks idx : ℕ) (piece : TextChunk) : MemoryChunk :=
  { chunk with
    text := piece.text
    tags := chunk.tags ++ [s!"chunk_index:{idx}", s!"total_chunks:{totalChunks}",
      s!"char_start:{piece.startChar}", s!"char_end:{piece.endChar}"] }

/-- `split_for_add`: a chunk over the threshold that the chunker divides becomes one
sub-chunk per piece. -/
def splitForAdd (ext : Externals) (chunk : MemoryChunk) : List MemoryChunk :=
  if chunk.text.utf8ByteSize ≤ addChunkThreshold then [chunk]
  else
    let textChunks := ext.chunkText chunk.text
    if textChunks.length ≤ 1 then [chunk]
    else textChunks.mapIdx fun idx piece => subChunk chunk textChunks.length idx piece

/-- A write stores at least one physical chunk. -/
theorem splitForAdd_ne_nil (ext : Externals) (chunk : MemoryChunk) :
    splitForAdd ext chunk ≠ [] := by
  unfold splitForAdd
  by_cases h₁ : chunk.text.utf8ByteSize ≤ addChunkThreshold
  · rw [if_pos h₁]
    exact List.cons_ne_nil _ _
  · rw [if_neg h₁]
    by_cases h₂ : (ext.chunkText chunk.text).length ≤ 1
    · rw [if_pos h₂]
      exact List.cons_ne_nil _ _
    · rw [if_neg h₂]
      intro hnil
      rw [List.mapIdx_eq_nil_iff] at hnil
      simp [hnil] at h₂

/-- A physical chunk keeps everything of the written chunk but its text and tags. -/
theorem mem_splitForAdd {ext : Externals} {chunk part : MemoryChunk}
    (h : part ∈ splitForAdd ext chunk) :
    ∃ text tags, part = { chunk with text := text, tags := tags } := by
  unfold splitForAdd at h
  by_cases h₁ : chunk.text.utf8ByteSize ≤ addChunkThreshold
  · rw [if_pos h₁, List.mem_singleton] at h
    exact ⟨chunk.text, chunk.tags, h⟩
  · rw [if_neg h₁] at h
    by_cases h₂ : (ext.chunkText chunk.text).length ≤ 1
    · rw [if_pos h₂, List.mem_singleton] at h
      exact ⟨chunk.text, chunk.tags, h⟩
    · rw [if_neg h₂, List.mem_mapIdx] at h
      obtain ⟨i, hi, rfl⟩ := h
      exact ⟨_, _, rfl⟩

/-! ## Canonical text -/

/-- The characters with the Unicode property White_Space. -/
def isWhitespace (c : Char) : Bool :=
  let n := c.toNat
  (0x9 ≤ n && n ≤ 0xD) || n == 0x20 || n == 0x85 || n == 0xA0 || n == 0x1680
    || (0x2000 ≤ n && n ≤ 0x200A) || n == 0x2028 || n == 0x2029 || n == 0x202F
    || n == 0x205F || n == 0x3000

/-- `split_whitespace`: the maximal runs of other characters. -/
def splitWhitespace : List Char → List (List Char)
  | [] => []
  | c :: cs =>
    if isWhitespace c then splitWhitespace cs
    else
      match cs, splitWhitespace cs with
      | d :: _, w :: ws => if isWhitespace d then [c] :: w :: ws else (c :: w) :: ws
      | _, ws => [c] :: ws

/-- `split_whitespace` followed by `join(" ")`. -/
def collapseWhitespace (s : String) : String :=
  String.ofList (List.intercalate [' '] (splitWhitespace s.toList))

/-- `canonicalize_text`. -/
def canonicalizeText (ext : Externals) (s : String) : String :=
  collapseWhitespace (ext.toLowercase s)

/-- `canonicalize_for_type`: code keeps its case. -/
def canonicalizeForType (ext : Externals) (text : String) : ChunkType → String
  | .code => collapseWhitespace text
  | _ => canonicalizeText ext text

example : collapseWhitespace "  a b\t\n cd " = "a b cd" := by decide
