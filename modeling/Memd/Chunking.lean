/-
# Chunks of a long text

`chunking.rs`: `chunk_text` groups the sentences of a long text into chunks of about
`chunk_size` bytes that overlap, divides a sentence over `chunk_size`, and merges a short tail
into the last chunk.  Texts are lists of characters, offsets count bytes; slicing inside a
character panics, which is `none`.

What the sentence splitter returns is an argument: `SentenceSplit` says what it promises.  A
chunk of the model also keeps the sentences or pieces its text is joined from, which the source
drops.

* `splitOversized_eq` — the forced split of a sentence never slices inside a character and
  yields the pieces of `Utf8Text.cutText`;
* `Simulates.step` — the loop packs the sentences as `Packing` does.
-/
import Memd.Chunk
import Memd.Packing
import Memd.Utf8Text

open Utf8Text

namespace Chunking

/-! ## Records -/

/-- `ChunkingConfig`, in bytes. -/
structure ChunkingConfig where
  chunkSize : ℕ := 1200
  overlap : ℕ := 200
  minChunkSize : ℕ := 400

/-- A sentence and its byte offset in the text. -/
structure Sentence where
  text : List Char
  offset : ℕ
  deriving DecidableEq, Repr

/-- Its length in bytes. -/
def Sentence.len (s : Sentence) : ℕ :=
  byteLen s.text

/-- The offset behind the sentence. -/
def Sentence.stop (s : Sentence) : ℕ :=
  s.offset + s.len

/-- `Chunk`: a text and the range it claims. -/
structure Chunk where
  text : List Char
  startChar : ℕ
  endChar : ℕ
  chunkIndex : ℕ
  /-- what `text` is joined from -/
  parts : List Sentence
  deriving DecidableEq, Repr

/-- The sentence stands in the text at its offset. -/
def Sentence.OccursIn (text : List Char) (s : Sentence) : Prop :=
  ∃ a b, text = a ++ (s.text ++ b) ∧ byteLen a = s.offset

/-- A slice at its offset occurs there. -/
theorem Sentence.occursIn_of_slice {text : List Char} {s : Sentence}
    (h : slice text s.offset s.stop = some s.text) : s.OccursIn text :=
  of_slice h

/-- Sentences of a text, in order and apart from each other. -/
structure SentenceSplit (text : List Char) where
  sentences : List Sentence
  nonempty : ∀ s ∈ sentences, s.text ≠ []
  occurs : ∀ s ∈ sentences, s.OccursIn text
  ordered : sentences.Pairwise fun a b => a.stop ≤ b.offset

/-! ## The loop -/

/-- The texts one behind the other. -/
def joinTexts (l : List Sentence) : List Char :=
  l.flatMap Sentence.text

/-- The variables of the loop. -/
structure ChunkLoop where
  chunks : List Chunk := []
  currentChunkSentences : List Sentence := []
  currentLength : ℕ := 0
  chunkStart : ℕ := 0
  chunkIndex : ℕ := 0

namespace ChunkLoop

/-- A finished chunk, and the sentences it was made of. -/
def push (s : ChunkLoop) (text : List Char) (startChar endChar : ℕ) (parts : List Sentence) :
    ChunkLoop :=
  { s with
    chunks := s.chunks ++
      [{ text := text, startChar := startChar, endChar := endChar, chunkIndex := s.chunkIndex,
         parts := parts }]
    chunkIndex := s.chunkIndex + 1 }

/-- A chunk of the sentences so far. -/
def finalize (s : ChunkLoop) : ChunkLoop :=
  s.push (joinTexts s.currentChunkSentences) s.chunkStart (s.chunkStart + s.currentLength)
    s.currentChunkSentences

end ChunkLoop

/-- The end of the piece that starts at `sentOffset`. -/
def pieceEnd (size : ℕ) (text : List Char) (sentOffset : ℕ) : Option ℕ :=
  let remaining := byteLen text - sentOffset
  let chunkEnd := floorBoundary text sentOffset (sentOffset + min remaining size)
  if chunkEnd = sentOffset then
    (sliceFrom text sentOffset).map fun rest => sentOffset + rest.head?.elim 1 Char.utf8Size
  else some chunkEnd

/-- A boundary that is moved back stays behind the start. -/
theorem le_floorBoundary (l : List Char) {lo e : ℕ} (h : lo ≤ e) : lo ≤ floorBoundary l lo e := by
  induction e with
  | zero => exact h
  | succ e ih =>
    rw [floorBoundary]
    split
    · rename_i hlt
      rw [Bool.and_eq_true, decide_eq_true_eq] at hlt
      exact ih (Nat.le_of_lt_succ hlt.1)
    · exact h

/-- A piece is not empty. -/
theorem lt_pieceEnd {size : ℕ} {text : List Char} {sentOffset e : ℕ}
    (h : pieceEnd size text sentOffset = some e) : sentOffset < e := by
  unfold pieceEnd at h
  dsimp only at h
  split at h
  · obtain ⟨rest, _, rfl⟩ := Option.map_eq_some_iff.mp h
    cases rest with
    | nil => exact Nat.lt_succ_self _
    | cons c rest => exact Nat.lt_add_of_pos_right c.utf8Size_pos
  · rename_i hne
    have hle := le_floorBoundary text
      (Nat.le_add_right sentOffset (min (byteLen text - sentOffset) size))
    have heq := Option.some.inj h
    omega

/-- The loop that divides a sentence over `chunk_size`. -/
def splitOversized (size : ℕ) (sentence : Sentence) (sentOffset : ℕ) (s : ChunkLoop) :
    Option ChunkLoop :=
  if sentOffset < sentence.len then
    match _hend : pieceEnd size sentence.text sentOffset with
    | none => none
    | some chunkEnd =>
      match slice sentence.text sentOffset chunkEnd with
      | none => none
      | some piece =>
        splitOversized size sentence chunkEnd
          (s.push piece (sentence.offset + sentOffset) (sentence.offset + chunkEnd)
            [⟨piece, sentence.offset + sentOffset⟩])
  else some s
termination_by sentence.len - sentOffset
decreasing_by
  have hlt := lt_pieceEnd _hend
  omega

/-- The sentences carried over, last first, and their length. -/
def overlapSentences (overlap : ℕ) : List Sentence → ℕ → List Sentence × ℕ
  | [], n => ([], n)
  | sent :: rest, n =>
    if n + sent.len ≤ overlap then
      let (kept, m) := overlapSentences overlap rest (n + sent.len)
      (sent :: kept, m)
    else ([], n)

namespace ChunkLoop

/-- One sentence. -/
def step (cfg : ChunkingConfig) (s : ChunkLoop) (sentence : Sentence) : Option ChunkLoop :=
  if cfg.chunkSize < sentence.len then
    -- what is open is closed without an overlap
    let s := if 0 < s.currentLength then
        { s.finalize with
          currentChunkSentences := []
          currentLength := 0 }
      else s
    (splitOversized cfg.chunkSize sentence 0 s).map fun s =>
      { s with chunkStart := sentence.offset + sentence.len }
  else
    -- the sentence does not fit: the open group is closed and its end carried over
    let s := if 0 < s.currentLength ∧ cfg.chunkSize < s.currentLength + sentence.len then
        let (kept, overlapLength) :=
          overlapSentences cfg.overlap s.currentChunkSentences.reverse 0
        { s.finalize with
          currentChunkSentences := kept.reverse
          currentLength := overlapLength
          chunkStart := (kept.reverse.head?.map Sentence.offset).getD sentence.offset }
      else s
    some { s with
      currentChunkSentences := s.currentChunkSentences ++ [sentence]
      currentLength := s.currentLength + sentence.len }

end ChunkLoop

/-- The short tail is merged into the last chunk: its sentences behind the chunk's end. -/
def mergeTail (last : Chunk) (current : List Sentence) : Chunk :=
  let newSentences := current.filter fun s => last.endChar ≤ s.offset
  let newEnd := (newSentences.getLast?.map Sentence.stop).getD last.endChar
  { last with
    text := last.text ++ joinTexts newSentences
    endChar := max last.endChar newEnd
    parts := last.parts ++ newSentences }

/-- What follows the loop. -/
def ChunkLoop.finish (cfg : ChunkingConfig) (s : ChunkLoop) : List Chunk :=
  if 0 < s.currentLength ∧ (cfg.minChunkSize ≤ s.currentLength ∨ s.chunks = []) then
    let endChar := (s.currentChunkSentences.getLast?.map Sentence.stop).getD
      (s.chunkStart + s.currentLength)
    (s.push (joinTexts s.currentChunkSentences) s.chunkStart endChar s.currentChunkSentences).chunks
  else
    match s.chunks.getLast? with
    | none => s.chunks
    | some last => s.chunks.dropLast ++ [mergeTail last s.currentChunkSentences]

/-- The text as one chunk. -/
def wholeText (text : List Char) : Chunk where
  text := text
  startChar := 0
  endChar := byteLen text
  chunkIndex := 0
  parts := [⟨text, 0⟩]

/-- `chunk_text`, with what the splitter returns for the text. -/
def chunkText (cfg : ChunkingConfig) (text : List Char) (sentences : List Sentence) :
    Option (List Chunk) :=
  if byteLen text ≤ cfg.chunkSize ∨ sentences = [] then some [wholeText text]
  else (sentences.foldlM (ChunkLoop.step cfg) {}).map (ChunkLoop.finish cfg)

/-! ## The pieces of a long sentence -/

/-- Texts that follow each other from an offset on. -/
def place : ℕ → List (List Char) → List Sentence
  | _, [] => []
  | offset, t :: ts => ⟨t, offset⟩ :: place (offset + byteLen t) ts

/-- The pieces a long sentence is cut into. -/
def Sentence.pieces (size : ℕ) (s : Sentence) : List Sentence :=
  place s.offset (cutText size s.text)

/-- A piece is a chunk of its own. -/
def ChunkLoop.pushPiece (s : ChunkLoop) (y : Sentence) : ChunkLoop :=
  s.push y.text y.offset y.stop [y]

/-- Where a piece ends, told from the text ahead. -/
theorem pieceEnd_append (size : ℕ) (a : List Char) {b : List Char} (hb : b ≠ []) :
    pieceEnd size (a ++ b) (byteLen a) = some (byteLen a + byteLen (firstPiece size b)) := by
  unfold pieceEnd
  dsimp only
  rw [byteLen_append, Nat.add_sub_cancel_left, floorBoundary_append, takeFitting_min]
  unfold firstPiece
  by_cases hnil : takeFitting size b = []
  · -- not even the first character fits
    rw [hnil, byteLen_nil, Nat.add_zero, if_pos rfl, if_pos rfl, sliceFrom_append]
    cases b with
    | nil => exact absurd rfl hb
    | cons c b => rfl
  · have hlen : byteLen (takeFitting size b) ≠ 0 := fun h => hnil (byteLen_eq_zero.mp h)
    rw [if_neg (by omega), if_neg hnil]

/-- A text is cut into its first piece and the rest. -/
theorem cutText_of_ne_nil (size : ℕ) {l : List Char} (h : l ≠ []) :
    cutText size l = firstPiece size l :: cutText size (l.drop (firstPiece size l).length) := by
  rw [cutText, dif_neg h]

/-- **The forced split** never slices inside a character: it pushes the pieces. -/
theorem splitOversized_eq (size : ℕ) (sentence : Sentence) (b : List Char) :
    ∀ (a : List Char) (s : ChunkLoop), sentence.text = a ++ b →
      splitOversized size sentence (byteLen a) s =
        some ((place (sentence.offset + byteLen a) (cutText size b)).foldl ChunkLoop.pushPiece s) := by
  induction hn : b.length using Nat.strongRecOn generalizing b with
  | ind n ih =>
    intro a s htext
    have hlen : sentence.len = byteLen a + byteLen b := by
      rw [Sentence.len, htext, byteLen_append]
    rw [splitOversized]
    by_cases hb : b = []
    · subst hb
      rw [if_neg (by rw [hlen, byteLen_nil]; omega), cutText]
      rfl
    · have hpos : byteLen b ≠ 0 := fun h => hb (byteLen_eq_zero.mp h)
      obtain ⟨rest, hrest⟩ : ∃ rest, b.drop (firstPiece size b).length = rest := ⟨_, rfl⟩
      have hsplit : firstPiece size b ++ rest = b := by
        rw [← hrest]
        exact firstPiece_append_drop size b
      have hslice : slice sentence.text (byteLen a) (byteLen a + byteLen (firstPiece size b)) =
          some (firstPiece size b) := by
        have htext' : sentence.text = a ++ (firstPiece size b ++ rest) := by rw [hsplit, htext]
        rw [htext']
        exact slice_append _ _ _
      have hend : pieceEnd size sentence.text (byteLen a) =
          some (byteLen a + byteLen (firstPiece size b)) := by
        rw [htext]
        exact pieceEnd_append size a hb
      rw [if_pos (by omega), cutText_of_ne_nil size hb, hrest]
      split
      · rename_i hnone
        rw [hend] at hnone
        exact absurd hnone (by simp)
      · rename_i chunkEnd hsome
        rw [hend] at hsome
        obtain rfl := Option.some.inj hsome
        rw [hslice]
        have hshort : rest.length < n := by
          have := List.length_pos_iff.mpr (firstPiece_ne_nil size hb)
          rw [← hn, ← hsplit, List.length_append]
          omega
        have hnext := ih rest.length hshort rest rfl (a ++ firstPiece size b)
          (s.push (firstPiece size b) (sentence.offset + byteLen a)
            (sentence.offset + (byteLen a + byteLen (firstPiece size b)))
            [⟨firstPiece size b, sentence.offset + byteLen a⟩])
          (by rw [htext, List.append_assoc, hsplit])
        rw [byteLen_append] at hnext
        dsimp only
        rw [hnext, place, List.foldl_cons, Nat.add_assoc]
        unfold ChunkLoop.pushPiece Sentence.stop Sentence.len
        rw [Nat.add_assoc]

/-! ## The units of a text -/

/-- The packing the loop carries out. -/
def packing (cfg : ChunkingConfig) : Packing Sentence where
  weight := Sentence.len
  capacity := cfg.chunkSize
  overlap := cfg.overlap
  pieces := Sentence.pieces cfg.chunkSize

/-- A piece at its offset. -/
theorem mem_place {o : ℕ} {ts : List (List Char)} {y : Sentence} (hy : y ∈ place o ts) :
    ∃ a b, ts = a ++ y.text :: b ∧ y.offset = o + byteLen a.flatten := by
  induction ts generalizing o with
  | nil => exact absurd hy List.not_mem_nil
  | cons t ts ih =>
    rcases List.mem_cons.mp hy with rfl | hy
    · exact ⟨[], ts, rfl, rfl⟩
    · obtain ⟨a, b, rfl, hoff⟩ := ih hy
      refine ⟨t :: a, b, rfl, ?_⟩
      rw [hoff, List.flatten_cons, byteLen_append, Nat.add_assoc]

/-- The pieces follow each other. -/
theorem place_ordered (o : ℕ) (ts : List (List Char)) :
    (place o ts).Pairwise fun a b => a.stop ≤ b.offset := by
  induction ts generalizing o with
  | nil => exact List.Pairwise.nil
  | cons t ts ih =>
    refine List.pairwise_cons.mpr ⟨fun y hy => ?_, ih _⟩
    obtain ⟨a, _, _, hoff⟩ := mem_place hy
    rw [hoff]
    exact Nat.le_add_right _ _

/-- The pieces make up the text. -/
theorem joinTexts_place (o : ℕ) (ts : List (List Char)) : joinTexts (place o ts) = ts.flatten := by
  induction ts generalizing o with
  | nil => rfl
  | cons t ts ih =>
    show t ++ joinTexts (place _ ts) = _
    rw [ih, List.flatten_cons]

/-- The pieces of a sentence make it up. -/
theorem joinTexts_pieces (size : ℕ) (s : Sentence) : joinTexts (s.pieces size) = s.text := by
  rw [Sentence.pieces, joinTexts_place, flatten_cutText]

/-- The bytes of joined texts. -/
theorem byteLen_joinTexts (cfg : ChunkingConfig) (l : List Sentence) :
    byteLen (joinTexts l) = (packing cfg).total l := by
  induction l with
  | nil => rfl
  | cons s l ih =>
    show byteLen (s.text ++ joinTexts l) = _
    rw [byteLen_append, ih, Packing.total_cons]
    rfl

/-- A piece stands within its sentence. -/
structure Within (y s : Sentence) : Prop where
  nonempty : y.text ≠ []
  start : s.offset ≤ y.offset
  stop : y.stop ≤ s.stop
  occurs : ∀ text, s.OccursIn text → y.OccursIn text

/-- A sentence is within itself. -/
theorem Within.refl {s : Sentence} (h : s.text ≠ []) : Within s s :=
  ⟨h, Nat.le_refl _, Nat.le_refl _, fun _ h => h⟩

/-- A piece is within its sentence. -/
theorem within_of_mem_pieces {size : ℕ} {s y : Sentence} (hy : y ∈ s.pieces size) :
    Within y s := by
  obtain ⟨a, b, hts, hoff⟩ := mem_place hy
  have htext : s.text = a.flatten ++ (y.text ++ b.flatten) := by
    rw [← flatten_cutText size s.text, hts, List.flatten_append, List.flatten_cons]
  have hmem : y.text ∈ cutText size s.text := by
    rw [hts]
    exact List.mem_append_right _ List.mem_cons_self
  refine ⟨(mem_cutText hmem).1, ?_, ?_, ?_⟩
  · rw [hoff]
    exact Nat.le_add_right _ _
  · have hlen : s.len = byteLen a.flatten + (y.len + byteLen b.flatten) := by
      rw [Sentence.len, htext, byteLen_append, byteLen_append]
      rfl
    unfold Sentence.stop
    omega
  · rintro text ⟨c, d, rfl, hc⟩
    refine ⟨c ++ a.flatten, b.flatten ++ d, ?_, ?_⟩
    · rw [htext]
      simp only [List.append_assoc]
    · rw [byteLen_append, hc, hoff]

/-- The units of a sentence: itself, or its pieces. -/
theorem mem_units {cfg : ChunkingConfig} {l : List Sentence} {y : Sentence}
    (hy : y ∈ (packing cfg).units l) : ∃ s ∈ l,
      (cfg.chunkSize < s.len ∧ y ∈ s.pieces cfg.chunkSize) ∨ (s.len ≤ cfg.chunkSize ∧ y = s) := by
  obtain ⟨s, hs, hys⟩ := List.mem_flatMap.mp hy
  refine ⟨s, hs, ?_⟩
  by_cases hheavy : (packing cfg).capacity < (packing cfg).weight s
  · rw [if_pos hheavy] at hys
    exact Or.inl ⟨hheavy, hys⟩
  · rw [if_neg hheavy] at hys
    exact Or.inr ⟨Nat.le_of_not_lt hheavy, List.mem_singleton.mp hys⟩

section

variable {text : List Char} (split : SentenceSplit text) (cfg : ChunkingConfig)

/-- Every unit is within a sentence of the split. -/
theorem SentenceSplit.within_units {y : Sentence} (hy : y ∈ (packing cfg).units split.sentences) :
    ∃ s ∈ split.sentences, Within y s := by
  obtain ⟨s, hs, ⟨_, hys⟩ | ⟨_, rfl⟩⟩ := mem_units hy
  · exact ⟨s, hs, within_of_mem_pieces hys⟩
  · exact ⟨y, hs, Within.refl (split.nonempty y hs)⟩

/-- No unit is empty. -/
theorem SentenceSplit.units_nonempty {y : Sentence}
    (hy : y ∈ (packing cfg).units split.sentences) : y.text ≠ [] := by
  obtain ⟨s, _, hwithin⟩ := split.within_units cfg hy
  exact hwithin.nonempty

/-- **The units** are in order and apart from each other. -/
theorem SentenceSplit.units_ordered :
    ((packing cfg).units split.sentences).Pairwise fun a b => a.stop ≤ b.offset := by
  refine List.pairwise_flatMap.mpr ⟨fun s hs => ?_, ?_⟩
  · split
    · exact place_ordered _ _
    · exact List.pairwise_singleton _ _
  · refine split.ordered.imp_of_mem fun {s s'} hs hs' hle x hx y hy => ?_
    have hwithin : ∀ {s x : Sentence}, s ∈ split.sentences →
        x ∈ (if (packing cfg).capacity < (packing cfg).weight s then (packing cfg).pieces s
          else [s]) → Within x s := by
      intro s x hs hx
      split at hx
      · exact within_of_mem_pieces hx
      · rw [List.mem_singleton.mp hx]
        exact Within.refl (split.nonempty s hs)
    exact Nat.le_trans (Nat.le_trans (hwithin hs hx).stop hle) (hwithin hs' hy).start

/-- A sentence in front starts earlier. -/
theorem lt_of_ordered {a b : Sentence} (ha : a.text ≠ []) (h : a.stop ≤ b.offset) :
    a.offset < b.offset := by
  have hpos : a.len ≠ 0 := fun h0 => ha (byteLen_eq_zero.mp h0)
  unfold Sentence.stop at h
  omega

/-- No unit comes twice. -/
theorem SentenceSplit.units_nodup : ((packing cfg).units split.sentences).Nodup := by
  refine (split.units_ordered cfg).imp_of_mem fun {a b} ha _ hle heq => ?_
  have hlt := lt_of_ordered (split.units_nonempty cfg ha) hle
  rw [heq] at hlt
  exact Nat.lt_irrefl _ hlt

end

/-! ## The loop packs -/

/-- The overlap loop takes what fits, from where it stands. -/
theorem overlapSentences_eq (cfg : ChunkingConfig) (l : List Sentence) :
    ∀ n, n ≤ cfg.overlap → overlapSentences cfg.overlap l n =
      (Greedy.takeWithin Sentence.len (cfg.overlap - n) l,
        n + (packing cfg).total (Greedy.takeWithin Sentence.len (cfg.overlap - n) l)) := by
  induction l with
  | nil => exact fun n _ => rfl
  | cons s l ih =>
    intro n hn
    rw [overlapSentences, Greedy.takeWithin]
    by_cases hfit : n + s.len ≤ cfg.overlap
    · have hfit' : s.len ≤ cfg.overlap - n := Nat.le_sub_of_add_le' hfit
      have hrest : cfg.overlap - (n + s.len) = cfg.overlap - n - s.len :=
        (Nat.sub_sub _ _ _).symm
      rw [if_pos hfit, if_pos hfit', ih _ hfit, hrest, Packing.total_cons, Nat.add_assoc]
      rfl
    · have hfit' : ¬ s.len ≤ cfg.overlap - n := fun h =>
        hfit (Nat.add_le_of_le_sub' hn h)
      rw [if_neg hfit, if_neg hfit']
      rfl

/-- **The overlap** is what the packing carries over. -/
theorem overlapSentences_carry (cfg : ChunkingConfig) (l : List Sentence) :
    (overlapSentences cfg.overlap l.reverse 0).1.reverse = (packing cfg).carry l ∧
      (overlapSentences cfg.overlap l.reverse 0).2 = (packing cfg).total ((packing cfg).carry l) := by
  rw [overlapSentences_eq cfg _ 0 (Nat.zero_le _)]
  refine ⟨rfl, ?_⟩
  rw [Nat.zero_add, Packing.carry, Packing.total_reverse]
  rfl

/-- The chunks hold the closed groups, the loop the open one. -/
structure Simulates (cfg : ChunkingConfig) (s : ChunkLoop) (a : Packed Sentence) : Prop where
  parts : s.chunks.map Chunk.parts = a.closed
  current : s.currentChunkSentences = a.current
  length : s.currentLength = (packing cfg).total s.currentChunkSentences
  index : s.chunkIndex = s.chunks.length
  indices : s.chunks.map Chunk.chunkIndex = List.range s.chunks.length
  texts : ∀ c ∈ s.chunks, c.text = joinTexts c.parts

variable {cfg : ChunkingConfig} {s : ChunkLoop} {a : Packed Sentence}

/-- The loop starts as the packing does. -/
theorem simulates_empty (cfg : ChunkingConfig) : Simulates cfg {} {} :=
  ⟨rfl, rfl, rfl, rfl, rfl, fun _ hc => absurd hc List.not_mem_nil⟩

/-- The loop variables after the sentences so far became a chunk. -/
def ChunkLoop.restart (s : ChunkLoop) (cfg : ChunkingConfig) (carried : List Sentence)
    (chunkStart : ℕ) : ChunkLoop :=
  { s.finalize with
    currentChunkSentences := carried
    currentLength := (packing cfg).total carried
    chunkStart := chunkStart }

/-- One more chunk. -/
theorem Simulates.push (h : Simulates cfg s a) (startChar endChar : ℕ) (parts carried : List Sentence)
    (chunkStart : ℕ) :
    Simulates cfg
      { s.push (joinTexts parts) startChar endChar parts with
        currentChunkSentences := carried
        currentLength := (packing cfg).total carried
        chunkStart := chunkStart }
      { closed := a.closed ++ [parts], current := carried } where
  parts := by
    show (s.chunks ++ [_]).map Chunk.parts = _
    rw [List.map_append, h.parts]
    rfl
  current := rfl
  length := rfl
  index := by
    show s.chunkIndex + 1 = (s.chunks ++ [_]).length
    rw [h.index, List.length_append]
    rfl
  indices := by
    show (s.chunks ++ [_]).map Chunk.chunkIndex = List.range (s.chunks ++ [_]).length
    rw [List.map_append, h.indices, List.length_append, List.length_singleton, List.range_succ,
      ← h.index]
    rfl
  texts := by
    intro c hc
    rcases List.mem_append.mp hc with hc | hc
    · exact h.texts c hc
    · rw [List.mem_singleton.mp hc]

/-- The sentences so far become a chunk. -/
theorem Simulates.restart (h : Simulates cfg s a) (carried : List Sentence) (chunkStart : ℕ) :
    Simulates cfg (s.restart cfg carried chunkStart) (Packing.close a carried) := by
  have hpush := h.push s.chunkStart (s.chunkStart + s.currentLength) s.currentChunkSentences carried
    chunkStart
  unfold Packing.close
  rw [← h.current]
  exact hpush

/-- A sentence is added to both. -/
theorem Simulates.add (h : Simulates cfg s a) (x : Sentence) :
    Simulates cfg
      { s with
        currentChunkSentences := s.currentChunkSentences ++ [x]
        currentLength := s.currentLength + x.len } (Packing.add a x) where
  parts := h.parts
  current := congrArg (· ++ [x]) h.current
  length := by
    show s.currentLength + x.len = _
    rw [h.length, Packing.total_append]
    rfl
  index := h.index
  indices := h.indices
  texts := h.texts

/-- Pieces are chunks of both. -/
theorem Simulates.pushPieces (ys : List Sentence) :
    ∀ {s : ChunkLoop} {a : Packed Sentence}, Simulates cfg s a → a.current = [] →
      Simulates cfg (ys.foldl ChunkLoop.pushPiece s) (Packing.addPieces a ys) := by
  induction ys with
  | nil => exact fun h _ => h
  | cons y ys ih =>
    intro s a h hcur
    have hempty : s.currentChunkSentences = [] := h.current.trans hcur
    have hlen : s.currentLength = 0 := by
      rw [h.length, hempty]
      rfl
    have hpush := h.push y.offset y.stop [y] [] s.chunkStart
    rw [show joinTexts [y] = y.text from List.append_nil _] at hpush
    refine ih (a := Packing.close (Packing.add a y) []) ?_ rfl
    unfold Packing.close Packing.add
    rw [hcur, List.nil_append]
    unfold ChunkLoop.pushPiece
    have heq : s.push y.text y.offset y.stop [y] =
        { s.push y.text y.offset y.stop [y] with
          currentChunkSentences := []
          currentLength := (packing cfg).total []
          chunkStart := s.chunkStart } := by
      unfold ChunkLoop.push
      rw [hempty, hlen]
      rfl
    rw [heq]
    exact hpush

/-! What a step does, in the three cases. -/

/-- The current chunk has bytes exactly if it has sentences. -/
theorem currentLength_pos (hlen : s.currentLength = (packing cfg).total s.currentChunkSentences)
    (hne : ∀ x ∈ s.currentChunkSentences, x.text ≠ []) :
    0 < s.currentLength ↔ s.currentChunkSentences ≠ [] := by
  rw [hlen]
  cases hcur : s.currentChunkSentences with
  | nil => simp
  | cons x l =>
    have hx := hne x (by rw [hcur]; exact List.mem_cons_self)
    have hpos : x.len ≠ 0 := fun h0 => hx (byteLen_eq_zero.mp h0)
    have hweight : (packing cfg).weight x = x.len := rfl
    simp only [Packing.total_cons, ne_eq, reduceCtorEq, not_false_eq_true, iff_true, hweight]
    omega

section

variable (hlen : s.currentLength = (packing cfg).total s.currentChunkSentences)
  (hne : ∀ x ∈ s.currentChunkSentences, x.text ≠ []) {x : Sentence}
include hlen hne

/-- A sentence that is longer than a chunk is cut. -/
theorem step_heavy (hx : cfg.chunkSize < x.len) :
    s.step cfg x = some
      { ((x.pieces cfg.chunkSize).foldl ChunkLoop.pushPiece
          (if s.currentChunkSentences = [] then s else s.restart cfg [] s.chunkStart)) with
        chunkStart := x.stop } := by
  unfold ChunkLoop.step
  rw [if_pos hx]
  simp only [currentLength_pos hlen hne]
  have hsplit := fun s => splitOversized_eq cfg.chunkSize x x.text [] s rfl
  rw [byteLen_nil] at hsplit
  rw [hsplit, Option.map_some, Nat.add_zero]
  by_cases hcur : s.currentChunkSentences = []
  · rw [if_neg (not_not_intro hcur), if_pos hcur]
    rfl
  · rw [if_pos hcur, if_neg hcur]
    rfl

/-- One that does not fit any more closes the chunk. -/
theorem step_full (hx : ¬ cfg.chunkSize < x.len)
    (hfull : s.currentChunkSentences ≠ [] ∧
      cfg.chunkSize < (packing cfg).total s.currentChunkSentences + x.len) :
    s.step cfg x = some
      (let carried := (packing cfg).carry s.currentChunkSentences
       let s := s.restart cfg carried ((carried.head?.map Sentence.offset).getD x.offset)
       { s with
         currentChunkSentences := s.currentChunkSentences ++ [x]
         currentLength := s.currentLength + x.len }) := by
  unfold ChunkLoop.step
  obtain ⟨hcarry, htotal⟩ := overlapSentences_carry cfg s.currentChunkSentences
  rw [if_neg hx, if_pos ⟨(currentLength_pos hlen hne).mpr hfull.1, by rw [hlen]; exact hfull.2⟩]
  dsimp only
  rw [hcarry, htotal]
  rfl

/-- Any other joins it. -/
theorem step_fits (hx : ¬ cfg.chunkSize < x.len)
    (hfull : ¬ (s.currentChunkSentences ≠ [] ∧
      cfg.chunkSize < (packing cfg).total s.currentChunkSentences + x.len)) :
    s.step cfg x = some
      { s with
        currentChunkSentences := s.currentChunkSentences ++ [x]
        currentLength := s.currentLength + x.len } := by
  unfold ChunkLoop.step
  rw [if_neg hx, if_neg]
  rintro ⟨hpos, hlt⟩
  rw [hlen] at hlt
  exact hfull ⟨(currentLength_pos hlen hne).mp hpos, hlt⟩

end

/-- **One sentence.** -/
theorem Simulates.step (h : Simulates cfg s a) (hne : ∀ x ∈ s.currentChunkSentences, x.text ≠ [])
    (x : Sentence) :
    ∃ s', s.step cfg x = some s' ∧ Simulates cfg s' ((packing cfg).step a x) := by
  have hcap : (packing cfg).capacity = cfg.chunkSize := rfl
  have hweight : (packing cfg).weight x = x.len := rfl
  unfold Packing.step
  rw [hcap, hweight, ← h.current]
  by_cases hx : cfg.chunkSize < x.len
  · rw [step_heavy h.length hne hx, if_pos hx]
    refine ⟨_, rfl, ?_⟩
    have hstart : ∀ {s' : ChunkLoop} {a' : Packed Sentence}, Simulates cfg s' a' →
        Simulates cfg { s' with chunkStart := x.stop } a' :=
      fun h => ⟨h.parts, h.current, h.length, h.index, h.indices, h.texts⟩
    refine hstart ?_
    by_cases hcur : s.currentChunkSentences = []
    · rw [if_pos hcur, if_pos hcur]
      exact h.pushPieces _ (h.current.symm.trans hcur)
    · rw [if_neg hcur, if_neg hcur]
      exact Simulates.pushPieces _ (h.restart [] s.chunkStart) rfl
  · rw [if_neg hx]
    by_cases hfull : s.currentChunkSentences ≠ [] ∧
        cfg.chunkSize < (packing cfg).total s.currentChunkSentences + x.len
    · rw [step_full h.length hne hx hfull, if_pos hfull]
      exact ⟨_, rfl, (h.restart _ _).add x⟩
    · rw [step_fits h.length hne hx hfull, if_neg hfull]
      exact ⟨_, rfl, h.add x⟩

/-- A run and one more sentence. -/
theorem foldlM_append_singleton (l : List Sentence) (x : Sentence) (s : ChunkLoop) :
    (l ++ [x]).foldlM (ChunkLoop.step cfg) s =
      (l.foldlM (ChunkLoop.step cfg) s).bind fun s => s.step cfg x := by
  rw [List.foldlM_append]
  congr 1
  funext s
  rw [List.foldlM_cons]
  exact bind_pure (ChunkLoop.step cfg s x)

end Chunking
