/-
# The ranges of chunks

Which part of the text a chunk claims to come from.

* `Ranged` — what the loop keeps true of the offsets of its chunks: starts never decrease, the
  end of a chunk is its start plus the length of its sentences, and the starts are right exactly
  where no group begins with an unanchored sentence;
* `RangesExact` — the range of every chunk runs from its first unit to the end of its last one;
* `ranges_exact_iff` — for which sentences that is so.

A group that begins the text, or follows a divided sentence, is counted from the offset behind
what precedes it, and the end of a group is found by adding up lengths.  So the loop gets a range
wrong where it meets a gap there.
-/
import Mathlib.Data.List.Pairwise
import Memd.Chunking

open Utf8Text

namespace Chunking

/-! ## Where groups begin -/

/-- The offset from which a group that begins behind the sentences is counted: the end of a
divided sentence, or of the text before the first one. -/
def startsAt (cfg : ChunkingConfig) : Option ℕ → List Sentence → Option ℕ
  | e, [] => e
  | _, x :: l => startsAt cfg (if cfg.chunkSize < x.len then some x.stop else none) l

/-- The sentences that begin a group, and do not stand where it is counted from. -/
def unanchored (cfg : ChunkingConfig) : Option ℕ → List Sentence → List Sentence
  | _, [] => []
  | e, x :: l =>
    if cfg.chunkSize < x.len then unanchored cfg (some x.stop) l
    else (if e.all (· = x.offset) then [] else [x]) ++ unanchored cfg none l

/-- Where the next chunk would start after one more sentence. -/
theorem startsAt_append (cfg : ChunkingConfig) (l : List Sentence) (x : Sentence) :
    ∀ e, startsAt cfg e (l ++ [x]) = if cfg.chunkSize < x.len then some x.stop else none := by
  induction l with
  | nil => exact fun e => rfl
  | cons y l ih => exact fun e => ih _

/-- The sentences without an anchor after one more sentence. -/
theorem unanchored_append (cfg : ChunkingConfig) (l : List Sentence) (x : Sentence) :
    ∀ e, unanchored cfg e (l ++ [x]) = unanchored cfg e l ++
      (if cfg.chunkSize < x.len then []
       else if (startsAt cfg e l).all (· = x.offset) then [] else [x]) := by
  induction l with
  | nil =>
    intro e
    show unanchored cfg e [x] = [] ++ _
    rw [unanchored]
    by_cases hx : cfg.chunkSize < x.len
    · rw [if_pos hx, if_pos hx]
      rfl
    · rw [if_neg hx, if_neg hx]
      exact List.append_nil _
  | cons y l ih =>
    intro e
    show unanchored cfg e (y :: (l ++ [x])) = _
    by_cases hy : cfg.chunkSize < y.len
    · simp only [unanchored, startsAt, hy, if_true]
      exact ih _
    · simp only [unanchored, startsAt, hy, if_false, List.append_assoc]
      rw [ih]

/-- A sentence without an anchor is one of the text that fits a chunk. -/
theorem unanchored_subset {cfg : ChunkingConfig} {l : List Sentence} :
    ∀ {e : Option ℕ} {x : Sentence}, x ∈ unanchored cfg e l → x ∈ l ∧ ¬ cfg.chunkSize < x.len := by
  induction l with
  | nil => exact fun h => absurd h List.not_mem_nil
  | cons y l ih =>
    intro e x hx
    rw [unanchored] at hx
    split at hx
    · exact ⟨List.mem_cons_of_mem _ (ih hx).1, (ih hx).2⟩
    · rename_i hlight
      rcases List.mem_append.mp hx with hx | hx
      · split at hx
        · exact absurd hx List.not_mem_nil
        · rw [List.mem_singleton.mp hx]
          exact ⟨List.mem_cons_self, hlight⟩
      · exact ⟨List.mem_cons_of_mem _ (ih hx).1, (ih hx).2⟩

/-- A light sentence is a unit. -/
theorem mem_units_of_light {cfg : ChunkingConfig} {l : List Sentence} {x : Sentence} (hx : x ∈ l)
    (hlight : ¬ cfg.chunkSize < x.len) : x ∈ (packing cfg).units l := by
  refine List.mem_flatMap.mpr ⟨x, hx, ?_⟩
  have hlight' : ¬ (packing cfg).capacity < (packing cfg).weight x := hlight
  rw [if_neg hlight']
  exact List.mem_singleton.mpr rfl

/-- The group does not begin with an unanchored sentence. -/
def anchored (cfg : ChunkingConfig) (l g : List Sentence) : Bool :=
  g.head?.all fun h => h ∉ unanchored cfg (some 0) l

/-- A group is anchored where its first sentence is. -/
theorem anchored_cons {cfg : ChunkingConfig} {l t : List Sentence} {h : Sentence} :
    anchored cfg l (h :: t) = true ↔ h ∉ unanchored cfg (some 0) l := by
  simp [anchored]

/-! ## Offsets of the chunks -/

/-- The chunk starts where its first unit does. -/
def Chunk.StartsRight (c : Chunk) : Prop :=
  ∀ h ∈ c.parts.head?, c.startChar = h.offset

/-- The offsets of the chunks, when the sentences `l` have been read. -/
structure RangedChunks (cfg : ChunkingConfig) (l : List Sentence) (chunks : List Chunk) : Prop where
  ranges : ∀ c ∈ chunks, ∃ h t, c.parts = h :: t ∧ c.startChar ≤ h.offset ∧
    c.endChar = c.startChar + (packing cfg).total c.parts
  starts : (∀ c ∈ chunks, c.StartsRight) ↔ ∀ c ∈ chunks, anchored cfg l c.parts = true
  sorted : (chunks.map Chunk.startChar).Pairwise (· ≤ ·)

variable {cfg : ChunkingConfig} {l : List Sentence} {chunks : List Chunk}

/-- No chunks are ranged. -/
theorem rangedChunks_nil (cfg : ChunkingConfig) (l : List Sentence) : RangedChunks cfg l [] where
  ranges := fun _ hc => absurd hc List.not_mem_nil
  starts := ⟨fun _ _ hc => absurd hc List.not_mem_nil, fun _ _ hc => absurd hc List.not_mem_nil⟩
  sorted := List.Pairwise.nil

/-- One more chunk. -/
theorem RangedChunks.push (h : RangedChunks cfg l chunks) {c : Chunk} {hd : Sentence}
    {t : List Sentence} (hparts : c.parts = hd :: t) (hle : c.startChar ≤ hd.offset)
    (hend : c.endChar = c.startChar + (packing cfg).total c.parts)
    (hstart : (∀ c ∈ chunks, anchored cfg l c.parts = true) →
      (c.startChar = hd.offset ↔ anchored cfg l c.parts = true))
    (hsorted : ∀ c' ∈ chunks, c'.startChar ≤ c.startChar) :
    RangedChunks cfg l (chunks ++ [c]) where
  ranges := by
    intro c' hc'
    rcases List.mem_append.mp hc' with hc' | hc'
    · exact h.ranges c' hc'
    · rw [List.mem_singleton.mp hc']
      exact ⟨hd, t, hparts, hle, hend⟩
  starts := by
    have hright : c.StartsRight ↔ c.startChar = hd.offset := by
      simp [Chunk.StartsRight, hparts]
    simp only [List.forall_mem_append, List.forall_mem_singleton, h.starts, hright]
    exact and_congr_right hstart
  sorted := by
    rw [List.map_append, List.map_singleton]
    refine List.pairwise_append.mpr ⟨h.sorted, List.pairwise_singleton _ _, ?_⟩
    intro k hk k' hk'
    obtain ⟨c', hc', rfl⟩ := List.mem_map.mp hk
    rw [List.mem_singleton.mp hk']
    exact hsorted c' hc'

/-- A later sentence does not change which earlier ones lack an anchor. -/
theorem mem_unanchored_append {x y : Sentence} (hx : cfg.chunkSize < x.len ∨ y ≠ x) :
    y ∈ unanchored cfg (some 0) (l ++ [x]) ↔ y ∈ unanchored cfg (some 0) l := by
  rw [unanchored_append, List.mem_append]
  refine or_iff_left ?_
  split
  · exact List.not_mem_nil
  · rename_i hlight
    split
    · exact List.not_mem_nil
    · rw [List.mem_singleton]
      exact hx.resolve_left hlight

/-- A later sentence does not change which earlier groups are anchored. -/
theorem anchored_append {x : Sentence} {g : List Sentence} (hx : cfg.chunkSize < x.len ∨ x ∉ g) :
    anchored cfg (l ++ [x]) g = anchored cfg l g := by
  cases g with
  | nil => rfl
  | cons h t =>
    rw [Bool.eq_iff_iff, anchored_cons, anchored_cons, mem_unanchored_append]
    exact hx.imp_right fun hx heq => hx (by rw [heq]; exact List.mem_cons_self)

/-- One more sentence. -/
theorem RangedChunks.grow (h : RangedChunks cfg l chunks) {x : Sentence}
    (hx : cfg.chunkSize < x.len ∨ ∀ c ∈ chunks, x ∉ c.parts) :
    RangedChunks cfg (l ++ [x]) chunks where
  ranges := h.ranges
  starts := by
    rw [h.starts]
    exact forall₂_congr fun c hc => by rw [anchored_append (hx.imp_right fun hx => hx c hc)]
  sorted := h.sorted

/-- The offsets of the loop. -/
structure Ranged (cfg : ChunkingConfig) (l : List Sentence) (s : ChunkLoop) : Prop where
  chunks : RangedChunks cfg l s.chunks
  before : ∀ c ∈ s.chunks, c.startChar ≤ s.chunkStart
  reach : ∀ b, (∀ y ∈ l, y.stop ≤ b) → s.chunkStart ≤ b
  members : ∀ y ∈ s.currentChunkSentences, y ∈ l
  fresh : s.currentChunkSentences = [] → startsAt cfg (some 0) l = some s.chunkStart
  opened : ∀ h t, s.currentChunkSentences = h :: t → startsAt cfg (some 0) l = none ∧
    s.chunkStart ≤ h.offset ∧ (∀ y ∈ t, y ∉ unanchored cfg (some 0) l) ∧
      ((∀ c ∈ s.chunks, anchored cfg l c.parts = true) →
        (s.chunkStart = h.offset ↔ anchored cfg l (h :: t) = true))

/-- The loop's invariant holds before the first sentence. -/
theorem ranged_empty (cfg : ChunkingConfig) : Ranged cfg [] {} where
  chunks := rangedChunks_nil cfg []
  before := fun _ hc => absurd hc List.not_mem_nil
  reach := fun b _ => Nat.zero_le b
  members := fun _ hy => absurd hy List.not_mem_nil
  fresh := fun _ => rfl
  opened := fun _ _ h => by simp at h

variable {s : ChunkLoop}

/-- The chunk that is closed in the loop. -/
theorem Ranged.finalize (h : Ranged cfg l s)
    (hlen : s.currentLength = (packing cfg).total s.currentChunkSentences)
    (hcur : s.currentChunkSentences ≠ []) : RangedChunks cfg l s.finalize.chunks := by
  obtain ⟨hd, t, hht⟩ := List.exists_cons_of_ne_nil hcur
  obtain ⟨_, hle, _, hstart⟩ := h.opened hd t hht
  refine h.chunks.push hht hle (by rw [hlen]) ?_ h.before
  rw [hht]
  exact hstart

/-- No chunk starts behind the loop's own start. -/
theorem finalize_before (h : Ranged cfg l s) :
    ∀ c ∈ s.finalize.chunks, c.startChar ≤ s.chunkStart := by
  intro c hc
  rcases List.mem_append.mp hc with hc | hc
  · exact h.before c hc
  · obtain rfl := List.mem_singleton.mp hc
    exact Nat.le_refl _

/-- The pieces of a divided sentence are where they say. -/
theorem RangedChunks.pushPieces (ys : List Sentence) :
    ∀ {s : ChunkLoop}, RangedChunks cfg l s.chunks → (∀ y ∈ ys, y ∉ unanchored cfg (some 0) l) →
      ys.Pairwise (fun a b => a.stop ≤ b.offset) →
      (∀ c ∈ s.chunks, ∀ y ∈ ys, c.startChar ≤ y.offset) →
      RangedChunks cfg l (ys.foldl ChunkLoop.pushPiece s).chunks := by
  induction ys with
  | nil => exact fun h _ _ _ => h
  | cons y ys ih =>
    intro s h hpieces hordered hbefore
    obtain ⟨hfirst, hrest⟩ := List.pairwise_cons.mp hordered
    have hone : (packing cfg).total [y] = y.len := by
      rw [Packing.total_cons]
      rfl
    refine ih ?_ (fun z hz => hpieces z (List.mem_cons_of_mem _ hz)) hrest ?_
    · refine h.push (rfl : [y] = y :: []) (Nat.le_refl _) ?_ (fun _ => ?_)
        fun c hc => hbefore c hc y List.mem_cons_self
      · show y.stop = y.offset + (packing cfg).total [y]
        rw [hone]
        rfl
      · exact iff_of_true rfl (anchored_cons.mpr (hpieces y List.mem_cons_self))
    · intro c hc z hz
      rcases List.mem_append.mp hc with hc | hc
      · exact hbefore c hc z (List.mem_cons_of_mem _ hz)
      · rw [List.mem_singleton.mp hc]
        exact Nat.le_trans (Nat.le_add_right _ _) (hfirst z hz)

/-- Pushing pieces of one sentence starts no chunk behind it. -/
theorem foldl_pushPiece_before {b : ℕ} (ys : List Sentence) :
    ∀ {s : ChunkLoop}, (∀ c ∈ s.chunks, c.startChar ≤ b) → (∀ y ∈ ys, y.offset ≤ b) →
      ∀ c ∈ (ys.foldl ChunkLoop.pushPiece s).chunks, c.startChar ≤ b := by
  induction ys with
  | nil => exact fun h _ => h
  | cons y ys ih =>
    intro s h hys
    refine ih ?_ fun z hz => hys z (List.mem_cons_of_mem _ hz)
    intro c hc
    rcases List.mem_append.mp hc with hc | hc
    · exact h c hc
    · rw [List.mem_singleton.mp hc]
      exact hys y List.mem_cons_self

/-- Pushing the pieces of a long sentence leaves the open chunk alone. -/
theorem current_pushPieces (ys : List Sentence) :
    ∀ s : ChunkLoop, (ys.foldl ChunkLoop.pushPiece s).currentChunkSentences =
      s.currentChunkSentences := by
  induction ys with
  | nil => exact fun s => rfl
  | cons y ys ih => exact fun s => ih (s.pushPiece y)

/-- A sentence longer than a chunk is packed as its pieces. -/
theorem units_singleton_of_heavy {x : Sentence} (hx : cfg.chunkSize < x.len) :
    (packing cfg).units [x] = x.pieces cfg.chunkSize := by
  have hx' : (packing cfg).capacity < (packing cfg).weight x := hx
  rw [Packing.units, List.flatMap_singleton, if_pos hx']
  rfl

/-- Reading a sentence that is divided. -/
theorem Ranged.divide {a : Packed Sentence} (h : Ranged cfg l s) (hsim : Simulates cfg s a)
    {x : Sentence} (hx : cfg.chunkSize < x.len) (hbefore : ∀ y ∈ l, y.stop ≤ x.offset)
    (hnew : ∀ y ∈ x.pieces cfg.chunkSize, y ∉ (packing cfg).units l) :
    Ranged cfg (l ++ [x])
      { ((x.pieces cfg.chunkSize).foldl ChunkLoop.pushPiece
          (if s.currentChunkSentences = [] then s else s.restart cfg [] s.chunkStart)) with
        chunkStart := x.stop } := by
  have hstart : s.chunkStart ≤ x.offset := h.reach x.offset hbefore
  obtain ⟨s₀, hs₀⟩ : ∃ s₀, s₀ = if s.currentChunkSentences = [] then s
      else s.restart cfg [] s.chunkStart := ⟨_, rfl⟩
  have hclosed : RangedChunks cfg l s₀.chunks ∧ (∀ c ∈ s₀.chunks, c.startChar ≤ s.chunkStart) ∧
      s₀.currentChunkSentences = [] := by
    rw [hs₀]
    by_cases hcur : s.currentChunkSentences = []
    · rw [if_pos hcur]
      exact ⟨h.chunks, h.before, hcur⟩
    · rw [if_neg hcur]
      exact ⟨h.finalize hsim.length hcur, finalize_before h, rfl⟩
  obtain ⟨hranged, hle, hempty⟩ := hclosed
  have hcur : ((x.pieces cfg.chunkSize).foldl ChunkLoop.pushPiece s₀).currentChunkSentences = [] := by
    rw [current_pushPieces, hempty]
  have hpieces : ∀ y ∈ x.pieces cfg.chunkSize, x.offset ≤ y.offset ∧ y.offset ≤ x.stop := by
    intro y hy
    have hwithin := within_of_mem_pieces hy
    exact ⟨hwithin.start, Nat.le_trans (Nat.le_add_right _ _) hwithin.stop⟩
  rw [← hs₀]
  refine ⟨?_, ?_, ?_, ?_, ?_, ?_⟩
  · refine (hranged.pushPieces _ ?_ (place_ordered _ _) ?_).grow (Or.inl hx)
    · intro y hy hmem
      obtain ⟨hl, hlight⟩ := unanchored_subset hmem
      exact hnew y hy (mem_units_of_light hl hlight)
    · exact fun c hc y hy =>
        Nat.le_trans (hle c hc) (Nat.le_trans hstart (hpieces y hy).1)
  · refine foldl_pushPiece_before _ ?_ fun y hy => (hpieces y hy).2
    exact fun c hc => Nat.le_trans (hle c hc) (Nat.le_trans hstart (Nat.le_add_right _ _))
  · exact fun b hb => hb x (List.mem_append_right _ (List.mem_singleton.mpr rfl))
  · show ∀ y ∈ ((x.pieces cfg.chunkSize).foldl ChunkLoop.pushPiece s₀).currentChunkSentences, _
    rw [hcur]
    exact fun y hy => absurd hy List.not_mem_nil
  · intro _
    rw [startsAt_append, if_pos hx]
  · intro hd t hht
    rw [show _ = [] from hcur] at hht
    exact absurd hht (by simp)

/-- A sentence that goes behind others is anchored. -/
theorem unanchored_append_open {x : Sentence} (h : startsAt cfg (some 0) l = none) :
    unanchored cfg (some 0) (l ++ [x]) = unanchored cfg (some 0) l := by
  rw [unanchored_append, h]
  split
  · exact List.append_nil _
  · exact List.append_nil _

/-- Reading a sentence that no longer fits. -/
theorem Ranged.carryOver {a : Packed Sentence} (h : Ranged cfg l s) (hsim : Simulates cfg s a)
    {x : Sentence} (hx : ¬ cfg.chunkSize < x.len) (hcur : s.currentChunkSentences ≠ [])
    (hordered : (s.currentChunkSentences ++ [x]).Pairwise fun a b => a.offset ≤ b.offset)
    (hxl : x ∉ l) (hgrow : ∀ c ∈ s.finalize.chunks, x ∉ c.parts) {carried : List Sentence}
    (hcarried : carried <:+ s.currentChunkSentences) {s' : ChunkLoop}
    (hchunks : s'.chunks = s.finalize.chunks)
    (hcurrent : s'.currentChunkSentences = carried ++ [x])
    (hstart : s'.chunkStart = (carried.head?.map Sentence.offset).getD x.offset) :
    Ranged cfg (l ++ [x]) s' := by
  obtain ⟨h₀, t₀, hht⟩ := List.exists_cons_of_ne_nil hcur
  obtain ⟨hopen, hle, htail, _⟩ := h.opened h₀ t₀ hht
  have hun := unanchored_append_open (x := x) hopen
  have hxun : x ∉ unanchored cfg (some 0) l := fun hmem => hxl (unanchored_subset hmem).1
  -- the new group begins with one of the old one, or with the sentence
  obtain ⟨hd, t, hhd⟩ : ∃ hd t, carried ++ [x] = hd :: t :=
    List.exists_cons_of_ne_nil (by simp)
  have hoffset : s'.chunkStart = hd.offset := by
    rw [hstart]
    cases carried with
    | nil =>
      obtain ⟨rfl, _⟩ := List.cons.inj hhd
      rfl
    | cons y carried =>
      obtain ⟨rfl, _⟩ := List.cons.inj hhd
      rfl
  have hsuffix : hd :: t <:+ s.currentChunkSentences ++ [x] := by
    rw [← hhd]
    obtain ⟨b, hb⟩ := hcarried
    exact ⟨b, by rw [← hb, List.append_assoc]⟩
  have hmem : ∀ y ∈ hd :: t, y ∈ s.currentChunkSentences ++ [x] := fun y hy => hsuffix.subset hy
  have hfirst : h₀.offset ≤ hd.offset := by
    rw [hht, List.cons_append] at hordered
    have hhdmem := hmem hd List.mem_cons_self
    rw [hht, List.cons_append] at hhdmem
    rcases List.mem_cons.mp hhdmem with rfl | hmem'
    · exact Nat.le_refl _
    · exact (List.pairwise_cons.mp hordered).1 hd hmem'
  have hmembers : ∀ y ∈ hd :: t, y ∈ l ++ [x] := by
    intro y hy
    rcases List.mem_append.mp (hmem y hy) with hy | hy
    · exact List.mem_append_left _ (h.members y hy)
    · exact List.mem_append_right _ hy
  refine ⟨?_, ?_, ?_, ?_, ?_, ?_⟩
  · rw [hchunks]
    exact (h.finalize hsim.length hcur).grow (Or.inr hgrow)
  · rw [hchunks, hoffset]
    exact fun c hc => Nat.le_trans (finalize_before h c hc) (Nat.le_trans hle hfirst)
  · intro b hb
    rw [hoffset]
    exact Nat.le_trans (Nat.le_add_right _ _) (hb hd (hmembers hd List.mem_cons_self))
  · rw [hcurrent, hhd]
    exact hmembers
  · intro hnil
    rw [hcurrent] at hnil
    exact absurd hnil (by simp)
  · intro hd' t' heq
    rw [hcurrent, hhd] at heq
    obtain ⟨rfl, rfl⟩ := List.cons.inj heq
    rw [startsAt_append, if_neg hx, hoffset, hun, hchunks]
    have hrest : ∀ y ∈ t, y ∉ unanchored cfg (some 0) l := by
      intro y hy
      obtain ⟨b, hb⟩ := hsuffix
      have hy' : y ∈ t₀ ++ [x] := by
        rw [hht, List.cons_append] at hb
        cases b with
        | nil =>
          obtain ⟨_, rfl⟩ := List.cons.inj hb
          exact hy
        | cons _ b =>
          obtain ⟨_, hb⟩ := List.cons.inj hb
          rw [← hb]
          exact List.mem_append_right _ (List.mem_cons_of_mem _ hy)
      rcases List.mem_append.mp hy' with hy' | hy'
      · exact htail y hy'
      · rw [List.mem_singleton.mp hy']
        exact hxun
    refine ⟨rfl, Nat.le_refl _, hrest, fun hanchored => iff_of_true rfl ?_⟩
    rw [anchored_cons, hun]
    have hh₀ : h₀ ∉ unanchored cfg (some 0) l := by
      -- it began the chunk just closed
      have hlast := hanchored _ (List.mem_append_right _ (List.mem_singleton.mpr rfl))
      rw [anchored_append (Or.inr (hgrow _ (List.mem_append_right _ (List.mem_singleton.mpr rfl)))),
        show _ = h₀ :: t₀ from hht, anchored_cons] at hlast
      exact hlast
    rcases List.mem_append.mp (hmem hd List.mem_cons_self) with hmem' | hmem'
    · rw [hht] at hmem'
      rcases List.mem_cons.mp hmem' with rfl | hmem'
      · exact hh₀
      · exact htail hd hmem'
    · rw [List.mem_singleton.mp hmem']
      exact hxun

/-- Reading one sentence. -/
theorem Ranged.step {a : Packed Sentence} (h : Ranged cfg l s) (hsim : Simulates cfg s a)
    (hpacks : (packing cfg).Packs ((packing cfg).units l) a) {x : Sentence}
    (hne : ∀ y ∈ s.currentChunkSentences, y.text ≠ [])
    (hordered : (l ++ [x]).Pairwise fun a b => a.stop ≤ b.offset)
    (hunits : ((packing cfg).units l).Pairwise fun a b => a.stop ≤ b.offset)
    (hnodup : ((packing cfg).units (l ++ [x])).Nodup) {s' : ChunkLoop}
    (hs' : s.step cfg x = some s') : Ranged cfg (l ++ [x]) s' := by
  have hbefore : ∀ y ∈ l, y.stop ≤ x.offset := fun y hy =>
    (List.pairwise_append.mp hordered).2.2 y hy x (List.mem_singleton.mpr rfl)
  have hstart : s.chunkStart ≤ x.offset := h.reach x.offset hbefore
  rw [Packing.units_append] at hnodup
  have hnew : ∀ y ∈ (packing cfg).units [x], y ∉ (packing cfg).units l := fun y hy hl =>
    (List.nodup_append.mp hnodup).2.2 y hl y hy rfl
  have hclosed : ∀ c ∈ s.chunks, ∀ y ∈ c.parts, y ∈ (packing cfg).units l := by
    intro c hc y hy
    refine hpacks.closed_subset ?_ hy
    rw [← hsim.parts]
    exact List.mem_map_of_mem hc
  have hcurrent : ∀ y ∈ s.currentChunkSentences, y ∈ (packing cfg).units l := by
    rw [hsim.current]
    exact fun y hy => hpacks.current.subset hy
  -- a sentence longer than a chunk is divided
  by_cases hx : cfg.chunkSize < x.len
  · rw [step_heavy hsim.length hne hx] at hs'
    obtain rfl := Option.some.inj hs'
    rw [units_singleton_of_heavy hx] at hnew
    exact h.divide hsim hx hbefore hnew
  · have hxnew : x ∉ (packing cfg).units l := hnew x
      (mem_units_of_light (List.mem_singleton.mpr rfl) hx)
    have hxl : x ∉ l := fun hl => hxnew (mem_units_of_light hl hx)
    -- it does not fit: the open group is closed, and its end is carried over
    by_cases hfull : s.currentChunkSentences ≠ [] ∧
        cfg.chunkSize < (packing cfg).total s.currentChunkSentences + x.len
    · rw [step_full hsim.length hne hx hfull] at hs'
      obtain rfl := Option.some.inj hs'
      refine h.carryOver hsim hx hfull.1 ?_ hxl ?_ ((packing cfg).carry_suffix _) rfl rfl rfl
      · refine List.pairwise_append.mpr ⟨?_, List.pairwise_singleton _ _, ?_⟩
        · rw [hsim.current]
          refine (hunits.sublist hpacks.current.sublist).imp ?_
          exact fun hle => Nat.le_trans (Nat.le_add_right _ _) hle
        · intro y hy z hz
          rw [List.mem_singleton.mp hz]
          exact Nat.le_trans (Nat.le_add_right _ _) (hbefore y (h.members y hy))
      · intro c hc hxc
        rcases List.mem_append.mp hc with hc | hc
        · exact hxnew (hclosed c hc x hxc)
        · rw [List.mem_singleton.mp hc] at hxc
          exact hxnew (hcurrent x hxc)
    -- it fits: no chunk is closed, and a new start appears only where nothing was open
    · rw [step_fits hsim.length hne hx hfull] at hs'
      obtain rfl := Option.some.inj hs'
      have hgrown : RangedChunks cfg (l ++ [x]) s.chunks :=
        h.chunks.grow (Or.inr fun c hc hxc => hxnew (hclosed c hc x hxc))
      have hxun : x ∉ unanchored cfg (some 0) l := fun hmem => hxl (unanchored_subset hmem).1
      refine ⟨hgrown, h.before, fun b hb => h.reach b fun y hy => hb y (List.mem_append_left _ hy),
        ?_, ?_, ?_⟩
      · intro y hy
        rcases List.mem_append.mp hy with hy | hy
        · exact List.mem_append_left _ (h.members y hy)
        · exact List.mem_append_right _ hy
      · exact fun hnil => absurd hnil (by simp)
      · intro hd t heq
        have heq : s.currentChunkSentences ++ [x] = hd :: t := heq
        rw [startsAt_append, if_neg hx]
        refine ⟨rfl, ?_⟩
        cases hcur : s.currentChunkSentences with
        | nil =>
          rw [hcur] at heq
          obtain ⟨rfl, rfl⟩ := List.cons.inj heq
          refine ⟨hstart, fun y hy => absurd hy List.not_mem_nil, fun _ => ?_⟩
          -- the first sentence of a group is anchored, since the last chunk ended before it
          rw [anchored_cons, unanchored_append, if_neg hx, h.fresh hcur, List.mem_append, not_or]
          simp [hxun]
        | cons h₀ t₀ =>
          rw [hcur] at heq
          obtain ⟨rfl, rfl⟩ := List.cons.inj heq
          obtain ⟨hopen, hle, htail, hiff⟩ := h.opened h₀ t₀ hcur
          have hun := unanchored_append_open (x := x) hopen
          -- the first sentence of the group stays, and so does its anchor
          rw [anchored_cons, hun]
          refine ⟨hle, ?_, fun hanchored => ?_⟩
          · intro y hy
            rcases List.mem_append.mp hy with hy | hy
            · exact htail y hy
            · rw [List.mem_singleton.mp hy]
              exact hxun
          · rw [← anchored_cons (t := t₀)]
            refine hiff fun c hc => ?_
            rw [← anchored_append (x := x) (Or.inr fun hxc => hxnew (hclosed c hc x hxc))]
            exact hanchored c hc

/-- **The offsets of the loop**, behind any number of sentences. -/
theorem ranged_loop {text : List Char} (split : SentenceSplit text) (cfg : ChunkingConfig)
    {l b : List Sentence} (hl : split.sentences = l ++ b) :
    ∃ s, l.foldlM (ChunkLoop.step cfg) {} = some s ∧ Ranged cfg l s ∧
      Simulates cfg s ((packing cfg).run l) := by
  induction l using List.reverseRecOn generalizing b with
  | nil => exact ⟨_, rfl, ranged_empty cfg, simulates_empty cfg⟩
  | append_singleton l x ih =>
    have hl' : split.sentences = l ++ (x :: b) := by rw [hl, List.append_assoc]; rfl
    obtain ⟨s, hs, hranged, hsim⟩ := ih hl'
    have hordered := split.ordered
    have hnodup := split.units_nodup cfg
    have hunits := split.units_ordered cfg
    rw [hl] at hordered
    rw [hl, Packing.units_append] at hnodup hunits
    have hnodup := (List.nodup_append.mp hnodup).1
    have hunits := (List.pairwise_append.mp hunits).1
    rw [Packing.units_append] at hunits
    have hpacks := (Packing.packs_run (p := packing cfg) (l := l)
      (by rw [Packing.units_append] at hnodup; exact (List.nodup_append.mp hnodup).1)).1
    have hne : ∀ y ∈ s.currentChunkSentences, y.text ≠ [] := fun y hy =>
      split.nonempty y (by rw [hl']; exact List.mem_append_left _ (hranged.members y hy))
    obtain ⟨s', hs', hsim'⟩ := hsim.step hne x
    refine ⟨s', ?_, ?_, ?_⟩
    · rw [foldlM_append_singleton, hs]
      exact hs'
    · exact hranged.step hsim hpacks hne (List.pairwise_append.mp hordered).1
        (List.pairwise_append.mp hunits).1 hnodup hs'
    · rw [Packing.run_append_singleton]
      exact hsim'

/-! ## Exact ranges -/

/-- The chunk ends where its last unit does. -/
def Chunk.EndsRight (c : Chunk) : Prop :=
  ∀ z ∈ c.parts.getLast?, c.endChar = z.stop

/-- The unit stands in the range of the chunk. -/
def Chunk.covers (c : Chunk) (u : Sentence) : Bool :=
  c.startChar ≤ u.offset && u.stop ≤ c.endChar

/-- The ranges of the chunks are those of their units. -/
structure RangesExact (text : List Char) (units : List Sentence) (chunks : List Chunk) : Prop where
  nonempty : ∀ c ∈ chunks, c.parts ≠ []
  starts : ∀ c ∈ chunks, c.StartsRight
  ends : ∀ c ∈ chunks, c.EndsRight
  inside : ∀ c ∈ chunks, c.parts = units.filter c.covers
  bounds : ∀ c ∈ chunks, c.startChar ≤ c.endChar ∧ c.endChar ≤ byteLen text ∧
    isCharBoundary text c.startChar = true ∧ isCharBoundary text c.endChar = true
  sorted : (chunks.map Chunk.startChar).Pairwise (· ≤ ·)

/-- What `chunk_text` cuts a text into: the sentences and pieces, or nothing at all. -/
def textUnits (cfg : ChunkingConfig) (text : List Char) (sentences : List Sentence) : List Sentence :=
  if byteLen text ≤ cfg.chunkSize ∨ sentences = [] then [⟨text, 0⟩]
  else (packing cfg).units sentences

/-- Every sentence begins where the one before it ends. -/
def gapless : List Sentence → Bool
  | a :: b :: l => a.stop = b.offset && gapless (b :: l)
  | _ => true

/-- No sentence the tail got from the group stands behind the group's added-up length. -/
def tailApart (cfg : ChunkingConfig) (g tail : List Sentence) : Bool :=
  g.head?.all fun h => tail.all fun x =>
    x ∉ g || x.offset < h.offset + (packing cfg).total g

/-- The condition on the sentences: every group that is closed begins where it is counted from and
has no gap; the last group only has to begin there, if it makes a chunk, and if it is merged it
has to stand apart from the group it goes to. -/
def countsRight (cfg : ChunkingConfig) (sentences : List Sentence) : Bool :=
  let a := (packing cfg).run sentences
  let closesRight := fun g => anchored cfg sentences g && gapless g
  if a.current = [] then a.closed.all closesRight
  else if cfg.minChunkSize ≤ (packing cfg).total a.current ∨ a.closed = [] then
    a.closed.all closesRight && anchored cfg sentences a.current
  else a.closed.dropLast.all closesRight &&
    a.closed.getLast?.all fun g => anchored cfg sentences g && tailApart cfg g a.current

/-- A text that is not cut has nothing to count. -/
def rangesCount (cfg : ChunkingConfig) (text : List Char) (sentences : List Sentence) : Bool :=
  decide (byteLen text ≤ cfg.chunkSize ∨ sentences = []) || countsRight cfg sentences

/-- Lengths add up to at most the end, and to the end exactly without gaps. -/
theorem offset_add_total (cfg : ChunkingConfig) (t : List Sentence) :
    ∀ h z, (h :: t).Pairwise (fun a b => a.stop ≤ b.offset) → (h :: t).getLast? = some z →
      h.offset + (packing cfg).total (h :: t) ≤ z.stop ∧
        (h.offset + (packing cfg).total (h :: t) = z.stop ↔ gapless (h :: t) = true) := by
  induction t with
  | nil =>
    intro h z _ hz
    obtain rfl := Option.some.inj hz
    have htotal : (packing cfg).total [h] = h.len := by
      rw [Packing.total_cons]
      rfl
    rw [htotal]
    exact ⟨Nat.le_refl _, iff_of_true rfl rfl⟩
  | cons b l ih =>
    intro h z hordered hz
    obtain ⟨hfirst, hrest⟩ := List.pairwise_cons.mp hordered
    obtain ⟨hle, hiff⟩ := ih b z hrest (by rw [← hz, List.getLast?_cons_cons])
    have hb := hfirst b List.mem_cons_self
    have htotal : (packing cfg).total (h :: b :: l) = h.len + (packing cfg).total (b :: l) :=
      Packing.total_cons _ _ _
    have hstop : h.stop = h.offset + h.len := rfl
    rw [htotal, gapless, Bool.and_eq_true, decide_eq_true_eq, ← hiff]
    omega

/-- In an ordered group nothing ends behind the last sentence. -/
theorem stop_le_last {g : List Sentence} (hordered : g.Pairwise fun a b => a.stop ≤ b.offset)
    {z : Sentence} (hz : g.getLast? = some z) {x : Sentence} (hx : x ∈ g) : x.stop ≤ z.stop := by
  obtain ⟨a, rfl⟩ := List.getLast?_eq_some_iff.mp hz
  rcases List.mem_append.mp hx with hx | hx
  · have hle := (List.pairwise_append.mp hordered).2.2 x hx z (List.mem_singleton.mpr rfl)
    exact Nat.le_trans hle (Nat.le_add_right _ _)
  · obtain rfl := List.mem_singleton.mp hx
    exact Nat.le_refl _

/-- **A chunk whose ends are right** holds exactly the units in its range. -/
theorem filter_covers {u : List Sentence} (hordered : u.Pairwise fun a b => a.stop ≤ b.offset)
    (hnonempty : ∀ x ∈ u, x.text ≠ []) {c : Chunk} {g : List Sentence} (hg : g <:+: u)
    (hne : g ≠ []) (hstart : ∀ h ∈ g.head?, c.startChar = h.offset)
    (hend : ∀ z ∈ g.getLast?, c.endChar = z.stop) : u.filter c.covers = g := by
  obtain ⟨a, b, rfl⟩ := hg
  obtain ⟨h, t, rfl⟩ := List.exists_cons_of_ne_nil hne
  obtain ⟨z, hz⟩ : ∃ z, (h :: t).getLast? = some z :=
    Option.isSome_iff_exists.mp (List.getLast?_isSome.mpr hne)
  have hzmem : z ∈ h :: t := List.mem_of_getLast? hz
  have hstart := hstart h rfl
  have hend := hend z hz
  obtain ⟨hleft, _, hright⟩ := List.pairwise_append.mp hordered
  obtain ⟨_, hmid, hbefore⟩ := List.pairwise_append.mp hleft
  have hlen : ∀ x ∈ a ++ h :: t ++ b, x.offset < x.stop := fun x hx =>
    lt_of_ordered (b := ⟨[], x.stop⟩) (hnonempty x hx) (Nat.le_refl _)
  have ha : a.filter c.covers = [] := by
    refine List.filter_eq_nil_iff.mpr fun x hx => ?_
    have hxh := hbefore x hx h List.mem_cons_self
    have hlt := hlen x (List.mem_append_left _ (List.mem_append_left _ hx))
    simp only [Chunk.covers, Bool.and_eq_true, decide_eq_true_eq]
    omega
  have hb : b.filter c.covers = [] := by
    refine List.filter_eq_nil_iff.mpr fun x hx => ?_
    have hzx := hright z (List.mem_append_right _ hzmem) x hx
    have hlt := hlen x (List.mem_append_right _ hx)
    simp only [Chunk.covers, Bool.and_eq_true, decide_eq_true_eq]
    omega
  have hg : (h :: t).filter c.covers = h :: t := by
    refine List.filter_eq_self.mpr fun x hx => ?_
    have hhx : h.offset ≤ x.offset := by
      rcases List.mem_cons.mp hx with rfl | hx
      · exact Nat.le_refl _
      · exact Nat.le_trans (Nat.le_add_right _ _) ((List.pairwise_cons.mp hmid).1 x hx)
    have hxz : x.stop ≤ z.stop := stop_le_last hmid hz hx
    simp only [Chunk.covers, Bool.and_eq_true, decide_eq_true_eq]
    omega
  rw [List.filter_append, List.filter_append, ha, hb, hg, List.nil_append, List.append_nil]

/-- The range of the chunk is the one of its units. -/
structure Chunk.Exact (u : List Sentence) (c : Chunk) : Prop where
  nonempty : c.parts ≠ []
  starts : c.StartsRight
  ends : c.EndsRight
  inside : c.parts = u.filter c.covers

/-- A chunk of consecutive units spans exactly its sentences. -/
theorem exact_iff_of_isInfix {u : List Sentence} (hordered : u.Pairwise fun a b => a.stop ≤ b.offset)
    (hnonempty : ∀ x ∈ u, x.text ≠ []) {c : Chunk} (hg : c.parts <:+: u) (hne : c.parts ≠ []) :
    c.Exact u ↔ c.StartsRight ∧ c.EndsRight :=
  ⟨fun h => ⟨h.starts, h.ends⟩, fun ⟨hs, he⟩ =>
    ⟨hne, hs, he, (filter_covers hordered hnonempty hg hne hs he).symm⟩⟩

/-- Bounds follow. -/
theorem rangesExact_iff {text : List Char} {u : List Sentence}
    (hordered : u.Pairwise fun a b => a.stop ≤ b.offset) (hoccurs : ∀ x ∈ u, x.OccursIn text)
    (hsorted : (chunks.map Chunk.startChar).Pairwise (· ≤ ·)) :
    RangesExact text u chunks ↔ ∀ c ∈ chunks, c.Exact u := by
  refine ⟨fun h c hc => ⟨h.nonempty c hc, h.starts c hc, h.ends c hc, h.inside c hc⟩, fun h =>
    ⟨fun c hc => (h c hc).nonempty, fun c hc => (h c hc).starts, fun c hc => (h c hc).ends,
      fun c hc => (h c hc).inside, fun c hc => ?_, hsorted⟩⟩
  obtain ⟨hd, t, hht⟩ := List.exists_cons_of_ne_nil (h c hc).nonempty
  obtain ⟨z, hz⟩ : ∃ z, c.parts.getLast? = some z :=
    Option.isSome_iff_exists.mp (List.getLast?_isSome.mpr (h c hc).nonempty)
  have hstart := (h c hc).starts hd (by rw [hht]; rfl)
  have hend := (h c hc).ends z hz
  have hhd : hd ∈ c.parts := by
    rw [hht]
    exact List.mem_cons_self
  have hsub : c.parts.Sublist u := by
    rw [(h c hc).inside]
    exact List.filter_sublist
  have hle := stop_le_last (hordered.sublist hsub) hz hhd
  obtain ⟨a, b, htext, ha⟩ := hoccurs hd (hsub.subset hhd)
  obtain ⟨a', b', htext', ha'⟩ := hoccurs z (hsub.subset (List.mem_of_getLast? hz))
  have hzstop : z.stop = byteLen (a' ++ z.text) := by
    rw [byteLen_append, ha']
    rfl
  rw [hstart, hend]
  refine ⟨Nat.le_trans (Nat.le_add_right _ _) hle, ?_, ?_, ?_⟩
  · rw [hzstop, htext', byteLen_append, byteLen_append, byteLen_append]
    omega
  · exact isCharBoundary_iff.mpr ⟨a, hd.text ++ b, htext, ha⟩
  · exact isCharBoundary_iff.mpr ⟨a' ++ z.text, b', by rw [htext', List.append_assoc], hzstop.symm⟩

/-- A chunk of the loop that starts right ends right exactly without gaps. -/
theorem endsRight_iff {c : Chunk} {h : Sentence} {t : List Sentence} (hparts : c.parts = h :: t)
    (hordered : c.parts.Pairwise fun a b => a.stop ≤ b.offset)
    (hend : c.endChar = c.startChar + (packing cfg).total c.parts) (hstart : c.StartsRight) :
    c.EndsRight ↔ gapless c.parts = true := by
  obtain ⟨z, hz⟩ : ∃ z, c.parts.getLast? = some z := by
    rw [hparts]
    exact Option.isSome_iff_exists.mp (List.getLast?_isSome.mpr (List.cons_ne_nil _ _))
  have hstart := hstart h (by rw [hparts]; rfl)
  have hright : c.EndsRight ↔ c.endChar = z.stop := by
    rw [Chunk.EndsRight, hz]
    exact ⟨fun hall => hall z rfl, fun heq z' hz' => by rw [← Option.some.inj hz']; exact heq⟩
  rw [hright, hend, hstart, hparts]
  rw [hparts] at hordered hz
  exact (offset_add_total cfg t h z hordered hz).2

/-! ## The last group -/

/-- The sentences the tail brings to the last chunk: some it already had, and the new ones. -/
theorem mergeTail_parts (cfg : ChunkingConfig) {u g carried new : List Sentence} {last : Chunk} {h : Sentence}
    {t : List Sentence} (hordered : u.Pairwise fun a b => a.stop ≤ b.offset)
    (hht : g = h :: t) (hle : last.startChar ≤ h.offset)
    (hend : last.endChar = last.startChar + (packing cfg).total g) (hsuffix : g ++ new <:+ u) :
    (carried ++ new).filter (fun s => last.endChar ≤ s.offset) =
      carried.filter (fun s => last.endChar ≤ s.offset) ++ new := by
  obtain ⟨z, hz⟩ : ∃ z, g.getLast? = some z := by
    rw [hht]
    exact Option.isSome_iff_exists.mp (List.getLast?_isSome.mpr (List.cons_ne_nil _ _))
  have hgnew := hordered.sublist hsuffix.sublist
  obtain ⟨hg, _, hbefore⟩ := List.pairwise_append.mp hgnew
  have htotal : last.endChar ≤ z.stop := by
    rw [hht] at hg hz hend
    have := (offset_add_total cfg t h z hg hz).1
    omega
  rw [List.filter_append]
  congr 1
  refine List.filter_eq_self.mpr fun y hy => decide_eq_true ?_
  exact Nat.le_trans htotal (hbefore z (List.mem_of_getLast? hz) y hy)

/-- **The merged chunk** is exact where it starts right and gets no sentence again. -/
theorem exact_mergeTail_iff (cfg : ChunkingConfig) {u g carried new : List Sentence} {last : Chunk} {h : Sentence}
    {t : List Sentence} (hordered : u.Pairwise fun a b => a.stop ≤ b.offset)
    (hnonempty : ∀ x ∈ u, x.text ≠ []) (hparts : last.parts = g) (hht : g = h :: t)
    (hle : last.startChar ≤ h.offset)
    (hend : last.endChar = last.startChar + (packing cfg).total g) (hsuffix : g ++ new <:+ u)
    (hcarried : carried <:+ g) (hnew : new ≠ []) :
    (mergeTail last (carried ++ new)).Exact u ↔
      last.StartsRight ∧ tailApart cfg g (carried ++ new) = true := by
  have hmerged : (mergeTail last (carried ++ new)).parts =
      g ++ (carried.filter (fun s => last.endChar ≤ s.offset) ++ new) := by
    show last.parts ++ _ = _
    rw [mergeTail_parts cfg hordered hht hle hend hsuffix, hparts]
  obtain ⟨z, hz⟩ : ∃ z, new.getLast? = some z :=
    Option.isSome_iff_exists.mp (List.getLast?_isSome.mpr hnew)
  have hgnew := hordered.sublist hsuffix.sublist
  have hlastz : ∀ l : List Sentence, (l ++ new).getLast? = some z := fun l => by
    rw [List.getLast?_append, hz, Option.some_or]
  -- the merged chunk ends with the last unit of the tail, whose end lies behind the computed one
  have hendz : (mergeTail last (carried ++ new)).endChar = z.stop := by
    show max last.endChar ((((carried ++ new).filter _).getLast?.map Sentence.stop).getD _) = _
    rw [mergeTail_parts cfg hordered hht hle hend hsuffix, hlastz]
    have hz' : (h :: t ++ new).getLast? = some z := hlastz _
    rw [hht] at hgnew hend
    have htotal := (offset_add_total cfg (t ++ new) h z hgnew hz').1
    have hsplit : (packing cfg).total (h :: (t ++ new)) =
        (packing cfg).total (h :: t) + (packing cfg).total new :=
      (packing cfg).total_append (h :: t) new
    exact Nat.max_eq_right (by show last.endChar ≤ z.stop; omega)
  have hstarts : (mergeTail last (carried ++ new)).StartsRight ↔ last.StartsRight := by
    unfold Chunk.StartsRight
    rw [hmerged, hparts, hht]
    rfl
  -- so it ends right always
  have hends : (mergeTail last (carried ++ new)).EndsRight := by
    intro z' hz'
    rw [hmerged, ← List.append_assoc, hlastz] at hz'
    rw [hendz, Option.some.inj hz']
  have hne : (mergeTail last (carried ++ new)).parts ≠ [] := by
    rw [hmerged, hht]
    exact List.cons_ne_nil _ _
  -- where it starts right it spans the last group and the new units, nothing else
  have hcover : last.StartsRight → u.filter (mergeTail last (carried ++ new)).covers = g ++ new := by
    intro hright
    refine filter_covers hordered hnonempty hsuffix.isInfix (by simp [hnew]) ?_ ?_
    · rw [hht]
      exact fun h' hh' => (hstarts.mpr hright) h' (by rw [hmerged, hht]; exact hh')
    · intro z' hz'
      rw [hlastz] at hz'
      rw [hendz, Option.some.inj hz']
  -- and the tail repeats nothing exactly where no carried unit is behind the computed end
  have hapart : last.StartsRight →
      (tailApart cfg g (carried ++ new) = true ↔
        carried.filter (fun s => last.endChar ≤ s.offset) = []) := by
    intro hright
    have hstart : last.startChar = h.offset := hright h (by rw [hparts, hht]; rfl)
    have hnotin : ∀ y ∈ new, y ∉ g := fun y hy hyg => by
      have hlt := lt_of_ordered (hnonempty y (hsuffix.subset (List.mem_append_left _ hyg)))
        ((List.pairwise_append.mp hgnew).2.2 y hyg y hy)
      exact Nat.lt_irrefl _ hlt
    have hhead : g.head? = some h := by rw [hht]; rfl
    rw [List.filter_eq_nil_iff, tailApart, hhead, Option.all_some, List.all_eq_true,
      List.forall_mem_append]
    refine (and_iff_left fun y hy => ?_).trans (forall₂_congr fun x hx => ?_)
    · simp [hnotin y hy]
    · have hxg : x ∈ g := hcarried.subset hx
      simp only [hxg, not_true_eq_false, decide_false, Bool.false_or, decide_eq_true_eq, hend,
        hstart, Nat.not_le]
  constructor
  · intro hexact
    have hright := hstarts.mp hexact.starts
    refine ⟨hright, (hapart hright).mpr ?_⟩
    have hinside := hexact.inside
    rw [hcover hright, hmerged] at hinside
    exact List.append_left_eq_self.mp (List.append_cancel_left hinside)
  · rintro ⟨hright, htail⟩
    refine ⟨hne, hstarts.mpr hright, hends, ?_⟩
    rw [hcover hright, hmerged, (hapart hright).mp htail, List.nil_append]

/-- Merging no tail changes nothing. -/
theorem mergeTail_nil (last : Chunk) : mergeTail last [] = last := by
  unfold mergeTail
  simp [joinTexts]

/-- The chunk of the last group. -/
def ChunkLoop.lastChunk (s : ChunkLoop) : Chunk where
  text := joinTexts s.currentChunkSentences
  startChar := s.chunkStart
  endChar := (s.currentChunkSentences.getLast?.map Sentence.stop).getD
    (s.chunkStart + s.currentLength)
  chunkIndex := s.chunkIndex
  parts := s.currentChunkSentences

/-- What becomes of the last group. -/
inductive ChunkLoop.Finished (cfg : ChunkingConfig) (s : ChunkLoop) : List Chunk → Prop
  | nothing (hcur : s.currentChunkSentences = []) : s.Finished cfg s.chunks
  | chunk (hcur : s.currentChunkSentences ≠ [])
      (hown : cfg.minChunkSize ≤ s.currentLength ∨ s.chunks = []) :
      s.Finished cfg (s.chunks ++ [s.lastChunk])
  | merged (hcur : s.currentChunkSentences ≠ [])
      (hown : ¬ (cfg.minChunkSize ≤ s.currentLength ∨ s.chunks = [])) (init : List Chunk)
      (last : Chunk) (hchunks : s.chunks = init ++ [last]) :
      s.Finished cfg (init ++ [mergeTail last s.currentChunkSentences])

/-- The chunks and the open group at the end of the loop. -/
theorem finished (hlen : s.currentLength = (packing cfg).total s.currentChunkSentences)
    (hne : ∀ x ∈ s.currentChunkSentences, x.text ≠ []) : s.Finished cfg (s.finish cfg) := by
  have hpos := currentLength_pos hlen hne
  by_cases hcur : s.currentChunkSentences = []
  · have hfinish : s.finish cfg = s.chunks := by
      unfold ChunkLoop.finish
      rw [if_neg fun h => absurd hcur (hpos.mp h.1), hcur]
      rcases List.eq_nil_or_concat s.chunks with hnil | ⟨init, last, hlast⟩
      · rw [hnil]
        rfl
      · rw [hlast, List.concat_eq_append]
        simp [mergeTail_nil]
    rw [hfinish]
    exact .nothing hcur
  · by_cases hown : cfg.minChunkSize ≤ s.currentLength ∨ s.chunks = []
    · have hfinish : s.finish cfg = s.chunks ++ [s.lastChunk] := by
        unfold ChunkLoop.finish
        rw [if_pos ⟨hpos.mpr hcur, hown⟩]
        rfl
      rw [hfinish]
      exact .chunk hcur hown
    · obtain hnil | ⟨init, last, hlast⟩ := List.eq_nil_or_concat s.chunks
      · exact absurd (Or.inr hnil) hown
      rw [List.concat_eq_append] at hlast
      have hfinish : s.finish cfg = init ++ [mergeTail last s.currentChunkSentences] := by
        unfold ChunkLoop.finish
        rw [if_neg fun h => hown h.2, hlast]
        simp
      rw [hfinish]
      exact .merged hcur hown init last hlast

/-- **Starts never decrease.** -/
theorem Ranged.sorted (h : Ranged cfg l s) {chunks : List Chunk} (hf : s.Finished cfg chunks) :
    (chunks.map Chunk.startChar).Pairwise (· ≤ ·) := by
  cases hf with
  | nothing => exact h.chunks.sorted
  | chunk =>
    rw [List.map_append, List.map_singleton]
    refine List.pairwise_append.mpr ⟨h.chunks.sorted, List.pairwise_singleton _ _, ?_⟩
    intro k hk k' hk'
    obtain ⟨c, hc, rfl⟩ := List.mem_map.mp hk
    rw [List.mem_singleton.mp hk']
    exact h.before c hc
  | merged _ _ init last hchunks =>
    have hsorted := h.chunks.sorted
    rw [hchunks, List.map_append] at hsorted
    rw [List.map_append]
    exact hsorted

/-- The chunks closed in the loop are exact where they start right and have no gap. -/
theorem exact_closed_iff {u : List Sentence} (hordered : u.Pairwise fun a b => a.stop ≤ b.offset)
    (hnonempty : ∀ x ∈ u, x.text ≠ []) (hranged : RangedChunks cfg l s.chunks)
    (hparts : ∀ c ∈ s.chunks, c.parts <:+: u) {chunks : List Chunk} (hsub : chunks ⊆ s.chunks) :
    (∀ c ∈ chunks, c.Exact u) ↔
      (∀ c ∈ chunks, c.StartsRight) ∧ ∀ c ∈ chunks, gapless c.parts = true := by
  have hone : ∀ c ∈ chunks, (c.Exact u ↔ c.StartsRight ∧ gapless c.parts = true) := by
    intro c hc
    obtain ⟨h, t, hht, _, hend⟩ := hranged.ranges c (hsub hc)
    have hinfix := hparts c (hsub hc)
    rw [exact_iff_of_isInfix hordered hnonempty hinfix (by rw [hht]; exact List.cons_ne_nil _ _)]
    exact and_congr_right fun hright =>
      endsRight_iff hht (hordered.sublist hinfix.sublist) hend hright
  rw [forall₂_congr hone]
  exact forall₂_and

/-- **The condition** is exact for the chunks of the loop. -/
theorem rangesExact_loop_iff {text : List Char} (split : SentenceSplit text)
    (hranged : Ranged cfg split.sentences s)
    (hsim : Simulates cfg s ((packing cfg).run split.sentences)) {chunks : List Chunk}
    (hf : s.Finished cfg chunks) :
    RangesExact text ((packing cfg).units split.sentences) chunks ↔
      countsRight cfg split.sentences = true := by
  have hordered := split.units_ordered cfg
  have hnodup := split.units_nodup cfg
  have hwithin : ∀ x ∈ (packing cfg).units split.sentences, x.text ≠ [] ∧ x.OccursIn text := by
    intro x hx
    obtain ⟨y, hy, hxy⟩ := split.within_units cfg hx
    exact ⟨hxy.nonempty, hxy.occurs text (split.occurs y hy)⟩
  have hnonempty := fun x hx => (hwithin x hx).1
  have hpacks := (Packing.packs_run hnodup).1
  have hparts : ∀ c ∈ s.chunks, c.parts <:+: (packing cfg).units split.sentences := by
    intro c hc
    refine (hpacks.closed c.parts ?_).2
    rw [← hsim.parts]
    exact List.mem_map_of_mem hc
  -- chunks closed by the loop itself are exact where they start right and have no gap
  have hclosed : ∀ {l : List Chunk}, l ⊆ s.chunks →
      ((∀ c ∈ l, c.Exact ((packing cfg).units split.sentences)) ↔
        (∀ c ∈ l, c.StartsRight) ∧ ∀ c ∈ l, gapless c.parts = true) :=
    fun hsub => exact_closed_iff hordered hnonempty hranged.chunks hparts hsub
  have hstarts := hranged.chunks.starts
  rw [rangesExact_iff hordered (fun x hx => (hwithin x hx).2) (hranged.sorted hf)]
  unfold countsRight
  dsimp only
  rw [← hsim.parts, ← hsim.current, ← hsim.length]
  cases hf with
  -- nothing is open at the end
  | nothing hcur =>
    rw [if_pos hcur, hclosed (List.Subset.refl _), hstarts, ← forall₂_and]
    simp [List.all_eq_true]
  -- what is open becomes the last chunk, whose start the loop kept
  | chunk hcur hown =>
    obtain ⟨h, t, hht⟩ := List.exists_cons_of_ne_nil hcur
    obtain ⟨_, _, _, hstart⟩ := hranged.opened h t hht
    have hlast : s.lastChunk.Exact ((packing cfg).units split.sentences) ↔
        s.lastChunk.startChar = h.offset := by
      have hinfix : s.lastChunk.parts <:+: (packing cfg).units split.sentences := by
        show s.currentChunkSentences <:+: _
        rw [hsim.current]
        exact hpacks.current.isInfix
      have hends : s.lastChunk.EndsRight := by
        intro z hz
        show ((s.currentChunkSentences.getLast?.map _).getD _) = _
        rw [show s.currentChunkSentences.getLast? = some z from hz]
        rfl
      rw [exact_iff_of_isInfix hordered hnonempty hinfix hcur]
      refine (and_iff_left hends).trans ?_
      show (∀ h' ∈ s.currentChunkSentences.head?, _) ↔ _
      simp [hht]
    rw [if_neg hcur, if_pos (hown.imp_right List.map_eq_nil_iff.mpr), List.forall_mem_append, List.forall_mem_singleton, hlast,
      hclosed (List.Subset.refl _), hstarts, ← forall₂_and, Bool.and_eq_true, hht]
    have hall : (s.chunks.map Chunk.parts).all
        (fun g => anchored cfg split.sentences g && gapless g) = true ↔
        ∀ c ∈ s.chunks, anchored cfg split.sentences c.parts = true ∧ gapless c.parts = true := by
      simp [List.all_eq_true]
    rw [hall]
    exact and_congr_right fun hanchored => hstart fun c hc => (hanchored c hc).1
  -- a short tail is merged into the last closed chunk
  | merged hcur hown init last hchunks =>
    have hlastmem : last ∈ s.chunks := by
      rw [hchunks]
      exact List.mem_append_right _ (List.mem_singleton.mpr rfl)
    have hinit : init ⊆ s.chunks := by
      rw [hchunks]
      exact List.subset_append_left _ _
    obtain ⟨h, t, hht, hle, hend⟩ := hranged.chunks.ranges last hlastmem
    obtain ⟨carried, new, hcurrent, hcarried, hsuffix⟩ := hpacks.last (init.map Chunk.parts)
      last.parts (by rw [← hsim.parts, hchunks, List.map_append, List.map_singleton])
    rw [← hsim.current] at hcurrent
    -- a tail holds at least one unit that no chunk has had
    have hnew : new ≠ [] := by
      rintro rfl
      obtain ⟨x, hx, hxnew⟩ := Packing.current_new hnodup (by rw [← hsim.current]; exact hcur)
      rw [← hsim.current, hcurrent, List.append_nil] at hx
      refine hxnew last.parts ?_ (hcarried.subset hx)
      rw [← hsim.parts]
      exact List.mem_map_of_mem hlastmem
    have hmerge := exact_mergeTail_iff cfg hordered hnonempty rfl hht hle hend hsuffix
      hcarried hnew
    rw [← hcurrent] at hmerge
    have hall : (init.map Chunk.parts).all
        (fun g => anchored cfg split.sentences g && gapless g) = true ↔
        (∀ c ∈ init, anchored cfg split.sentences c.parts = true) ∧
          ∀ c ∈ init, gapless c.parts = true := by
      simp [List.all_eq_true, forall₂_and]
    rw [hchunks, List.forall_mem_append, List.forall_mem_append, List.forall_mem_singleton,
      List.forall_mem_singleton] at hstarts
    rw [if_neg hcur, if_neg fun h => hown (h.imp_right List.map_eq_nil_iff.mp), List.forall_mem_append, List.forall_mem_singleton,
      hclosed hinit, hmerge, hchunks, List.map_append, List.map_singleton, List.dropLast_concat,
      List.getLast?_concat, Option.all_some, Bool.and_eq_true, Bool.and_eq_true, hall]
    -- the starts of all chunks are told together, those of the last one apart
    constructor
    · rintro ⟨⟨hs, hg⟩, hsl, htail⟩
      obtain ⟨hs', hsl'⟩ := hstarts.mp ⟨hs, hsl⟩
      exact ⟨⟨hs', hg⟩, hsl', htail⟩
    · rintro ⟨⟨hs', hg⟩, hsl', htail⟩
      obtain ⟨hs, hsl⟩ := hstarts.mpr ⟨hs', hsl'⟩
      exact ⟨⟨hs, hg⟩, hsl, htail⟩

/-- The whole text as one chunk has the exact range. -/
theorem rangesExact_wholeText (text : List Char) : RangesExact text [⟨text, 0⟩] [wholeText text] := by
  have hcovers : (wholeText text).covers ⟨text, 0⟩ = true := by
    simp [Chunk.covers, wholeText, Sentence.stop, Sentence.len]
  refine ⟨?_, ?_, ?_, ?_, ?_, List.pairwise_singleton _ _⟩ <;>
    refine List.forall_mem_singleton.mpr ?_
  · exact List.cons_ne_nil _ _
  · exact fun h hh => by rw [← Option.some.inj hh]; rfl
  · exact fun z hz => by rw [← Option.some.inj hz]; exact (Nat.zero_add _).symm
  · rw [List.filter_cons, if_pos hcovers]
    rfl
  · exact ⟨Nat.zero_le _, Nat.le_refl _, isCharBoundary_iff.mpr ⟨[], text, rfl, rfl⟩,
      isCharBoundary_iff.mpr ⟨text, [], (List.append_nil _).symm, rfl⟩⟩

/-! ## Ranges of stored chunks -/

/-- The chunk as the caller sees it: its text and its range. -/
def Chunk.toTextChunk (c : Chunk) : TextChunk where
  text := String.ofList c.text
  startChar := c.startChar
  endChar := c.endChar

/-- `chunk_text` in the default configuration, for a splitter. -/
def withChunker (ext : Externals) (split : (text : String) → SentenceSplit text.toList) :
    Externals :=
  { ext with
    chunkText := fun text =>
      ((chunkText {} text.toList (split text).sentences).getD []).map Chunk.toTextChunk }

/-- The physical chunks of a split document are tagged with the ranges. -/
def TagsFollow (ext : Externals) (split : (text : String) → SentenceSplit text.toList)
    (text : String) : Prop :=
  ∀ chunk : MemoryChunk, chunk.text = text → addChunkThreshold < text.utf8ByteSize →
    ∀ chunks, chunkText {} text.toList (split text).sentences = some chunks → 1 < chunks.length →
      List.Forall₂
        (fun part c => part.text = String.ofList c.text ∧
          s!"char_start:{c.startChar}" ∈ part.tags ∧ s!"char_end:{c.endChar}" ∈ part.tags)
        (splitForAdd (withChunker ext split) chunk) chunks

/-- **The ranges in the tags** are those of the chunks. -/
theorem tagsFollow (ext : Externals) (split : (text : String) → SentenceSplit text.toList)
    (text : String) : TagsFollow ext split text := by
  intro chunk htext hlong chunks hchunks hmany
  have hpieces : (withChunker ext split).chunkText chunk.text = chunks.map Chunk.toTextChunk := by
    show ((chunkText {} chunk.text.toList (split chunk.text).sentences).getD []).map _ = _
    rw [htext, hchunks]
    rfl
  have hsplit : splitForAdd (withChunker ext split) chunk = chunks.mapIdx fun i c =>
      subChunk chunk chunks.length i c.toTextChunk := by
    unfold splitForAdd
    dsimp only
    rw [if_neg (by rw [htext]; omega), hpieces, List.length_map, if_neg (by omega)]
    apply List.ext_getElem?
    intro i
    simp only [List.getElem?_mapIdx, List.getElem?_map, Option.map_map]
    rfl
  rw [hsplit, List.forall₂_iff_get]
  refine ⟨List.length_mapIdx, fun i h₁ h₂ => ?_⟩
  simp [subChunk, Chunk.toTextChunk]

/-- **Chunk ranges.**  The ranges of the chunks of a text, and the tags made of them, are those of
the chunks' units exactly when the groups of its sentences are counted right. -/
theorem ranges_exact_iff (ext : Externals) (split : (text : String) → SentenceSplit text.toList)
    (cfg : ChunkingConfig) (text : String) :
    ∃ chunks, chunkText cfg text.toList (split text).sentences = some chunks ∧
      (RangesExact text.toList (textUnits cfg text.toList (split text).sentences) chunks ∧
          TagsFollow ext split text ↔
        rangesCount cfg text.toList (split text).sentences = true) := by
  unfold chunkText textUnits rangesCount
  by_cases hwhole : byteLen text.toList ≤ cfg.chunkSize ∨ (split text).sentences = []
  · rw [if_pos hwhole, if_pos hwhole, decide_eq_true hwhole, Bool.true_or]
    exact ⟨_, rfl, iff_of_true ⟨rangesExact_wholeText _, tagsFollow ext split text⟩ rfl⟩
  · rw [if_neg hwhole, if_neg hwhole, decide_eq_false hwhole, Bool.false_or]
    obtain ⟨s, hs, hranged, hsim⟩ := ranged_loop (split text) cfg (b := [])
      (List.append_nil _).symm
    have hne : ∀ x ∈ s.currentChunkSentences, x.text ≠ [] := fun x hx =>
      (split text).nonempty x (hranged.members x hx)
    refine ⟨s.finish cfg, ?_, ?_⟩
    · rw [hs]
      rfl
    · rw [rangesExact_loop_iff (split text) hranged hsim (finished hsim.length hne)]
      exact and_iff_left (tagsFollow ext split text)

/-- Three sentences with blanks between them. -/
def sampleSentences : List Sentence :=
  [⟨"Aa.".toList, 0⟩, ⟨"Bb.".toList, 4⟩, ⟨"Cc.".toList, 8⟩]

/-- Three short sentences. -/
def sampleSplit : SentenceSplit "Aa. Bb. Cc.".toList where
  sentences := sampleSentences
  nonempty := by decide
  occurs := fun s hs => Sentence.occursIn_of_slice ((by decide :
    ∀ s ∈ sampleSentences, slice "Aa. Bb. Cc.".toList s.offset s.stop = some s.text) s hs)
  ordered := by decide

/-- The chunks of three short sentences. -/
def sampleChunks : List Chunk :=
  [⟨"Aa.Bb.".toList, 0, 6, 0, [⟨"Aa.".toList, 0⟩, ⟨"Bb.".toList, 4⟩]⟩,
    ⟨"Cc.".toList, 8, 11, 1, [⟨"Cc.".toList, 8⟩]⟩]

/-- **The blank between two sentences** is not counted: the first chunk claims to end inside its
last sentence. -/
theorem gap_shortens_range :
    chunkText { chunkSize := 6, overlap := 0, minChunkSize := 1 } "Aa. Bb. Cc.".toList
        sampleSplit.sentences = some sampleChunks ∧
      ¬ RangesExact "Aa. Bb. Cc.".toList
        (textUnits { chunkSize := 6, overlap := 0, minChunkSize := 1 } "Aa. Bb. Cc.".toList
          sampleSplit.sentences) sampleChunks := by
  refine ⟨by decide, fun h => ?_⟩
  have hend : 6 = 7 := h.ends _ List.mem_cons_self ⟨"Bb.".toList, 4⟩ rfl
  exact absurd hend (by decide)

end Chunking
