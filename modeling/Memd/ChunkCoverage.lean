/-
# What chunking loses and repeats

`Covers` says what the chunks of a text are made of: groups, each a run of the sentences and of the
pieces of long ones, and a short tail that the last chunk gets.

* `covers_of_packs` — the groups of a packing cover the units;
* `chunk_text_covers` — every text, under every configuration, has chunks that do.

The bounds are those of the code: a group may exceed the chunk size by what it carries over, a
sentence stays in as many chunks as it is carried over to, and a tail is merged into whatever
chunk is last (`overlap_and_tail_break_bounds`).
-/
import Memd.ChunkRanges

open Utf8Text

namespace Chunking

/-- The last group gets the sentences of the tail. -/
def appendToLast (groups : List (List Sentence)) (merged : List Sentence) : List (List Sentence) :=
  match groups.getLast? with
  | none => []
  | some g => groups.dropLast ++ [g ++ merged]

/-- The chunks hold the sentences, in `groups`, and the last one also the `merged` tail. -/
structure Covers (cfg : ChunkingConfig) (sentences : List Sentence) (chunks : List Chunk)
    (groups : List (List Sentence)) (merged : List Sentence) : Prop where
  parts : chunks.map Chunk.parts = appendToLast groups merged
  /-- a group is a run of sentences and of pieces of long ones -/
  runs : ∀ g ∈ groups, g <:+: (packing cfg).units sentences
  /-- the tail has all that is behind the last group, and before it what the last chunk has already:
  only what starts behind the end that was counted for that group -/
  tail : ∃ before g repeated new, groups = before ++ [g] ∧ merged = repeated ++ new ∧
    g ++ new <:+ (packing cfg).units sentences ∧ repeated.Sublist g ∧
    ∀ c ∈ chunks.getLast?, ∀ x ∈ repeated, c.startChar + byteLen (joinTexts g) ≤ x.offset
  /-- nothing is repeated where that end is not too small -/
  unrepeated : ∀ g ∈ groups.getLast?, ∀ c ∈ chunks.getLast?,
    (∀ x ∈ g, x.stop ≤ c.startChar + byteLen (joinTexts g)) →
      c.parts <:+: (packing cfg).units sentences
  short : merged = [] ∨ byteLen (joinTexts merged) < cfg.minChunkSize
  indices : chunks.map Chunk.chunkIndex = List.range chunks.length
  texts : ∀ c ∈ chunks, c.text = joinTexts c.parts
  /-- a sentence that fits is whole in a chunk -/
  whole : ∀ s ∈ sentences, s.len ≤ cfg.chunkSize → ∃ c ∈ chunks, s ∈ c.parts
  /-- a longer one is a run of groups -/
  divided : ∀ s ∈ sentences, cfg.chunkSize < s.len → ∃ before run after,
    groups = before ++ run ++ after ∧ run.flatMap joinTexts = s.text
  /-- no group repeats a sentence -/
  ordered : ∀ g ∈ groups, g ≠ [] ∧ g.Pairwise fun a b => a.stop ≤ b.offset
  size : ∀ g ∈ groups, byteLen (joinTexts g) ≤ cfg.chunkSize + cfg.overlap ∨
    (joinTexts g).length = 1
  shared : chunks.Pairwise fun c d =>
    byteLen (joinTexts (c.parts.filter fun x => x ∈ d.parts)) ≤ cfg.overlap
  /-- what two chunks share is in the chunks between them -/
  between : ∀ before c after, chunks = before ++ c :: after → ∀ x ∈ c.parts,
    before.Pairwise fun d e => x ∈ d.parts → x ∈ e.parts

variable {text : List Char} {cfg : ChunkingConfig} {chunks : List Chunk}

theorem flatMap_pieces (size : ℕ) (s : Sentence) :
    ((s.pieces size).map ([·])).flatMap joinTexts = s.text := by
  rw [List.flatMap_map, ← joinTexts_pieces size s]
  refine List.flatMap_congr fun y _ => ?_
  exact List.append_nil _

/-- **The groups of a packing** cover the units. -/
theorem covers_of_packs (split : SentenceSplit text) {a : Packed Sentence}
    (hpacks : (packing cfg).Packs ((packing cfg).units split.sentences) a)
    (hdivided : ∀ s ∈ split.sentences, cfg.chunkSize < s.len → ∃ before after,
      a.closed = before ++ (s.pieces cfg.chunkSize).map ([·]) ++ after)
    {init : List (List Sentence)} {g repeated new added : List Sentence}
    (hclosed : a.closed = init ++ [g]) (hsplit : added = repeated ++ new)
    (hsuffix : g ++ new <:+ (packing cfg).units split.sentences) (hrepeated : repeated.Sublist g)
    (hbehind : ∀ c ∈ chunks.getLast?, ∀ x ∈ repeated, c.startChar + byteLen (joinTexts g) ≤ x.offset)
    (hadded : added ⊆ a.current) (hcurrent : ∀ x ∈ a.current, x ∈ added ∨ x ∈ g)
    (hshort : added = [] ∨ byteLen (joinTexts added) < cfg.minChunkSize)
    (hparts : chunks.map Chunk.parts = init ++ [g ++ added])
    (hindices : chunks.map Chunk.chunkIndex = List.range chunks.length)
    (htexts : ∀ c ∈ chunks, c.text = joinTexts c.parts) :
    Covers cfg split.sentences chunks a.closed added where
  parts := by
    rw [hparts, hclosed, appendToLast, List.getLast?_concat, List.dropLast_concat]
  runs := fun k hk => (hpacks.closed k hk).2
  tail := ⟨init, g, repeated, new, hclosed, hsplit, hsuffix, hrepeated, hbehind⟩
  unrepeated := by
    intro k hk c hc hstop
    rw [hclosed, List.getLast?_concat] at hk
    obtain rfl := Option.some.inj hk
    -- a repeated sentence would start behind its own end
    have hnone : repeated = [] := by
      apply List.eq_nil_iff_forall_not_mem.mpr
      intro x hx
      have hxg := hrepeated.subset hx
      have hxu := hsuffix.subset (List.mem_append_left _ hxg)
      have hle := Nat.le_trans (hstop x hxg) (hbehind c hc x hx)
      exact Nat.lt_irrefl _ (lt_of_ordered (split.units_nonempty cfg hxu) hle)
    have hlast : c.parts = g ++ added := by
      have hmap := congrArg List.getLast? hparts
      rw [List.getLast?_map, hc, List.getLast?_concat] at hmap
      exact Option.some.inj hmap
    rw [hlast, hsplit, hnone, List.nil_append]
    exact hsuffix.isInfix
  short := hshort
  indices := hindices
  texts := htexts
  whole := by
    intro s hs hlight
    have hunit := mem_units_of_light hs (Nat.not_lt_of_le hlight)
    have hgroup : ∃ k ∈ init ++ [g ++ added], s ∈ k := by
      rcases hpacks.covered s hunit with hcur | ⟨k, hk, hsk⟩
      · refine ⟨g ++ added, List.mem_append_right _ (List.mem_singleton.mpr rfl), ?_⟩
        rcases hcurrent s hcur with h | h
        · exact List.mem_append_right _ h
        · exact List.mem_append_left _ h
      · rw [hclosed] at hk
        rcases List.mem_append.mp hk with hk | hk
        · exact ⟨k, List.mem_append_left _ hk, hsk⟩
        · rw [List.mem_singleton.mp hk] at hsk
          exact ⟨g ++ added, List.mem_append_right _ (List.mem_singleton.mpr rfl),
            List.mem_append_left _ hsk⟩
    obtain ⟨k, hk, hsk⟩ := hgroup
    rw [← hparts] at hk
    obtain ⟨c, hc, rfl⟩ := List.mem_map.mp hk
    exact ⟨c, hc, hsk⟩
  divided := by
    intro s hs hheavy
    obtain ⟨before, after, heq⟩ := hdivided s hs hheavy
    exact ⟨before, _, after, heq, flatMap_pieces _ s⟩
  ordered := by
    intro k hk
    obtain ⟨hne, hinfix⟩ := hpacks.closed k hk
    exact ⟨hne, (split.units_ordered cfg).sublist hinfix.sublist⟩
  size := by
    intro k hk
    rcases hpacks.bound k hk with hle | ⟨x, _, y, hy, rfl⟩
    · rw [byteLen_joinTexts cfg]
      exact Or.inl hle
    · obtain ⟨b, e, hts, _⟩ := mem_place hy
      have hmem : y.text ∈ cutText cfg.chunkSize x.text := by
        rw [hts]
        exact List.mem_append_right _ List.mem_cons_self
      have hjoin : joinTexts [y] = y.text := List.append_nil _
      obtain ⟨hne, hle | hone⟩ := mem_cutText hmem
      · rw [hjoin]
        exact Or.inl (Nat.le_trans hle (Nat.le_add_right _ _))
      · have hpos := List.length_pos_iff.mpr hne
        rw [hjoin]
        exact Or.inr (by omega)
  shared := by
    have hnodup : ∀ k ∈ a.closed, k.Nodup := fun k hk =>
      (split.units_nodup cfg).sublist (hpacks.closed k hk).2.sublist
    have hpairs : (init ++ [g ++ added]).Pairwise fun h k =>
        byteLen (joinTexts (h.filter fun x => x ∈ k)) ≤ cfg.overlap := by
      have hshared := hpacks.shared
      rw [hclosed] at hshared hnodup
      obtain ⟨hinit, _, hlast⟩ := List.pairwise_append.mp hshared
      refine List.pairwise_append.mpr ⟨?_, List.pairwise_singleton _ _, ?_⟩
      · refine hinit.imp_of_mem fun {h k} hh _ hhk => ?_
        rw [byteLen_joinTexts cfg]
        exact Packing.shared_le (hnodup h (List.mem_append_left _ hh)) hhk
      · intro h hh k hk
        rw [List.mem_singleton.mp hk, byteLen_joinTexts cfg]
        refine Packing.shared_le (hnodup h (List.mem_append_left _ hh)) fun x hxh hxk => ?_
        rcases List.mem_append.mp hxk with hxg | hxadded
        · exact hlast h hh g (List.mem_singleton.mpr rfl) x hxh hxg
        · refine hpacks.sharedCurrent h ?_ x hxh (hadded hxadded)
          rw [hclosed]
          exact List.mem_append_left _ hh
    rw [← hparts, List.pairwise_map] at hpairs
    exact hpairs
  between := by
    intro before c after heq x hx
    have hpartsEq := congrArg (List.map Chunk.parts) heq
    rw [hparts, List.map_append, List.map_cons] at hpartsEq
    have hpairs : (before.map Chunk.parts).Pairwise fun h k => x ∈ h → x ∈ k := by
      rcases List.eq_nil_or_concat after with rfl | ⟨after, d, rfl⟩
      · -- the last chunk: a sentence of its group, or one of the tail
        obtain ⟨hinit, hg⟩ := List.append_inj' hpartsEq rfl
        rw [List.map_nil, List.cons.injEq] at hg
        rw [← hg.1] at hx
        rw [← hinit]
        rcases List.mem_append.mp hx with hxg | hxadded
        · exact hpacks.persists init g [] hclosed x hxg
        · have hall := hpacks.persistsCurrent x (hadded hxadded)
          rw [hclosed] at hall
          exact (List.pairwise_append.mp hall).1
      · rw [List.concat_eq_append, List.map_append, List.map_singleton, ← List.cons_append,
          ← List.append_assoc] at hpartsEq
        obtain ⟨hinit, _⟩ := List.append_inj' hpartsEq rfl
        refine hpacks.persists (before.map Chunk.parts) c.parts (after.map Chunk.parts ++ [g]) ?_ x hx
        rw [hclosed, hinit, List.append_assoc]
        rfl
    rw [List.pairwise_map] at hpairs
    exact hpairs

theorem units_ne_nil (split : SentenceSplit text) (cfg : ChunkingConfig)
    (hne : split.sentences ≠ []) : (packing cfg).units split.sentences ≠ [] := by
  obtain ⟨s, l, hl⟩ := List.exists_cons_of_ne_nil hne
  have hs : s ∈ split.sentences := by
    rw [hl]
    exact List.mem_cons_self
  intro hnil
  by_cases hheavy : cfg.chunkSize < s.len
  · have hpieces : s.pieces cfg.chunkSize = [] := by
      rw [hl, ← List.singleton_append, Packing.units_append, units_singleton_of_heavy hheavy] at hnil
      exact (List.append_eq_nil_iff.mp hnil).1
    have hjoin := joinTexts_pieces cfg.chunkSize s
    rw [hpieces] at hjoin
    exact split.nonempty s hs hjoin.symm
  · have hmem := mem_units_of_light hs hheavy
    rw [hnil] at hmem
    exact absurd hmem List.not_mem_nil

variable {s : ChunkLoop}

/-- Where the packing of the sentences stands behind the last one: what it has packed, how heavy
the open group is, and where the pieces of the long ones are. -/
structure PackedUp (cfg : ChunkingConfig) (split : SentenceSplit text) (a : Packed Sentence) :
    Prop where
  packs : (packing cfg).Packs ((packing cfg).units split.sentences) a
  room : (packing cfg).total a.current ≤ cfg.chunkSize + cfg.overlap
  divided : ∀ s ∈ split.sentences, cfg.chunkSize < s.len → ∃ before after,
    a.closed = before ++ (s.pieces cfg.chunkSize).map ([·]) ++ after

/-- The packing of all sentences. -/
theorem packedUp_run (split : SentenceSplit text) :
    PackedUp cfg split ((packing cfg).run split.sentences) where
  packs := (Packing.packs_run (split.units_nodup cfg)).1
  room := (Packing.packs_run (split.units_nodup cfg)).2
  divided _ hs hheavy := Packing.pieces_closed (p := packing cfg) hs hheavy

variable {a : Packed Sentence}

/-- Nothing is open at the end: the last closed group is the last chunk. -/
theorem covers_nothing (split : SentenceSplit text) (hne : split.sentences ≠ [])
    (hp : PackedUp cfg split a) (hsim : Simulates cfg s a) (hcur : s.currentChunkSentences = []) :
    ∃ groups merged, Covers cfg split.sentences s.chunks groups merged := by
  have hclosed : a.closed ≠ [] := by
    intro hnil
    have hunits := hp.packs.first hnil
    rw [← hsim.current, hcur] at hunits
    exact units_ne_nil split cfg hne hunits.symm
  obtain hnil | ⟨init, g, hlast⟩ := List.eq_nil_or_concat a.closed
  · exact absurd hnil hclosed
  rw [List.concat_eq_append] at hlast
  obtain ⟨carried, new, hcurrent, -, hsuffix⟩ := hp.packs.last _ _ hlast
  rw [← hsim.current, hcur] at hcurrent
  obtain ⟨-, rfl⟩ := List.append_eq_nil_iff.mp hcurrent.symm
  refine ⟨a.closed, [], covers_of_packs split hp.packs hp.divided hlast (List.nil_append []).symm
    hsuffix (List.nil_sublist _) (fun _ _ _ hx => absurd hx List.not_mem_nil) (List.nil_subset _) ?_
    (Or.inl rfl) ?_ hsim.indices hsim.texts⟩
  · rw [← hsim.current, hcur]
    exact fun x hx => absurd hx List.not_mem_nil
  · rw [hsim.parts, hlast, List.append_nil]

/-- What is left open becomes a chunk of its own. -/
theorem covers_chunk (split : SentenceSplit text) (hp : PackedUp cfg split a)
    (hsim : Simulates cfg s a) (hcur : s.currentChunkSentences ≠ []) :
    ∃ groups merged, Covers cfg split.sentences (s.chunks ++ [s.lastChunk]) groups merged := by
  have hclose := hp.packs.close (by rw [← hsim.current]; exact hcur) (Or.inl hp.room)
    List.nil_suffix fun _ hx => absurd hx List.not_mem_nil
  have hsuffix : a.current ++ [] <:+ (packing cfg).units split.sentences := by
    rw [List.append_nil]
    exact hp.packs.current
  refine ⟨(Packing.close a []).closed, [], covers_of_packs split hclose ?_ rfl
    (List.nil_append []).symm hsuffix (List.nil_sublist _)
    (fun _ _ _ hx => absurd hx List.not_mem_nil) (List.nil_subset _)
    (fun x hx => absurd hx List.not_mem_nil) (Or.inl rfl) ?_ ?_ ?_⟩
  · intro x hx hheavy
    obtain ⟨before, after, heq⟩ := hp.divided x hx hheavy
    refine ⟨before, after ++ [a.current], ?_⟩
    show a.closed ++ [a.current] = _
    rw [heq]
    simp only [List.append_assoc]
  · rw [List.map_append, hsim.parts, List.append_nil, ← hsim.current]
    rfl
  · rw [List.map_append, hsim.indices, List.length_append, List.length_singleton,
      List.range_succ, ← hsim.index]
    rfl
  · intro c hc
    rcases List.mem_append.mp hc with hc | hc
    · exact hsim.texts c hc
    · rw [List.mem_singleton.mp hc]
      rfl

/-- What is left open is short, and joins the last chunk as far as it is not carried over from
it. -/
theorem covers_merged (split : SentenceSplit text) (hranged : Ranged cfg split.sentences s)
    (hp : PackedUp cfg split a) (hsim : Simulates cfg s a)
    (hshort : s.currentLength < cfg.minChunkSize) {init : List Chunk} {last : Chunk}
    (hchunks : s.chunks = init ++ [last]) :
    ∃ groups merged, Covers cfg split.sentences (init ++ [mergeTail last s.currentChunkSentences])
      groups merged := by
  have hlast : a.closed = init.map Chunk.parts ++ [last.parts] := by
    rw [← hsim.parts, hchunks, List.map_append, List.map_singleton]
  have hlastmem : last ∈ s.chunks := by
    rw [hchunks]
    exact List.mem_append_right _ (List.mem_singleton.mpr rfl)
  obtain ⟨h, t, hht, hle, hend⟩ := hranged.chunks.ranges last hlastmem
  obtain ⟨carried, new, hcurrent, hcarried, hsuffix⟩ := hp.packs.last _ _ hlast
  obtain ⟨added, hadded⟩ : ∃ added, added =
      s.currentChunkSentences.filter fun x => last.endChar ≤ x.offset := ⟨_, rfl⟩
  have hsub : added.Sublist a.current := by
    rw [hadded, hsim.current]
    exact List.filter_sublist
  have hsplit : added = carried.filter (fun x => last.endChar ≤ x.offset) ++ new := by
    rw [hadded, hsim.current, hcurrent]
    exact mergeTail_parts cfg (split.units_ordered cfg) hht hle hend hsuffix
  -- a unit of the tail is new, or it was carried over and is in the last chunk already
  have hnew : ∀ x ∈ a.current, x ∈ added ∨ x ∈ last.parts := by
    intro x hx
    rw [hsplit]
    rw [hcurrent] at hx
    rcases List.mem_append.mp hx with hx | hx
    · exact Or.inr (hcarried.subset hx)
    · exact Or.inl (List.mem_append_right _ hx)
  have hbehind : ∀ c ∈ (init ++ [mergeTail last s.currentChunkSentences]).getLast?,
      ∀ x ∈ carried.filter (fun x => last.endChar ≤ x.offset),
        c.startChar + byteLen (joinTexts last.parts) ≤ x.offset := by
    intro c hc x hx
    rw [List.getLast?_concat] at hc
    obtain rfl := Option.some.inj hc
    rw [byteLen_joinTexts cfg]
    exact hend ▸ of_decide_eq_true (List.mem_filter.mp hx).2
  refine ⟨a.closed, added, covers_of_packs split hp.packs hp.divided hlast hsplit hsuffix
    (List.filter_sublist.trans hcarried.sublist) hbehind hsub.subset hnew (Or.inr ?_) ?_ ?_ ?_⟩
  · rw [hsim.length, hsim.current] at hshort
    rw [byteLen_joinTexts cfg]
    exact Nat.lt_of_le_of_lt ((packing cfg).total_sublist hsub) hshort
  · rw [List.map_append, List.map_singleton, hadded]
    rfl
  · have hindices := hsim.indices
    rw [hchunks, List.map_append, List.length_append] at hindices
    rw [List.map_append, List.length_append]
    exact hindices
  · intro c hc
    rcases List.mem_append.mp hc with hc | hc
    · exact hsim.texts c (by rw [hchunks]; exact List.mem_append_left _ hc)
    · rw [List.mem_singleton.mp hc]
      show last.text ++ joinTexts _ = joinTexts (last.parts ++ _)
      rw [hsim.texts last hlastmem]
      exact List.flatMap_append.symm

/-- The chunks of the loop cover the sentences. -/
theorem covers_finished (split : SentenceSplit text) (hne : split.sentences ≠ [])
    (hranged : Ranged cfg split.sentences s)
    (hsim : Simulates cfg s ((packing cfg).run split.sentences)) (hf : s.Finished cfg chunks) :
    ∃ groups merged, Covers cfg split.sentences chunks groups merged := by
  cases hf with
  | nothing hcur => exact covers_nothing split hne (packedUp_run split) hsim hcur
  | chunk hcur hown => exact covers_chunk split (packedUp_run split) hsim hcur
  | merged hcur hown init last hchunks =>
    exact covers_merged split hranged (packedUp_run split) hsim
      (Nat.lt_of_not_le fun hle => hown (Or.inl hle)) hchunks

/-- **Chunking covers the sentences** of every text, under every configuration; a text of at most
the chunk size, or without sentences, is one chunk. -/
theorem chunk_text_covers (cfg : ChunkingConfig) (text : List Char) (split : SentenceSplit text) :
    ∃ chunks, chunkText cfg text split.sentences = some chunks ∧
      if byteLen text ≤ cfg.chunkSize ∨ split.sentences = [] then chunks = [wholeText text]
      else ∃ groups merged, Covers cfg split.sentences chunks groups merged := by
  unfold chunkText
  by_cases hwhole : byteLen text ≤ cfg.chunkSize ∨ split.sentences = []
  · rw [if_pos hwhole]
    exact ⟨_, rfl, by rw [if_pos hwhole]⟩
  · rw [if_neg hwhole]
    obtain ⟨s, hs, hranged, hsim⟩ := ranged_loop split cfg (b := []) (List.append_nil _).symm
    have hne : ∀ x ∈ s.currentChunkSentences, x.text ≠ [] := fun x hx =>
      split.nonempty x (hranged.members x hx)
    refine ⟨s.finish cfg, by rw [hs]; rfl, ?_⟩
    rw [if_neg hwhole]
    exact covers_finished split (fun hnil => hwhole (Or.inr hnil)) hranged hsim
      (finished hsim.length hne)

/-- Four short sentences. -/
def shortSplit : SentenceSplit "Aa. Bb. Cc. Dd.".toList where
  sentences := [⟨"Aa.".toList, 0⟩, ⟨"Bb.".toList, 4⟩, ⟨"Cc.".toList, 8⟩, ⟨"Dd.".toList, 12⟩]
  nonempty := by decide
  occurs := fun s hs => Sentence.occursIn_of_slice ((by decide :
    ∀ s ∈ [(⟨"Aa.".toList, 0⟩ : Sentence), ⟨"Bb.".toList, 4⟩, ⟨"Cc.".toList, 8⟩,
      ⟨"Dd.".toList, 12⟩], slice "Aa. Bb. Cc. Dd.".toList s.offset s.stop = some s.text) s hs)
  ordered := by decide

/-- A long sentence and a short one. -/
def longSplit : SentenceSplit "Abcdefgh. Cc.".toList where
  sentences := [⟨"Abcdefgh.".toList, 0⟩, ⟨"Cc.".toList, 10⟩]
  nonempty := by decide
  occurs := fun s hs => Sentence.occursIn_of_slice ((by decide :
    ∀ s ∈ [(⟨"Abcdefgh.".toList, 0⟩ : Sentence), ⟨"Cc.".toList, 10⟩],
      slice "Abcdefgh. Cc.".toList s.offset s.stop = some s.text) s hs)
  ordered := by decide

/-- **Bounds the code does not keep.**  With a large overlap the second of three chunks is over
the chunk size, and the first shares a sentence with the third.  A short tail goes to the last
piece of a long sentence, which is then no run of whole chunks. -/
theorem overlap_and_tail_break_bounds :
    (∃ a b c, chunkText { chunkSize := 6, overlap := 6, minChunkSize := 1 }
        "Aa. Bb. Cc. Dd.".toList shortSplit.sentences = some [a, b, c] ∧
      6 < byteLen b.text ∧ b.text.length ≠ 1 ∧ ∃ x ∈ a.parts, x ∈ c.parts) ∧
    ∃ chunks, chunkText { chunkSize := 6, overlap := 0, minChunkSize := 4 }
        "Abcdefgh. Cc.".toList longSplit.sentences = some chunks ∧
      ¬ ∃ before run after, chunks = before ++ run ++ after ∧
        run.flatMap Chunk.text = "Abcdefgh.".toList := by
  refine ⟨⟨⟨"Aa.Bb.".toList, 0, 6, 0, [⟨"Aa.".toList, 0⟩, ⟨"Bb.".toList, 4⟩]⟩,
      ⟨"Aa.Bb.Cc.".toList, 0, 9, 1,
        [⟨"Aa.".toList, 0⟩, ⟨"Bb.".toList, 4⟩, ⟨"Cc.".toList, 8⟩]⟩,
      ⟨"Bb.Cc.Dd.".toList, 4, 15, 2,
        [⟨"Bb.".toList, 4⟩, ⟨"Cc.".toList, 8⟩, ⟨"Dd.".toList, 12⟩]⟩,
      by decide, by decide, by decide, by decide⟩,
    [⟨"Abcdef".toList, 0, 6, 0, [⟨"Abcdef".toList, 0⟩]⟩,
      ⟨"gh.Cc.".toList, 6, 13, 1, [⟨"gh.".toList, 6⟩, ⟨"Cc.".toList, 10⟩]⟩],
    by decide +kernel, ?_⟩
  rintro ⟨before, run, after, heq, htext⟩
  -- every chunk has six characters, the sentence has nine
  have hsix : ∀ c ∈ run, c.text.length = 6 := by
    intro c hc
    have hmem : c ∈ before ++ run ++ after :=
      List.mem_append_left _ (List.mem_append_right _ hc)
    rw [← heq] at hmem
    rcases List.mem_cons.mp hmem with rfl | hmem
    · decide
    · rw [List.mem_singleton.mp hmem]
      decide
  have hlen := congrArg List.length htext
  rw [List.length_flatMap, List.map_congr_left hsix, List.map_const', List.sum_replicate_nat] at hlen
  have hnine : "Abcdefgh.".toList.length = 9 := by decide
  rw [hnine] at hlen
  omega

end Chunking
