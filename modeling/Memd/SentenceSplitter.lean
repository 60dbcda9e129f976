/-
# Splitting a text into sentences

`SentenceSplitter::split` goes over the lines of a text.  Consecutive lines of code are one
sentence; a line of prose is divided by `unicode_sentences`, whose pieces are looked up in the line
again to find their offsets, and trimmed.

* `Tiles` — sentences at their offsets in a text, with nothing loud between them;
* `firstAt_segment` — a piece that starts with the first letter ahead is found where it was cut;
* `tiles_splitFrom` — the sentences of some lines tile them;
* `split_law` — offsets, order and coverage of the sentences of every text;
* `exists_sentenceSplit` — the splitter gives the chunker what it asks for.

`unicode_sentences` and `char::is_alphanumeric` are parameters; a letter or digit is called loud.
-/
import Mathlib.Data.List.DropRight
import Memd.Chunking
import Memd.ListSelection
import Memd.TextSearch
import Memd.Words
import Memd.WriteAdmission

open Utf8Text Text
open Selection (cut_cases)

namespace SentenceSplitter

/-! ## The splitter -/

/-- A sentence, with what tells code from prose. -/
structure Sentence extends Chunking.Sentence where
  isCode : Bool
  deriving DecidableEq, Repr

/-- A line of the text and where it starts. -/
structure LineSlice where
  text : List Char
  start : ℕ
  deriving DecidableEq, Repr

/-- The loop of `split_lines_with_offsets`, with the characters since `lineStart`. -/
def linesFrom (lineStart : ℕ) (line : List Char) : List Char → List LineSlice
  | [] => if line = [] then [] else [⟨line, lineStart⟩]
  | c :: cs =>
    if c = '\n' then ⟨line, lineStart⟩ :: linesFrom (lineStart + Utf8Text.byteLen line + 1) [] cs
    else linesFrom lineStart (line ++ [c]) cs

/-- `split_lines_with_offsets`. -/
def splitLinesWithOffsets (text : List Char) : List LineSlice :=
  linesFrom 0 [] text

/-- The patterns that make a line look like code. -/
def codePatterns : List String :=
  ["\x7b", "\x7d", "[", "]", ";", "fn ", "func ", "def ", "async fn", "pub fn", "pub(crate)",
   "let ", "const ", "var ", "mut ", "=>", "->", "::", ".unwrap()", ".await", "use ", "import ",
   "from ", "require(", "if (", "for (", "while (", "match ", "switch (", "//", "/*", "*/", "#[",
   ": &", ": Vec<", ": String", ": i32", ": u32", "-> Result", "-> Option"]

/-- `ends_with`, with a character. -/
def endsWithChar (s : List Char) (c : Char) : Bool :=
  s.getLast? == some c

/-- `is_code_line`. -/
def isCodeLine (line : List Char) : Bool :=
  let trimmed := trim line
  if trimmed = [] then false
  else if codePatterns.any (contains trimmed) then true
  else if startsWith trimmed "function " || startsWith trimmed "async function " then true
  else if (startsWith line "    " || startsWith line "\t")
      && (contains trimmed "=" || contains trimmed "(" || contains trimmed ".") then true
  else if ['\x7b', '\x7d', ';', ')', ','].any (endsWithChar trimmed) then
    !contains trimmed " " || contains trimmed "(" && contains trimmed ")"
  else false

/-- A line of blanks. -/
def isBlank (line : LineSlice) : Bool :=
  trim line.text = []

/-- The loop over the sentences of a line; `none` is a slice that starts inside a character. -/
def proseLoop (line : LineSlice) : (cursor : ℕ) → List (List Char) → Option (List Sentence)
  | _, [] => some []
  | cursor, sent :: sents => do
    let ahead ← sliceFrom line.text cursor
    let relativeStart := ((find sent ahead).map (cursor + ·)).getD cursor
    let later ← proseLoop line (relativeStart + Utf8Text.byteLen sent) sents
    if trim sent = [] then pure later
    else
      let leadingWs := Utf8Text.byteLen sent - Utf8Text.byteLen (sent.dropWhile isWhitespace)
      pure (⟨⟨trim sent, line.start + relativeStart + leadingWs⟩, false⟩ :: later)

/-- The sentence of a run of code lines, without the blank lines at its end. -/
def codeBlock (blockStart : ℕ) (codeLines : List LineSlice) : List Sentence :=
  let codeLines := codeLines.rdropWhile isBlank
  if codeLines = [] then []
  else [⟨⟨List.intercalate ['\n'] (codeLines.map LineSlice.text), blockStart⟩, true⟩]

/-- The lines that go on a block of code. -/
def continuesCode (line : LineSlice) : Bool :=
  isCodeLine line.text || isBlank line

/-- The loop over the lines. -/
def splitFrom (unicodeSentences : List Char → List (List Char)) :
    List LineSlice → Option (List Sentence)
  | [] => some []
  | line :: lines =>
    if isCodeLine line.text then do
      let later ← splitFrom unicodeSentences (lines.dropWhile continuesCode)
      pure (codeBlock line.start (line :: lines.takeWhile continuesCode) ++ later)
    else do
      let sentences ← proseLoop line 0 (unicodeSentences line.text)
      let later ← splitFrom unicodeSentences lines
      pure (sentences ++ later)
termination_by lines => lines.length
decreasing_by
  · exact Nat.lt_succ_of_le (List.length_dropWhile_le continuesCode lines)
  · exact Nat.lt_succ_self lines.length

/-- `SentenceSplitter::split`. -/
def split (unicodeSentences : List Char → List (List Char)) (text : List Char) :
    Option (List Sentence) :=
  splitFrom unicodeSentences (splitLinesWithOffsets text)

/-! ## Tilings -/

section Tilings

variable (loud : Char → Bool)

/-- The sentences stand in the text, which starts at `base`, one behind the other, and nothing
loud is left out. -/
def Tiles : ℕ → List Char → List Chunking.Sentence → Prop
  | _, t, [] => ∀ c ∈ t, loud c = false
  | base, t, s :: ss => ∃ gap rest, t = gap ++ (s.text ++ rest) ∧ (∀ c ∈ gap, loud c = false) ∧
      s.text ≠ [] ∧ s.offset = base + Utf8Text.byteLen gap ∧
      Tiles (base + Utf8Text.byteLen gap + Utf8Text.byteLen s.text) rest ss

variable {loud} {base : ℕ} {t t' : List Char} {ss ss' : List Chunking.Sentence}

/-- Sentences behind a gap without content. -/
theorem Tiles.quiet_append {gap : List Char} (hgap : ∀ c ∈ gap, loud c = false)
    (h : Tiles loud (base + Utf8Text.byteLen gap) t ss) : Tiles loud base (gap ++ t) ss := by
  cases ss with
  | nil =>
    intro c hc
    rcases List.mem_append.mp hc with hc | hc
    · exact hgap c hc
    · exact h c hc
  | cons s ss =>
    obtain ⟨gap', rest, rfl, hgap', hne, hoffset, hrest⟩ := h
    refine ⟨gap ++ gap', rest, (List.append_assoc _ _ _).symm, ?_, hne, ?_, ?_⟩
    · intro c hc
      rcases List.mem_append.mp hc with hc | hc
      · exact hgap c hc
      · exact hgap' c hc
    · rw [hoffset, byteLen_append, Nat.add_assoc]
    · rw [byteLen_append, ← Nat.add_assoc]
      exact hrest

/-- **Tilings** of two texts make up one of the two together. -/
theorem Tiles.append (h : Tiles loud base t ss)
    (h' : Tiles loud (base + Utf8Text.byteLen t) t' ss') :
    Tiles loud base (t ++ t') (ss ++ ss') := by
  induction ss generalizing base t with
  | nil => exact Tiles.quiet_append h h'
  | cons s ss ih =>
    obtain ⟨gap, rest, rfl, hgap, hne, hoffset, hrest⟩ := h
    refine ⟨gap, rest ++ t', by simp only [List.append_assoc], hgap, hne, hoffset, ih hrest ?_⟩
    rw [byteLen_append, byteLen_append, ← Nat.add_assoc, ← Nat.add_assoc] at h'
    exact h'

/-- No sentence starts before the text. -/
theorem Tiles.le_offset (h : Tiles loud base t ss) {s : Chunking.Sentence} (hs : s ∈ ss) :
    base ≤ s.offset := by
  induction ss generalizing base t with
  | nil => exact absurd hs List.not_mem_nil
  | cons s' ss ih =>
    obtain ⟨gap, rest, -, -, -, hoffset, hrest⟩ := h
    rcases List.mem_cons.mp hs with rfl | hs
    · omega
    · have hle := ih hrest hs
      omega

/-- Every sentence stands in the text where its offset says. -/
theorem Tiles.occurs (h : Tiles loud base t ss) {s : Chunking.Sentence} (hs : s ∈ ss) :
    s.text ≠ [] ∧ ∃ a b, t = a ++ (s.text ++ b) ∧ s.offset = base + Utf8Text.byteLen a := by
  induction ss generalizing base t with
  | nil => exact absurd hs List.not_mem_nil
  | cons s' ss ih =>
    obtain ⟨gap, rest, rfl, -, hne, hoffset, hrest⟩ := h
    rcases List.mem_cons.mp hs with rfl | hs
    · exact ⟨hne, gap, rest, rfl, hoffset⟩
    · obtain ⟨hne', a, b, rfl, hoffset'⟩ := ih hrest hs
      refine ⟨hne', gap ++ (s'.text ++ a), b, by simp only [List.append_assoc], ?_⟩
      rw [hoffset', byteLen_append, byteLen_append]
      omega

/-- The sentences stand one behind the other. -/
theorem Tiles.ordered (h : Tiles loud base t ss) :
    ss.Pairwise fun a b => a.stop ≤ b.offset := by
  induction ss generalizing base t with
  | nil => exact List.Pairwise.nil
  | cons s ss ih =>
    obtain ⟨gap, rest, -, -, -, hoffset, hrest⟩ := h
    refine List.Pairwise.cons (fun s' hs' => ?_) (ih hrest)
    rw [Chunking.Sentence.stop, hoffset, Chunking.Sentence.len]
    exact hrest.le_offset hs'

/-- **Nothing loud** stands between the sentences. -/
theorem Tiles.covers (h : Tiles loud base t ss) {a b : List Char} {c : Char}
    (heq : t = a ++ c :: b) (hc : loud c = true) : ∃ s ∈ ss,
      s.offset ≤ base + Utf8Text.byteLen a ∧ base + Utf8Text.byteLen a + c.utf8Size ≤ s.stop := by
  induction ss generalizing base t a with
  | nil =>
    have hquiet := h c (heq ▸ List.mem_append_right a List.mem_cons_self)
    exact absurd (hc.symm.trans hquiet) (by simp)
  | cons s ss ih =>
    obtain ⟨gap, rest, rfl, hgap, -, hoffset, hrest⟩ := h
    rcases cut_cases heq with ⟨gap', rfl, -⟩ | ⟨a', rfl, htail⟩
    · -- the gap has nothing loud
      exact absurd (hc.symm.trans (hgap c (by simp))) (by simp)
    · rcases cut_cases htail with ⟨text', htext, -⟩ | ⟨a'', rfl, hlast⟩
      · refine ⟨s, List.mem_cons_self, ?_, ?_⟩
        · rw [hoffset, byteLen_append]
          omega
        · rw [Chunking.Sentence.stop, Chunking.Sentence.len, hoffset, htext]
          simp only [byteLen_append, byteLen_cons]
          omega
      · obtain ⟨s', hs', hle, hge⟩ := ih hrest hlast
        refine ⟨s', List.mem_cons_of_mem s hs', ?_, ?_⟩
        · simp only [byteLen_append]
          omega
        · simp only [byteLen_append]
          omega

end Tilings

/-! ## A line of prose -/

section Prose

variable {loud : Char → Bool}

/-- The pieces stand in the text in order, each with something loud in it and nothing loud between
them. -/
def Segmented (loud : Char → Bool) : List Char → List (List Char) → Prop
  | t, [] => ∀ c ∈ t, loud c = false
  | t, s :: ss => ∃ gap rest, t = gap ++ (s ++ rest) ∧ (∀ c ∈ gap, loud c = false) ∧
      (∃ c ∈ s, loud c = true) ∧ Segmented loud rest ss

/-- The first loud character of a text. -/
theorem exists_first_loud {s : List Char} (h : ∃ c ∈ s, loud c = true) :
    ∃ u c v, s = u ++ c :: v ∧ (∀ d ∈ u, loud d = false) ∧ loud c = true := by
  induction s with
  | nil => obtain ⟨c, hc, -⟩ := h; exact absurd hc List.not_mem_nil
  | cons d s ih =>
    cases hd : loud d with
    | true => exact ⟨[], d, s, rfl, fun e he => absurd he List.not_mem_nil, hd⟩
    | false =>
      obtain ⟨c, hc, hloud⟩ := h
      have hmem : c ∈ s := by
        rcases List.mem_cons.mp hc with rfl | hc
        · exact absurd (hloud.symm.trans hd) (by simp)
        · exact hc
      obtain ⟨u, e, v, rfl, hu, he⟩ := ih ⟨c, hmem, hloud⟩
      refine ⟨d :: u, e, v, rfl, ?_, he⟩
      intro x hx
      rcases List.mem_cons.mp hx with rfl | hx
      · exact hd
      · exact hu x hx

/-- **A piece** behind a quiet gap is found behind the gap: its first loud character is the first
one ahead. -/
theorem firstAt_segment {gap s rest : List Char} (hgap : ∀ c ∈ gap, loud c = false)
    (hs : ∃ c ∈ s, loud c = true) : FirstAt s (gap ++ (s ++ rest)) gap rest := by
  refine ⟨rfl, fun a' b' heq => ?_⟩
  obtain ⟨u, c, v, rfl, hu, hc⟩ := exists_first_loud hs
  have hcut : gap ++ (u ++ c :: v ++ rest) = (a' ++ u) ++ c :: (v ++ b') := by
    rw [heq]
    simp only [List.append_assoc, List.cons_append]
  rcases cut_cases hcut with ⟨gap', rfl, -⟩ | ⟨w, hw, htail⟩
  · exact absurd (hc.symm.trans (hgap c (by simp))) (by simp)
  rw [List.append_assoc] at htail
  rcases cut_cases htail with ⟨u', rfl, -⟩ | ⟨w', rfl, -⟩
  · exact absurd (hc.symm.trans (hu c (by simp))) (by simp)
  · have hlen := congrArg List.length hw
    simp only [List.length_append] at hlen
    have hprefix : gap <+: a' ++ u := by
      rw [hw]
      exact List.prefix_append _ _
    exact List.prefix_of_prefix_length_le hprefix (List.prefix_append a' u) (by omega)

/-- What `trim` takes away at the two ends. -/
theorem trim_spec (s : List Char) : ∃ front back, s = front ++ (trim s ++ back) ∧
    s.dropWhile isWhitespace = trim s ++ back ∧
    (∀ c ∈ front, isWhitespace c = true) ∧ ∀ c ∈ back, isWhitespace c = true := by
  have hback : s.dropWhile isWhitespace =
      trim s ++ (s.dropWhile isWhitespace).rtakeWhile isWhitespace :=
    List.rdropWhile_append_rtakeWhile.symm
  refine ⟨s.takeWhile isWhitespace, (s.dropWhile isWhitespace).rtakeWhile isWhitespace, ?_, hback,
    fun c hc => List.mem_takeWhile_imp hc, fun c hc => List.mem_rtakeWhile_imp hc⟩
  rw [← hback, List.takeWhile_append_dropWhile]

/-- Trimming takes blanks only. -/
theorem mem_trim {s : List Char} {c : Char} (hc : c ∈ s) (hwhite : isWhitespace c = false) :
    c ∈ trim s := by
  obtain ⟨front, back, hs, -, hfront, hback⟩ := trim_spec s
  rw [hs] at hc
  rcases List.mem_append.mp hc with hc | hc
  · exact absurd (hwhite.symm.trans (hfront c hc)) (by simp)
  · rcases List.mem_append.mp hc with hc | hc
    · exact hc
    · exact absurd (hwhite.symm.trans (hback c hc)) (by simp)

/-- White space is quiet when what is loud is none. -/
theorem quiet_of_isWhitespace (hwhite : ∀ c, loud c = true → isWhitespace c = false) {c : Char}
    (hc : isWhitespace c = true) : loud c = false := by
  cases hl : loud c with
  | false => rfl
  | true => exact absurd (hc.symm.trans (hwhite c hl)) (by simp)

/-- **The sentences of a line of prose** tile what lies behind the cursor. -/
theorem tiles_proseLoop (hwhite : ∀ c, loud c = true → isWhitespace c = false) (line : LineSlice)
    {sents : List (List Char)} {pre t : List Char} (htext : line.text = pre ++ t)
    (hsents : Segmented loud t sents) :
    ∃ ss, proseLoop line (Utf8Text.byteLen pre) sents = some ss ∧
      Tiles loud (line.start + Utf8Text.byteLen pre) t (ss.map Sentence.toSentence) := by
  induction sents generalizing pre t with
  | nil => exact ⟨[], rfl, hsents⟩
  | cons s sents ih =>
    obtain ⟨gap, rest, rfl, hgap, hs, hrest⟩ := hsents
    have htext' : line.text = (pre ++ (gap ++ s)) ++ rest := by
      rw [htext]
      simp only [List.append_assoc]
    obtain ⟨ss, hss, htiles⟩ := ih htext' hrest
    -- the first occurrence behind the cursor is the sentence itself: the gap has no content
    have hfind : find s (gap ++ (s ++ rest)) = some (Utf8Text.byteLen gap) :=
      find_eq_some_iff.mpr ⟨gap, rest, firstAt_segment hgap hs, rfl⟩
    have hcursor : Utf8Text.byteLen (pre ++ (gap ++ s)) =
        Utf8Text.byteLen pre + Utf8Text.byteLen gap + Utf8Text.byteLen s := by
      rw [byteLen_append, byteLen_append, Nat.add_assoc]
    have hne : trim s ≠ [] := by
      obtain ⟨c, hc, hloud⟩ := hs
      exact List.ne_nil_of_mem (mem_trim hc (hwhite c hloud))
    obtain ⟨front, back, hsplit, hdrop, hfront, hback⟩ := trim_spec s
    have hquiet : ∀ c, isWhitespace c = true → loud c = false :=
      fun c hc => quiet_of_isWhitespace hwhite hc
    -- the offset skips the blanks that trimming takes off in front
    have hleading : Utf8Text.byteLen s - Utf8Text.byteLen (s.dropWhile isWhitespace) =
        Utf8Text.byteLen front := by
      have hlen := congrArg Utf8Text.byteLen hsplit
      rw [byteLen_append, ← hdrop] at hlen
      omega
    refine ⟨_, by
      rw [proseLoop, htext, sliceFrom_append]
      simp only [Option.bind_eq_bind, Option.bind_some, hfind, Option.map_some, Option.getD_some,
        ← hcursor, hss, if_neg hne]
      rfl, ?_⟩
    rw [List.map_cons]
    refine ⟨gap ++ front, back ++ rest, ?_, ?_, hne, ?_, ?_⟩
    · show gap ++ (s ++ rest) = gap ++ front ++ (trim s ++ (back ++ rest))
      conv_lhs => rw [hsplit]
      simp only [List.append_assoc]
    · intro c hc
      rcases List.mem_append.mp hc with hc | hc
      · exact hgap c hc
      · exact hquiet c (hfront c hc)
    · show line.start + (Utf8Text.byteLen pre + Utf8Text.byteLen gap) + _ = _
      rw [hleading, byteLen_append]
      omega
    -- behind the trimmed sentence there are blanks only, up to the next one
    · refine Tiles.quiet_append (fun c hc => hquiet c (hback c hc)) ?_
      have hbase : line.start + Utf8Text.byteLen pre + Utf8Text.byteLen (gap ++ front) +
          Utf8Text.byteLen (trim s) + Utf8Text.byteLen back =
          line.start + Utf8Text.byteLen (pre ++ (gap ++ s)) := by
        have hlen := congrArg Utf8Text.byteLen hsplit
        simp only [byteLen_append] at hlen ⊢
        omega
      show Tiles loud (line.start + Utf8Text.byteLen pre + Utf8Text.byteLen (gap ++ front) +
          Utf8Text.byteLen (trim s) + Utf8Text.byteLen back) rest _
      rw [hbase]
      exact htiles

end Prose

/-! ## The lines of a text -/

/-- The lines of a text that starts at `base`, each but the last behind a line break. -/
def LinesOf : ℕ → List LineSlice → List Char → Prop
  | _, [], t => t = []
  | base, l :: ls, t => l.start = base ∧ (t = l.text ∧ ls = [] ∨
      ∃ rest, t = l.text ++ '\n' :: rest ∧ LinesOf (base + Utf8Text.byteLen l.text + 1) ls rest)

/-- The lines of the rest of a text. -/
theorem linesOf_linesFrom (base : ℕ) (line cs : List Char) :
    LinesOf base (linesFrom base line cs) (line ++ cs) := by
  induction cs generalizing base line with
  | nil =>
    rw [linesFrom, List.append_nil]
    split
    · assumption
    · exact ⟨rfl, .inl ⟨rfl, rfl⟩⟩
  | cons c cs ih =>
    rw [linesFrom]
    split
    · rename_i hc
      subst hc
      exact ⟨rfl, .inr ⟨cs, rfl, ih (base + Utf8Text.byteLen line + 1) []⟩⟩
    · have htail := ih base (line ++ [c])
      rw [List.append_assoc, List.singleton_append] at htail
      exact htail

/-- The lines of a text. -/
theorem linesOf_splitLines (text : List Char) : LinesOf 0 (splitLinesWithOffsets text) text :=
  linesOf_linesFrom 0 [] text

/-- The lines of a block, joined again, are the text of the block. -/
theorem linesOf_block {base : ℕ} {l : LineSlice} {block others : List LineSlice} {t : List Char}
    (h : LinesOf base (l :: block ++ others) t) : l.start = base ∧
      ∃ tail, t = List.intercalate ['\n'] ((l :: block).map LineSlice.text) ++ tail ∧
        (tail = [] ∧ others = [] ∨ ∃ rest, tail = '\n' :: rest ∧ LinesOf (base + Utf8Text.byteLen
          (List.intercalate ['\n'] ((l :: block).map LineSlice.text)) + 1) others rest) := by
  induction block generalizing base l t with
  | nil =>
    have hsingle : List.intercalate ['\n'] ([l].map LineSlice.text) = l.text := by
      simp [List.intercalate]
    rw [hsingle]
    obtain ⟨hstart, ⟨rfl, hnil⟩ | ⟨rest, rfl, hrest⟩⟩ := h
    · exact ⟨hstart, [], (List.append_nil _).symm, .inl ⟨rfl, hnil⟩⟩
    · exact ⟨hstart, '\n' :: rest, rfl, .inr ⟨rest, rfl, hrest⟩⟩
  | cons l' block ih =>
    have hcons : List.intercalate ['\n'] ((l :: l' :: block).map LineSlice.text) =
        l.text ++ '\n' :: List.intercalate ['\n'] ((l' :: block).map LineSlice.text) := by
      simp [List.intercalate]
    obtain ⟨hstart, ⟨-, hnil⟩ | ⟨rest, rfl, hrest⟩⟩ := h
    · exact absurd hnil (by simp)
    · obtain ⟨-, tail, rfl, htail⟩ := ih hrest
      refine ⟨hstart, tail, by rw [hcons]; simp, htail.imp id ?_⟩
      rintro ⟨rest, rfl, hlines⟩
      refine ⟨rest, rfl, ?_⟩
      rw [hcons, byteLen_append, byteLen_cons]
      have hbreak : Char.utf8Size '\n' = 1 := by decide
      rw [hbreak]
      convert hlines using 1
      omega

/-! ## The sentences of a text -/

/-- A line of code is not blank. -/
theorem isBlank_of_isCodeLine {l : LineSlice} (h : isCodeLine l.text = true) : isBlank l = false := by
  unfold isCodeLine at h
  dsimp only at h
  split at h
  · exact absurd h Bool.false_ne_true
  · rename_i hne
    simpa [isBlank] using hne

section Split

variable {loud : Char → Bool} (hwhite : ∀ c, loud c = true → isWhitespace c = false)

include hwhite

/-- A blank line has no content. -/
theorem quiet_of_isBlank {l : LineSlice} (h : isBlank l = true) : ∀ c ∈ l.text, loud c = false := by
  have hnil : trim l.text = [] := by simpa [isBlank] using h
  intro c hc
  cases hl : loud c with
  | false => rfl
  | true => exact absurd (hnil ▸ mem_trim hc (hwhite c hl)) List.not_mem_nil

/-- Sentences behind a line break. -/
theorem tiles_newline {base : ℕ} {t : List Char} {ss : List Chunking.Sentence}
    (h : Tiles loud (base + 1) t ss) : Tiles loud base ('\n' :: t) ss := by
  have hquiet : ∀ c ∈ ['\n'], loud c = false := by
    intro c hc
    rw [List.mem_singleton.mp hc]
    exact quiet_of_isWhitespace hwhite (by decide)
  exact Tiles.quiet_append hquiet h

/-- A line and the tiling of the lines behind it. -/
theorem tiles_line {base : ℕ} {l : LineSlice} {lines : List LineSlice} {t : List Char}
    {ss ss' : List Chunking.Sentence} (h : LinesOf base (l :: lines) t)
    (hline : Tiles loud base l.text ss)
    (hlines : ∀ base t, LinesOf base lines t → Tiles loud base t ss') :
    Tiles loud base t (ss ++ ss') := by
  obtain ⟨-, ⟨rfl, rfl⟩ | ⟨rest, rfl, hrest⟩⟩ := h
  · have hend := hline.append (hlines _ [] rfl)
    rwa [List.append_nil] at hend
  · exact hline.append (tiles_newline hwhite (hlines _ rest hrest))

/-- Blank lines have no sentences. -/
theorem tiles_blank {base : ℕ} {blank lines : List LineSlice} {t : List Char}
    {ss : List Chunking.Sentence} (hblank : ∀ l ∈ blank, isBlank l = true)
    (h : LinesOf base (blank ++ lines) t)
    (hlines : ∀ base t, LinesOf base lines t → Tiles loud base t ss) : Tiles loud base t ss := by
  induction blank generalizing base t with
  | nil => exact hlines base t h
  | cons l blank ih =>
    have hquiet := quiet_of_isBlank hwhite (hblank l List.mem_cons_self)
    have hline : Tiles loud base l.text [] := hquiet
    exact tiles_line hwhite h hline fun base t h =>
      ih (fun l hl => hblank l (List.mem_cons_of_mem _ hl)) h

/-- A block of code and the tiling of the lines behind it. -/
theorem tiles_codeBlock {base : ℕ} {l : LineSlice} {block lines : List LineSlice} {t : List Char}
    {ss : List Chunking.Sentence} (hcode : isCodeLine l.text = true)
    (h : LinesOf base (l :: block ++ lines) t)
    (hlines : ∀ base t, LinesOf base lines t → Tiles loud base t ss) :
    Tiles loud base t ((codeBlock l.start (l :: block)).map Sentence.toSentence ++ ss) := by
  have hcodeLine := isBlank_of_isCodeLine hcode
  obtain ⟨kept, hkept⟩ : ∃ kept, (l :: block).rdropWhile isBlank = l :: kept := by
    cases hdrop : (l :: block).rdropWhile isBlank with
    | nil =>
      have hblank := List.rdropWhile_eq_nil_iff.mp hdrop l List.mem_cons_self
      exact absurd (hblank.symm.trans hcodeLine) (by simp)
    | cons l' kept =>
      have hpre := List.rdropWhile_prefix isBlank (l := l :: block)
      rw [hdrop, List.cons_prefix_cons] at hpre
      exact ⟨kept, by rw [hpre.1]⟩
  have hsplit : l :: block = l :: kept ++ (l :: block).rtakeWhile isBlank := by
    conv_lhs => rw [← List.rdropWhile_append_rtakeWhile (p := isBlank) (l := l :: block), hkept]
  rw [hsplit, List.append_assoc] at h
  obtain ⟨hstart, tail, rfl, htail⟩ := linesOf_block h
  have hblock : codeBlock l.start (l :: block) =
      [⟨⟨List.intercalate ['\n'] ((l :: kept).map LineSlice.text), l.start⟩, true⟩] := by
    rw [codeBlock, hkept]
    rfl
  rw [hblock]
  refine ⟨[], tail, rfl, fun c hc => absurd hc List.not_mem_nil, ?_, hstart, ?_⟩
  · -- the first line is not empty
    have hne : l.text ≠ [] := by
      intro hnil
      rw [isBlank, hnil] at hcodeLine
      exact absurd hcodeLine (by decide)
    intro hnil
    refine hne (List.prefix_nil.mp (hnil ▸ ?_))
    cases kept with
    | nil => simp [List.intercalate]
    | cons l' kept => simp [List.intercalate]
  · rcases htail with ⟨rfl, hnil⟩ | ⟨rest, rfl, hrest⟩
    · obtain rfl := (List.append_eq_nil_iff.mp hnil).2
      exact hlines _ [] rfl
    · exact tiles_newline hwhite
        (tiles_blank hwhite (fun l hl => List.mem_rtakeWhile_imp hl) hrest hlines)

/-- **The sentences of some lines** tile them. -/
theorem tiles_splitFrom {unicodeSentences : List Char → List (List Char)}
    (hsegments : ∀ line, Segmented loud line (unicodeSentences line)) (lines : List LineSlice) :
    ∃ ss, splitFrom unicodeSentences lines = some ss ∧
      ∀ base t, LinesOf base lines t → Tiles loud base t (ss.map Sentence.toSentence) := by
  fun_induction splitFrom unicodeSentences lines with
  | case1 =>
    refine ⟨[], rfl, ?_⟩
    rintro base t rfl c hc
    exact absurd hc List.not_mem_nil
  | case2 l lines hcode ih =>
    obtain ⟨later, hlater, htiles⟩ := ih
    refine ⟨codeBlock l.start (l :: lines.takeWhile continuesCode) ++ later,
      by rw [hlater]; rfl, fun base t h => ?_⟩
    rw [List.map_append]
    rw [← List.takeWhile_append_dropWhile (p := continuesCode) (l := lines)] at h
    exact tiles_codeBlock hwhite hcode h htiles
  | case3 l lines hprose ih =>
    obtain ⟨later, hlater, htiles⟩ := ih
    have htext : l.text = [] ++ l.text := rfl
    obtain ⟨ss, hss, hline⟩ := tiles_proseLoop hwhite l htext (hsegments l.text)
    refine ⟨ss ++ later, ?_, fun base t h => ?_⟩
    · rw [byteLen_nil] at hss
      rw [hss, hlater]
      rfl
    · rw [List.map_append]
      have hbase : l.start = base := h.1
      rw [byteLen_nil, Nat.add_zero, hbase] at hline
      exact tiles_line hwhite h hline htiles

end Split

/-- What the splitter promises about a text. -/
structure SplitLaw (isAlphanumeric : Char → Bool) (text : List Char) (ss : List Sentence) : Prop where
  /-- a slice also says that its ends are character boundaries -/
  slices : ∀ s ∈ ss, slice text s.offset s.stop = some s.text
  increasing : ss.Pairwise fun a b => a.offset < b.offset
  apart : ss.Pairwise fun a b => a.stop ≤ b.offset
  covers : ∀ a c b, text = a ++ c :: b → isAlphanumeric c = true → ∃ s ∈ ss,
    s.offset ≤ Utf8Text.byteLen a ∧ Utf8Text.byteLen a + c.utf8Size ≤ s.stop

/-- Sentences that tile the text meet the law of the split. -/
theorem splitLaw_of_tiles {isAlphanumeric : Char → Bool} {text : List Char} {ss : List Sentence}
    (h : Tiles isAlphanumeric 0 text (ss.map Sentence.toSentence)) :
    SplitLaw isAlphanumeric text ss := by
  have happart : ss.Pairwise fun a b => a.stop ≤ b.offset := List.pairwise_map.mp h.ordered
  refine ⟨fun s hs => ?_, happart.imp_of_mem fun {a b} ha _ hle => ?_, happart,
    fun a c b heq hc => ?_⟩
  · obtain ⟨-, a, b, heq, hoffset⟩ := h.occurs (List.mem_map_of_mem hs)
    rw [Nat.zero_add] at hoffset
    rw [Chunking.Sentence.stop, Chunking.Sentence.len, hoffset, heq]
    exact slice_append a s.text b
  · have hne := (h.occurs (List.mem_map_of_mem ha)).1
    have hpos : Utf8Text.byteLen a.text ≠ 0 := fun hzero => hne (byteLen_eq_zero.mp hzero)
    unfold Chunking.Sentence.stop Chunking.Sentence.len at hle
    omega
  · obtain ⟨s, hs, hle, hge⟩ := h.covers heq hc
    obtain ⟨s', hs', rfl⟩ := List.mem_map.mp hs
    rw [Nat.zero_add] at hle hge
    exact ⟨s', hs', hle, hge⟩

/-- **The splitter's law**: for every text it returns slices of it, in order and apart from each
other, and every letter and digit is in one of them. -/
theorem split_law {isAlphanumeric : Char → Bool} {unicodeSentences : List Char → List (List Char)}
    (hwhite : ∀ c, isAlphanumeric c = true → isWhitespace c = false)
    (hsegments : ∀ line, Segmented isAlphanumeric line (unicodeSentences line)) (text : List Char) :
    ∃ ss, split unicodeSentences text = some ss ∧ SplitLaw isAlphanumeric text ss := by
  obtain ⟨ss, hss, htiles⟩ := tiles_splitFrom hwhite hsegments (splitLinesWithOffsets text)
  exact ⟨ss, hss, splitLaw_of_tiles (htiles 0 text (linesOf_splitLines text))⟩

/-- A line with a letter or digit is one sentence. -/
def wholeLine (line : List Char) : List (List Char) :=
  if line.any Char.isAlphanum then [line] else []

/-- A line that is not divided. -/
theorem segmented_wholeLine (line : List Char) : Segmented Char.isAlphanum line (wholeLine line) := by
  unfold wholeLine
  split
  · rename_i hloud
    refine ⟨[], [], by simp, fun c hc => absurd hc List.not_mem_nil, ?_,
      fun c hc => absurd hc List.not_mem_nil⟩
    simpa using hloud
  · rename_i hquiet
    intro c hc
    cases hl : c.isAlphanum with
    | false => rfl
    | true => exact absurd (List.any_eq_true.mpr ⟨c, hc, hl⟩) hquiet

/-- A letter or a digit is no blank. -/
theorem isWhitespace_of_isAlphanum {c : Char} (h : c.isAlphanum = true) : isWhitespace c = false := by
  have hnat : c.val.toNat = c.toNat := rfl
  have hascii := Words.isAlphanum_ascii h
  simp only [isWhitespace, Bool.or_eq_false_iff, Bool.and_eq_false_iff, decide_eq_false_iff_not,
    beq_eq_false_iff_ne]
  omega

/-- A line of prose and two of code, with a blank line between them. -/
theorem split_law_prose_and_code :
    ∃ ss, split wholeLine "Hello you.\n\n  let x = 1;\n\ny[0]\n".toList = some ss ∧
      SplitLaw Char.isAlphanum "Hello you.\n\n  let x = 1;\n\ny[0]\n".toList ss :=
  split_law (fun _ h => isWhitespace_of_isAlphanum h) segmented_wholeLine _

/-- The sentences of the splitter are what the chunker asks for. -/
theorem exists_sentenceSplit {isAlphanumeric : Char → Bool}
    {unicodeSentences : List Char → List (List Char)}
    (hwhite : ∀ c, isAlphanumeric c = true → isWhitespace c = false)
    (hsegments : ∀ line, Segmented isAlphanumeric line (unicodeSentences line)) (text : List Char) :
    ∃ (ss : List Sentence) (input : Chunking.SentenceSplit text),
      split unicodeSentences text = some ss ∧ input.sentences = ss.map Sentence.toSentence := by
  obtain ⟨ss, hss, htiles⟩ := tiles_splitFrom hwhite hsegments (splitLinesWithOffsets text)
  have h := htiles 0 text (linesOf_splitLines text)
  refine ⟨ss, ⟨ss.map Sentence.toSentence, fun s hs => (h.occurs hs).1, fun s hs => ?_, h.ordered⟩,
    hss, rfl⟩
  obtain ⟨-, a, b, heq, hoffset⟩ := h.occurs hs
  exact ⟨a, b, heq, by rw [hoffset, Nat.zero_add]⟩

end SentenceSplitter
