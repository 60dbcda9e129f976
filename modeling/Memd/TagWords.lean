/-
# What a tag keeps of a text

`sanitize_tag_value` keeps the words of a text, the longest runs of ASCII letters and digits, in
lower case, and joins them with underscores (`sanitizeTagValue_eq`).  So two texts have one tag
exactly when they have the same words (`sanitizeTagValue_eq_iff`).
-/
import Memd.TaskStatements
import Memd.Words

namespace TagWords

open Words

/-- The ASCII words of a text in lower case. -/
def tagWords (s : List Char) : List (List Char) :=
  (words Char.isAlphanum s).map (List.map Char.toLower)

theorem tagWords_append_cons (l l' : List Char) {sep : Char} (h : sep.isAlphanum = false) :
    tagWords (l ++ sep :: l') = tagWords l ++ tagWords l' := by
  rw [tagWords, words_append_cons l l' h, List.map_append, ← tagWords, ← tagWords]

/-! ## The fold -/

mutual

/-- What is appended behind a letter, a digit or nothing. -/
def afterWord : List Char → List Char
  | [] => []
  | c :: l => if c.isAlphanum then c.toLower :: afterWord l else '_' :: afterGap l

/-- What is appended behind an underscore. -/
def afterGap : List Char → List Char
  | [] => []
  | c :: l => if c.isAlphanum then c.toLower :: afterWord l else afterGap l

end

/-- Letters and digits are ASCII: what holds of them can be checked. -/
theorem of_isAlphanum {P : Char → Prop}
    (hsmall : ∀ n : Fin 128, (Char.ofNat n).isAlphanum = true → P (Char.ofNat n)) {c : Char}
    (h : c.isAlphanum = true) : P c := by
  have hlt : c.toNat < 128 := by
    have hascii := isAlphanum_ascii h
    omega
  have hc := hsmall ⟨c.toNat, hlt⟩
  rw [Char.ofNat_toNat] at hc
  exact hc h

theorem toLower_ne_underscore {c : Char} (h : c.isAlphanum = true) : c.toLower ≠ '_' :=
  of_isAlphanum (P := fun c => c.toLower ≠ '_') (by decide) h

/-- **The fold** appends by what stands last. -/
theorem foldl_sanitizeChar (l out : List Char) : l.foldl sanitizeChar out =
    out ++ if out.getLast? = some '_' then afterGap l else afterWord l := by
  induction l generalizing out with
  | nil => simp [afterGap, afterWord]
  | cons c l ih =>
    rw [List.foldl_cons, ih, sanitizeChar, afterGap, afterWord]
    cases hc : c.isAlphanum with
    | true =>
      have hne : ¬ (out ++ [c.toLower]).getLast? = some '_' := by
        rw [List.getLast?_concat]
        exact fun h => toLower_ne_underscore hc (Option.some.inj h)
      simp only [if_true, if_neg hne, ite_self, List.append_assoc, List.cons_append, List.nil_append]
    | false =>
      by_cases hlast : out.getLast? = some '_'
      · simp only [Bool.false_eq_true, if_false, if_pos hlast]
      · have hgap : (out ++ ['_']).getLast? = some '_' := List.getLast?_concat
        simp only [Bool.false_eq_true, if_false, if_neg hlast, if_pos hgap, List.append_assoc,
          List.cons_append, List.nil_append]

/-! ## Trimming -/

/-- `trim_end_matches('_')`. -/
def trimEnd (l : List Char) : List Char :=
  (l.reverse.dropWhile (· == '_')).reverse

theorem trimEnd_cons (c : Char) (l : List Char) :
    trimEnd (c :: l) = if trimEnd l = [] then (if c = '_' then [] else [c]) else c :: trimEnd l := by
  rw [trimEnd, trimEnd, List.reverse_cons, List.dropWhile_append]
  cases hdrop : l.reverse.dropWhile (· == '_') with
  | nil =>
    by_cases hc : c = '_'
    · simp [hc]
    · simp [hc]
  | cons d r => simp

theorem trimEnd_cons_of_ne {c : Char} (h : c ≠ '_') (l : List Char) :
    trimEnd (c :: l) = c :: trimEnd l := by
  rw [trimEnd_cons, if_neg h]
  split_ifs with hnil
  · rw [hnil]
  · rfl

/-- Nothing to drop in front behind a gap. -/
theorem dropWhile_afterGap (l : List Char) : (afterGap l).dropWhile (· == '_') = afterGap l := by
  induction l with
  | nil => rfl
  | cons c l ih =>
    rw [afterGap]
    split_ifs with hc
    · exact List.dropWhile_cons_of_neg (by simpa using toLower_ne_underscore hc)
    · exact ih

theorem dropWhile_afterWord (l : List Char) : (afterWord l).dropWhile (· == '_') = afterGap l := by
  cases l with
  | nil => rfl
  | cons c l =>
    rw [afterWord, afterGap]
    split_ifs with hc
    · exact List.dropWhile_cons_of_neg (by simpa using toLower_ne_underscore hc)
    · rw [List.dropWhile_cons_of_pos (by simp), dropWhile_afterGap]

/-! ## Words -/

/-- Words behind a word: a separator in front of them, if there are any. -/
def joinRest (ws : List (List Char)) : List Char :=
  if ws = [] then [] else '_' :: ['_'].intercalate ws

theorem tagWords_ne_nil {l w : List Char} (h : w ∈ tagWords l) : w ≠ [] := by
  obtain ⟨v, hv, rfl⟩ := List.mem_map.mp h
  intro hnil
  exact (mem_words hv).1 (List.map_eq_nil_iff.mp hnil)

theorem not_mem_of_tagWords {l w : List Char} (h : w ∈ tagWords l) : '_' ∉ w := by
  obtain ⟨v, hv, rfl⟩ := List.mem_map.mp h
  intro hmem
  obtain ⟨c, hc, heq⟩ := List.mem_map.mp hmem
  exact toLower_ne_underscore ((mem_words hv).2 c hc) heq

/-- What is appended, up to trailing underscores: behind a word the rest of that word and the
words that follow, behind a gap the words. -/
theorem trimEnd_after (l : List Char) :
    (∃ first, trimEnd (afterWord l) = first.map Char.toLower ++
        joinRest (((l.splitOnP fun a => !a.isAlphanum).tail.filter fun w => !w.isEmpty).map
          (List.map Char.toLower)) ∧ (l.splitOnP fun a => !a.isAlphanum).head? = some first) ∧
      trimEnd (afterGap l) = ['_'].intercalate (tagWords l) := by
  induction l with
  | nil => exact ⟨⟨[], rfl, rfl⟩, rfl⟩
  | cons c l ih =>
    obtain ⟨⟨first, hword, hfirst⟩, hgap⟩ := ih
    rw [afterWord, afterGap]
    cases hc : c.isAlphanum with
    | true =>
      obtain ⟨first', rest, hsplit, -⟩ := exists_splitOnP (p := Char.isAlphanum) l
      obtain rfl : first' = first := by simpa [hsplit] using hfirst
      have hcons : (c :: l).splitOnP (fun a => !a.isAlphanum) = (c :: first') :: rest := by
        rw [List.splitOnP_cons_eq_if_modifyHead, hsplit]
        simp [hc]
      have htrim : trimEnd (c.toLower :: afterWord l) = (c :: first').map Char.toLower ++
          joinRest ((rest.filter fun w => !w.isEmpty).map (List.map Char.toLower)) := by
        rw [trimEnd_cons_of_ne (toLower_ne_underscore hc), hword, hsplit]
        rfl
      rw [if_pos rfl, if_pos rfl, hcons]
      refine ⟨⟨c :: first', htrim, rfl⟩, ?_⟩
      have hwords : tagWords (c :: l) = (c :: first').map Char.toLower ::
          (rest.filter fun w => !w.isEmpty).map (List.map Char.toLower) := by
        rw [tagWords, words, hcons, List.filter_cons_of_pos (by simp), List.map_cons]
      rw [htrim, hwords, intercalate_cons, joinRest]
      rfl
    | false =>
      have hcons : (c :: l).splitOnP (fun a => !a.isAlphanum) =
          [] :: l.splitOnP (fun a => !a.isAlphanum) := by
        rw [List.splitOnP_cons_eq_if_modifyHead]
        simp [hc]
      have hwords : tagWords (c :: l) = tagWords l := by
        rw [tagWords, words_cons_of_neg hc, ← tagWords]
      rw [if_neg (by simp), if_neg (by simp), hcons, hwords]
      refine ⟨⟨[], ?_, rfl⟩, hgap⟩
      rw [trimEnd_cons, hgap, List.map_nil, List.nil_append, List.tail_cons]
      show _ = joinRest (tagWords l)
      rw [joinRest]
      by_cases hnil : tagWords l = []
      · rw [hnil]
        rfl
      · have hne : ['_'].intercalate (tagWords l) ≠ [] := fun h =>
          hnil (intercalate_eq_nil (fun w hw => tagWords_ne_nil hw) h)
        rw [if_neg hne, if_neg hnil]

end TagWords

open TagWords

/-- **A tag value** is the words of the text, joined. -/
theorem sanitizeTagValue_eq (s : String) :
    (sanitizeTagValue s).toList = ['_'].intercalate (tagWords s.toList) := by
  have hfold : s.toList.foldl sanitizeChar [] = afterWord s.toList := by
    rw [foldl_sanitizeChar]
    rfl
  rw [sanitizeTagValue, String.toList_ofList, hfold, dropWhile_afterWord]
  exact (trimEnd_after s.toList).2

/-- **Two texts have one tag value** when they have the same words. -/
theorem sanitizeTagValue_eq_iff {s s' : String} :
    sanitizeTagValue s = sanitizeTagValue s' ↔ tagWords s.toList = tagWords s'.toList := by
  rw [← String.toList_inj, sanitizeTagValue_eq, sanitizeTagValue_eq]
  constructor
  · exact Words.intercalate_injective
      (fun w hw => ⟨tagWords_ne_nil hw, not_mem_of_tagWords hw⟩)
      (fun w hw => ⟨tagWords_ne_nil hw, not_mem_of_tagWords hw⟩)
  · exact fun h => by rw [h]

/-- What a tag value is made of. -/
theorem mem_sanitizeTagValue {s : String} {c : Char} (h : c ∈ (sanitizeTagValue s).toList) :
    c = '_' ∨ ∃ d : Char, d.isAlphanum = true ∧ c = d.toLower := by
  rw [sanitizeTagValue_eq] at h
  generalize hws : tagWords s.toList = ws at h
  have hmem : ∀ w ∈ ws, ∀ c ∈ w, ∃ d : Char, d.isAlphanum = true ∧ c = d.toLower := by
    intro w hw c hc
    rw [← hws] at hw
    obtain ⟨v, hv, rfl⟩ := List.mem_map.mp hw
    obtain ⟨d, hd, rfl⟩ := List.mem_map.mp hc
    exact ⟨d, (Words.mem_words hv).2 d hd, rfl⟩
  clear hws
  induction ws with
  | nil => exact absurd h List.not_mem_nil
  | cons w ws ih =>
    rw [Words.intercalate_cons, List.mem_append] at h
    rcases h with h | h
    · exact Or.inr (hmem w List.mem_cons_self c h)
    · split_ifs at h with hnil
      · exact absurd h List.not_mem_nil
      · rcases List.mem_append.mp h with h | h
        · exact Or.inl (List.mem_singleton.mp h)
        · exact ih h fun w hw => hmem w (List.mem_cons_of_mem _ hw)

theorem colon_not_mem_sanitizeTagValue (s : String) : ':' ∉ (sanitizeTagValue s).toList := by
  intro h
  rcases mem_sanitizeTagValue h with h | ⟨d, hd, h⟩
  · exact absurd h (by decide)
  · exact TagWords.of_isAlphanum (P := fun d => ':' ≠ d.toLower) (by decide) hd h
