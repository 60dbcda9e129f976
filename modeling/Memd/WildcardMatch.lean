/-
# Matching with stars

`wildcard_match` takes a pattern apart at its stars and looks for the parts one behind the other,
each at its first occurrence; the first part has to stand at the start of the text and the last
one at its end, unless a star stands there.

* `StarsFilled` — a text is a pattern with its stars replaced;
* `wildcardLoop_spec` — the loop never cuts a character and finds the parts if they occur in order;
* `starsFilled_iff` — what a pattern asks of its parts;
* `wildcard_match_exact` — the function decides the relation.
-/
import Memd.TextSearch
import Memd.WriteAdmission

open Utf8Text Text

/-! ## The function -/

/-- The loop over the parts; `none` is a slice that starts inside a character, and `some false` the
early return. -/
def wildcardLoop (startsWithStar : Bool) (text : List Char) :
    (idx cursor : ℕ) → List (List Char) → Option Bool
  | _, _, [] => some true
  | idx, cursor, part :: parts => do
    let slice ← sliceFrom text cursor
    match find part slice with
    | none => some false
    | some found =>
      if idx = 0 ∧ startsWithStar = false ∧ found ≠ 0 then some false
      else wildcardLoop startsWithStar text (idx + 1) (cursor + (found + Utf8Text.byteLen part)) parts

/-- The check of the last part behind the loop. -/
def endsWithLast (parts : List (List Char)) (text : List Char) : Bool :=
  match parts.getLast? with
  | some last => last.isSuffixOf text
  | none => true

/-- `wildcard_match`; `none` is a slice that starts inside a character. -/
def wildcardMatch (pattern text : String) : Option Bool :=
  let pattern := asciiLower pattern.toList
  let text := asciiLower text.toList
  if pattern = ['*'] then some true
  else if '*' ∉ pattern then some (decide (pattern <:+: text))
  else
    let parts := (pattern.splitOn '*').filter (· ≠ [])
    if parts = [] then some true
    else do
      let found ← wildcardLoop (pattern.head? == some '*') text 0 0 parts
      pure (found && (pattern.getLast? == some '*' || endsWithLast parts text))

/-- The text is the pattern with a text in the place of each star. -/
inductive StarsFilled : List Char → List Char → Prop
  | nil : StarsFilled [] []
  | char {c : Char} {p t : List Char} (h : c ≠ '*') : StarsFilled p t → StarsFilled (c :: p) (c :: t)
  | star (s : List Char) {p t : List Char} : StarsFilled p t → StarsFilled ('*' :: p) (s ++ t)

/-! ## The loop -/

/-- **The loop** never cuts a character, and it runs to its end if the parts occur in order. -/
theorem wildcardLoop_spec (startsWithStar : Bool) (idx : ℕ) (hfree : idx ≠ 0 ∨ startsWithStar = true)
    (parts : List (List Char)) (a b : List Char) :
    ∃ r, wildcardLoop startsWithStar (a ++ b) idx (Utf8Text.byteLen a) parts = some r ∧
      (r = true ↔ InOrder parts b) := by
  induction parts generalizing idx a b with
  | nil => exact ⟨true, rfl, iff_of_true rfl trivial⟩
  | cons part parts ih =>
    rw [wildcardLoop, sliceFrom_append]
    show ∃ r, (match find part b with | none => some false | some found => _) = some r ∧ _
    cases hfind : find part b with
    | none =>
      refine ⟨false, rfl, iff_of_false Bool.false_ne_true ?_⟩
      rintro ⟨c, d, rfl, -⟩
      exact find_eq_none_iff.mp hfind ⟨c, d, by rw [List.append_assoc]⟩
    | some found =>
      obtain ⟨c, d, hfirst, rfl⟩ := find_eq_some_iff.mp hfind
      have hgo : ¬ (idx = 0 ∧ startsWithStar = false ∧ Utf8Text.byteLen c ≠ 0) := by
        rintro ⟨hidx, hstar, -⟩
        rcases hfree with h | h
        · exact h hidx
        · exact absurd (hstar.symm.trans h) Bool.false_ne_true
      obtain ⟨r, hr, hiff⟩ := ih (idx + 1) (.inl (Nat.succ_ne_zero idx)) (a ++ (c ++ part)) d
      refine ⟨r, ?_, hiff.trans (inOrder_cons_iff hfirst).symm⟩
      dsimp only
      rw [if_neg hgo, ← hr, hfirst.eq, byteLen_append, byteLen_append]
      simp only [List.append_assoc]

/-- The loop of a pattern that starts with a part: the part has to stand in front. -/
theorem wildcardLoop_anchored (part : List Char) (parts : List (List Char)) (text : List Char) :
    ∃ r, wildcardLoop false text 0 0 (part :: parts) = some r ∧
      (r = true ↔ ∃ rest, text = part ++ rest ∧ InOrder parts rest) := by
  have hslice : sliceFrom text 0 = some text := sliceFrom_append [] text
  rw [wildcardLoop, hslice]
  show ∃ r, (match find part text with | none => some false | some found => _) = some r ∧ _
  cases hfind : find part text with
  | none =>
    refine ⟨false, rfl, iff_of_false Bool.false_ne_true ?_⟩
    rintro ⟨rest, rfl, -⟩
    exact find_eq_none_iff.mp hfind ⟨[], rest, rfl⟩
  | some found =>
    obtain ⟨c, d, hfirst, rfl⟩ := find_eq_some_iff.mp hfind
    dsimp only
    by_cases hzero : Utf8Text.byteLen c = 0
    · obtain rfl := byteLen_eq_zero.mp hzero
      obtain ⟨r, hr, hiff⟩ := wildcardLoop_spec false 1 (.inl Nat.one_ne_zero) parts part d
      refine ⟨r, ?_, hiff.trans ⟨fun h => ⟨d, hfirst.eq, h⟩, ?_⟩⟩
      · rw [if_neg (by simp), ← hr, hfirst.eq]
        simp
      · rintro ⟨rest, heq, h⟩
        rw [hfirst.eq, List.nil_append, List.append_cancel_left_eq] at heq
        exact heq ▸ h
    · -- it occurs, but not in front
      rw [if_pos ⟨rfl, rfl, hzero⟩]
      refine ⟨false, rfl, iff_of_false Bool.false_ne_true ?_⟩
      rintro ⟨rest, rfl, -⟩
      have hnil := List.prefix_nil.mp (hfirst.first [] rest rfl)
      exact hzero (by rw [hnil, byteLen_nil])

/-! ## The parts of a pattern -/

/-- A pattern, as the part in front of its first star and the parts behind the stars. -/
def joinStars (p : List Char) (ps : List (List Char)) : List Char :=
  p ++ ps.flatMap ('*' :: ·)

theorem splitOn_star (pattern : List Char) : ∃ p ps, pattern.splitOn '*' = p :: ps ∧
    pattern = joinStars p ps ∧ '*' ∉ p ∧ ∀ q ∈ ps, '*' ∉ q := by
  induction pattern with
  | nil => exact ⟨[], [], by simp, rfl, List.not_mem_nil, fun _ h => absurd h List.not_mem_nil⟩
  | cons c pattern ih =>
    obtain ⟨p, ps, hsplit, heq, hp, hps⟩ := ih
    rw [List.splitOn_cons_eq_if_modifyHead, hsplit]
    by_cases hc : c = '*'
    · subst hc
      refine ⟨[], p :: ps, by simp, by rw [heq]; simp [joinStars], List.not_mem_nil, ?_⟩
      intro q hq
      rcases List.mem_cons.mp hq with rfl | hq
      · exact hp
      · exact hps q hq
    · refine ⟨c :: p, ps, by simp [hc], by rw [heq]; simp [joinStars], ?_, hps⟩
      simp [hp, Ne.symm hc]

section Parts

variable {p : List Char} {ps : List (List Char)}

theorem mem_joinStars_iff (hp : '*' ∉ p) : '*' ∈ joinStars p ps ↔ ps ≠ [] := by
  cases ps with
  | nil => simp [joinStars, hp]
  | cons q ps => simp [joinStars]

theorem head?_joinStars_iff (hp : '*' ∉ p) (hps : ps ≠ []) :
    (joinStars p ps).head? = some '*' ↔ p = [] := by
  obtain ⟨q, ps, rfl⟩ := List.exists_cons_of_ne_nil hps
  cases p with
  | nil => simp [joinStars]
  | cons c p =>
    have hc : c ≠ '*' := fun h => hp (h ▸ List.mem_cons_self)
    simp [joinStars, hc]

theorem getLast?_joinStars_iff {last : List Char} (hlast : '*' ∉ last) :
    (joinStars p (ps ++ [last])).getLast? = some '*' ↔ last = [] := by
  have heq : joinStars p (ps ++ [last]) = (p ++ ps.flatMap ('*' :: ·)) ++ '*' :: last := by
    simp [joinStars]
  rw [heq]
  rcases List.eq_nil_or_concat last with rfl | ⟨front, c, rfl⟩
  · simp
  · have hc : c ≠ '*' := by
      rintro rfl
      simp at hlast
    rw [List.getLast?_append, List.getLast?_cons, List.concat_eq_append, List.getLast?_concat]
    simp [hc]

/-! ### What they ask of a text -/

theorem starsFilled_append_iff (hp : '*' ∉ p) {q t : List Char} :
    StarsFilled (p ++ q) t ↔ ∃ rest, t = p ++ rest ∧ StarsFilled q rest := by
  induction p generalizing t with
  | nil => simp
  | cons c p ih =>
    have hc : c ≠ '*' := fun h => hp (h ▸ List.mem_cons_self)
    have hrest : '*' ∉ p := fun h => hp (List.mem_cons_of_mem c h)
    constructor
    · intro h
      rw [List.cons_append] at h
      cases h with
      | char _ h =>
        obtain ⟨rest, rfl, hrest⟩ := (ih hrest).mp h
        exact ⟨rest, rfl, hrest⟩
      | star s h => exact absurd rfl hc
    · rintro ⟨rest, rfl, h⟩
      exact .char hc ((ih hrest).mpr ⟨rest, rfl, h⟩)

theorem starsFilled_star_iff {q t : List Char} :
    StarsFilled ('*' :: q) t ↔ ∃ s rest, t = s ++ rest ∧ StarsFilled q rest := by
  constructor
  · intro h
    cases h with
    | char h _ => exact absurd rfl h
    | star s h => exact ⟨s, _, rfl, h⟩
  · rintro ⟨s, rest, rfl, h⟩
    exact .star s h

/-- The parts behind stars: all but the last anywhere in order, and the last at the end. -/
theorem starsFilled_flatMap_iff {last t : List Char} (hps : ∀ q ∈ ps ++ [last], '*' ∉ q) :
    StarsFilled ((ps ++ [last]).flatMap ('*' :: ·)) t ↔
      ∃ front, t = front ++ last ∧ InOrder ps front := by
  induction ps generalizing t with
  | nil =>
    have hlast : '*' ∉ last := hps last (by simp)
    have heq : ([] ++ [last]).flatMap ('*' :: ·) = '*' :: (last ++ []) := by simp
    rw [heq, starsFilled_star_iff]
    constructor
    · rintro ⟨s, rest, rfl, h⟩
      obtain ⟨rest', rfl, hnil⟩ := (starsFilled_append_iff hlast).mp h
      cases hnil
      exact ⟨s, by rw [List.append_nil], trivial⟩
    · rintro ⟨front, rfl, -⟩
      exact ⟨front, last, rfl, (starsFilled_append_iff hlast).mpr ⟨[], by simp, .nil⟩⟩
  | cons q ps ih =>
    have hq : '*' ∉ q := hps q List.mem_cons_self
    have ih := fun t => ih (t := t) fun q hq => hps q (List.mem_cons_of_mem _ hq)
    rw [List.cons_append, List.flatMap_cons, List.cons_append, starsFilled_star_iff]
    constructor
    · rintro ⟨s, rest, rfl, h⟩
      obtain ⟨rest', rfl, hrest⟩ := (starsFilled_append_iff hq).mp h
      obtain ⟨front, rfl, hfront⟩ := (ih rest').mp hrest
      exact ⟨s ++ (q ++ front), by simp only [List.append_assoc], s, front, rfl, hfront⟩
    · rintro ⟨_, rfl, s, front, rfl, hfront⟩
      refine ⟨s, q ++ (front ++ last), by simp only [List.append_assoc], ?_⟩
      exact (starsFilled_append_iff hq).mpr ⟨_, rfl, (ih _).mpr ⟨front, rfl, hfront⟩⟩

/-- **What a pattern asks of its parts**: the first in front, the others in order behind it, and
the last at the end. -/
theorem starsFilled_iff {last t : List Char} (hp : '*' ∉ p) (hps : ∀ q ∈ ps ++ [last], '*' ∉ q) :
    StarsFilled (joinStars p (ps ++ [last])) t ↔
      ∃ rest, t = p ++ rest ∧ InOrder (ps ++ [last]) rest ∧ last <:+ t := by
  rw [joinStars, starsFilled_append_iff hp]
  refine exists_congr fun rest => and_congr_right fun heq => ?_
  rw [starsFilled_flatMap_iff hps, ← inOrder_concat_iff]
  refine and_congr_right fun horder => ⟨fun h => h.trans (heq ▸ List.suffix_append p rest), fun h => ?_⟩
  exact List.suffix_of_suffix_length_le h (heq ▸ List.suffix_append p rest) horder.last_length_le

end Parts

/-! ## The decision -/

theorem toLower_eq_star_iff (c : Char) : c.toLower = '*' ↔ c = '*' := by
  constructor
  · intro h
    unfold Char.toLower at h
    split at h
    · rename_i hupper
      -- the lower case of a letter is no star
      have hval := congrArg (fun d => d.val.toNat) h
      have hlow : 65 ≤ c.val.toNat := UInt32.le_iff_toNat_le.mp hupper.1
      have hhigh : c.val.toNat ≤ 90 := UInt32.le_iff_toNat_le.mp hupper.2
      have hsum : (c.val + ('a'.val - 'A'.val)).toNat = 42 := hval
      rw [UInt32.toNat_add] at hsum
      have hshift : ('a'.val - 'A'.val).toNat = 32 := by decide
      omega
    · exact h
  · rintro rfl
    rfl

theorem star_mem_asciiLower_iff (l : List Char) : '*' ∈ asciiLower l ↔ '*' ∈ l := by
  rw [asciiLower, List.mem_map]
  constructor
  · rintro ⟨c, hc, hstar⟩
    exact (toLower_eq_star_iff c).mp hstar ▸ hc
  · exact fun h => ⟨'*', h, rfl⟩

section Decision

variable {p last : List Char} {ps : List (List Char)}

/-- The parts the loop goes over. -/
theorem wildcardLoop_parts (p : List Char) (ps : List (List Char)) (text : List Char) :
    ∃ found, wildcardLoop (decide (p = [])) text 0 0 ((p :: ps).filter (· ≠ [])) = some found ∧
      (found = true ↔ ∃ rest, text = p ++ rest ∧ InOrder ps rest) := by
  by_cases hp : p = []
  · subst hp
    obtain ⟨found, hfound, hiff⟩ := wildcardLoop_spec true 0 (.inr rfl) (ps.filter (· ≠ [])) []
      text
    refine ⟨found, hfound, hiff.trans ?_⟩
    rw [inOrder_filter_iff]
    exact ⟨fun h => ⟨text, rfl, h⟩, fun ⟨rest, heq, h⟩ => heq ▸ h⟩
  · obtain ⟨found, hfound, hiff⟩ := wildcardLoop_anchored p (ps.filter (· ≠ [])) text
    refine ⟨found, ?_, hiff.trans (exists_congr fun rest => and_congr_right fun _ =>
      inOrder_filter_iff ps)⟩
    rw [List.filter_cons_of_pos (by simpa using hp), decide_eq_false hp]
    exact hfound

theorem endsWithLast_iff {text : List Char} (hlast : last ≠ []) :
    endsWithLast ((p :: (ps ++ [last])).filter (· ≠ [])) text = true ↔ last <:+ text := by
  have hsingle : [last].filter (· ≠ []) = [last] := by simp [hlast]
  rw [← List.cons_append, List.filter_append, hsingle, endsWithLast, List.getLast?_concat]
  exact List.isSuffixOf_iff_suffix

/-- A pattern of stars matches every text. -/
theorem starsFilled_of_no_parts {text : List Char} (hp : '*' ∉ p) (hps : ∀ q ∈ ps ++ [last], '*' ∉ q)
    (hnone : (p :: (ps ++ [last])).filter (· ≠ []) = []) :
    StarsFilled (joinStars p (ps ++ [last])) text := by
  have hempty : ∀ q ∈ p :: (ps ++ [last]), q = [] := by
    intro q hq
    simpa using List.filter_eq_nil_iff.mp hnone q hq
  obtain rfl := hempty p List.mem_cons_self
  obtain rfl := hempty last (by simp)
  refine (starsFilled_iff hp hps).mpr ⟨text, rfl, ?_, List.nil_suffix⟩
  rw [← inOrder_filter_iff, ← List.filter_cons_of_neg (p := (· ≠ [])) (a := []) (by simp), hnone]
  trivial

/-- What the function computes from the parts of a pattern with stars. -/
theorem wildcardParts_spec (text : List Char) (hp : '*' ∉ p) (hps : ∀ q ∈ ps ++ [last], '*' ∉ q) :
    ∃ found, wildcardLoop ((joinStars p (ps ++ [last])).head? == some '*') text 0 0
        ((p :: (ps ++ [last])).filter (· ≠ [])) = some found ∧
      ((found && ((joinStars p (ps ++ [last])).getLast? == some '*'
          || endsWithLast ((p :: (ps ++ [last])).filter (· ≠ [])) text)) = true ↔
        StarsFilled (joinStars p (ps ++ [last])) text) := by
  obtain ⟨found, hfound, hiff⟩ := wildcardLoop_parts p (ps ++ [last]) text
  have hhead : ((joinStars p (ps ++ [last])).head? == some '*') = decide (p = []) := by
    rw [Bool.eq_iff_iff, beq_iff_eq, decide_eq_true_iff]
    exact head?_joinStars_iff hp (by simp)
  refine ⟨found, by rw [hhead]; exact hfound, ?_⟩
  rw [Bool.and_eq_true, hiff, Bool.or_eq_true, beq_iff_eq,
    getLast?_joinStars_iff (hps last (by simp)), starsFilled_iff hp hps]
  have hend : (last = [] ∨ endsWithLast ((p :: (ps ++ [last])).filter (· ≠ [])) text = true) ↔
      last <:+ text := by
    by_cases hlast : last = []
    · subst hlast
      exact iff_of_true (.inl rfl) List.nil_suffix
    · rw [endsWithLast_iff hlast, or_iff_right hlast]
  rw [hend]
  constructor
  · rintro ⟨⟨rest, heq, horder⟩, hsuffix⟩
    exact ⟨rest, heq, horder, hsuffix⟩
  · rintro ⟨rest, heq, horder, hsuffix⟩
    exact ⟨⟨rest, heq, horder⟩, hsuffix⟩

end Decision

/-- **Matching with stars** decides what it is meant to: a pattern with stars matches the texts
that are the pattern with its stars replaced, one without stars the texts it occurs in. -/
theorem wildcard_match_exact (pattern text : String) :
    ∃ r, wildcardMatch pattern text = some r ∧ (r = true ↔
      if '*' ∈ pattern.toList then StarsFilled (asciiLower pattern.toList) (asciiLower text.toList)
      else asciiLower pattern.toList <:+: asciiLower text.toList) := by
  unfold wildcardMatch
  obtain ⟨p, ps, hsplit, hpattern, hp, hps⟩ := splitOn_star (asciiLower pattern.toList)
  have hmem := star_mem_asciiLower_iff pattern.toList
  have hne : '*' ∉ pattern.toList → asciiLower pattern.toList ≠ ['*'] := by
    intro hnot heq
    exact hnot (hmem.mp (heq ▸ List.mem_cons_self))
  by_cases hstar : '*' ∈ pattern.toList
  · rw [if_pos hstar]
    dsimp only
    rw [if_neg (not_not.mpr (hmem.mpr hstar)), hsplit, hpattern]
    have hps' : ps ≠ [] := (mem_joinStars_iff hp).mp (hpattern ▸ hmem.mpr hstar)
    obtain ⟨front, last, rfl⟩ : ∃ front last, ps = front ++ [last] :=
      ⟨ps.dropLast, ps.getLast hps', (List.dropLast_append_getLast hps').symm⟩
    by_cases hall : joinStars p (front ++ [last]) = ['*']
    · -- a star alone
      rw [if_pos hall, hall]
      refine ⟨true, rfl, iff_of_true rfl ?_⟩
      exact starsFilled_star_iff.mpr ⟨_, [], (List.append_nil _).symm, .nil⟩
    · rw [if_neg hall]
      split
      · rename_i hnone
        exact ⟨true, rfl, iff_of_true rfl (starsFilled_of_no_parts hp hps hnone)⟩
      · obtain ⟨found, hfound, hiff⟩ := wildcardParts_spec (asciiLower text.toList) hp hps
        rw [hfound]
        exact ⟨_, rfl, hiff⟩
  · rw [if_neg hstar]
    dsimp only
    rw [if_neg (hne hstar), if_pos (mt hmem.mp hstar)]
    exact ⟨_, rfl, decide_eq_true_iff⟩

example : wildcardMatch "src/*Test*.RS" "SRC/a/test_b.rs" = some true := by
  decide
