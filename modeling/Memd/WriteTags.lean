/-
# The tags of a write

`normalize_tags` trims the tags of a caller, leaves out the empty ones and keeps the first of
each; `downgrade_high_priority_tags` lowers a priority of eight or more to seven, in place.

* `TagsClean` — trimmed, not empty, no tag twice: what `normalizeTags` makes
  (`normalizeTags_clean`) and leaves alone (`TagsClean.normalizeTags_eq_self`);
* `downgradeTag_of_high`, `downgradeTag_of_not_high` — the lowering of one tag;
* `exists_landsOn_of_downgradeTag_eq` — two tags are lowered to the same one only where both land
  on one mark.
-/
import Mathlib.Data.List.DropRight
import Mathlib.Tactic.NormNum
import Memd.RankedMerge
import Memd.WriteAdmission

open Text

/-! ## Normalized tags -/

namespace Text

/-- Trimming twice is trimming once. -/
theorem trim_idempotent (l : List Char) : trim (trim l) = trim l := by
  have hfront : (trim l).dropWhile isWhitespace = trim l := by
    have hpre : trim l <+: l.dropWhile isWhitespace :=
      List.rdropWhile_prefix isWhitespace _
    rw [List.dropWhile_eq_self_iff]
    intro hpos
    have hlen : 0 < (l.dropWhile isWhitespace).length := hpos.trans_le hpre.length_le
    rw [hpre.getElem hpos]
    exact List.dropWhile_get_zero_not isWhitespace l hlen
  calc trim (trim l)
      = ((trim l).dropWhile isWhitespace).rdropWhile isWhitespace := rfl
    _ = (trim l).rdropWhile isWhitespace := by rw [hfront]
    _ = trim l := List.rdropWhile_idempotent isWhitespace _

/-- What starts with one pattern does not start with another, unless one of them goes on as the
other. -/
theorem startsWith_append_eq_false {pre pat : String} (s : String)
    (hpre : ¬pre.toList <+: pat.toList) (hpat : ¬pat.toList <+: pre.toList) :
    startsWith (pre ++ s).toList pat = false := by
  rw [startsWith, Bool.eq_false_iff, Ne, List.isPrefixOf_iff_prefix, String.toList_append]
  intro h
  rcases List.prefix_or_prefix_of_prefix h (List.prefix_append pre.toList s.toList) with h | h
  · exact hpat h
  · exact hpre h

/-- A tag with another beginning is another tag. -/
theorem append_ne {pre pat : String} (s : String) (hpre : ¬pre.toList <+: pat.toList) :
    pre ++ s ≠ pat := by
  rintro rfl
  rw [String.toList_append] at hpre
  exact hpre (List.prefix_append _ _)

/-- A tag starts with its prefix. -/
theorem startsWith_append_self (pre s : String) : startsWith (pre ++ s).toList pre = true := by
  rw [startsWith, List.isPrefixOf_iff_prefix, String.toList_append]
  exact List.prefix_append _ _

/-- A text that starts with a pattern is the pattern and the rest. -/
theorem eq_append_of_startsWith {s pre : String} (h : startsWith s.toList pre = true) :
    s = pre ++ String.ofList (s.toList.drop pre.toList.length) := by
  obtain ⟨rest, hrest⟩ := List.isPrefixOf_iff_prefix.mp h
  apply String.toList_injective
  rw [String.toList_append, String.toList_ofList, ← hrest, List.drop_left]

end Text

/-- `str::trim` of a tag. -/
def trimTag (tag : String) : String :=
  String.ofList (trim tag.toList)

/-- A trimmed tag stays as it is. -/
theorem trimTag_idempotent (tag : String) : trimTag (trimTag tag) = trimTag tag := by
  rw [trimTag, trimTag, String.toList_ofList, trim_idempotent]

/-- Trimmed, not empty, and no tag twice. -/
structure TagsClean (tags : List String) : Prop where
  trimmed : ∀ tag ∈ tags, trimTag tag = tag
  nonempty : ∀ tag ∈ tags, tag ≠ ""
  nodup : tags.Nodup

/-- The seen tags are the ones that are kept. -/
theorem foldl_normalize (l : List String) : ∀ acc : List String,
    l.foldl (fun seen tag => if seen.contains tag then seen else seen ++ [tag]) acc =
      acc ++ Ranked.firstOf id acc.toFinset l := by
  induction l with
  | nil => intro acc; simp
  | cons tag l ih =>
    intro acc
    rw [List.foldl_cons, ih]
    by_cases h : tag ∈ acc
    · rw [if_pos (List.contains_iff_mem.mpr h),
        Ranked.firstOf_cons_of_mem (by simpa using h)]
    · have hset : (acc ++ [tag]).toFinset = insert tag acc.toFinset := by
        ext x
        simp
      rw [if_neg (by simpa using h), Ranked.firstOf_cons_of_notMem (by simpa using h), hset,
        List.append_assoc]
      rfl

/-- Normalizing trims the tags, drops the empty ones and keeps the first of each. -/
theorem normalizeTags_eq (tags : List String) :
    normalizeTags tags = Ranked.firstOf id ∅ ((tags.map trimTag).filter (· ≠ "")) := by
  rw [normalizeTags, foldl_normalize]
  rfl

/-- The normalized tags are the given ones, trimmed and not empty. -/
theorem mem_normalizeTags {tags : List String} {tag : String} :
    tag ∈ normalizeTags tags ↔ tag ≠ "" ∧ ∃ given ∈ tags, trimTag given = tag := by
  have hmem : tag ∈ (tags.map trimTag).filter (· ≠ "") ↔
      tag ≠ "" ∧ ∃ given ∈ tags, trimTag given = tag := by
    simp [and_comm]
  rw [normalizeTags_eq, ← hmem]
  constructor
  · exact fun h => (Ranked.firstOf_sublist id _ ∅).subset h
  · intro h
    obtain ⟨kept, hkept, heq⟩ := Ranked.exists_mem_firstOf id _ ∅ tag h (Finset.notMem_empty _)
    exact (show kept = tag from heq) ▸ hkept

/-- Normalized tags are clean. -/
theorem normalizeTags_clean (tags : List String) : TagsClean (normalizeTags tags) where
  trimmed := by
    intro tag h
    obtain ⟨-, given, -, rfl⟩ := mem_normalizeTags.mp h
    exact trimTag_idempotent given
  nonempty := fun tag h => (mem_normalizeTags.mp h).1
  nodup := by
    have h := Ranked.firstOf_nodup id ∅ ((tags.map trimTag).filter (· ≠ ""))
    rwa [List.map_id, ← normalizeTags_eq] at h

/-- Clean tags are left alone. -/
theorem TagsClean.normalizeTags_eq_self {tags : List String} (h : TagsClean tags) :
    normalizeTags tags = tags := by
  have hmap : tags.map trimTag = tags := by
    conv_rhs => rw [← List.map_id tags]
    exact List.map_congr_left h.trimmed
  rw [normalizeTags_eq, hmap, List.filter_eq_self.mpr (by simpa using h.nonempty)]
  exact Ranked.firstOf_eq_self (by simpa using h.nodup) ∅ fun _ _ => Finset.notMem_empty _

/-- Some of several clean tags are clean. -/
theorem TagsClean.sublist {tags kept : List String} (h : TagsClean tags)
    (hsub : kept.Sublist tags) : TagsClean kept where
  trimmed := fun tag ht => h.trimmed tag (hsub.subset ht)
  nonempty := fun tag ht => h.nonempty tag (hsub.subset ht)
  nodup := h.nodup.sublist hsub

/-- New clean tags keep tags clean. -/
theorem TagsClean.append {tags extra : List String} (h : TagsClean tags) (hextra : TagsClean extra)
    (hnew : ∀ tag ∈ extra, tag ∉ tags) : TagsClean (tags ++ extra) where
  trimmed := fun tag ht =>
    (List.mem_append.mp ht).elim (h.trimmed tag) (hextra.trimmed tag)
  nonempty := fun tag ht =>
    (List.mem_append.mp ht).elim (h.nonempty tag) (hextra.nonempty tag)
  nodup := by
    rw [List.nodup_append]
    refine ⟨h.nodup, hextra.nodup, ?_⟩
    rintro a ha b hb rfl
    exact hnew a hb ha

/-! ## Priorities -/

/-- The prefixes of a priority tag, in the order they are tried. -/
def priorityMarks : List String :=
  ["priority:", "importance:"]

/-- The parser reads the priorities that are stamped. -/
def ReadsDigits (g : GateExternals) : Prop :=
  ∀ n : ℕ, 3 ≤ n → n ≤ 7 → g.parseFiniteF32 (toString n) = some (n : ℚ)

/-- The tag carries a priority of eight or more. -/
def HighValue (g : GateExternals) (tag : String) : Prop :=
  ∃ v, priorityValue g tag = some v ∧ 8 ≤ v

instance (g : GateExternals) (tag : String) : Decidable (HighValue g tag) :=
  decidable_of_iff ((priorityValue g tag).any fun v => decide (8 ≤ v))
    (by simp [HighValue, Option.any_eq_true])

/-- The tag is what a lowered one under `mark` becomes, or it is lowered to that. -/
def LandsOn (g : GateExternals) (mark tag : String) : Prop :=
  tag = mark ++ "7" ∨ (startsWith tag.toList mark = true ∧ HighValue g tag)

instance (g : GateExternals) (mark tag : String) : Decidable (LandsOn g mark tag) :=
  inferInstanceAs (Decidable (_ ∨ _))

section Priority

variable {g : GateExternals} {tag mark : String} {tags : List String}

/-- A write has a high priority where some tag says so. -/
theorem explicitHighPriority_iff :
    explicitHighPriority g tags = true ↔ ∃ tag ∈ tags, HighValue g tag := by
  simp [explicitHighPriority, HighValue, Option.any_eq_true]

/-- A write has a priority where some tag has a value. -/
theorem hasExplicitPriority_iff :
    hasExplicitPriority g tags = true ↔ ∃ tag ∈ tags, ∃ v, priorityValue g tag = some v := by
  simp [hasExplicitPriority, Option.isSome_iff_exists]

/-- A high priority is an explicit one. -/
theorem hasExplicitPriority_of_high (h : explicitHighPriority g tags = true) :
    hasExplicitPriority g tags = true := by
  obtain ⟨tag, htag, v, hv, -⟩ := explicitHighPriority_iff.mp h
  exact hasExplicitPriority_iff.mpr ⟨tag, htag, v, hv⟩

/-- The mark that a priority tag starts with. -/
theorem find?_append (hmark : mark ∈ priorityMarks) (s : String) :
    priorityMarks.find? (startsWith (mark ++ s).toList) = some mark := by
  simp only [priorityMarks, List.mem_cons, List.not_mem_nil, or_false] at hmark
  rcases hmark with rfl | rfl
  · exact List.find?_cons_of_pos (startsWith_append_self _ s)
  · have hother : ¬startsWith ("importance:" ++ s).toList "priority:" = true := by
      rw [startsWith_append_eq_false s (by decide) (by decide)]
      decide
    rw [priorityMarks, List.find?_cons_of_neg hother]
    exact List.find?_cons_of_pos (startsWith_append_self _ s)

/-- The number behind a mark. -/
theorem priorityValue_append (hmark : mark ∈ priorityMarks) (s : String) :
    priorityValue g (mark ++ s) = g.parseFiniteF32 s := by
  have hrest : stripPrefix (mark ++ s) mark = some s := by
    rw [stripPrefix, if_pos (startsWith_append_self mark s), String.toList_append, List.drop_left,
      String.ofList_toList]
  simp only [priorityMarks, List.mem_cons, List.not_mem_nil, or_false] at hmark
  rcases hmark with rfl | rfl
  · rw [priorityValue, hrest]
    rfl
  · have hother : stripPrefix ("importance:" ++ s) "priority:" = none := by
      rw [stripPrefix, startsWith_append_eq_false s (by decide) (by decide)]
      rfl
    rw [priorityValue, hother, hrest]
    rfl

/-- A tag with a priority starts with one of the marks. -/
theorem exists_mark {v : ℚ} (h : priorityValue g tag = some v) :
    ∃ mark ∈ priorityMarks, ∃ s, tag = mark ++ s := by
  rw [priorityValue, Option.bind_eq_some_iff] at h
  obtain ⟨rest, hrest, -⟩ := h
  have hstart : startsWith tag.toList "priority:" = true ∨
      startsWith tag.toList "importance:" = true := by
    by_contra hnone
    rw [not_or] at hnone
    rw [stripPrefix, stripPrefix, if_neg hnone.1, if_neg hnone.2] at hrest
    exact absurd hrest (by simp)
  rcases hstart with h | h
  · exact ⟨"priority:", by decide, _, eq_append_of_startsWith h⟩
  · exact ⟨"importance:", by decide, _, eq_append_of_startsWith h⟩

/-- Downgrading a priority tag. -/
theorem downgradeTag_append (hmark : mark ∈ priorityMarks) (s : String) :
    downgradeTag g (mark ++ s) =
      if (g.parseFiniteF32 s).any (fun v => decide (8 ≤ v)) then mark ++ "7" else mark ++ s := by
  have hfind := find?_append hmark s
  rw [priorityMarks] at hfind
  rw [downgradeTag, hfind]
  simp only [String.toList_append, List.drop_left, String.ofList_toList]

/-- **A high priority is lowered to seven**, under its own mark. -/
theorem downgradeTag_of_high (hmark : mark ∈ priorityMarks)
    (hstart : startsWith tag.toList mark = true) (h : HighValue g tag) :
    downgradeTag g tag = mark ++ "7" := by
  obtain ⟨v, hv, hle⟩ := h
  rw [eq_append_of_startsWith hstart, priorityValue_append hmark] at hv
  rw [eq_append_of_startsWith hstart, downgradeTag_append hmark, hv, Option.any_some,
    if_pos (decide_eq_true hle)]

/-- Every other tag stays. -/
theorem downgradeTag_of_not_high (h : ¬HighValue g tag) : downgradeTag g tag = tag := by
  by_cases hmarked : ∃ mark ∈ priorityMarks, ∃ s, tag = mark ++ s
  · obtain ⟨mark, hmark, s, rfl⟩ := hmarked
    rw [downgradeTag_append hmark, if_neg]
    intro hany
    obtain ⟨v, hv, hle⟩ := (Option.any_eq_true _ _).mp hany
    exact h ⟨v, (priorityValue_append hmark s).trans hv, of_decide_eq_true hle⟩
  · have hfind : ["priority:", "importance:"].find? (startsWith tag.toList) = none := by
      rw [List.find?_eq_none]
      intro mark hmark hstart
      exact hmarked ⟨mark, hmark, _, eq_append_of_startsWith hstart⟩
    rw [downgradeTag, hfind]

/-- Where a high priority is lowered to. -/
theorem HighValue.exists_landsOn (h : HighValue g tag) :
    ∃ mark ∈ priorityMarks, LandsOn g mark tag ∧ downgradeTag g tag = mark ++ "7" := by
  obtain ⟨v, hv, hle⟩ := h
  obtain ⟨mark, hmark, s, rfl⟩ := exists_mark hv
  have hstart := startsWith_append_self mark s
  exact ⟨mark, hmark, .inr ⟨hstart, v, hv, hle⟩,
    downgradeTag_of_high hmark hstart ⟨v, hv, hle⟩⟩

/-- **Two tags are lowered to the same one** only where they land on the same mark. -/
theorem exists_landsOn_of_downgradeTag_eq {a b : String} (hne : a ≠ b)
    (heq : downgradeTag g a = downgradeTag g b) :
    ∃ mark ∈ priorityMarks, LandsOn g mark a ∧ LandsOn g mark b := by
  by_cases ha : HighValue g a
  · obtain ⟨mark, hmark, hland, hmarkeq⟩ := ha.exists_landsOn
    refine ⟨mark, hmark, hland, ?_⟩
    by_cases hb : HighValue g b
    · obtain ⟨mark', -, hland', hmarkeq'⟩ := hb.exists_landsOn
      have hsame : mark ++ "7" = mark' ++ "7" := by rw [← hmarkeq, heq, hmarkeq']
      rwa [(String.append_left_inj "7").mp hsame]
    · rw [hmarkeq, downgradeTag_of_not_high hb] at heq
      exact .inl heq.symm
  · by_cases hb : HighValue g b
    · obtain ⟨mark, hmark, hland, hmarkeq⟩ := hb.exists_landsOn
      rw [hmarkeq, downgradeTag_of_not_high ha] at heq
      exact ⟨mark, hmark, .inl heq, hland⟩
    · rw [downgradeTag_of_not_high ha, downgradeTag_of_not_high hb] at heq
      exact absurd heq hne

section Digits

variable (hdigits : ReadsDigits g)

include hdigits

/-- A stamped priority is read back. -/
theorem priorityValue_stamp (hmark : mark ∈ priorityMarks) {n : ℕ} (hlow : 3 ≤ n) (hhigh : n ≤ 7) :
    priorityValue g (mark ++ toString n) = some (n : ℚ) :=
  (priorityValue_append hmark _).trans (hdigits n hlow hhigh)

/-- What is stamped is not high. -/
theorem not_highValue_stamp (hmark : mark ∈ priorityMarks) {n : ℕ} (hlow : 3 ≤ n) (hhigh : n ≤ 7) :
    ¬HighValue g (mark ++ toString n) := by
  rintro ⟨v, hv, hle⟩
  rw [priorityValue_stamp hdigits hmark hlow hhigh, Option.some.injEq] at hv
  rw [← hv] at hle
  exact absurd hle (by exact_mod_cast (by omega : ¬8 ≤ n))

/-- The priority of a downgraded tag. -/
theorem priorityValue_seven (hmark : mark ∈ priorityMarks) :
    priorityValue g (mark ++ "7") = some 7 := by
  have hseven : g.parseFiniteF32 "7" = some ((7 : ℕ) : ℚ) := hdigits 7 (by omega) (by omega)
  rw [priorityValue_append hmark, hseven]
  rfl

/-- A downgraded tag is not of high value. -/
theorem not_highValue_seven (hmark : mark ∈ priorityMarks) : ¬HighValue g (mark ++ "7") := by
  rintro ⟨v, hv, hle⟩
  rw [priorityValue_seven hdigits hmark, Option.some.injEq] at hv
  rw [← hv] at hle
  exact absurd hle (by norm_num)

/-- What lands on a mark is lowered to it, or is it already. -/
theorem LandsOn.downgradeTag_eq (hmark : mark ∈ priorityMarks) (h : LandsOn g mark tag) :
    downgradeTag g tag = mark ++ "7" := by
  rcases h with rfl | ⟨hstart, hhigh⟩
  · exact downgradeTag_of_not_high (not_highValue_seven hdigits hmark)
  · exact downgradeTag_of_high hmark hstart hhigh

/-- **Lowered tags are low.** -/
theorem not_highValue_downgradeTag (tag : String) : ¬HighValue g (downgradeTag g tag) := by
  by_cases h : HighValue g tag
  · obtain ⟨mark, hmark, -, heq⟩ := h.exists_landsOn
    rw [heq]
    exact not_highValue_seven hdigits hmark
  · rwa [downgradeTag_of_not_high h]

end Digits

end Priority
