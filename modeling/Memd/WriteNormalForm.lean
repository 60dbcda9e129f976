/-
# Preparing a prepared write again

`prepare_write_at` rewrites the tags of a write three times: they are normalized, the ones with a
priority that no action backs are lowered in place, and the stamps of the decision are appended.
The decision of a second run reads the stamps of the first.

* `AdmittedAs` — the four ways a write is admitted, with the tags of each (`exists_admits`,
  `AdmittedAs.prepared`);
* `AdmittedAs.again` — what is admitted is admitted once more, with the same decision;
* `NormalForm` — clean tags that keep what the caller gave, back every high priority by an action
  and are prepared to themselves, and the deadlines of the caller;
* `prepareWrite_normalForm_iff` — an admitted write has the normal form unless two of its tags are
  lowered to the same one.  `normalize_tags` comes before the lowering, so both copies stay.
-/
import Mathlib.Tactic.IntervalCases
import Memd.WriteTags

open Text

/-! ## The decision -/

/-- None of the checks that only refuse applies. -/
structure Admissible (text : String) (tags : List String) : Prop where
  size : text.utf8ByteSize ≤ maxMemoryTextBytes
  nonempty : trim text.toList ≠ []
  notWrapper : isGeneratedDigestWrapper (trim text.toList) tags = false

/-- The text has a concrete agent action. -/
def Backed (text : String) : Prop :=
  hasConcreteAgentAction (trim text.toList) = true

instance (text : String) : Decidable (Backed text) :=
  inferInstanceAs (Decidable (_ = true))

/-- A progress note that says nothing durable. -/
def lowSignal (chunkType : ChunkType) (text : String) (tags : List String) : Bool :=
  tags.any (· == "kind:progress") && isLowSignalProgress (trim text.toList) &&
    (durableSignalReason chunkType (trim text.toList) tags).isNone

/-- The stamps of a short-lived write. -/
def shortLivedTags : List String :=
  ["admission:ephemeral", "retention:short_lived"]

/-- The tags with the stamps of a short-lived write that they do not have yet. -/
def stampShortLived (tags : List String) : List String :=
  shortLivedTags.foldl (fun tags tag => if tags.contains tag then tags else tags ++ [tag]) tags

/-- **The ways a write is admitted**, from its normalized tags: the tags that are stored and the
decision. -/
inductive AdmittedAs (g : GateExternals) (chunkType : ChunkType) (text : String)
    (mode : IngestionMode) (tags : List String) : List String → AdmissionDecision → Prop
  | lowered (hhigh : explicitHighPriority g tags = true) (hback : ¬Backed text) :
      AdmittedAs g chunkType text mode tags (downgradeHighPriorityTags g tags) .durable
  | explicit (hexp : hasExplicitPriority g tags = true)
      (hback : explicitHighPriority g tags = true → Backed text) :
      AdmittedAs g chunkType text mode tags tags .durable
  | durable (hexp : hasExplicitPriority g tags = false)
      (hlow : lowSignal chunkType text tags = false) :
      AdmittedAs g chunkType text mode tags (stampAutoPriority g chunkType text tags) .durable
  | shortLived (hexp : hasExplicitPriority g tags = false)
      (hlow : lowSignal chunkType text tags = true) (hmode : mode = .conversation) :
      AdmittedAs g chunkType text mode tags (stampShortLived tags) .ephemeral

section Decision

variable {g : GateExternals} {chunkType : ChunkType} {text : String} {mode : IngestionMode}
  {tags : List String}

/-- The decision, and whether the caller is warned. -/
def AdmissionOutcome.verdict (outcome : AdmissionOutcome) : AdmissionDecision × Bool :=
  (outcome.decision, outcome.warning.isSome)

/-- Without an explicit priority there is no high one. -/
theorem highPriority_eq_false (hexp : hasExplicitPriority g tags = false) :
    explicitHighPriority g tags = false := by
  rw [Bool.eq_false_iff]
  intro hhigh
  rw [hasExplicitPriority_of_high hhigh] at hexp
  exact absurd hexp (by decide)

/-- What is not admissible is refused. -/
theorem admissible_of_not_reject
    (h : (classifyWrite g chunkType text tags mode).decision ≠ .reject) :
    Admissible text tags := by
  unfold classifyWrite at h
  dsimp only at h
  split at h
  · exact absurd rfl h
  · rename_i hsize
    split at h
    · exact absurd rfl h
    · rename_i hne
      split at h
      · exact absurd rfl h
      · rename_i hwrapper
        exact ⟨Nat.le_of_not_lt hsize, hne, Bool.eq_false_iff.mpr hwrapper⟩

/-- The decision on what is admissible and whether it warns, in the order the checks are made. -/
theorem classifyWrite_of_admissible (h : Admissible text tags) :
    (classifyWrite g chunkType text tags mode).verdict =
      if explicitHighPriority g tags = true ∧ ¬Backed text then (AdmissionDecision.durable, true)
      else if hasExplicitPriority g tags = true then (.durable, false)
      else if lowSignal chunkType text tags = true then
        (if mode = .conversation then (.ephemeral, false) else (.reject, false))
      else (.durable, false) := by
  unfold classifyWrite
  dsimp only
  rw [if_neg (Nat.not_lt.mpr h.size), if_neg h.nonempty, if_neg (by simp [h.notWrapper])]
  by_cases hhigh : explicitHighPriority g tags = true ∧ ¬Backed text
  · rw [if_pos hhigh, if_pos (by simpa [Backed] using hhigh)]
    rfl
  · rw [if_neg hhigh, if_neg (by simpa [Backed] using hhigh)]
    by_cases hexp : hasExplicitPriority g tags = true
    · rw [if_pos hexp, if_pos hexp]
      rfl
    · rw [if_neg hexp, if_neg hexp]
      by_cases hlow : lowSignal chunkType text tags = true
      · rw [if_pos hlow, if_pos (by exact hlow)]
        by_cases hmode : mode = .conversation
        · rw [if_pos hmode, if_pos hmode]
          rfl
        · rw [if_neg hmode, if_neg hmode]
          rfl
      · rw [if_neg hlow, if_neg (by exact hlow)]
        rfl

/-- What is not refused is admitted in one of the four ways. -/
theorem exists_admits (h : (classifyWrite g chunkType text tags mode).decision ≠ .reject) :
    Admissible text tags ∧ ∃ kept decision, AdmittedAs g chunkType text mode tags kept decision := by
  have hadm := admissible_of_not_reject h
  refine ⟨hadm, ?_⟩
  have hverdict := @classifyWrite_of_admissible g chunkType text mode tags hadm
  by_cases hhigh : explicitHighPriority g tags = true ∧ ¬Backed text
  · exact ⟨_, _, .lowered hhigh.1 hhigh.2⟩
  · by_cases hexp : hasExplicitPriority g tags = true
    · exact ⟨_, _, .explicit hexp fun hg => by_contra fun hback => hhigh ⟨hg, hback⟩⟩
    · have hexp' := Bool.eq_false_iff.mpr hexp
      by_cases hlow : lowSignal chunkType text tags = true
      · by_cases hmode : mode = .conversation
        · exact ⟨_, _, .shortLived hexp' hlow hmode⟩
        · rw [if_neg hhigh, if_neg hexp, if_pos hlow, if_neg hmode] at hverdict
          exact absurd (congrArg Prod.fst hverdict) h
      · exact ⟨_, _, .durable hexp' (Bool.eq_false_iff.mpr hlow)⟩

end Decision

section Prepared

variable {g : GateExternals} {request : PrepareWriteRequest} {now : ℤ} {kept : List String}
  {decision : AdmissionDecision} {tags : List String}

/-- An explicit priority is left alone. -/
theorem stampAutoPriority_of_explicit {chunkType : ChunkType} {text : String}
    (h : hasExplicitPriority g tags = true) : stampAutoPriority g chunkType text tags = tags :=
  if_pos h

/-- Lowering leaves a priority behind. -/
theorem hasExplicitPriority_downgrade (hdigits : ReadsDigits g)
    (h : explicitHighPriority g tags = true) :
    hasExplicitPriority g (downgradeHighPriorityTags g tags) = true := by
  obtain ⟨tag, htag, hhigh⟩ := explicitHighPriority_iff.mp h
  obtain ⟨mark, hmark, -, heq⟩ := hhigh.exists_landsOn
  refine hasExplicitPriority_iff.mpr ⟨_, List.mem_map_of_mem htag, 7, ?_⟩
  rw [heq]
  exact priorityValue_seven hdigits hmark

/-- **What an admitted write is prepared to.** -/
theorem AdmittedAs.prepared (hdigits : ReadsDigits g)
    (hadm : Admissible request.text (normalizeTags request.tags))
    (h : AdmittedAs g request.chunkType request.text request.ingestionMode
      (normalizeTags request.tags) kept decision) :
    (prepareWriteAt g request now).tags = kept ∧
      (prepareWriteAt g request now).outcome.decision = decision ∧
      (prepareWriteAt g request now).lifecycleTier =
        if decision = .ephemeral then some .history else none := by
  have hverdict := @classifyWrite_of_admissible g request.chunkType request.text
    request.ingestionMode _ hadm
  generalize hout : classifyWrite g request.chunkType request.text (normalizeTags request.tags)
    request.ingestionMode = outcome at hverdict
  have hprepared : ∀ d w, outcome.verdict = (d, w) → d ≠ .reject →
      (prepareWriteAt g request now).tags =
          (let tags := if w = true then downgradeHighPriorityTags g (normalizeTags request.tags)
            else normalizeTags request.tags
          let tags := if d = .ephemeral then stampShortLived tags else tags
          if d = .durable then stampAutoPriority g request.chunkType request.text tags
          else tags) ∧
        (prepareWriteAt g request now).outcome.decision = d ∧
        (prepareWriteAt g request now).lifecycleTier =
          if d = .ephemeral then some .history else none := by
    intro d w hv hd
    obtain ⟨rfl, rfl⟩ := Prod.mk.inj hv
    unfold prepareWriteAt
    dsimp only
    rw [hout, if_neg hd]
    exact ⟨rfl, rfl, rfl⟩
  cases h with
  | lowered hhigh hback =>
    rw [if_pos ⟨hhigh, hback⟩] at hverdict
    obtain ⟨htags, hdecision, htier⟩ := hprepared _ _ hverdict (by decide)
    refine ⟨htags.trans ?_, hdecision, htier⟩
    exact stampAutoPriority_of_explicit (hasExplicitPriority_downgrade hdigits hhigh)
  | explicit hexp hback =>
    rw [if_neg fun hh => hh.2 (hback hh.1), if_pos hexp] at hverdict
    obtain ⟨htags, hdecision, htier⟩ := hprepared _ _ hverdict (by decide)
    exact ⟨htags.trans (stampAutoPriority_of_explicit hexp), hdecision, htier⟩
  | durable hexp hlow =>
    rw [if_neg (by simp [highPriority_eq_false hexp]), if_neg (by simp [hexp]),
      if_neg (by simp [hlow])] at hverdict
    exact hprepared _ _ hverdict (by decide)
  | shortLived hexp hlow hmode =>
    rw [if_neg (by simp [highPriority_eq_false hexp]), if_neg (by simp [hexp]), if_pos hlow,
      if_pos hmode] at hverdict
    exact hprepared _ _ hverdict (by decide)

end Prepared

/-! ## What the rewrites leave alone -/

/-- The tag has no part in a generated digest. -/
def NotOfDigest (tag : String) : Prop :=
  tag ≠ "task:status:generated" ∧ startsWith tag.toList "task:role:" = false ∧
    startsWith tag.toList "task:digest:" = false

section Rewrites

variable {g : GateExternals} {chunkType : ChunkType} {text : String} {mode : IngestionMode}
  {mark : String} {tags extra : List String}

/-- A priority tag is no mark of a digest. -/
theorem notOfDigest_mark (hmark : mark ∈ priorityMarks) (s : String) : NotOfDigest (mark ++ s) := by
  simp only [priorityMarks, List.mem_cons, List.not_mem_nil, or_false] at hmark
  rcases hmark with rfl | rfl
  all_goals exact ⟨append_ne s (by decide), startsWith_append_eq_false s (by decide) (by decide),
    startsWith_append_eq_false s (by decide) (by decide)⟩

/-- Tags that are no marks of a digest play no part in telling one. -/
theorem isGeneratedDigestWrapper_congr {tags' : List String} (text : List Char)
    (hany : ∀ q : String → Bool, (∀ tag, NotOfDigest tag → q tag = false) →
      tags'.any q = tags.any q) :
    isGeneratedDigestWrapper text tags' = isGeneratedDigestWrapper text tags := by
  have hgenerated := hany (· == "task:status:generated") fun tag h => by simpa using h.1
  have hdigest := hany
    (fun tag => startsWith tag.toList "task:role:" || startsWith tag.toList "task:digest:")
    fun tag h => by rw [h.2.1, h.2.2]; rfl
  unfold isGeneratedDigestWrapper
  dsimp only
  rw [hgenerated, hdigest]

/-- More tags that are no marks of a digest keep a write admissible. -/
theorem Admissible.append (h : Admissible text tags) (hextra : ∀ tag ∈ extra, NotOfDigest tag) :
    Admissible text (tags ++ extra) where
  size := h.size
  nonempty := h.nonempty
  notWrapper := by
    rw [← h.notWrapper]
    refine isGeneratedDigestWrapper_congr _ fun q hq => ?_
    have hnone : extra.any q = false := by
      rw [List.any_eq_false]
      exact fun tag ht => by simp [hq tag (hextra tag ht)]
    rw [List.any_append, hnone, Bool.or_false]

/-- Downgrading the priority keeps a write admissible. -/
theorem Admissible.downgrade (h : Admissible text tags) :
    Admissible text (downgradeHighPriorityTags g tags) where
  size := h.size
  nonempty := h.nonempty
  notWrapper := by
    rw [← h.notWrapper]
    refine isGeneratedDigestWrapper_congr _ fun q hq => ?_
    rw [downgradeHighPriorityTags, List.any_map]
    refine congrArg (List.any tags) (funext fun tag => ?_)
    by_cases hhigh : HighValue g tag
    · obtain ⟨mark, hmark, hland, heq⟩ := hhigh.exists_landsOn
      obtain ⟨mark', hmark', s, rfl⟩ := exists_mark hhigh.choose_spec.1
      rw [Function.comp_apply, heq, hq _ (notOfDigest_mark hmark _),
        hq _ (notOfDigest_mark hmark' s)]
    · rw [Function.comp_apply, downgradeTag_of_not_high hhigh]

/-- The stamp of a heuristic priority, if there is one. -/
theorem stampAutoPriority_cases (g : GateExternals) (chunkType : ChunkType) (text : String)
    (tags : List String) :
    stampAutoPriority g chunkType text tags = tags ∨ ∃ n : ℕ, 3 ≤ n ∧ n ≤ 7 ∧
      hasExplicitPriority g tags = false ∧
      stampAutoPriority g chunkType text tags = tags ++ ["priority:" ++ toString n] := by
  by_cases hexp : hasExplicitPriority g tags = true
  · exact .inl (stampAutoPriority_of_explicit hexp)
  · by_cases hlow : computePriority chunkType text tags < minAutoPriority
    · left
      rw [stampAutoPriority, if_neg hexp]
      exact if_pos hlow
    · right
      refine ⟨min (computePriority chunkType text tags) maxAutoPriority, ?_, min_le_right _ _,
        Bool.eq_false_iff.mpr hexp, ?_⟩
      · exact le_min (Nat.le_of_not_lt hlow) (by decide)
      · rw [stampAutoPriority, if_neg hexp]
        exact if_neg hlow

/-- The stamps that are added are those that were missing. -/
theorem stampShortLived_eq (tags : List String) :
    ∃ extra : List String, extra.Sublist shortLivedTags ∧ (∀ tag ∈ extra, tag ∉ tags) ∧
      (∀ tag ∈ shortLivedTags, tag ∈ tags ++ extra) ∧ stampShortLived tags = tags ++ extra := by
  refine ⟨Ranked.firstOf id tags.toFinset shortLivedTags, Ranked.firstOf_sublist id _ _, ?_, ?_,
    foldl_normalize shortLivedTags tags⟩
  · intro tag htag hmem
    exact (Ranked.firstOf_keys id _ _).1 tag htag (List.mem_toFinset.mpr hmem)
  · intro tag htag
    rw [List.mem_append]
    by_cases hmem : tag ∈ tags
    · exact .inl hmem
    · obtain ⟨kept, hkept, heq⟩ := Ranked.exists_mem_firstOf id shortLivedTags tags.toFinset tag
        htag (fun h => hmem (List.mem_toFinset.mp h))
      exact .inr ((show kept = tag from heq) ▸ hkept)

/-- Stamped tags are not stamped again. -/
theorem stampShortLived_of_subset (h : ∀ tag ∈ shortLivedTags, tag ∈ tags) :
    stampShortLived tags = tags := by
  obtain ⟨extra, hsub, hnew, -, heq⟩ := stampShortLived_eq tags
  have hextra : extra = [] :=
    List.eq_nil_iff_forall_not_mem.mpr fun tag ht => hnew tag ht (h tag (hsub.subset ht))
  rw [heq, hextra, List.append_nil]

/-- The tags of short-lived memories are clean. -/
theorem shortLivedTags_clean : TagsClean shortLivedTags :=
  ⟨by decide, by decide, by decide⟩

/-- The tags of short-lived memories set no priority. -/
theorem hasExplicitPriority_append_shortLived (hextra : extra.Sublist shortLivedTags) :
    hasExplicitPriority g (tags ++ extra) = hasExplicitPriority g tags := by
  have hnone : hasExplicitPriority g extra = false := by
    rw [hasExplicitPriority, List.any_eq_false]
    intro tag htag
    have hmem := hextra.subset htag
    simp only [shortLivedTags, List.mem_cons, List.not_mem_nil, or_false] at hmem
    rcases hmem with rfl | rfl
    all_goals exact Bool.false_ne_true
  rw [hasExplicitPriority, List.any_append]
  exact (congrArg _ hnone).trans (Bool.or_false _)

/-- The stamps of a short-lived write say nothing about its text. -/
theorem lowSignal_append_shortLived (hextra : extra.Sublist shortLivedTags) :
    lowSignal chunkType text (tags ++ extra) = lowSignal chunkType text tags := by
  have hprogress : extra.any (· == "kind:progress") = false := by
    rw [List.any_eq_false]
    intro tag htag
    have hmem := hextra.subset htag
    simp only [shortLivedTags, List.mem_cons, List.not_mem_nil, or_false] at hmem
    rcases hmem with rfl | rfl <;> decide
  have hreason : extra.findSome? tagReason = none := by
    rw [List.findSome?_eq_none_iff]
    intro tag htag
    have hmem := hextra.subset htag
    simp only [shortLivedTags, List.mem_cons, List.not_mem_nil, or_false] at hmem
    rcases hmem with rfl | rfl <;> decide
  have hsignal : ∀ chunkType : ChunkType, durableSignalReason chunkType (trim text.toList)
      (tags ++ extra) = durableSignalReason chunkType (trim text.toList) tags := by
    intro chunkType
    cases chunkType <;>
      simp only [durableSignalReason, List.findSome?_append, hreason, Option.or_none]
  rw [lowSignal, lowSignal, List.any_append, hprogress, Bool.or_false, hsignal]

end Rewrites

/-! ## Admitted tags -/

section Low

variable {g : GateExternals} {chunkType : ChunkType} {text : String} {tags extra : List String}

/-- Without a high priority no tag is of high value. -/
theorem not_highValue_of_low (h : explicitHighPriority g tags = false) {tag : String}
    (htag : tag ∈ tags) : ¬HighValue g tag := by
  intro hhigh
  rw [explicitHighPriority_iff.mpr ⟨tag, htag, hhigh⟩] at h
  exact absurd h (by decide)

/-- Without a tag of high value there is no high priority. -/
theorem explicitHighPriority_eq_false (h : ∀ tag ∈ tags, ¬HighValue g tag) :
    explicitHighPriority g tags = false := by
  rw [Bool.eq_false_iff]
  intro hhigh
  obtain ⟨tag, htag, hvalue⟩ := explicitHighPriority_iff.mp hhigh
  exact h tag htag hvalue

/-- Nothing high is left after the lowering. -/
theorem explicitHighPriority_downgrade (hdigits : ReadsDigits g) :
    explicitHighPriority g (downgradeHighPriorityTags g tags) = false := by
  apply explicitHighPriority_eq_false
  intro tag htag
  obtain ⟨given, -, rfl⟩ := List.mem_map.mp htag
  exact not_highValue_downgradeTag hdigits given

/-- A heuristic priority is never high. -/
theorem explicitHighPriority_stampAutoPriority (hdigits : ReadsDigits g)
    (hexp : hasExplicitPriority g tags = false) :
    explicitHighPriority g (stampAutoPriority g chunkType text tags) = false := by
  have hlow := highPriority_eq_false hexp
  rcases stampAutoPriority_cases g chunkType text tags with heq | ⟨n, h3, h7, -, heq⟩
  · rw [heq]
    exact hlow
  · rw [heq]
    apply explicitHighPriority_eq_false
    intro tag htag
    rcases List.mem_append.mp htag with hmem | hmem
    · exact not_highValue_of_low hlow hmem
    · rw [List.mem_singleton.mp hmem]
      exact not_highValue_stamp hdigits (by decide) h3 h7

/-- No two of the tags are lowered to the same one. -/
def LowersApart (g : GateExternals) (tags : List String) : Prop :=
  ∀ mark ∈ priorityMarks, ∀ a ∈ tags, ∀ b ∈ tags,
    LandsOn g mark a → LandsOn g mark b → a = b

instance (g : GateExternals) (tags : List String) : Decidable (LowersApart g tags) :=
  inferInstanceAs (Decidable (∀ mark ∈ priorityMarks, ∀ a ∈ tags, ∀ b ∈ tags, _ → _ → _))

/-- Without a high priority nothing is lowered. -/
theorem lowersApart_of_low (h : explicitHighPriority g tags = false) : LowersApart g tags := by
  have hlow : ∀ mark, ∀ tag ∈ tags, LandsOn g mark tag → tag = mark ++ "7" := by
    intro mark tag htag hland
    rcases hland with heq | ⟨-, hhigh⟩
    · exact heq
    · exact absurd hhigh (not_highValue_of_low h htag)
  intro mark _ a ha b hb hla hlb
  rw [hlow mark a ha hla, hlow mark b hb hlb]

/-- Empty tags and repetitions are not lowered to anything new. -/
theorem lowersApart_normalizeTags :
    LowersApart g (normalizeTags tags) ↔ LowersApart g (tags.map trimTag) := by
  have hmem : ∀ mark ∈ priorityMarks, ∀ tag, LandsOn g mark tag →
      (tag ∈ normalizeTags tags ↔ tag ∈ tags.map trimTag) := by
    intro mark hmark tag hland
    rw [mem_normalizeTags, List.mem_map]
    refine and_iff_right ?_
    rintro rfl
    simp only [priorityMarks, List.mem_cons, List.not_mem_nil, or_false] at hmark
    rcases hland with heq | ⟨hstart, -⟩
    · rcases hmark with rfl | rfl <;> exact absurd heq (by decide)
    · rcases hmark with rfl | rfl <;> exact absurd hstart (by decide)
  constructor
  · intro h mark hmark a ha b hb hla hlb
    exact h mark hmark a ((hmem mark hmark a hla).mpr ha) b ((hmem mark hmark b hlb).mpr hb) hla hlb
  · intro h mark hmark a ha b hb hla hlb
    exact h mark hmark a ((hmem mark hmark a hla).mp ha) b ((hmem mark hmark b hlb).mp hb) hla hlb

end Low

namespace AdmittedAs

variable {g : GateExternals} {chunkType : ChunkType} {text : String} {mode : IngestionMode}
  {tags kept : List String} {decision : AdmissionDecision}

/-- **The admitted tags are clean** unless two were lowered to the same one. -/
theorem clean_iff (hdigits : ReadsDigits g) (hclean : TagsClean tags)
    (h : AdmittedAs g chunkType text mode tags kept decision) :
    TagsClean kept ↔ Backed text ∨ LowersApart g tags := by
  cases h with
  | lowered hhigh hback =>
    rw [or_iff_right hback]
    -- tags that stay apart are those that no two lower to one
    constructor
    · intro hkept mark hmark a ha b hb hla hlb
      apply List.inj_on_of_nodup_map hkept.nodup ha hb
      rw [hla.downgradeTag_eq hdigits hmark, hlb.downgradeTag_eq hdigits hmark]
    -- a lowered tag is one given or one of the two lowest of a mark
    · intro hapart
      have hcases : ∀ tag ∈ downgradeHighPriorityTags g tags,
          tag ∈ tags ∨ tag = "priority:7" ∨ tag = "importance:7" := by
        intro tag htag
        obtain ⟨given, hgiven, rfl⟩ := List.mem_map.mp htag
        by_cases hhigh : HighValue g given
        · obtain ⟨mark, hmark, -, heq⟩ := hhigh.exists_landsOn
          simp only [priorityMarks, List.mem_cons, List.not_mem_nil, or_false] at hmark
          rcases hmark with rfl | rfl
          · exact .inr (.inl heq)
          · exact .inr (.inr heq)
        · rw [downgradeTag_of_not_high hhigh]
          exact .inl hgiven
      refine ⟨?_, ?_, ?_⟩
      · intro tag htag
        rcases hcases tag htag with hmem | rfl | rfl
        · exact hclean.trimmed tag hmem
        · decide
        · decide
      · intro tag htag
        rcases hcases tag htag with hmem | rfl | rfl
        · exact hclean.nonempty tag hmem
        · decide
        · decide
      · apply List.Nodup.map_on _ hclean.nodup
        intro a ha b hb heq
        by_contra hne
        obtain ⟨mark, hmark, hla, hlb⟩ := exists_landsOn_of_downgradeTag_eq hne heq
        exact hne (hapart mark hmark a ha b hb hla hlb)
  | explicit hexp hback =>
    -- an explicit priority leaves the tags as they are
    refine iff_of_true hclean ?_
    by_cases hhigh : explicitHighPriority g tags = true
    · exact .inl (hback hhigh)
    · exact .inr (lowersApart_of_low (Bool.eq_false_iff.mpr hhigh))
  | durable hexp hlow =>
    -- a stamped priority is a new tag
    refine iff_of_true ?_ (.inr (lowersApart_of_low (highPriority_eq_false hexp)))
    rcases stampAutoPriority_cases g chunkType text tags with heq | ⟨n, h3, h7, -, heq⟩
    · rw [heq]
      exact hclean
    · rw [heq]
      have hstamp : TagsClean ["priority:" ++ toString n] := by
        interval_cases n <;> exact ⟨by decide, by decide, by decide⟩
      refine hclean.append hstamp ?_
      intro tag htag hmem
      rw [List.mem_singleton.mp htag] at hmem
      have hmark : "priority:" ∈ priorityMarks := by decide
      have hvalue := priorityValue_stamp hdigits hmark h3 h7
      rw [hasExplicitPriority_iff.mpr ⟨_, hmem, _, hvalue⟩] at hexp
      exact absurd hexp (by decide)
  | shortLived hexp hlow hmode =>
    -- short-lived tags are new ones
    refine iff_of_true ?_ (.inr (lowersApart_of_low (highPriority_eq_false hexp)))
    obtain ⟨extra, hsub, hnew, -, heq⟩ := stampShortLived_eq tags
    rw [heq]
    exact hclean.append (shortLivedTags_clean.sublist hsub) hnew

/-- **Admitting twice.**  The stamps and the lowered priorities of the first run make the second
decide the same and leave the tags alone. -/
theorem again (hdigits : ReadsDigits g) (hadm : Admissible text tags)
    (h : AdmittedAs g chunkType text mode tags kept decision) :
    Admissible text kept ∧ AdmittedAs g chunkType text mode kept kept decision := by
  cases h with
  | lowered hhigh hback =>
    refine ⟨hadm.downgrade, .explicit (hasExplicitPriority_downgrade hdigits hhigh) ?_⟩
    rw [explicitHighPriority_downgrade hdigits]
    exact fun hhigh' => absurd hhigh' (by decide)
  | explicit hexp hback => exact ⟨hadm, .explicit hexp hback⟩
  | durable hexp hlow =>
    rcases stampAutoPriority_cases g chunkType text tags with heq | ⟨n, h3, h7, -, heq⟩
    · have hagain : AdmittedAs g chunkType text mode tags (stampAutoPriority g chunkType text tags)
          .durable := .durable hexp hlow
      rw [heq] at hagain ⊢
      exact ⟨hadm, hagain⟩
    · have hmark : "priority:" ∈ priorityMarks := by decide
      have hlow' := @explicitHighPriority_stampAutoPriority g chunkType text tags hdigits hexp
      rw [heq] at hlow' ⊢
      refine ⟨hadm.append fun tag ht => ?_, .explicit ?_ ?_⟩
      · rw [List.mem_singleton.mp ht]
        exact notOfDigest_mark hmark _
      · exact hasExplicitPriority_iff.mpr ⟨_, List.mem_append_right _ (List.mem_singleton_self _),
          _, priorityValue_stamp hdigits hmark h3 h7⟩
      · rw [hlow']
        exact fun hhigh => absurd hhigh (by decide)
  | shortLived hexp hlow hmode =>
    obtain ⟨extra, hsub, -, hall, heq⟩ := stampShortLived_eq tags
    have hagain : AdmittedAs g chunkType text mode (tags ++ extra) (stampShortLived (tags ++ extra))
        .ephemeral :=
      .shortLived ((hasExplicitPriority_append_shortLived hsub).trans hexp)
        ((lowSignal_append_shortLived hsub).trans hlow) hmode
    rw [stampShortLived_of_subset hall] at hagain
    rw [heq]
    refine ⟨hadm.append fun tag ht => ?_, hagain⟩
    have hmem := hsub.subset ht
    simp only [shortLivedTags, List.mem_cons, List.not_mem_nil, or_false] at hmem
    rcases hmem with rfl | rfl <;> exact ⟨by decide, by decide, by decide⟩

/-- Every tag is kept, or lowered where no action backs it. -/
theorem mem_kept {tag : String} (h : AdmittedAs g chunkType text mode tags kept decision)
    (htag : tag ∈ tags) :
    if Backed text then tag ∈ kept else downgradeTag g tag ∈ kept := by
  have hlow : explicitHighPriority g tags = false → downgradeTag g tag = tag := by
    intro hnone
    exact downgradeTag_of_not_high (not_highValue_of_low hnone htag)
  have hkept : explicitHighPriority g tags = false → tag ∈ kept →
      if Backed text then tag ∈ kept else downgradeTag g tag ∈ kept := by
    intro hnone hmem
    rw [hlow hnone, ite_self]
    exact hmem
  cases h with
  | lowered hhigh hback =>
    rw [if_neg hback]
    exact List.mem_map_of_mem htag
  | explicit hexp hback =>
    by_cases hhigh : explicitHighPriority g tags = true
    · rw [if_pos (hback hhigh)]
      exact htag
    · exact hkept (Bool.eq_false_iff.mpr hhigh) htag
  | durable hexp hlow =>
    apply hkept (highPriority_eq_false hexp)
    rcases stampAutoPriority_cases g chunkType text tags with heq | ⟨n, -, -, -, heq⟩
    · rw [heq]
      exact htag
    · rw [heq]
      exact List.mem_append_left _ htag
  | shortLived hexp hlow hmode =>
    apply hkept (highPriority_eq_false hexp)
    obtain ⟨extra, -, -, -, heq⟩ := stampShortLived_eq tags
    rw [heq]
    exact List.mem_append_left _ htag

/-- **A high priority is backed by an action.** -/
theorem backed (hdigits : ReadsDigits g) (h : AdmittedAs g chunkType text mode tags kept decision)
    (hhigh : explicitHighPriority g kept = true) : Backed text := by
  cases h with
  | lowered _ _ =>
    rw [explicitHighPriority_downgrade hdigits] at hhigh
    exact absurd hhigh (by decide)
  | explicit _ hback => exact hback hhigh
  | durable hexp _ =>
    rw [explicitHighPriority_stampAutoPriority hdigits hexp] at hhigh
    exact absurd hhigh (by decide)
  | shortLived hexp _ _ =>
    obtain ⟨extra, hsub, -, -, heq⟩ := stampShortLived_eq tags
    have hexp' : hasExplicitPriority g (tags ++ extra) = false :=
      (hasExplicitPriority_append_shortLived hsub).trans hexp
    rw [heq, highPriority_eq_false hexp'] at hhigh
    exact absurd hhigh (by decide)

end AdmittedAs

/-! ## The deadlines -/

/-- A deadline is the caller's, or it was filled in where the caller left it open. -/
def Filled (defaulted : Bool) (caller current : Option ℤ) : Prop :=
  if defaulted = true then caller = none else current = caller

namespace Filled

variable {defaulted : Bool} {caller current : Option ℤ}

/-- One deadline of `default_both`. -/
theorem or_some (h : Filled defaulted caller current) (value : ℤ) :
    Filled (defaulted || current.isNone) caller (current.or (some value)) := by
  cases defaulted with
  | true => exact h
  | false =>
    have hsame : current = caller := h
    subst hsame
    cases current with
    | none => rfl
    | some x => rfl

/-- **A deadline of the caller stays.** -/
theorem eq_some (h : Filled defaulted caller current) {value : ℤ} (hcaller : caller = some value) :
    current = some value := by
  cases defaulted with
  | true => exact absurd (h.symm.trans hcaller) (by simp)
  | false => exact Eq.trans h hcaller

/-- Taking a default out leaves what the caller gave. -/
theorem strip_eq (h : Filled defaulted caller current) :
    (if defaulted then none else current) = caller := by
  cases defaulted with
  | true => exact Eq.symm h
  | false => exact h

end Filled

/-- Both deadlines. -/
structure FillsIn (expiresAtMs reviewAfterMs : Option ℤ) (r : PreparedRetention) : Prop where
  expiry : Filled r.defaultedExpiresAt expiresAtMs r.expiresAtMs
  review : Filled r.defaultedReviewAfter reviewAfterMs r.reviewAfterMs

namespace FillsIn

variable {expiresAtMs reviewAfterMs : Option ℤ} {r : PreparedRetention}

/-- The deadlines of the caller, before any default. -/
theorem new (expiresAtMs reviewAfterMs : Option ℤ) :
    FillsIn expiresAtMs reviewAfterMs (.new expiresAtMs reviewAfterMs) :=
  ⟨rfl, rfl⟩

/-- A default for the review fills in what the caller left open. -/
theorem defaultReview (h : FillsIn expiresAtMs reviewAfterMs r) (value : ℤ)
    (source : RetentionSource) :
    FillsIn expiresAtMs reviewAfterMs (r.defaultReview value source) := by
  have hreview := h.review.or_some value
  unfold PreparedRetention.defaultReview
  by_cases hopen : r.reviewAfterMs.isNone = true
  · rw [hopen, Bool.or_true, Option.isNone_iff_eq_none.mp hopen] at hreview
    rw [if_pos hopen]
    exact ⟨h.expiry, hreview⟩
  · rw [if_neg hopen]
    exact h

/-- A default for both fills in what the caller left open. -/
theorem defaultBoth (h : FillsIn expiresAtMs reviewAfterMs r) (value : ℤ)
    (source : RetentionSource) :
    FillsIn expiresAtMs reviewAfterMs (r.defaultBoth value source) :=
  ⟨h.expiry.or_some value, h.review.or_some value⟩

/-- **Taking the defaults out** leaves the deadlines of the caller. -/
theorem stripDefaults_eq (h : FillsIn expiresAtMs reviewAfterMs r) :
    r.stripDefaults = .new expiresAtMs reviewAfterMs := by
  rw [PreparedRetention.stripDefaults, h.expiry.strip_eq, h.review.strip_eq]

end FillsIn

/-- The retention prepared fills in what the caller left open. -/
theorem preparedRetention_fillsIn (g : GateExternals) (request : PrepareWriteRequest)
    (tags : List String) (decision : AdmissionDecision) (now : ℤ) :
    FillsIn request.expiresAtMs request.reviewAfterMs
      (preparedRetention g request tags decision now) := by
  have hcaller := FillsIn.new request.expiresAtMs request.reviewAfterMs
  unfold preparedRetention
  dsimp only
  generalize hstart : (if request.ingestionMode = .conversation then
    (PreparedRetention.new request.expiresAtMs request.reviewAfterMs).defaultReview
      (now + writeAdmissionProgressTtlMs) .conversationDefault
    else PreparedRetention.new request.expiresAtMs request.reviewAfterMs) = start
  have hfills : FillsIn request.expiresAtMs request.reviewAfterMs start := by
    rw [← hstart]
    split
    · exact hcaller.defaultReview _ _
    · exact hcaller
  split
  · exact hfills.defaultBoth _ _
  · split
    · exact hfills.defaultBoth _ _
    · split
      · exact hfills.defaultBoth _ _
      · exact hfills

/-! ## The normal form -/

/-- The same text once more, with other tags and deadlines. -/
def PrepareWriteRequest.again (request : PrepareWriteRequest) (tags : List String)
    (expiresAtMs reviewAfterMs : Option ℤ) : PrepareWriteRequest :=
  { request with tags := tags, expiresAtMs := expiresAtMs, reviewAfterMs := reviewAfterMs }

/-- **The normal form** of a prepared write. -/
structure NormalForm (g : GateExternals) (request : PrepareWriteRequest) (now : ℤ) : Prop where
  clean : TagsClean (prepareWriteAt g request now).tags
  /-- a tag of the caller is stored, a high priority that no action backs as seven -/
  kept : ∀ tag ∈ request.tags, trimTag tag ≠ "" →
    (HighValue g (trimTag tag) → Backed request.text) →
    trimTag tag ∈ (prepareWriteAt g request now).tags
  lowered : ∀ tag ∈ request.tags, HighValue g (trimTag tag) → ¬Backed request.text →
    downgradeTag g (trimTag tag) ∈ (prepareWriteAt g request now).tags
  backed : ∀ tag ∈ (prepareWriteAt g request now).tags, HighValue g tag → Backed request.text
  /-- preparing the stored tags once more, with any deadlines and at any time -/
  again : ∀ (expiresAtMs reviewAfterMs : Option ℤ) (later : ℤ), ∀ request',
    request' = request.again (prepareWriteAt g request now).tags expiresAtMs reviewAfterMs →
    (prepareWriteAt g request' later).tags = (prepareWriteAt g request now).tags ∧
      (prepareWriteAt g request' later).outcome.decision =
        (prepareWriteAt g request now).outcome.decision ∧
      (prepareWriteAt g request' later).lifecycleTier =
        (prepareWriteAt g request now).lifecycleTier
  expiry : ∀ value, request.expiresAtMs = some value →
    (prepareWriteAt g request now).retention.expiresAtMs = some value
  review : ∀ value, request.reviewAfterMs = some value →
    (prepareWriteAt g request now).retention.reviewAfterMs = some value
  strip : (prepareWriteAt g request now).retention.stripDefaults =
    .new request.expiresAtMs request.reviewAfterMs

section Law

variable {g : GateExternals} {request : PrepareWriteRequest} {now : ℤ}

/-- The outcome of a write is its classification. -/
theorem prepareWriteAt_outcome (g : GateExternals) (request : PrepareWriteRequest) (now : ℤ) :
    (prepareWriteAt g request now).outcome = classifyWrite g request.chunkType request.text
      (normalizeTags request.tags) request.ingestionMode := by
  unfold prepareWriteAt
  dsimp only
  split <;> rfl

/-- The retention of an admitted write fills in what the caller left open. -/
theorem prepareWriteAt_retention (h : (prepareWriteAt g request now).isRejected = false) :
    FillsIn request.expiresAtMs request.reviewAfterMs
      (prepareWriteAt g request now).retention := by
  rw [PreparedWrite.isRejected, beq_eq_false_iff_ne, prepareWriteAt_outcome] at h
  unfold prepareWriteAt
  dsimp only
  rw [if_neg h]
  exact preparedRetention_fillsIn g request _ _ now

/-- Clean tags are prepared to themselves. -/
theorem AdmittedAs.prepared_again {kept : List String} {decision : AdmissionDecision}
    {tags : List String} (hdigits : ReadsDigits g) (hclean : TagsClean kept)
    (hadm : Admissible request.text tags)
    (h : AdmittedAs g request.chunkType request.text request.ingestionMode tags kept decision)
    (expiresAtMs reviewAfterMs : Option ℤ) (later : ℤ) :
    (prepareWriteAt g (request.again kept expiresAtMs reviewAfterMs) later).tags = kept ∧
      (prepareWriteAt g (request.again kept expiresAtMs reviewAfterMs) later).outcome.decision =
        decision ∧
      (prepareWriteAt g (request.again kept expiresAtMs reviewAfterMs) later).lifecycleTier =
        if decision = .ephemeral then some .history else none := by
  obtain ⟨hadm', hagain⟩ := h.again hdigits hadm
  have hself : normalizeTags (request.again kept expiresAtMs reviewAfterMs).tags = kept :=
    hclean.normalizeTags_eq_self
  apply AdmittedAs.prepared hdigits
  · rw [hself]
    exact hadm'
  · rw [hself]
    exact hagain

/-- **When a prepared write has the normal form.**  An action backs its high priorities, or no
two of its tags are lowered to the same one. -/
theorem prepareWrite_normalForm_iff (hdigits : ReadsDigits g) (request : PrepareWriteRequest)
    (now : ℤ) (hadmitted : (prepareWriteAt g request now).isRejected = false) :
    NormalForm g request now ↔
      Backed request.text ∨ LowersApart g (request.tags.map trimTag) := by
  have hdecision : (classifyWrite g request.chunkType request.text (normalizeTags request.tags)
      request.ingestionMode).decision ≠ .reject := by
    rw [PreparedWrite.isRejected, beq_eq_false_iff_ne, prepareWriteAt_outcome] at hadmitted
    exact hadmitted
  obtain ⟨hadm, kept, decision, hadmits⟩ := exists_admits hdecision
  obtain ⟨htags, hdec, htier⟩ := @AdmittedAs.prepared g request now kept decision hdigits hadm hadmits
  have hclean := hadmits.clean_iff hdigits (normalizeTags_clean request.tags)
  rw [← lowersApart_normalizeTags, ← hclean]
  constructor
  · intro h
    rw [← htags]
    exact h.clean
  · intro hkept
    have hfills := prepareWriteAt_retention hadmitted
    have hmem : ∀ tag ∈ request.tags, trimTag tag ≠ "" → trimTag tag ∈ normalizeTags request.tags :=
      fun tag htag hne => mem_normalizeTags.mpr ⟨hne, tag, htag, rfl⟩
    refine ⟨?_, ?_, ?_, ?_, ?_, fun _ => hfills.expiry.eq_some,
      fun _ => hfills.review.eq_some,
      hfills.stripDefaults_eq⟩
    · rw [htags]
      exact hkept
    · intro tag htag hne hback
      rw [htags]
      have hcase := hadmits.mem_kept (hmem tag htag hne)
      by_cases hb : Backed request.text
      · rwa [if_pos hb] at hcase
      · rwa [if_neg hb, downgradeTag_of_not_high fun hhigh => hb (hback hhigh)] at hcase
    · intro tag htag hhigh hback
      have hne : trimTag tag ≠ "" := by
        intro hempty
        obtain ⟨v, hv, -⟩ := hhigh
        rw [hempty] at hv
        exact absurd hv (by simp [priorityValue, stripPrefix, startsWith])
      have hcase := hadmits.mem_kept (hmem tag htag hne)
      rw [if_neg hback] at hcase
      rwa [htags]
    · intro tag htag hhigh
      rw [htags] at htag
      exact hadmits.backed hdigits (explicitHighPriority_iff.mpr ⟨tag, htag, hhigh⟩)
    · rintro expiresAtMs reviewAfterMs later request' rfl
      rw [htags, hdec, htier]
      exact hadmits.prepared_again hdigits hkept hadm expiresAtMs reviewAfterMs later

/-- A parser of the numbers up to ten. -/
def smallNumbers : GateExternals where
  parseFiniteF32 := fun text =>
    (["0", "1", "2", "3", "4", "5", "6", "7", "8", "9", "10"].idxOf? text).map fun n : ℕ => (n : ℚ)

/-- The numbers of the sample are read from their digits. -/
theorem smallNumbers_readsDigits : ReadsDigits smallNumbers := by
  intro n h3 h7
  interval_cases n <;> rfl

/-- A lesson with a priority and no action. -/
def priorityLesson (tags : List String) : PrepareWriteRequest where
  chunkType := .summary
  text := "Cache keys carry the tenant."
  tags := tags
  ingestionMode := .document
  expiresAtMs := some 5
  reviewAfterMs := none

/-- A lowered priority beside other tags. -/
theorem prepareWrite_normalForm_lowered :
    NormalForm smallNumbers (priorityLesson [" priority:9 ", "kind:decision", "", "importance:7"]) 0 :=
  (prepareWrite_normalForm_iff smallNumbers_readsDigits _ 0 (by decide)).mpr
    (.inr (by decide))

/-- `priority:8` is lowered to the `priority:7` that is there already. -/
theorem prepareWrite_repeats_tag :
    (prepareWriteAt smallNumbers (priorityLesson ["priority:8", "priority:7"]) 0).isRejected = false ∧
      (prepareWriteAt smallNumbers (priorityLesson ["priority:8", "priority:7"]) 0).tags =
        ["priority:7", "priority:7"] ∧
      ¬NormalForm smallNumbers (priorityLesson ["priority:8", "priority:7"]) 0 := by
  have htags : (prepareWriteAt smallNumbers (priorityLesson ["priority:8", "priority:7"]) 0).tags =
      ["priority:7", "priority:7"] := by decide
  refine ⟨by decide, htags, fun h => ?_⟩
  have hnodup := h.clean.nodup
  rw [htags] at hnodup
  exact absurd hnodup (by decide)

end Law
