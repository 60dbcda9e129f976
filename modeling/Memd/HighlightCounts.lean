/-
# What a highlight counts

A highlight says how many artifacts state a lesson and how many of them are validated.

* `CountsArtifacts` — the supporting artifacts are those that state the lesson, the validated count
  is the number of those that are validated, texts are merged for their words only, the caps hold,
  and the order of the artifacts does not matter;
* `CountableLessons` — what has to hold of the artifacts;
* `highlights_count_artifacts_iff` — the first holds for every score exactly if the second does.

A lesson is recorded under the ASCII words of its text, so texts in another script are all one
lesson.  Every mention adds to the validated count, also a second one in the same artifact.  The
text shown is that of the first mention.
-/
import Mathlib.Algebra.GroupWithZero.Nat
import Mathlib.Algebra.Order.BigOperators.Group.List
import Memd.HighlightAggregates
import Memd.TagWords

open TaskArtifact Selection TagWords Words

/-! ## Lessons -/

/-- How a text is read: which characters belong to its words, and their lower case. -/
structure WordReading where
  isAlphanumeric : Char → Bool
  toLowercase : Char → List Char
  ascii : ∀ c : Char, c.toNat < 128 → isAlphanumeric c = c.isAlphanum ∧ toLowercase c = [c.toLower]

namespace WordReading

variable (w : WordReading)

/-- The words of a text, in lower case. -/
def lessonWords (text : String) : List (List Char) :=
  (words w.isAlphanumeric text.toList).map fun word => word.flatMap w.toLowercase

/-- The words of an ASCII text are those its tag keeps. -/
theorem lessonWords_of_ascii {text : String} (h : ∀ c ∈ text.toList, c.toNat < 128) :
    w.lessonWords text = tagWords text.toList := by
  have hwords : words w.isAlphanumeric text.toList = words Char.isAlphanum text.toList :=
    words_congr fun c hc => (w.ascii c (h c hc)).1
  rw [lessonWords, hwords, tagWords]
  apply List.map_congr_left
  intro word hword
  -- every letter has one lower case
  rw [← List.flatMap_singleton' (word.map Char.toLower), List.flatMap_map]
  apply List.flatMap_congr
  intro c hc
  exact (w.ascii c (h c (mem_of_mem_words hword hc))).2

/-- The artifact states the lesson in the category. -/
def states (category : HighlightCategory) (lesson : List (List Char)) (a : TaskArtifact) : Bool :=
  (highlightCandidates a).any fun c =>
    c.text ≠ "" && c.category = category && w.lessonWords c.text = lesson

end WordReading

/-- Whether what an artifact says in a category counts as validated; decisions always do. -/
def TaskArtifact.validatedIn (a : TaskArtifact) (category : HighlightCategory) : Bool :=
  category = .decision || a.validation ≠ [] || a.promotionState = .verified
    || a.artifactKind = .verification

/-- What the highlights of some artifacts promise. -/
structure CountsArtifacts (w : WordReading) (x : DigestExternals) (artifacts : List TaskArtifact) :
    Prop where
  support : ∀ item ∈ inferHighlightItems x artifacts, item.supportingArtifactIds =
    sortedSet ((artifacts.filter
      (w.states item.category (w.lessonWords item.summary))).map (·.artifactId))
  validated : ∀ item ∈ inferHighlightItems x artifacts, ∃ key agg,
    (key, agg) ∈ highlightAggregates artifacts ∧ highlightItem x agg = some item ∧
      agg.validatedCount = artifacts.countP fun a =>
        w.states item.category (w.lessonWords item.summary) a && a.validatedIn item.category
  words : ∀ a ∈ artifacts, ∀ c ∈ highlightCandidates a, c.text ≠ "" → ∀ a' ∈ artifacts,
    ∀ c' ∈ highlightCandidates a', c'.text ≠ "" → c.key = c'.key →
      c.category = c'.category ∧ w.lessonWords c.text = w.lessonWords c'.text
  perTask : ∀ task, (inferHighlightItems x artifacts).countP (·.taskId = task) ≤
    maxHighlightsPerTask
  perProject : severalProjects (candidateItems x artifacts) = true → ∀ project,
    (inferHighlightItems x artifacts).countP (·.projectId = some project) ≤ maxHighlightsPerProject
  order : ∀ artifacts', artifacts'.Perm artifacts →
    inferHighlightItems x artifacts' = inferHighlightItems x artifacts

/-- Two artifacts state the lesson under the key. -/
def StatedTwice (artifacts : List TaskArtifact) (key : String) : Prop :=
  ∃ a ∈ artifacts, ∃ b ∈ artifacts, a.mentionsOf key ≠ [] ∧ b.mentionsOf key ≠ [] ∧
    a.artifactId ≠ b.artifactId

/-- Some score returns the lesson under the key: a decision, a lesson of two artifacts, or a
validated warning. -/
def Returnable (artifacts : List TaskArtifact) (key : String) (category : HighlightCategory) :
    Prop :=
  category = .decision ∨ StatedTwice artifacts key ∨
    category = .warning ∧ ∃ a ∈ artifacts, a.mentionsOf key ≠ [] ∧ a.validatedIn .warning = true

/-- The artifacts can be counted by their mentions. -/
structure CountableLessons (w : WordReading) (artifacts : List TaskArtifact) : Prop where
  /-- texts with the same ASCII words have the same words -/
  words : ∀ a ∈ artifacts, ∀ c ∈ highlightCandidates a, c.text ≠ "" → ∀ a' ∈ artifacts,
    ∀ c' ∈ highlightCandidates a', c'.text ≠ "" → c.category = c'.category →
      tagWords c.text.toList = tagWords c'.text.toList →
        w.lessonWords c.text = w.lessonWords c'.text
  /-- who states a lesson does so with its ASCII words -/
  complete : ∀ a ∈ artifacts, ∀ c ∈ highlightCandidates a, c.text ≠ "" →
    Returnable artifacts c.key c.category → ∀ a' ∈ artifacts,
      w.states c.category (w.lessonWords c.text) a' = true → a'.mentionsOf c.key ≠ []
  /-- no validated artifact states it twice -/
  once : ∀ a ∈ artifacts, ∀ c ∈ highlightCandidates a, c.text ≠ "" →
    Returnable artifacts c.key c.category → ∀ a' ∈ artifacts,
      a'.validatedIn c.category = true → (a'.mentionsOf c.key).length ≤ 1
  /-- all artifacts state it first with one text -/
  text : ∀ a ∈ artifacts, ∀ c ∈ highlightCandidates a, c.text ≠ "" →
    Returnable artifacts c.key c.category → ∀ a' ∈ artifacts, ∀ a'' ∈ artifacts, ∀ c' c'',
      (a'.mentionsOf c.key).head? = some c' → (a''.mentionsOf c.key).head? = some c'' →
        c'.text = c''.text

/-! ## Keys -/

theorem mem_mentionsOf {key : String} {a : TaskArtifact} {c : HighlightCandidate} :
    c ∈ a.mentionsOf key ↔ c ∈ highlightCandidates a ∧ c.text ≠ "" ∧ c.key = key := by
  rw [TaskArtifact.mentionsOf, List.mem_filter, HighlightCandidate.hasKey, Bool.and_eq_true,
    decide_eq_true_eq, decide_eq_true_eq]

theorem mem_mentions {key : String} {artifacts : List TaskArtifact} {p : Mention} :
    p ∈ mentions key artifacts ↔ p.1 ∈ artifacts ∧ p.2 ∈ p.1.mentionsOf key := by
  rw [mentions, List.mem_flatMap]
  constructor
  · rintro ⟨a, ha, hp⟩
    obtain ⟨c, hc, rfl⟩ := List.mem_map.mp hp
    exact ⟨ha, hc⟩
  · rintro ⟨ha, hc⟩
    exact ⟨p.1, ha, List.mem_map.mpr ⟨p.2, hc, rfl⟩⟩

/-- **Two texts are merged** when they are of one category and have the same ASCII words. -/
theorem normalizeHighlightKey_eq_iff {category category' : HighlightCategory} {s s' : String} :
    normalizeHighlightKey category s = normalizeHighlightKey category' s' ↔
      category = category' ∧ tagWords s.toList = tagWords s'.toList := by
  rw [← sanitizeTagValue_eq_iff]
  have hname : ∀ category : HighlightCategory,
      sanitizeTagValue category.asStr = category.asStr := by
    intro category
    cases category <;> decide
  constructor
  · intro h
    unfold normalizeHighlightKey at h
    rw [hname, hname, ← String.toList_inj] at h
    simp only [String.toList_append, List.append_assoc] at h
    -- the categories differ in their first letters
    have hcategory : category = category' := by
      cases category <;> cases category' <;> first | rfl | skip
      all_goals
        simp only [HighlightCategory.asStr] at h
        exact absurd (congrArg List.head? h) (by simp)
    subst hcategory
    exact ⟨rfl, String.toList_inj.mp (List.append_cancel_left (List.append_cancel_left h))⟩
  · rintro ⟨rfl, h⟩
    rw [normalizeHighlightKey, h, normalizeHighlightKey]

/-- What is recorded with a candidate. -/
theorem validated_of_mem {a : TaskArtifact} {c : HighlightCandidate}
    (h : c ∈ highlightCandidates a) : c.validated = a.validatedIn c.category := by
  simp only [highlightCandidates, List.mem_append, List.mem_map] at h
  rcases h with ((⟨s, _, rfl⟩ | h) | h) | ⟨s, _, rfl⟩
  · simp [TaskArtifact.validatedIn, Bool.or_assoc]
  · split at h
    · obtain ⟨s, _, rfl⟩ := List.mem_map.mp h
      rfl
    · exact absurd h List.not_mem_nil
  · split at h
    · obtain ⟨s, _, rfl⟩ := List.mem_map.mp h
      rfl
    · exact absurd h List.not_mem_nil
  · simp [TaskArtifact.validatedIn, Bool.or_assoc]

variable {artifacts : List TaskArtifact} {key : String} {agg : HighlightAggregate}

/-- Among ASCII texts only repeats and spellings are left to ask for. -/
theorem CountableLessons.of_ascii {w : WordReading}
    (hascii : ∀ a ∈ artifacts, ∀ c ∈ highlightCandidates a, ∀ d ∈ c.text.toList, d.toNat < 128)
    (honce : ∀ a ∈ artifacts, ∀ c ∈ highlightCandidates a, c.text ≠ "" →
      Returnable artifacts c.key c.category → ∀ a' ∈ artifacts,
        a'.validatedIn c.category = true → (a'.mentionsOf c.key).length ≤ 1)
    (htext : ∀ a ∈ artifacts, ∀ c ∈ highlightCandidates a, c.text ≠ "" →
      Returnable artifacts c.key c.category → ∀ a' ∈ artifacts, ∀ a'' ∈ artifacts, ∀ c' c'',
        (a'.mentionsOf c.key).head? = some c' → (a''.mentionsOf c.key).head? = some c'' →
          c'.text = c''.text) : CountableLessons w artifacts where
  words := by
    intro a ha c hc _ a' ha' c' hc' _ _ htags
    rw [w.lessonWords_of_ascii (hascii a ha c hc), w.lessonWords_of_ascii (hascii a' ha' c' hc'),
      htags]
  complete := by
    intro a ha c hc _ _ a' ha' hstates
    obtain ⟨c', hc', hsame⟩ := List.any_eq_true.mp hstates
    simp only [Bool.and_eq_true, decide_eq_true_eq] at hsame
    obtain ⟨⟨htext', hcategory⟩, hwords⟩ := hsame
    rw [w.lessonWords_of_ascii (hascii a ha c hc),
      w.lessonWords_of_ascii (hascii a' ha' c' hc')] at hwords
    have hkey : c'.key = c.key := normalizeHighlightKey_eq_iff.mpr ⟨hcategory, hwords⟩
    exact List.ne_nil_of_mem (mem_mentionsOf.mpr ⟨hc', htext', hkey⟩)
  once := honce
  text := htext

/-- The key of an aggregate is that of its text. -/
theorem key_of_aggregate (h : (key, agg) ∈ highlightAggregates artifacts) :
    key = normalizeHighlightKey agg.category agg.summary := by
  obtain ⟨p, hp, hsummary, hcategory⟩ := (aggregateOf_mentions h).first
  have hkey := (mem_mentionsOf.mp (mem_mentions.mp (List.mem_of_mem_head? hp)).2).2.2
  rw [hsummary, hcategory]
  exact hkey.symm

/-! ## Aggregates of one lesson -/

section Lesson

variable {ms ms' : List Mention} {agg' : HighlightAggregate}

/-- **The order of the mentions** does not matter but for the first text. -/
theorem AggregateOf.unique (h : AggregateOf ms agg) (h' : AggregateOf ms' agg') (hperm : ms'.Perm ms)
    (htimes : ∀ p ∈ ms, ∀ q ∈ ms, p.1.timestampCreated = q.1.timestampCreated → p.1 = q.1)
    (htext : agg.summary = agg'.summary) (hcategory : agg.category = agg'.category) :
    agg = agg' := by
  have hset : ∀ {f : Mention → String}, sortedSet (ms.map f) = sortedSet (ms'.map f) :=
    fun {f} => sortedSet_eq_iff.mpr fun _ => (hperm.map f).symm.mem_iff
  have hprojects : sortedSet (ms.filterMap (·.1.projectId)) =
      sortedSet (ms'.filterMap (·.1.projectId)) :=
    sortedSet_eq_iff.mpr fun _ => (hperm.filterMap _).symm.mem_iff
  have hcount := hperm.countP_eq (·.2.validated)
  have hpromotion : maxPromotion (ms.map (·.1.promotionState)) =
      maxPromotion (ms'.map (·.1.promotionState)) :=
    maxPromotion_perm (hperm.map _).symm
  -- the newest mentions are of one artifact
  obtain ⟨p, hp, hlatest, hid, htask, hproject, htime⟩ := h.newest
  obtain ⟨q, hq, hlatest', hid', htask', hproject', htime'⟩ := h'.newest
  have hsame : p.1 = q.1 := by
    apply htimes p hp q (hperm.mem_iff.mp hq)
    have hle := hlatest q (hperm.mem_iff.mp hq)
    have hle' := hlatest' p (hperm.mem_iff.mpr hp)
    omega
  rw [hsame] at hid htask hproject htime
  cases agg
  cases agg'
  simp only [HighlightAggregate.mk.injEq]
  exact ⟨hid.trans hid'.symm, htask.trans htask'.symm, hproject.trans hproject'.symm, htext,
    hcategory, h.supportingArtifactIds.trans (hset.trans h'.supportingArtifactIds.symm),
    h.taskIds.trans (hset.trans h'.taskIds.symm),
    h.projectIds.trans (hprojects.trans h'.projectIds.symm),
    h.validatedCount.trans (hcount.symm.trans h'.validatedCount.symm),
    h.promotionState.trans (hpromotion.trans h'.promotionState.symm), htime.trans htime'.symm⟩

theorem mentions_cons (a : TaskArtifact) (artifacts : List TaskArtifact) :
    mentions key (a :: artifacts) = (a.mentionsOf key).map (a, ·) ++ mentions key artifacts :=
  List.flatMap_cons

/-- The first mention is the first one of its artifact. -/
theorem head?_mentions {p : Mention} (h : (mentions key artifacts).head? = some p) :
    p.1 ∈ artifacts ∧ (p.1.mentionsOf key).head? = some p.2 := by
  induction artifacts with
  | nil => exact absurd h (by simp [mentions])
  | cons a artifacts ih =>
    rw [mentions_cons] at h
    cases hof : a.mentionsOf key with
    | nil =>
      rw [hof] at h
      obtain ⟨hmem, hhead⟩ := ih h
      exact ⟨List.mem_cons_of_mem a hmem, hhead⟩
    | cons c rest =>
      rw [hof, List.map_cons, List.cons_append, List.head?_cons, Option.some.injEq] at h
      subst h
      exact ⟨List.mem_cons_self, by rw [hof]; rfl⟩

variable (hids : (artifacts.map (·.artifactId)).Nodup)

include hids in
theorem eq_of_artifactId_eq {a b : TaskArtifact} (ha : a ∈ artifacts) (hb : b ∈ artifacts)
    (h : a.artifactId = b.artifactId) : a = b :=
  List.inj_on_of_nodup_map hids ha hb h

theorem mentionsOf_ne_nil {p : Mention} (h : p ∈ mentions key artifacts) :
    p.1 ∈ artifacts ∧ p.1.mentionsOf key ≠ [] :=
  ⟨(mem_mentions.mp h).1, List.ne_nil_of_mem (mem_mentions.mp h).2⟩

theorem exists_mention {a : TaskArtifact} (ha : a ∈ artifacts) (h : a.mentionsOf key ≠ []) :
    ∃ p ∈ mentions key artifacts, p.1 = a := by
  obtain ⟨c, hc⟩ := List.exists_mem_of_ne_nil _ h
  exact ⟨(a, c), mem_mentions.mpr ⟨ha, hc⟩, rfl⟩

/-- Several supporting artifacts. -/
theorem one_lt_support_iff (hagg : (key, agg) ∈ highlightAggregates artifacts) :
    1 < agg.supportingArtifactIds.length ↔ StatedTwice artifacts key := by
  rw [(aggregateOf_mentions hagg).supportingArtifactIds, one_lt_length_sortedSet]
  constructor
  · rintro ⟨x, hx, y, hy, hne⟩
    obtain ⟨p, hp, rfl⟩ := List.mem_map.mp hx
    obtain ⟨q, hq, rfl⟩ := List.mem_map.mp hy
    obtain ⟨ha, hp'⟩ := mentionsOf_ne_nil hp
    obtain ⟨hb, hq'⟩ := mentionsOf_ne_nil hq
    exact ⟨p.1, ha, q.1, hb, hp', hq', hne⟩
  · rintro ⟨a, ha, b, hb, ha', hb', hne⟩
    obtain ⟨p, hp, rfl⟩ := exists_mention ha ha'
    obtain ⟨q, hq, rfl⟩ := exists_mention hb hb'
    exact ⟨_, List.mem_map_of_mem hp, _, List.mem_map_of_mem hq, hne⟩

include hids in
/-- A tactic recurs when two artifacts state it. -/
theorem tacticHasRecurrence_iff (hagg : (key, agg) ∈ highlightAggregates artifacts) :
    tacticHasRecurrence agg = true ↔ StatedTwice artifacts key := by
  have h := aggregateOf_mentions hagg
  rw [tacticHasRecurrence, Bool.or_eq_true, Bool.or_eq_true, decide_eq_true_eq, decide_eq_true_eq,
    decide_eq_true_eq, one_lt_support_iff hagg]
  -- mentions that differ in anything are of two artifacts
  have htwo : ∀ p ∈ mentions key artifacts, ∀ q ∈ mentions key artifacts, p.1 ≠ q.1 →
      StatedTwice artifacts key := by
    intro p hp q hq hne
    obtain ⟨ha, hp'⟩ := mentionsOf_ne_nil hp
    obtain ⟨hb, hq'⟩ := mentionsOf_ne_nil hq
    exact ⟨p.1, ha, q.1, hb, hp', hq', fun hid => hne (eq_of_artifactId_eq hids ha hb hid)⟩
  refine ⟨?_, fun htwice => .inl (.inl htwice)⟩
  rintro ((htwice | htasks) | hprojects)
  · exact htwice
  · rw [h.taskIds, one_lt_length_sortedSet] at htasks
    obtain ⟨x, hx, y, hy, hne⟩ := htasks
    obtain ⟨p, hp, rfl⟩ := List.mem_map.mp hx
    obtain ⟨q, hq, rfl⟩ := List.mem_map.mp hy
    exact htwo p hp q hq fun heq => hne (by rw [heq])
  · rw [h.projectIds, one_lt_length_sortedSet] at hprojects
    obtain ⟨x, hx, y, hy, hne⟩ := hprojects
    obtain ⟨p, hp, hpx⟩ := List.mem_filterMap.mp hx
    obtain ⟨q, hq, hqy⟩ := List.mem_filterMap.mp hy
    refine htwo p hp q hq fun heq => hne ?_
    rw [heq] at hpx
    exact Option.some.inj (hpx.symm.trans hqy)

/-- What the mentions under a key share. -/
theorem of_mem_mentions (hagg : (key, agg) ∈ highlightAggregates artifacts) {p : Mention}
    (hp : p ∈ mentions key artifacts) : p.2.category = agg.category ∧
      p.2.validated = p.1.validatedIn agg.category ∧
      tagWords p.2.text.toList = tagWords agg.summary.toList := by
  obtain ⟨hmem, _, hkey⟩ := mem_mentionsOf.mp (mem_mentions.mp hp).2
  obtain ⟨hcategory, hwords⟩ :=
    normalizeHighlightKey_eq_iff.mp (hkey.trans (key_of_aggregate hagg))
  exact ⟨hcategory, hcategory ▸ validated_of_mem hmem, hwords⟩

/-- A validated mention. -/
theorem validatedCount_pos_iff (hagg : (key, agg) ∈ highlightAggregates artifacts) :
    0 < agg.validatedCount ↔ ∃ a ∈ artifacts, a.mentionsOf key ≠ [] ∧
      a.validatedIn agg.category = true := by
  rw [(aggregateOf_mentions hagg).validatedCount, List.countP_pos_iff]
  constructor
  · rintro ⟨p, hp, hvalidated⟩
    rw [(of_mem_mentions hagg hp).2.1] at hvalidated
    obtain ⟨ha, hne⟩ := mentionsOf_ne_nil hp
    exact ⟨p.1, ha, hne, hvalidated⟩
  · rintro ⟨a, ha, hne, hvalidated⟩
    obtain ⟨p, hp, rfl⟩ := exists_mention ha hne
    exact ⟨p, hp, by rw [(of_mem_mentions hagg hp).2.1, hvalidated]⟩

/-- A score above every threshold. -/
def highScore : F32 := 0x7F7FFFFF#32

include hids in
/-- **Which lessons can be returned**: those that are kept at a high score. -/
theorem returnable_iff (hagg : (key, agg) ∈ highlightAggregates artifacts) :
    Returnable artifacts key agg.category ↔ keepHighlight agg highScore = true := by
  unfold Returnable keepHighlight
  cases hcategory : agg.category with
  | decision =>
    have hhigh : decide (F32.rank 0x40600000#32 ≤ F32.rank highScore) = true := by decide
    exact iff_of_true (.inl rfl) hhigh
  | tactic =>
    have hhigh : decide (F32.rank 0x404CCCCD#32 ≤ F32.rank highScore) = true := by decide
    rw [hhigh, Bool.and_true, tacticHasRecurrence_iff hids hagg]
    simp
  | warning =>
    have hpos := validatedCount_pos_iff hagg
    rw [hcategory] at hpos
    rw [Bool.or_eq_true, decide_eq_true_eq, decide_eq_true_eq, one_lt_support_iff hagg, hpos]
    simp

include hids in
/-- No score keeps other lessons. -/
theorem returnable_of_keepHighlight (hagg : (key, agg) ∈ highlightAggregates artifacts)
    {score : F32} (hkeep : keepHighlight agg score = true) :
    Returnable artifacts key agg.category := by
  rw [returnable_iff hids hagg]
  unfold keepHighlight at *
  cases hcategory : agg.category with
  | decision => exact rfl
  | tactic =>
    rw [hcategory, Bool.and_eq_true] at hkeep
    exact Bool.and_eq_true_iff.mpr ⟨hkeep.1, by decide⟩
  | warning =>
    rw [hcategory] at hkeep
    exact hkeep

end Lesson

/-! ## Counting -/

section Counting

theorem countP_eq_sum {α : Type} (p : α → Bool) (l : List α) :
    l.countP p = (l.map fun a => if p a then 1 else 0).sum := by
  induction l with
  | nil => rfl
  | cons a l ih => rw [List.countP_cons, ih, List.map_cons, List.sum_cons, Nat.add_comm]

/-- The validated mentions, artifact by artifact. -/
theorem validatedCount_eq_sum (hagg : (key, agg) ∈ highlightAggregates artifacts) :
    agg.validatedCount = (artifacts.map fun a =>
      if a.validatedIn agg.category then (a.mentionsOf key).length else 0).sum := by
  rw [(aggregateOf_mentions hagg).validatedCount,
    List.countP_congr fun p hp => by rw [(of_mem_mentions hagg hp).2.1]]
  rw [mentions, List.countP_flatMap]
  congr 1
  apply List.map_congr_left
  intro a _
  show ((a.mentionsOf key).map (a, ·)).countP _ = _
  rw [List.countP_map]
  cases hvalidated : a.validatedIn agg.category with
  | true => simp [Function.comp_def, hvalidated]
  | false => simp [Function.comp_def, hvalidated]

/-- **Mentions are artifacts** exactly when no validated artifact states the lesson twice. -/
theorem validatedCount_eq_iff (hagg : (key, agg) ∈ highlightAggregates artifacts) :
    agg.validatedCount = artifacts.countP (fun a =>
        a.mentionsOf key ≠ [] && a.validatedIn agg.category) ↔
      ∀ a ∈ artifacts, a.validatedIn agg.category = true → (a.mentionsOf key).length ≤ 1 := by
  rw [validatedCount_eq_sum hagg, countP_eq_sum]
  constructor
  · intro hsum a ha hvalidated
    by_contra hmore
    -- every artifact that is counted has a mention, and this one has two
    refine absurd hsum (Nat.ne_of_gt (List.sum_lt_sum _ _ (fun b _ => ?_) ⟨a, ha, ?_⟩))
    · cases hb : b.validatedIn agg.category <;> cases hof : b.mentionsOf key <;> simp
    · rw [hvalidated, if_pos rfl]
      split
      · omega
      · omega
  · intro honce
    congr 1
    apply List.map_congr_left
    intro a ha
    cases hvalidated : a.validatedIn agg.category with
    | false => simp
    | true =>
      have hle := honce a ha hvalidated
      cases hof : a.mentionsOf key with
      | nil => simp
      | cons c rest =>
        have hrest : rest = [] := by
          rw [hof, List.length_cons] at hle
          exact List.eq_nil_of_length_eq_zero (by omega)
        simp [hrest]

end Counting

/-! ## From the condition to the promise -/

section Sufficient

variable {w : WordReading} {x : DigestExternals} {item : HighlightViewItem}
  (hids : (artifacts.map (·.artifactId)).Nodup)

/-- The fields an item takes over. -/
theorem highlightItem_eq_some (h : highlightItem x agg = some item) :
    keepHighlight agg (x.highlightScore agg) = true ∧ item.summary = agg.summary ∧
      item.category = agg.category ∧ item.supportingArtifactIds = agg.supportingArtifactIds ∧
      item.score = x.highlightScore agg := by
  unfold highlightItem at h
  dsimp only at h
  split at h
  · rename_i hkeep
    obtain rfl := Option.some.inj h
    exact ⟨hkeep, rfl, rfl, rfl, rfl⟩
  · exact absurd h (by simp)

/-- **The artifacts under a key** are those that state the lesson. -/
theorem states_iff_mentionsOf (hcount : CountableLessons w artifacts)
    (hagg : (key, agg) ∈ highlightAggregates artifacts)
    (hreturn : Returnable artifacts key agg.category) {a : TaskArtifact} (ha : a ∈ artifacts) :
    w.states agg.category (w.lessonWords agg.summary) a = true ↔ a.mentionsOf key ≠ [] := by
  obtain ⟨p, hp, hsummary, hcategory⟩ := (aggregateOf_mentions hagg).first
  obtain ⟨hmem, hof⟩ := mem_mentions.mp (List.mem_of_mem_head? hp)
  obtain ⟨hcandidate, htext, hkey⟩ := mem_mentionsOf.mp hof
  rw [hsummary, hcategory]
  rw [hcategory] at hreturn
  constructor
  · intro hstates
    have := hcount.complete p.1 hmem p.2 hcandidate htext (by rw [hkey]; exact hreturn) a ha hstates
    rwa [hkey] at this
  · intro hne
    obtain ⟨c, hc⟩ := List.exists_mem_of_ne_nil _ hne
    obtain ⟨hc, hctext, hckey⟩ := mem_mentionsOf.mp hc
    obtain ⟨hccategory, hcwords⟩ := normalizeHighlightKey_eq_iff.mp (hckey.trans hkey.symm)
    refine List.any_eq_true.mpr ⟨c, hc, ?_⟩
    have hsame := hcount.words a ha c hc hctext p.1 hmem p.2 hcandidate htext hccategory hcwords
    simp [hctext, hccategory, hsame]

variable (htimes : (artifacts.map (·.timestampCreated)).Nodup)

theorem mentions_perm {artifacts' : List TaskArtifact} (h : artifacts'.Perm artifacts) :
    (mentions key artifacts').Perm (mentions key artifacts) :=
  h.flatMap_right _

include hids in
/-- Every lesson has one first text, since one that cannot be returned has one artifact. -/
theorem CountableLessons.firstText (hcount : CountableLessons w artifacts) {a a' : TaskArtifact}
    (ha : a ∈ artifacts) (ha' : a' ∈ artifacts) {c c' : HighlightCandidate}
    (hc : (a.mentionsOf key).head? = some c) (hc' : (a'.mentionsOf key).head? = some c') :
    c.text = c'.text := by
  obtain ⟨hcandidate, htext, hkey⟩ := mem_mentionsOf.mp (List.mem_of_mem_head? hc)
  have hne : a.mentionsOf key ≠ [] := List.ne_nil_of_mem (List.mem_of_mem_head? hc)
  have hne' : a'.mentionsOf key ≠ [] := List.ne_nil_of_mem (List.mem_of_mem_head? hc')
  by_cases hid : a.artifactId = a'.artifactId
  · rw [eq_of_artifactId_eq hids ha ha' hid, hc', Option.some.injEq] at hc
    rw [hc]
  · have htwice : StatedTwice artifacts c.key := by
      rw [hkey]
      exact ⟨a, ha, a', ha', hne, hne', hid⟩
    refine hcount.text a ha c hcandidate htext (.inr (.inl htwice)) a ha a' ha' c c' ?_ ?_
    · rw [hkey]
      exact hc
    · rw [hkey]
      exact hc'

include hids htimes in
/-- **The order of the artifacts** does not matter to the aggregates. -/
theorem CountableLessons.highlightAggregates_perm (hcount : CountableLessons w artifacts)
    {artifacts' : List TaskArtifact} (hperm : artifacts'.Perm artifacts) :
    highlightAggregates artifacts' = highlightAggregates artifacts := by
  apply Aggregates.eq_of_mem_iff (sorted_highlightAggregates artifacts')
    (sorted_highlightAggregates artifacts)
  -- an aggregate of either order is the aggregate of the other
  have hsame : ∀ {key : String} {agg agg' : HighlightAggregate},
      (key, agg) ∈ highlightAggregates artifacts →
      (key, agg') ∈ highlightAggregates artifacts' → agg = agg' := by
    intro key agg agg' hagg hagg'
    have h := aggregateOf_mentions hagg
    have h' := aggregateOf_mentions hagg'
    obtain ⟨p, hp, hsummary, hcategory⟩ := h.first
    obtain ⟨q, hq, hsummary', hcategory'⟩ := h'.first
    obtain ⟨hpmem, hphead⟩ := head?_mentions hp
    obtain ⟨hqmem, hqhead⟩ := head?_mentions hq
    refine h.unique h' (mentions_perm hperm) ?_ ?_ ?_
    · intro r hr r' hr' htime
      exact List.inj_on_of_nodup_map htimes (mem_mentions.mp hr).1 (mem_mentions.mp hr').1 htime
    · rw [hsummary, hsummary']
      exact hcount.firstText hids hpmem (hperm.mem_iff.mp hqmem) hphead hqhead
    · rw [hcategory', hcategory]
      have hq' := (mentions_perm hperm).mem_iff.mp (List.mem_of_mem_head? hq)
      rw [(of_mem_mentions hagg hq').1, ← hcategory]
  have hsome : ∀ {key : String} {agg : HighlightAggregate} {l : List TaskArtifact},
      (key, agg) ∈ highlightAggregates l → mentions key l ≠ [] := by
    intro key agg l hagg
    obtain ⟨p, hp, _⟩ := (aggregateOf_mentions hagg).first
    exact List.ne_nil_of_mem (List.mem_of_mem_head? hp)
  intro p
  constructor
  · intro hp
    have hne : mentions p.1 artifacts ≠ [] := fun hnil =>
      hsome hp (List.perm_nil.mp (hnil ▸ mentions_perm hperm))
    obtain ⟨agg, hagg⟩ := exists_aggregate hne
    rwa [hsame hagg hp] at hagg
  · intro hp
    have hne : mentions p.1 artifacts' ≠ [] := fun hnil =>
      hsome hp (List.nil_perm.mp (hnil ▸ mentions_perm hperm))
    obtain ⟨agg, hagg⟩ := exists_aggregate hne
    rwa [← hsame hp hagg] at hagg

theorem severalProjects_perm {l l' : List HighlightViewItem} (h : l.Perm l') :
    severalProjects l = severalProjects l' := by
  rw [severalProjects, severalProjects,
    sortedSet_eq_iff.mpr fun _ => (h.filterMap _).mem_iff]

theorem perTask_inferHighlightItems (task : String) :
    (inferHighlightItems x artifacts).countP (·.taskId = task) ≤ maxHighlightsPerTask := by
  rw [inferHighlightItems_perm.countP_eq, diversifyHighlights_eq]
  exact (countP_foldl_diversifyStep _ [] (by simp) (by simp)).1 task

theorem perProject_inferHighlightItems
    (hseveral : severalProjects (candidateItems x artifacts) = true) (project : String) :
    (inferHighlightItems x artifacts).countP (·.projectId = some project) ≤
      maxHighlightsPerProject := by
  rw [inferHighlightItems_perm.countP_eq, diversifyHighlights_eq]
  refine (countP_foldl_diversifyStep _ [] (by simp) (by simp)).2 ?_ project
  rw [← hseveral]
  exact severalProjects_perm (List.perm_insertionSort _ _)

include hids htimes in
/-- **Countable lessons are counted.** -/
theorem CountableLessons.countsArtifacts (hcount : CountableLessons w artifacts)
    (x : DigestExternals) : CountsArtifacts w x artifacts where
  support := by
    intro item hitem
    obtain ⟨key, agg, hagg, hof⟩ := exists_aggregate_of_mem hitem
    obtain ⟨hkeep, hsummary, hcategory, hsupport, _⟩ := highlightItem_eq_some hof
    have hreturn := returnable_of_keepHighlight hids hagg hkeep
    rw [hsupport, hsummary, hcategory, (aggregateOf_mentions hagg).supportingArtifactIds,
      sortedSet_eq_iff]
    intro id
    rw [List.mem_map, List.mem_map]
    constructor
    · rintro ⟨p, hp, rfl⟩
      obtain ⟨hmem, hne⟩ := mentionsOf_ne_nil hp
      exact ⟨p.1, List.mem_filter.mpr
        ⟨hmem, (states_iff_mentionsOf hcount hagg hreturn hmem).mpr hne⟩, rfl⟩
    · rintro ⟨a, ha, rfl⟩
      obtain ⟨hmem, hstates⟩ := List.mem_filter.mp ha
      obtain ⟨p, hp, rfl⟩ :=
        exists_mention hmem ((states_iff_mentionsOf hcount hagg hreturn hmem).mp hstates)
      exact ⟨p, hp, rfl⟩
  validated := by
    intro item hitem
    obtain ⟨key, agg, hagg, hof⟩ := exists_aggregate_of_mem hitem
    obtain ⟨hkeep, hsummary, hcategory, _⟩ := highlightItem_eq_some hof
    have hreturn := returnable_of_keepHighlight hids hagg hkeep
    refine ⟨key, agg, hagg, hof, ?_⟩
    obtain ⟨p, hp, hpsummary, hpcategory⟩ := (aggregateOf_mentions hagg).first
    obtain ⟨hmem, hpof⟩ := mem_mentions.mp (List.mem_of_mem_head? hp)
    obtain ⟨hcandidate, htext, hkey⟩ := mem_mentionsOf.mp hpof
    have honce := hcount.once p.1 hmem p.2 hcandidate htext
    rw [hkey, ← hpcategory] at honce
    rw [(validatedCount_eq_iff hagg).mpr (honce hreturn), hsummary, hcategory]
    apply List.countP_congr
    intro a ha
    rw [Bool.and_eq_true, Bool.and_eq_true, decide_eq_true_eq,
      states_iff_mentionsOf hcount hagg hreturn ha]
  words := by
    intro a ha c hc hctext a' ha' c' hc' hctext' hkey
    obtain ⟨hcategory, hwords⟩ := normalizeHighlightKey_eq_iff.mp hkey
    exact ⟨hcategory, hcount.words a ha c hc hctext a' ha' c' hc' hctext' hcategory hwords⟩
  perTask := perTask_inferHighlightItems
  perProject := perProject_inferHighlightItems
  order := by
    intro artifacts' hperm
    simp only [inferHighlightItems, hcount.highlightAggregates_perm hids htimes hperm]

end Sufficient

/-! ## From the promise to the condition -/

section Necessary

variable {w : WordReading} {x : DigestExternals} {item : HighlightViewItem}

/-- The outside functions with another score. -/
def DigestExternals.withScore (x : DigestExternals) (score : HighlightAggregate → F32) :
    DigestExternals :=
  { x with highlightScore := score }

/-- The score of one aggregate is high. -/
def favour (agg : HighlightAggregate) (other : HighlightAggregate) : F32 :=
  if other = agg then highScore else 0

/-- The aggregate an item returned is made of. -/
theorem eq_aggregate (hagg : (key, agg) ∈ highlightAggregates artifacts)
    (hof : highlightItem x agg = some item) {key' : String} {agg' : HighlightAggregate}
    (hagg' : (key', agg') ∈ highlightAggregates artifacts)
    (hof' : highlightItem x agg' = some item) : agg' = agg := by
  obtain ⟨_, hsummary, hcategory, _⟩ := highlightItem_eq_some hof
  obtain ⟨_, hsummary', hcategory', _⟩ := highlightItem_eq_some hof'
  have hkey : key' = key := by
    rw [key_of_aggregate hagg, key_of_aggregate hagg', ← hsummary, ← hcategory, hsummary',
      hcategory']
  exact Aggregates.Sorted.unique (sorted_highlightAggregates artifacts) (hkey ▸ hagg') hagg

/-- **A lesson that is kept at a high score** is returned if the others score nothing. -/
theorem exists_returned (x : DigestExternals) (hagg : (key, agg) ∈ highlightAggregates artifacts)
    (hkeep : keepHighlight agg highScore = true) :
    ∃ item, highlightItem (x.withScore (favour agg)) agg = some item ∧
      item ∈ inferHighlightItems (x.withScore (favour agg)) artifacts := by
  have hscore : (x.withScore (favour agg)).highlightScore agg = highScore := if_pos rfl
  have hsome : (highlightItem (x.withScore (favour agg)) agg).isSome = true := by
    unfold highlightItem
    dsimp only
    rw [hscore, if_pos hkeep]
    rfl
  obtain ⟨item, hitem⟩ := Option.isSome_iff_exists.mp hsome
  refine ⟨item, hitem, mem_inferHighlightItems ?_ ?_⟩
  · exact List.mem_filterMap.mpr ⟨(key, agg), hagg, hitem⟩
  · intro i hi
    obtain ⟨p, _, hof⟩ := List.mem_filterMap.mp hi
    by_cases hp : p.2 = agg
    · rw [hp, hitem] at hof
      exact .inl (Option.some.inj hof).symm
    · -- any other aggregate scores nothing
      right
      have hzero : (x.withScore (favour agg)).highlightScore p.2 = 0 := if_neg hp
      have hi' := (highlightItem_eq_some hof).2.2.2.2
      have hitem' := (highlightItem_eq_some hitem).2.2.2.2
      rw [hzero] at hi'
      rw [hscore] at hitem'
      unfold highlightBefore
      rw [hi', hitem']
      have hlow : F32.rank 0 < F32.rank highScore := by decide
      omega

section Returned

variable (hcounts : CountsArtifacts w x artifacts)
  (hagg : (key, agg) ∈ highlightAggregates artifacts) (hof : highlightItem x agg = some item)
  (hitem : item ∈ inferHighlightItems x artifacts)
  (hids : (artifacts.map (·.artifactId)).Nodup)

include hcounts hagg hof hitem hids

/-- The artifacts that state a lesson that is returned. -/
theorem CountsArtifacts.states_iff {a : TaskArtifact} (ha : a ∈ artifacts) :
    w.states agg.category (w.lessonWords agg.summary) a = true ↔ a.mentionsOf key ≠ [] := by
  obtain ⟨_, hsummary, hcategory, hsupport, _⟩ := highlightItem_eq_some hof
  have hsame := hcounts.support item hitem
  rw [hsupport, hsummary, hcategory, (aggregateOf_mentions hagg).supportingArtifactIds,
    sortedSet_eq_iff] at hsame
  constructor
  · intro hstates
    obtain ⟨p, hp, hid⟩ := List.mem_map.mp ((hsame a.artifactId).mpr
      (List.mem_map.mpr ⟨a, List.mem_filter.mpr ⟨ha, hstates⟩, rfl⟩))
    obtain ⟨hmem, hne⟩ := mentionsOf_ne_nil hp
    rwa [eq_of_artifactId_eq hids hmem ha hid] at hne
  · intro hne
    obtain ⟨p, hp, rfl⟩ := exists_mention ha hne
    obtain ⟨b, hb, hid⟩ := List.mem_map.mp ((hsame p.1.artifactId).mp
      (List.mem_map.mpr ⟨p, hp, rfl⟩))
    obtain ⟨hmem, hstates⟩ := List.mem_filter.mp hb
    rwa [eq_of_artifactId_eq hids hmem ha hid] at hstates

/-- Its validated artifacts have one mention each. -/
theorem CountsArtifacts.once {a : TaskArtifact} (ha : a ∈ artifacts)
    (hvalidated : a.validatedIn agg.category = true) : (a.mentionsOf key).length ≤ 1 := by
  obtain ⟨_, hsummary, hcategory, _⟩ := highlightItem_eq_some hof
  obtain ⟨key', agg', hagg', hof', hcount⟩ := hcounts.validated item hitem
  rw [eq_aggregate hagg hof hagg' hof', hsummary, hcategory] at hcount
  refine (validatedCount_eq_iff hagg).mp ?_ a ha hvalidated
  rw [hcount]
  apply List.countP_congr
  intro b hb
  rw [Bool.and_eq_true, Bool.and_eq_true, decide_eq_true_eq,
    hcounts.states_iff hagg hof hitem hids hb]

omit hids in
/-- Each of its artifacts states it first with the text that is shown: it could come first. -/
theorem CountsArtifacts.firstText {a : TaskArtifact} (ha : a ∈ artifacts) {c : HighlightCandidate}
    (hc : (a.mentionsOf key).head? = some c) : c.text = agg.summary := by
  classical
  obtain ⟨_, hsummary, hcategory, _⟩ := highlightItem_eq_some hof
  have hmem := hitem
  rw [← hcounts.order (a :: artifacts.erase a) (List.perm_cons_erase ha).symm] at hmem
  obtain ⟨key', agg', hagg', hof'⟩ := exists_aggregate_of_mem hmem
  obtain ⟨_, hsummary', hcategory', _⟩ := highlightItem_eq_some hof'
  have hkey : key' = key := by
    rw [key_of_aggregate hagg, key_of_aggregate hagg', ← hsummary, ← hcategory, hsummary',
      hcategory']
  subst hkey
  obtain ⟨p, hp, hfirst, _⟩ := (aggregateOf_mentions hagg').first
  have hhead : (mentions key' (a :: artifacts.erase a)).head? = some (a, c) := by
    rw [mentions_cons, List.head?_append, List.head?_map, hc]
    rfl
  rw [hhead, Option.some.injEq] at hp
  subst hp
  rw [← hsummary, hsummary', hfirst]

end Returned

variable (hids : (artifacts.map (·.artifactId)).Nodup)

include hids in
/-- A lesson that can be returned is, at some score. -/
theorem exists_returned_of_returnable (x : DigestExternals) {a : TaskArtifact} (ha : a ∈ artifacts)
    {c : HighlightCandidate} (hc : c ∈ highlightCandidates a) (htext : c.text ≠ "")
    (hreturn : Returnable artifacts c.key c.category) :
    ∃ agg item, (c.key, agg) ∈ highlightAggregates artifacts ∧ agg.category = c.category ∧
      highlightItem (x.withScore (favour agg)) agg = some item ∧
      item ∈ inferHighlightItems (x.withScore (favour agg)) artifacts := by
  have hmention : (a, c) ∈ mentions c.key artifacts :=
    mem_mentions.mpr ⟨ha, mem_mentionsOf.mpr ⟨hc, htext, rfl⟩⟩
  obtain ⟨agg, hagg⟩ := exists_aggregate (List.ne_nil_of_mem hmention)
  have hcategory := (of_mem_mentions hagg hmention).1
  have hkeep := (returnable_iff hids hagg).mp (hcategory ▸ hreturn)
  obtain ⟨item, hof, hitem⟩ := exists_returned x hagg hkeep
  exact ⟨agg, item, hagg, hcategory.symm, hof, hitem⟩

include hids in
/-- **Counted lessons are countable.** -/
theorem countableLessons_of_countsArtifacts (x : DigestExternals)
    (h : ∀ score, CountsArtifacts w (x.withScore score) artifacts) :
    CountableLessons w artifacts where
  words := by
    intro a ha c hc htext a' ha' c' hc' htext' hcategory htags
    exact ((h fun _ => 0).words a ha c hc htext a' ha' c' hc' htext'
      (normalizeHighlightKey_eq_iff.mpr ⟨hcategory, htags⟩)).2
  complete := by
    intro a ha c hc htext hreturn a' ha' hstates
    obtain ⟨agg, item, hagg, hcategory, hof, hitem⟩ :=
      exists_returned_of_returnable hids x ha hc htext hreturn
    have hcounts := h (favour agg)
    -- the text shown has the words of every text under the key
    obtain ⟨p, hp, hsummary, hpcategory⟩ := (aggregateOf_mentions hagg).first
    obtain ⟨hmem, hpof⟩ := mem_mentions.mp (List.mem_of_mem_head? hp)
    obtain ⟨hcandidate, hptext, hkey⟩ := mem_mentionsOf.mp hpof
    have hwords := (hcounts.words a ha c hc htext p.1 hmem p.2 hcandidate hptext hkey.symm).2
    rw [hwords, ← hsummary, ← hcategory] at hstates
    exact (hcounts.states_iff hagg hof hitem hids ha').mp hstates
  once := by
    intro a ha c hc htext hreturn a' ha' hvalidated
    obtain ⟨agg, item, hagg, hcategory, hof, hitem⟩ :=
      exists_returned_of_returnable hids x ha hc htext hreturn
    rw [← hcategory] at hvalidated
    exact (h (favour agg)).once hagg hof hitem hids ha' hvalidated
  text := by
    intro a ha c hc htext hreturn a' ha' a'' ha'' _ _ hc' hc''
    obtain ⟨agg, item, hagg, _, hof, hitem⟩ :=
      exists_returned_of_returnable hids x ha hc htext hreturn
    have hcounts := h (favour agg)
    rw [hcounts.firstText hagg hof hitem ha' hc', hcounts.firstText hagg hof hitem ha'' hc'']

/-- **Highlights count artifacts**, whatever the score, exactly if the lessons can be counted by
their mentions. -/
theorem highlights_count_artifacts_iff (w : WordReading) (x : DigestExternals)
    {artifacts : List TaskArtifact} (hids : (artifacts.map (·.artifactId)).Nodup)
    (htimes : (artifacts.map (·.timestampCreated)).Nodup) :
    (∀ score, CountsArtifacts w (x.withScore score) artifacts) ↔ CountableLessons w artifacts :=
  ⟨countableLessons_of_countsArtifacts hids x,
    fun hcount score => hcount.countsArtifacts hids htimes (x.withScore score)⟩

end Necessary

/-! ### Four small histories -/

/-- ASCII, and the ideographs of the texts below. -/
def sampleReading : WordReading where
  isAlphanumeric c := if c.toNat < 128 then c.isAlphanum else 0x4E00 ≤ c.toNat && c.toNat < 0xA000
  toLowercase c := [c.toLower]
  ascii _ h := ⟨if_pos h, rfl⟩

/-- The environment of the samples. -/
def sampleScoring : DigestExternals where
  sha256Hex text := text
  toLowercase text := text
  chunkText text := [⟨text, 0, text.length⟩]
  fixed3 _ := "0.500"
  metricJson name value := name ++ ":" ++ value
  highlightScore _ := 0
  highlightConfidence _ _ := 0

/-- A task that ended with the failures, checked or not. -/
def failedTask (id : String) (time : ℤ) (failures validation : List String) : TaskArtifact :=
  { artifactId := id, artifactKind := .taskFinish, taskId := id, tenantId := "t"
    whatFailed := failures, validation := validation, timestampCreated := time }

/-- One checked task that names its failure twice. -/
def repeatedFailure : List TaskArtifact :=
  [failedTask "a" 1 ["disk full", "disk full"] ["df -h"]]

/-- Two failures in another script. -/
def foreignFailures : List TaskArtifact :=
  [failedTask "a" 1 ["磁盘已满"] [], failedTask "b" 2 ["网络断开"] []]

/-- One failure in two spellings. -/
def respelledFailure : List TaskArtifact :=
  [failedTask "a" 1 ["Disk full!"] [], failedTask "b" 2 ["disk full"] []]

/-- One failure of two tasks, one of them checked. -/
def sharedFailure : List TaskArtifact :=
  [failedTask "a" 1 ["disk full"] ["df -h"], failedTask "b" 2 ["disk full"] []]

theorem highlights_count_artifacts_shared :
    CountsArtifacts sampleReading sampleScoring sharedFailure := by
  have htext : ∀ a ∈ sharedFailure, ∀ c ∈ highlightCandidates a, c.text = "disk full" := by
    decide
  have hone : ∀ a ∈ sharedFailure, ∀ c ∈ highlightCandidates a, ∀ a' ∈ sharedFailure,
      (a'.mentionsOf c.key).length = 1 := by
    decide
  refine (highlights_count_artifacts_iff sampleReading sampleScoring (by decide)
    (by decide)).mpr (CountableLessons.of_ascii ?_ ?_ ?_) sampleScoring.highlightScore
  · intro a ha c hc d hd
    rw [htext a ha c hc] at hd
    have hall : "disk full".toList.all fun d => d.toNat < 128 := by decide
    exact of_decide_eq_true (List.all_eq_true.mp hall d hd)
  · intro a ha c hc _ _ a' ha' _
    exact (hone a ha c hc a' ha').le
  · intro a ha c hc _ _ a' ha' a'' ha'' c' c'' hc' hc''
    have hin := mem_mentionsOf.mp (List.mem_of_mem_head? hc')
    have hin' := mem_mentionsOf.mp (List.mem_of_mem_head? hc'')
    rw [htext a' ha' c' hin.1, htext a'' ha'' c'' hin'.1]

/-- **Counted twice, merged, respelled**: a validated artifact counts for each of its mentions,
texts in another script are one lesson, and the text shown depends on the order. -/
theorem highlights_miscounted :
    (¬ ∀ score, CountsArtifacts sampleReading (sampleScoring.withScore score) repeatedFailure) ∧
      (¬ ∀ score, CountsArtifacts sampleReading (sampleScoring.withScore score) foreignFailures) ∧
      ¬ ∀ score, CountsArtifacts sampleReading (sampleScoring.withScore score) respelledFailure := by
  refine ⟨fun h => ?_, fun h => ?_, fun h => ?_⟩
  · have hcount := countableLessons_of_countsArtifacts (by decide) sampleScoring h
    have honce := hcount.once _ (List.mem_singleton_self _) ⟨"disk full", .warning, true⟩
      (by decide) (by decide)
      (.inr (.inr ⟨rfl, _, List.mem_singleton_self _, by decide, by decide⟩))
      _ (List.mem_singleton_self _) (by decide)
    exact absurd honce (by decide)
  · have hwords := (h fun _ => 0).words (failedTask "a" 1 ["磁盘已满"] []) (by decide)
      ⟨"磁盘已满", .warning, false⟩ (by decide) (by decide)
      (failedTask "b" 2 ["网络断开"] []) (by decide) ⟨"网络断开", .warning, false⟩
      (by decide) (by decide) (by decide)
    exact absurd hwords.2 (by decide)
  · have hcount := countableLessons_of_countsArtifacts (by decide) sampleScoring h
    have htext := hcount.text (failedTask "a" 1 ["Disk full!"] []) (by decide)
      ⟨"Disk full!", .warning, false⟩ (by decide) (by decide)
      (.inr (.inl ⟨failedTask "a" 1 ["Disk full!"] [], by decide,
        failedTask "b" 2 ["disk full"] [], by decide, by decide, by decide,
        by decide⟩))
      (failedTask "a" 1 ["Disk full!"] []) (by decide) (failedTask "b" 2 ["disk full"] [])
      (by decide) ⟨"Disk full!", .warning, false⟩ ⟨"disk full", .warning, false⟩
      (by decide) (by decide)
    exact absurd htext (by decide)
