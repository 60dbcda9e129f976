/-
# Empty digests

`persist_digest_artifact` skips a digest that has nothing to tell
(`is_empty_generated_digest_artifact`).  Whether it has is a matter of the artifacts it is built
from: a library is empty exactly when they yield no item (`isEmpty_library_iff`), a brief when no
task is listed (`isEmpty_brief_iff`), and a resume never is (`isEmpty_resume`).
-/
import Memd.DigestSources
import Memd.HighlightAggregates

open TaskArtifact Text

/-! ## Texts that contain a phrase -/

theorem contains_append {pre phrase post : String} (h : asciiLower phrase.toList = phrase.toList) :
    contains (asciiLower (pre ++ phrase ++ post).toList) phrase = true := by
  have hinfix : phrase.toList <:+: asciiLower (pre ++ phrase ++ post).toList := by
    refine ⟨asciiLower pre.toList, asciiLower post.toList, ?_⟩
    conv_lhs => rw [← h]
    simp only [asciiLower, String.toList_append, List.map_append]
  simpa [contains] using hinfix

/-- A summary with one of the phrases says so, whatever stands around it. -/
theorem containsEmptyGeneratedDigestSummary_of_eq {text pre rest phrase : String} (post : String)
    (htext : text = pre ++ rest) (hrest : rest = " " ++ phrase ++ post)
    (hmem : phrase ∈ ["contains 0 ranked lessons", "contains 0 recent failure summaries",
      "contains 0 explicit or inferred decisions", "contains 0 evidence highlights",
      "has 0 active tasks, 0 recent completed tasks, 0 recent failures, 0 decisions, and 0 evidence highlights"])
    (h : asciiLower phrase.toList = phrase.toList) :
    containsEmptyGeneratedDigestSummary text = true := by
  have heq : text = (pre ++ " ") ++ phrase ++ post := by
    rw [htext, hrest]
    simp only [String.append_assoc]
  rw [heq]
  exact List.any_eq_true.mpr ⟨phrase, hmem, contains_append h⟩

/-! ## Sets of ids -/

theorem sortedSet_eq_nil_iff {l : List String} : sortedSet l = [] ↔ l = [] := by
  rw [List.eq_nil_iff_forall_not_mem, List.eq_nil_iff_forall_not_mem]
  simp only [mem_sortedSet]

/-- **Every highlight names an artifact that supports it.** -/
theorem supportingArtifactIds_ne_nil {x : DigestExternals} {sources : List TaskArtifact}
    {item : HighlightViewItem} (h : item ∈ inferHighlightItems x sources) :
    item.supportingArtifactIds ≠ [] := by
  obtain ⟨key, agg, hagg, hitem⟩ := exists_aggregate_of_mem h
  have hof := aggregateOf_mentions hagg
  obtain ⟨p, hp, _⟩ := hof.first
  unfold highlightItem at hitem
  dsimp only at hitem
  split at hitem
  · obtain rfl := Option.some.inj hitem
    show agg.supportingArtifactIds ≠ []
    rw [hof.supportingArtifactIds, Ne, sortedSet_eq_nil_iff, List.map_eq_nil_iff]
    exact List.ne_nil_of_mem (List.mem_of_mem_head? hp)
  · exact absurd hitem (by simp)

/-! ## Which digests are empty -/

/-- The artifacts of a scope that are no digests, the newest first. -/
def Db.currentSources (cfg : SearchConfig) (db : Db) (t : TenantId) (family : DigestFamily) :
    List TaskArtifact :=
  digestSourceArtifacts (newestFirst (·.timestampCreated) (db.listedArtifacts cfg t family))

/-- The artifacts yield something a digest of the family can tell. -/
def DigestFamily.Yields (x : DigestExternals) (sources : List TaskArtifact) : DigestFamily → Prop
  | .projectBrief _ => sources ≠ []
  | .taskResume _ => True
  | .failureLibrary _ => inferFailureItems sources ≠ []
  | .decisionLibrary _ => inferDecisionItems sources ≠ []
  | .evidenceLibrary _ => inferEvidenceItems sources ≠ []
  | .highlightLibrary _ => inferHighlightItems x sources ≠ []

/-! ### The contents -/

/-- The content has nothing to tell, and its summary says so. -/
structure LibraryContent.Blank (content : LibraryContent) : Prop where
  whatFailed : content.whatFailed = []
  validation : content.validation = []
  followups : content.followups = []
  related : content.relatedArtifactIds = []
  summary : containsEmptyGeneratedDigestSummary content.summary = true

section Contents

variable {t : TenantId} {p : Option String} {sources : List TaskArtifact}

theorem blank_failureContent : (failureContent t p sources).Blank ↔ inferFailureItems sources = [] := by
  refine ⟨fun h => List.map_eq_nil_iff.mp h.related, fun hitems => ?_⟩
  unfold failureContent
  rw [hitems]
  refine ⟨rfl, rfl, rfl, rfl, ?_⟩
  refine @containsEmptyGeneratedDigestSummary_of_eq _ ("Failure library for " ++ scopeName t p)
    (" contains " ++ "0" ++ " recent failure summaries.") "contains 0 recent failure summaries" "."
    ?_ (by decide) (by simp) (by decide)
  simp only [String.append_assoc]
  rfl

theorem blank_decisionContent :
    (decisionContent t p sources).Blank ↔ inferDecisionItems sources = [] := by
  refine ⟨fun h => List.map_eq_nil_iff.mp h.related, fun hitems => ?_⟩
  unfold decisionContent
  rw [hitems]
  refine ⟨rfl, rfl, rfl, rfl, ?_⟩
  refine @containsEmptyGeneratedDigestSummary_of_eq _ ("Decision library for " ++ scopeName t p)
    (" contains " ++ "0" ++ " explicit or inferred decisions.")
    "contains 0 explicit or inferred decisions" "."
    ?_ (by decide) (by simp) (by decide)
  simp only [String.append_assoc]
  rfl

theorem blank_evidenceContent :
    (evidenceContent t p sources).Blank ↔ inferEvidenceItems sources = [] := by
  refine ⟨fun h => List.map_eq_nil_iff.mp h.related, fun hitems => ?_⟩
  unfold evidenceContent
  rw [hitems]
  refine ⟨rfl, rfl, rfl, rfl, ?_⟩
  refine @containsEmptyGeneratedDigestSummary_of_eq _ ("Evidence library for " ++ scopeName t p)
    (" contains " ++ "0" ++ " evidence highlights.") "contains 0 evidence highlights" "."
    ?_ (by decide) (by simp) (by decide)
  simp only [String.append_assoc]
  rfl

theorem blank_highlightContent {x : DigestExternals} :
    (highlightContent x t p sources).Blank ↔ inferHighlightItems x sources = [] := by
  constructor
  · intro h
    -- every highlight has support, and the support is what the digest names
    have hsupport := sortedSet_eq_nil_iff.mp h.related
    refine List.eq_nil_iff_forall_not_mem.mpr fun item hitem => ?_
    exact supportingArtifactIds_ne_nil hitem (List.flatMap_eq_nil_iff.mp hsupport item hitem)
  · intro hitems
    unfold highlightContent
    rw [hitems]
    refine ⟨rfl, rfl, rfl, rfl, ?_⟩
    refine @containsEmptyGeneratedDigestSummary_of_eq _ ("Highlight library for " ++ scopeName t p)
      (" contains " ++ "0" ++ " ranked lessons with future-agent uplift.")
      "contains 0 ranked lessons" " with future-agent uplift."
      ?_ (by decide) (by simp) (by decide)
    simp only [String.append_assoc]
    rfl

end Contents

/-! ### The digests -/

/-- A test, by whatever instance it is decided. -/
theorem decide_any_iff {p : Prop} (inst : Decidable p) : @decide p inst = true ↔ p := by
  cases inst with
  | isTrue h => exact iff_of_true rfl h
  | isFalse h => exact iff_of_false Bool.false_ne_true h

section Empty

variable {cfg : SearchConfig} {t : TenantId} {db : Db} {x : DigestExternals} {stamp : Stamp}
  {family : DigestFamily} {g : TaskArtifact}

theorem isEmpty_buildLibraryDigest {p : Option String} {role : DigestRole} {key : String}
    {content : LibraryContent} (hrole : role ≠ .taskResume) :
    isEmptyGeneratedDigestArtifact
        (finalizeArtifactForStorage (buildLibraryDigestArtifact stamp t p role key content)) = true ↔
      content.Blank := by
  have hlists : ∀ {a b c d : Prop} (ia : Decidable a) (ib : Decidable b) (ic : Decidable c)
      (id : Decidable d), (((@decide a ia = true ∧ @decide b ib = true) ∧ @decide c ic = true) ∧
        @decide d id = true ↔ ((a ∧ b) ∧ c) ∧ d) :=
    fun ia ib ic id => and_congr (and_congr (and_congr (decide_any_iff ia) (decide_any_iff ib))
      (decide_any_iff ic)) (decide_any_iff id)
  have hblank : content.Blank ↔ (((content.whatFailed = [] ∧ content.validation = []) ∧
      content.followups = []) ∧ content.relatedArtifactIds = []) ∧
      containsEmptyGeneratedDigestSummary content.summary = true :=
    ⟨fun ⟨h₁, h₂, h₃, h₄, h₅⟩ => ⟨⟨⟨⟨h₁, h₂⟩, h₃⟩, h₄⟩, h₅⟩,
      fun ⟨⟨⟨⟨h₁, h₂⟩, h₃⟩, h₄⟩, h₅⟩ => ⟨h₁, h₂, h₃, h₄, h₅⟩⟩
  rw [hblank]
  cases role with
  | taskResume => exact absurd rfl hrole
  | _ =>
    simp [isEmptyGeneratedDigestArtifact, finalizeArtifactForStorage, buildLibraryDigestArtifact,
      newDigest, newWithStatus, new, DigestRole.asStr]
    exact fun _ => hlists _ _ _ _

/-- A resume is never empty. -/
theorem isEmpty_resume {taskId : String}
    (h : generateDigest x cfg stamp db t (.taskResume taskId) = .ok g) :
    isEmptyGeneratedDigestArtifact (finalizeArtifactForStorage g) = false := by
  rw [generateDigest] at h
  cases hfind : (db.listTasks t none 500).find? (·.taskId = taskId) with
  | none => rw [hfind] at h; exact absurd h (by simp)
  | some task =>
    rw [hfind] at h
    obtain rfl := Except.ok.inj h
    simp [isEmptyGeneratedDigestArtifact, finalizeArtifactForStorage,
      buildTaskResumeDigestArtifact, newDigest, newWithStatus, new, DigestRole.asStr]

theorem currentSources_eq {p : Option String} {tenants : List TenantId}
    (htenants : db.scopedTenantsForProject cfg t p = .ok tenants) (hfamily : ∀ d : Db,
      d.listedArtifacts cfg t family =
        d.scopeArtifacts p 500 ((d.scopedTenantsForProject cfg t p).toOption.getD [])) :
    db.currentSources cfg t family =
      digestSourceArtifacts (newestFirst (·.timestampCreated) (db.scopeArtifacts p 500 tenants)) := by
  rw [Db.currentSources, hfamily, htenants]
  rfl

/-- **A library is empty** exactly when the artifacts yield no item. -/
theorem isEmpty_library_iff (hfamily : family.isLibrary = true)
    (h : generateDigest x cfg stamp db t family = .ok g) :
    isEmptyGeneratedDigestArtifact (finalizeArtifactForStorage g) = true ↔
      ¬ family.Yields x (db.currentSources cfg t family) := by
  have hlibrary : ∀ {p role content} {Items : List TaskArtifact → Prop}, role ≠ .taskResume →
      (∀ sources, (content t p sources).Blank ↔ ¬ Items sources) →
      (∀ d : Db, d.listedArtifacts cfg t family =
        d.scopeArtifacts p 500 ((d.scopedTenantsForProject cfg t p).toOption.getD [])) →
      libraryDigest cfg stamp db t p role content = .ok g →
      (isEmptyGeneratedDigestArtifact (finalizeArtifactForStorage g) = true ↔
        ¬ Items (db.currentSources cfg t family)) := by
    intro p role content Items hrole hblank hlisted hg
    rw [libraryDigest, Db.loadProjectArtifacts] at hg
    cases htenants : db.scopedTenantsForProject cfg t p with
    | error e => rw [htenants] at hg; exact absurd hg (by simp [Except.map])
    | ok tenants =>
      rw [htenants] at hg
      obtain rfl := Except.ok.inj hg
      rw [isEmpty_buildLibraryDigest hrole, hblank, currentSources_eq htenants hlisted]
  cases family with
  | projectBrief p => exact absurd hfamily Bool.false_ne_true
  | taskResume taskId => exact absurd hfamily Bool.false_ne_true
  | failureLibrary p =>
    exact @hlibrary p _ _ (inferFailureItems · ≠ []) (by decide)
      (fun _ => blank_failureContent.trans not_not.symm) (fun _ => rfl) h
  | decisionLibrary p =>
    exact @hlibrary p _ _ (inferDecisionItems · ≠ []) (by decide)
      (fun _ => blank_decisionContent.trans not_not.symm) (fun _ => rfl) h
  | evidenceLibrary p =>
    exact @hlibrary p _ _ (inferEvidenceItems · ≠ []) (by decide)
      (fun _ => blank_evidenceContent.trans not_not.symm) (fun _ => rfl) h
  | highlightLibrary p =>
    exact @hlibrary p _ _ (inferHighlightItems x · ≠ []) (by decide)
      (fun _ => blank_highlightContent.trans not_not.symm) (fun _ => rfl) h

/-- Every task has an artifact that is no digest. -/
def TasksHaveArtifacts (db : Db) : Prop :=
  ∀ task ∈ db.tasks, ∃ a ∈ db.taskArtifacts,
    a.artifactKind ≠ .digest ∧ a.tenantId = task.tenantId ∧ a.taskId = task.taskId

theorem of_mem_listTasks {task : TaskRow} {t' : TenantId} {p : Option String} {limit : ℕ}
    (h : task ∈ db.listTasks t' p limit) : task ∈ db.tasks ∧ task.tenantId = t' := by
  have hmem := List.mem_of_mem_take h
  rw [List.mem_mergeSort, List.mem_filter, Bool.and_eq_true, beq_iff_eq] at hmem
  exact ⟨hmem.1, hmem.2.1⟩

/-- Where tasks are listed, artifacts are. -/
theorem exists_listed (htasks : TasksHaveArtifacts db) {task : TaskRow} {t' : TenantId}
    {p : Option String} {limit : ℕ} (h : task ∈ db.listTasks t' p limit) :
    ∃ a ∈ db.listTaskArtifacts t' task.taskId, a.artifactKind ≠ .digest := by
  obtain ⟨hmem, rfl⟩ := of_mem_listTasks h
  obtain ⟨a, ha, hkind, htenant, htask⟩ := htasks task hmem
  exact ⟨a, mem_listTaskArtifacts.mpr ⟨ha, htenant, htask⟩, hkind⟩

theorem listTasks_of_scopeArtifacts_nil (htasks : TasksHaveArtifacts db) {p : Option String}
    {limit : ℕ} {tenants : List TenantId} (h : db.scopeArtifacts p limit tenants = [])
    {t' : TenantId} (ht : t' ∈ tenants) : db.listTasks t' p limit = [] := by
  refine List.eq_nil_iff_forall_not_mem.mpr fun task htask => ?_
  obtain ⟨a, ha, -⟩ := exists_listed htasks htask
  exact List.eq_nil_iff_forall_not_mem.mp h a (mem_scopeArtifacts.mpr ⟨t', ht, task, htask, ha⟩)

/-- The brief of a project without tasks. -/
theorem blank_noTasks {p : String} : isEmptyGeneratedDigestArtifact (finalizeArtifactForStorage
    (buildProjectBriefDigestArtifact stamp (buildProjectBriefView t p [] [] [] []))) = true := by
  refine (isEmpty_buildLibraryDigest (by decide)).mpr ⟨rfl, rfl, rfl, rfl, ?_⟩
  refine @containsEmptyGeneratedDigestSummary_of_eq _ ("Project " ++ p)
    (" has " ++ "0" ++ " active tasks, " ++ "0" ++ " recent completed tasks, " ++ "0" ++
      " recent failures, " ++ "0" ++ " decisions, and " ++ "0" ++ " evidence highlights.")
    "has 0 active tasks, 0 recent completed tasks, 0 recent failures, 0 decisions, and 0 evidence highlights"
    "." ?_ (by decide) (by simp) (by decide)
  show "Project " ++ p ++ " has " ++ "0" ++ " active tasks, " ++ "0" ++
    " recent completed tasks, " ++ "0" ++ " recent failures, " ++ "0" ++ " decisions, and " ++
    "0" ++ " evidence highlights." ++ "" = _
  simp only [String.append_assoc, String.append_empty]

/-- **A brief is empty** exactly when nothing is listed. -/
theorem isEmpty_brief_iff (hclear : ClearIds db) (htasks : TasksHaveArtifacts db) {p : String}
    (h : generateDigest x cfg stamp db t (.projectBrief p) = .ok g) :
    isEmptyGeneratedDigestArtifact (finalizeArtifactForStorage g) = true ↔
      db.listedArtifacts cfg t (.projectBrief p) = [] := by
  have hrelated : ∀ {id}, id ∈ g.relatedArtifactIds ↔ _ := mem_relatedArtifactIds hclear rfl h
  obtain ⟨taskViews, hviews, h⟩ := Proc.except_bind_eq_ok.mp h
  obtain ⟨artifacts, hload, h⟩ := Proc.except_bind_eq_ok.mp h
  obtain rfl := Except.ok.inj h
  constructor
  · intro hempty
    have hnone := ((isEmpty_buildLibraryDigest (by decide)).mp hempty).related
    refine List.eq_nil_iff_forall_not_mem.mpr fun a ha => ?_
    exact List.eq_nil_iff_forall_not_mem.mp hnone _ (hrelated.mpr ⟨a, ha, rfl⟩)
  · intro hnone
    rw [Db.loadTaskViews] at hviews
    rw [Db.loadProjectArtifacts] at hload
    rw [Db.listedArtifacts] at hnone
    cases htenants : db.scopedTenantsForProject cfg t (some p) with
    | error e => rw [htenants] at hviews; exact absurd hviews (by simp [Except.map])
    | ok tenants =>
      rw [htenants] at hviews hload hnone
      change db.scopeArtifacts (some p) 200 tenants = [] at hnone
      obtain rfl : newestFirst (·.timestampCreated) (db.scopeArtifacts (some p) 200 tenants) =
          artifacts := Except.ok.inj hload
      have hviews : (tenants.flatMap fun t' => (db.listTasks t' (some p) 200).map fun task =>
          buildTaskResumeView task (db.listTaskArtifacts t' task.taskId)) = taskViews :=
        Except.ok.inj hviews
      have hnil : taskViews = [] := by
        rw [← hviews, List.flatMap_eq_nil_iff]
        intro t' ht'
        rw [listTasks_of_scopeArtifacts_nil htasks hnone ht']
        rfl
      rw [hnone, hnil]
      exact blank_noTasks

end Empty
