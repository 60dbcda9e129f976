/-
# What a digest is built from

The reads behind `generateDigest`: the tenants a project reaches, their tasks and the artifacts of
those, the digests among them.

* `generateDigest_congr` — a digest is a function of the task tables and of the tenants that are
  reached;
* `scopedTenantsForProject_congr` — which tenants those are does not depend on the chunks of the
  tenant that asks;
* `generateDigest_withoutDigests` — the libraries are the same without the stored digests;
* `untimed_generateDigest` — another time changes nothing but the times of a digest.
-/
import Memd.ArtifactStore
import Memd.ListSelection
import Memd.TenantIsolation
import Memd.WriteTags

open TaskArtifact

/-! ## The tenants of a project -/

section Scopes

variable {t : TenantId} {b b' : SearchBackend}

/-- The scopes of the other tenants. -/
def otherScopes (t : TenantId) (scopes : List ProjectSearchScope) : List ProjectSearchScope :=
  scopes.filter fun s => s.tenantId ≠ t

theorem widenScopes_cons {scopes : List ProjectSearchScope} {t' : TenantId} {project : String}
    {present : Bool} (h : tenantHasProject b t' project = .ok present)
    (rest : List (Except OperationError TenantId × String)) :
    widenScopes b scopes ((.ok t', project) :: rest) =
      widenScopes b
        (if ({ tenantId := t', projectId := some project } : ProjectSearchScope) ∈ scopes then scopes
          else if present then
            scopes ++ [({ tenantId := t', projectId := some project } : ProjectSearchScope)]
          else scopes) rest := by
  conv_lhs => rw [widenScopes]
  simp only [bind, Except.bind, h]
  split <;> rfl

/-- Scopes are only added, behind those that are there. -/
theorem widenScopes_isPrefix {candidates : List (Except OperationError TenantId × String)}
    {scopes out : List ProjectSearchScope} (hok : ∀ t' p, ∃ r, tenantHasProject b t' p = .ok r)
    (h : widenScopes b scopes candidates = .ok out) : scopes <+: out := by
  induction candidates generalizing scopes with
  | nil => exact Except.ok.inj h ▸ List.prefix_rfl
  | cons candidate rest ih =>
    obtain ⟨candidate, project⟩ := candidate
    cases candidate with
    | error e => exact absurd h (by simp [widenScopes, bind, Except.bind])
    | ok t' =>
      obtain ⟨present, hpresent⟩ := hok t' project
      rw [widenScopes_cons hpresent] at h
      refine List.IsPrefix.trans ?_ (ih h)
      split
      · exact List.prefix_rfl
      · split
        · exact List.prefix_append _ _
        · exact List.prefix_rfl

/-- What the tenant itself has only decides about its own scopes. -/
theorem widenScopes_others (hok : ∀ t' p, ∃ r, tenantHasProject b t' p = .ok r)
    (hok' : ∀ t' p, ∃ r, tenantHasProject b' t' p = .ok r)
    (hsame : ∀ t', t' ≠ t → ∀ p, tenantHasProject b' t' p = tenantHasProject b t' p)
    (candidates : List (Except OperationError TenantId × String)) :
    ∀ scopes scopes', otherScopes t scopes' = otherScopes t scopes →
      (widenScopes b' scopes' candidates).map (otherScopes t) =
        (widenScopes b scopes candidates).map (otherScopes t) := by
  induction candidates with
  | nil =>
    intro scopes scopes' h
    exact congrArg Except.ok h
  | cons candidate rest ih =>
    obtain ⟨candidate, project⟩ := candidate
    intro scopes scopes' h
    cases candidate with
    | error e => rfl
    | ok t' =>
      obtain ⟨present, hpresent⟩ := hok t' project
      obtain ⟨present', hpresent'⟩ := hok' t' project
      rw [widenScopes_cons hpresent, widenScopes_cons hpresent']
      apply ih
      by_cases ht : t' = t
      · -- a scope of the tenant itself
        have hown : ∀ (l : List ProjectSearchScope) (q : Bool), otherScopes t
            (if ({ tenantId := t', projectId := some project } : ProjectSearchScope) ∈ l then l
              else if q then
                l ++ [({ tenantId := t', projectId := some project } : ProjectSearchScope)]
              else l) = otherScopes t l := by
          intro l q
          split
          · rfl
          · split
            · simp [otherScopes, ht]
            · rfl
        rw [hown, hown, h]
      · have hmem : ({ tenantId := t', projectId := some project } : ProjectSearchScope) ∈ scopes' ↔
            ({ tenantId := t', projectId := some project } : ProjectSearchScope) ∈ scopes := by
          have hfilter : ∀ l : List ProjectSearchScope,
              ({ tenantId := t', projectId := some project } : ProjectSearchScope) ∈ l ↔
                ({ tenantId := t', projectId := some project } : ProjectSearchScope) ∈
                  otherScopes t l := by
            intro l
            simp [otherScopes, ht]
          rw [hfilter, hfilter scopes, h]
        have hpres : present' = present :=
          Except.ok.inj (hpresent'.symm.trans ((hsame t' ht project).trans hpresent))
        simp only [hmem, hpres]
        split
        · exact h
        · split
          · simp only [otherScopes, List.filter_append]
            exact congrArg (· ++ _) h
          · exact h

/-- The tenants of scopes that start with the tenant's own. -/
theorem eraseDups_tenants {own : ProjectSearchScope} {out : List ProjectSearchScope}
    (hown : own.tenantId = t) (h : [own] <+: out) :
    (out.map (·.tenantId)).eraseDups = t :: ((otherScopes t out).map (·.tenantId)).eraseDups := by
  obtain ⟨rest, rfl⟩ := h
  have hrest : (rest.map (·.tenantId)).filter (fun t' => !t' == t) =
      (otherScopes t rest).map (·.tenantId) := by
    rw [List.filter_map, otherScopes]
    congr 1
    apply List.filter_congr
    intro s _
    by_cases hs : s.tenantId = t <;> simp [hs]
  have hnone : otherScopes t [own] = [] := by simp [otherScopes, hown]
  have happend : otherScopes t ([own] ++ rest) = otherScopes t rest := by
    rw [otherScopes, List.filter_append]
    exact (congrArg (· ++ _) hnone).trans (List.nil_append _)
  rw [happend, ← hrest]
  simp only [List.cons_append, List.nil_append, List.map_cons, hown, List.eraseDups_cons]

/-- The tenants that are reached are the same when the other tenants' material is. -/
theorem widenScopes_tenants {own : ProjectSearchScope} (hown : own.tenantId = t)
    (hok : ∀ t' p, ∃ r, tenantHasProject b t' p = .ok r)
    (hok' : ∀ t' p, ∃ r, tenantHasProject b' t' p = .ok r)
    (hsame : ∀ t', t' ≠ t → ∀ p, tenantHasProject b' t' p = tenantHasProject b t' p)
    (candidates : List (Except OperationError TenantId × String)) :
    (widenScopes b' [own] candidates).map (fun scopes => (scopes.map (·.tenantId)).eraseDups) =
      (widenScopes b [own] candidates).map
        fun scopes => (scopes.map (·.tenantId)).eraseDups := by
  have hothers := widenScopes_others hok hok' hsame candidates [own] [own] rfl
  cases h : widenScopes b [own] candidates with
  | error e =>
    cases h' : widenScopes b' [own] candidates with
    | error e' =>
      rw [h, h'] at hothers
      exact congrArg Except.error (Except.error.inj hothers)
    | ok out' => rw [h, h'] at hothers; exact absurd hothers (by simp [Except.map])
  | ok out =>
    cases h' : widenScopes b' [own] candidates with
    | error e' => rw [h, h'] at hothers; exact absurd hothers (by simp [Except.map])
    | ok out' =>
      rw [h, h'] at hothers
      have heq : otherScopes t out' = otherScopes t out := Except.ok.inj hothers
      simp only [Except.map]
      rw [eraseDups_tenants hown (widenScopes_isPrefix hok h),
        eraseDups_tenants hown (widenScopes_isPrefix hok' h'), heq]

end Scopes

/-! ## The reads of the tables -/

section Reads

variable {cfg : SearchConfig} {t : TenantId} {db db' : Db}

theorem tenantHasProject_scopeBackend (db : Db) (t : TenantId) (project : String) :
    tenantHasProject db.scopeBackend t project = .ok (db.tenantHasProject t project) := by
  simp [tenantHasProject, Db.scopeBackend, SearchBackend.listChunks, tool, bind, Except.bind, pure,
    Except.pure]

/-- **The tenants a project reaches** do not depend on the chunks of the tenant that asks. -/
theorem scopedTenantsForProject_congr (htasks : db'.tasks = db.tasks)
    (hchunks : Table.Spares (fun r : ChunkRow => r.tenantId != t) db.chunks db'.chunks)
    (project : Option String) :
    db'.scopedTenantsForProject cfg t project = db.scopedTenantsForProject cfg t project := by
  have hsame : ∀ t', t' ≠ t → ∀ p, tenantHasProject db'.scopeBackend t' p =
      tenantHasProject db.scopeBackend t' p := by
    intro t' ht p
    have hany : ∀ d : Db, (d.chunks.any fun r =>
          r.tenantId == t' && r.status != .candidate && r.status != .deleted
            && r.projectId == some p) =
        (d.chunks.filter (·.tenantId != t)).any fun r =>
          r.tenantId == t' && r.status != .candidate && r.status != .deleted
            && r.projectId == some p := by
      intro d
      rw [List.any_filter]
      refine congrArg (List.any d.chunks) (funext fun r => ?_)
      by_cases hr : r.tenantId = t'
      · simp [hr, ht]
      · simp [hr]
    rw [tenantHasProject_scopeBackend, tenantHasProject_scopeBackend, Db.tenantHasProject,
      Db.tenantHasProject, Db.listTasks, Db.listTasks, htasks, hany, hany db, hchunks]
  have hok : ∀ (d : Db) t' p, ∃ r, tenantHasProject d.scopeBackend t' p = .ok r :=
    fun d t' p => ⟨_, tenantHasProject_scopeBackend d t' p⟩
  unfold Db.scopedTenantsForProject projectScopesForProject
  cases project.filter fun p => Text.trim p.toList ≠ [] with
  | none => rfl
  | some p =>
    dsimp only
    split
    · exact widenScopes_tenants rfl (hok db) (hok db') hsame _
    · split
      · rfl
      · exact widenScopes_tenants rfl (hok db) (hok db') hsame _

/-- A project reaches the tenant that asks. -/
theorem own_mem_scopedTenants {project : Option String} {tenants : List TenantId}
    (h : db.scopedTenantsForProject cfg t project = .ok tenants) : t ∈ tenants := by
  have hok : ∀ t' p, ∃ r, tenantHasProject db.scopeBackend t' p = .ok r :=
    fun t' p => ⟨_, tenantHasProject_scopeBackend db t' p⟩
  have hwiden : ∀ {own : ProjectSearchScope} {candidates}, own.tenantId = t →
      (widenScopes db.scopeBackend [own] candidates).map
        (fun scopes => (scopes.map (·.tenantId)).eraseDups) = .ok tenants → t ∈ tenants := by
    intro own candidates hown hmap
    cases hout : widenScopes db.scopeBackend [own] candidates with
    | error e => rw [hout] at hmap; exact absurd hmap (by simp [Except.map])
    | ok out =>
      rw [hout] at hmap
      obtain rfl : (out.map (·.tenantId)).eraseDups = tenants := Except.ok.inj hmap
      rw [eraseDups_tenants hown (widenScopes_isPrefix hok hout)]
      exact List.mem_cons_self
  unfold Db.scopedTenantsForProject projectScopesForProject at h
  split at h
  · obtain rfl := Except.ok.inj h
    exact List.mem_cons_self
  · dsimp only at h
    split at h
    · exact hwiden rfl h
    · split at h
      · obtain rfl := Except.ok.inj h
        exact List.mem_cons_self
      · exact hwiden rfl h

/-- The same task tables, and the same tenants for each project. -/
structure SameReads (cfg : SearchConfig) (t : TenantId) (db db' : Db) : Prop where
  artifacts : db'.taskArtifacts = db.taskArtifacts
  tasks : db'.tasks = db.tasks
  tenants : ∀ project, db'.scopedTenantsForProject cfg t project =
    db.scopedTenantsForProject cfg t project

/-- **A digest is a function of what is read.** -/
theorem generateDigest_congr (h : SameReads cfg t db db') (x : DigestExternals) (stamp : Stamp)
    (family : DigestFamily) :
    generateDigest x cfg stamp db' t family = generateDigest x cfg stamp db t family := by
  have htasks : ∀ t' project limit, db'.listTasks t' project limit =
      db.listTasks t' project limit := by
    intro t' project limit
    rw [Db.listTasks, Db.listTasks, h.tasks]
  have hlist : ∀ t' taskId, db'.listTaskArtifacts t' taskId = db.listTaskArtifacts t' taskId := by
    intro t' taskId
    rw [Db.listTaskArtifacts, Db.listTaskArtifacts, h.artifacts]
  have hload : ∀ project limit, db'.loadProjectArtifacts cfg t project limit =
      db.loadProjectArtifacts cfg t project limit := by
    intro project limit
    rw [Db.loadProjectArtifacts, Db.loadProjectArtifacts, h.tenants]
    simp only [Db.scopeArtifacts, htasks, hlist]
  have hviews : ∀ project limit, db'.loadTaskViews cfg t project limit =
      db.loadTaskViews cfg t project limit := by
    intro project limit
    rw [Db.loadTaskViews, Db.loadTaskViews, h.tenants]
    simp only [htasks, hlist]
  cases family with
  | projectBrief p => simp only [generateDigest, hload, hviews]
  | taskResume taskId => simp only [generateDigest, htasks, hlist]
  | failureLibrary p => simp only [generateDigest, libraryDigest, hload]
  | decisionLibrary p => simp only [generateDigest, libraryDigest, hload]
  | evidenceLibrary p => simp only [generateDigest, libraryDigest, hload]
  | highlightLibrary p => simp only [generateDigest, libraryDigest, hload]

/-! ## Without the digests -/

/-- The tables as they are without the stored digests. -/
def Db.withoutDigests (db : Db) : Db :=
  { db with taskArtifacts := digestSourceArtifacts db.taskArtifacts }

/-- The order of `list_task_artifacts`. -/
def listedBefore (a b : TaskArtifact) : Bool :=
  decide (a.timestampCreated < b.timestampCreated) ||
    (a.timestampCreated == b.timestampCreated && decide (a.artifactId ≤ b.artifactId))

theorem listedBefore_iff {a b : TaskArtifact} : listedBefore a b = true ↔
    a.timestampCreated < b.timestampCreated ∨
      a.timestampCreated = b.timestampCreated ∧ a.artifactId ≤ b.artifactId := by
  simp [listedBefore]

theorem listedBefore_trans (a b c : TaskArtifact) (hab : listedBefore a b = true)
    (hbc : listedBefore b c = true) : listedBefore a c = true := by
  rw [listedBefore_iff] at *
  rcases hab with hab | ⟨hab, hid⟩
  · rcases hbc with hbc | ⟨hbc, -⟩
    · exact .inl (hab.trans hbc)
    · exact .inl (hbc ▸ hab)
  · rcases hbc with hbc | ⟨hbc, hid'⟩
    · exact .inl (hab ▸ hbc)
    · exact .inr ⟨hab.trans hbc, String.le_trans hid hid'⟩

theorem listedBefore_total (a b : TaskArtifact) : (listedBefore a b || listedBefore b a) = true := by
  rw [Bool.or_eq_true, listedBefore_iff, listedBefore_iff]
  rcases lt_trichotomy a.timestampCreated b.timestampCreated with hlt | heq | hgt
  · exact .inl (.inl hlt)
  · rcases String.le_total a.artifactId b.artifactId with hle | hle
    · exact .inl (.inr ⟨heq, hle⟩)
    · exact .inr (.inr ⟨heq.symm, hle⟩)
  · exact .inr (.inl hgt)

/-- The order tells artifacts with different ids apart. -/
theorem listedBefore_antisymm {a b : TaskArtifact} (hab : listedBefore a b = true)
    (hba : listedBefore b a = true) : a.artifactId = b.artifactId := by
  rw [listedBefore_iff] at *
  rcases hab with hlt | ⟨heq, hle⟩
  · rcases hba with hgt | ⟨heq, -⟩
    · exact absurd hgt hlt.asymm
    · exact absurd heq.symm hlt.ne
  · rcases hba with hlt | ⟨-, hge⟩
    · exact absurd heq.symm hlt.ne
    · exact String.le_antisymm hle hge

section Filter

variable (hids : Table.Keyed (·.artifactId) db.taskArtifacts)

include hids

/-- The digests of a task stand among its artifacts like any others. -/
theorem listTaskArtifacts_withoutDigests (t' : TenantId) (taskId : String) :
    db.withoutDigests.listTaskArtifacts t' taskId =
      digestSourceArtifacts (db.listTaskArtifacts t' taskId) := by
  have hsort := Selection.filter_mergeSort
    (l := db.taskArtifacts.filter fun a => a.tenantId == t' && a.taskId == taskId)
    listedBefore_trans listedBefore_total
    (fun a ha b hb hab hba => hids.eq (List.mem_of_mem_filter ha) (List.mem_of_mem_filter hb)
      (listedBefore_antisymm hab hba))
    fun a => a.artifactKind ≠ .digest
  have hfilter : (digestSourceArtifacts db.taskArtifacts).filter
        (fun a => a.tenantId == t' && a.taskId == taskId) =
      (db.taskArtifacts.filter fun a => a.tenantId == t' && a.taskId == taskId).filter
        fun a => a.artifactKind ≠ .digest := by
    rw [digestSourceArtifacts, List.filter_filter, List.filter_filter]
    refine congrArg (fun p => List.filter p db.taskArtifacts) (funext fun a => ?_)
    exact Bool.and_comm _ _
  rw [Db.listTaskArtifacts, Db.withoutDigests, hfilter]
  exact hsort.symm

theorem scopeArtifacts_withoutDigests (project : Option String) (limit : ℕ)
    (tenants : List TenantId) :
    db.withoutDigests.scopeArtifacts project limit tenants =
      digestSourceArtifacts (db.scopeArtifacts project limit tenants) := by
  simp only [Db.scopeArtifacts, digestSourceArtifacts, List.filter_flatMap]
  refine congrArg (fun f => List.flatMap f tenants) (funext fun t' => ?_)
  refine congrArg (fun f => List.flatMap f _) (funext fun task => ?_)
  exact listTaskArtifacts_withoutDigests hids t' task.taskId

theorem loadProjectArtifacts_withoutDigests (project : Option String) (limit : ℕ) :
    db.withoutDigests.loadProjectArtifacts cfg t project limit =
      (db.loadProjectArtifacts cfg t project limit).map digestSourceArtifacts := by
  have htenants : db.withoutDigests.scopedTenantsForProject cfg t project =
      db.scopedTenantsForProject cfg t project := rfl
  rw [Db.loadProjectArtifacts, Db.loadProjectArtifacts, htenants]
  cases db.scopedTenantsForProject cfg t project with
  | error e => rfl
  | ok tenants =>
    simp only [Except.map, scopeArtifacts_withoutDigests hids, newestFirst, digestSourceArtifacts]
    have : Std.Total fun a b : TaskArtifact => b.timestampCreated ≤ a.timestampCreated :=
      ⟨fun a b => le_total _ _⟩
    have : IsTrans TaskArtifact fun a b => b.timestampCreated ≤ a.timestampCreated :=
      ⟨fun a b c hab hbc => hbc.trans hab⟩
    rw [Selection.filter_insertionSort]

end Filter

theorem digestSourceArtifacts_idem (l : List TaskArtifact) :
    digestSourceArtifacts (digestSourceArtifacts l) = digestSourceArtifacts l := by
  rw [digestSourceArtifacts, digestSourceArtifacts, List.filter_filter]
  exact congrArg (fun p => List.filter p l) (funext fun a => Bool.and_self _)

/-- A family whose digest is built from the artifacts that are no digests. -/
def DigestFamily.isLibrary : DigestFamily → Bool
  | projectBrief _ | taskResume _ => false
  | failureLibrary _ | decisionLibrary _ | evidenceLibrary _ | highlightLibrary _ => true

/-- **The libraries do not see the stored digests.** -/
theorem generateDigest_withoutDigests (hids : Table.Keyed (·.artifactId) db.taskArtifacts)
    (x : DigestExternals) (stamp : Stamp) {family : DigestFamily} (h : family.isLibrary = true) :
    generateDigest x cfg stamp db.withoutDigests t family =
      generateDigest x cfg stamp db t family := by
  have hlibrary : ∀ p role content, libraryDigest cfg stamp db.withoutDigests t p role content =
      libraryDigest cfg stamp db t p role content := by
    intro p role content
    rw [libraryDigest, libraryDigest, loadProjectArtifacts_withoutDigests hids]
    cases db.loadProjectArtifacts cfg t p 500 with
    | error e => rfl
    | ok artifacts => simp only [Except.map, digestSourceArtifacts_idem]
  cases family with
  | projectBrief p => exact absurd h Bool.false_ne_true
  | taskResume taskId => exact absurd h Bool.false_ne_true
  | failureLibrary p => exact hlibrary _ _ _
  | decisionLibrary p => exact hlibrary _ _ _
  | evidenceLibrary p => exact hlibrary _ _ _
  | highlightLibrary p => exact hlibrary _ _ _

/-! ## The digest of a family -/

/-- The task a digest is filed under. -/
def DigestFamily.digestTaskId (t : TenantId) (family : DigestFamily) : String :=
  match family with
  | .taskResume taskId => taskId
  | _ => (stableDigestIdentity family.role.asStr (family.scopeKey t)).2.1

/-- What a digest is, whatever it tells. -/
structure DigestOf (t : TenantId) (family : DigestFamily) (a : TaskArtifact) : Prop where
  kind : a.artifactKind = .digest
  tenant : a.tenantId = t
  id : a.artifactId = family.artifactId t
  task : a.taskId = family.digestTaskId t
  noExperience : a.experience = none

/-- A resume is of its task, whatever its artifacts say of the status. -/
theorem buildTaskResumeView_task (task : TaskRow) (artifacts : List TaskArtifact) :
    (buildTaskResumeView task artifacts).task.taskId = task.taskId ∧
      (buildTaskResumeView task artifacts).task.tenantId = task.tenantId := by
  unfold buildTaskResumeView
  dsimp only
  cases (artifacts.insertionSort resumeBefore).find? isStateArtifact <;> exact ⟨rfl, rfl⟩

/-- The task of a resume. -/
theorem task_of_find? {task : TaskRow} {taskId : String} {limit : ℕ}
    (h : (db.listTasks t none limit).find? (·.taskId = taskId) = some task) :
    task.taskId = taskId ∧ task.tenantId = t := by
  refine ⟨by simpa using List.find?_some h, ?_⟩
  have hmem := List.mem_of_mem_take (List.mem_of_find?_eq_some h)
  rw [List.mem_mergeSort, List.mem_filter] at hmem
  simpa using hmem.2

theorem generateDigest_digestOf {x : DigestExternals} {stamp : Stamp} {family : DigestFamily}
    {g : TaskArtifact} (h : generateDigest x cfg stamp db t family = .ok g) :
    DigestOf t family (finalizeArtifactForStorage g) := by
  have hlibrary : ∀ p role content, role = family.role →
      DigestFamily.buildScopeKey p t role.asStr = family.scopeKey t →
      family.digestTaskId t = (stableDigestIdentity family.role.asStr (family.scopeKey t)).2.1 →
      libraryDigest cfg stamp db t p role content = .ok g →
      DigestOf t family (finalizeArtifactForStorage g) := by
    rintro p role content rfl hkey htask hg
    rw [libraryDigest] at hg
    cases hload : db.loadProjectArtifacts cfg t p 500 with
    | error e => rw [hload] at hg; exact absurd hg (by simp [Except.map])
    | ok artifacts =>
      rw [hload] at hg
      obtain rfl := Except.ok.inj hg
      rw [hkey]
      exact ⟨rfl, rfl, rfl, htask.symm, rfl⟩
  cases family with
  | projectBrief p =>
    obtain ⟨taskViews, -, h⟩ := Proc.except_bind_eq_ok.mp h
    obtain ⟨artifacts, -, h⟩ := Proc.except_bind_eq_ok.mp h
    obtain rfl := Except.ok.inj h
    exact ⟨rfl, rfl, rfl, rfl, rfl⟩
  | taskResume taskId =>
    rw [generateDigest] at h
    cases hfind : (db.listTasks t none 500).find? (·.taskId = taskId) with
    | none => rw [hfind] at h; exact absurd h (by simp)
    | some task =>
      rw [hfind] at h
      obtain rfl := Except.ok.inj h
      obtain ⟨htask, htenant⟩ := task_of_find? hfind
      obtain ⟨hviewTask, hviewTenant⟩ :=
        buildTaskResumeView_task task (db.listTaskArtifacts task.tenantId taskId)
      refine ⟨rfl, hviewTenant.trans htenant, ?_, hviewTask.trans htask, rfl⟩
      show (stableDigestIdentity _ (buildTaskResumeView _ _).task.taskId).1 = _
      rw [hviewTask, htask]
      rfl
  | failureLibrary p => exact hlibrary _ _ _ rfl rfl rfl h
  | decisionLibrary p => exact hlibrary _ _ _ rfl rfl rfl h
  | evidenceLibrary p => exact hlibrary _ _ _ rfl rfl rfl h
  | highlightLibrary p => exact hlibrary _ _ _ rfl rfl rfl h

/-- **Another time** changes the times of a digest only. -/
theorem untimed_generateDigest (x : DigestExternals) (cfg : SearchConfig) (db : Db) (t : TenantId)
    (stamp stamp' : Stamp) (family : DigestFamily) :
    (generateDigest x cfg stamp' db t family).map untimed =
      (generateDigest x cfg stamp db t family).map untimed := by
  cases family with
  | projectBrief p =>
    simp only [generateDigest]
    cases db.loadTaskViews cfg t (some p) 200 with
    | error e => rfl
    | ok taskViews =>
      cases db.loadProjectArtifacts cfg t (some p) 200 with
      | error e => rfl
      | ok artifacts => rfl
  | taskResume taskId =>
    simp only [generateDigest]
    cases (db.listTasks t none 500).find? (·.taskId = taskId) with
    | none => rfl
    | some task => rfl
  | failureLibrary p =>
    simp only [generateDigest, libraryDigest]
    cases db.loadProjectArtifacts cfg t p 500 <;> rfl
  | decisionLibrary p =>
    simp only [generateDigest, libraryDigest]
    cases db.loadProjectArtifacts cfg t p 500 <;> rfl
  | evidenceLibrary p =>
    simp only [generateDigest, libraryDigest]
    cases db.loadProjectArtifacts cfg t p 500 <;> rfl
  | highlightLibrary p =>
    simp only [generateDigest, libraryDigest]
    cases db.loadProjectArtifacts cfg t p 500 <;> rfl

/-! ## The artifacts a digest names -/

/-- The artifacts a digest of the family is built from, digests among them. -/
def Db.listedArtifacts (cfg : SearchConfig) (db : Db) (t : TenantId) :
    DigestFamily → List TaskArtifact
  | .projectBrief p =>
    db.scopeArtifacts (some p) 200 ((db.scopedTenantsForProject cfg t (some p)).toOption.getD [])
  | .taskResume taskId => db.listTaskArtifacts t taskId
  | .failureLibrary p | .decisionLibrary p | .evidenceLibrary p | .highlightLibrary p =>
    db.scopeArtifacts p 500 ((db.scopedTenantsForProject cfg t p).toOption.getD [])

/-- Every id is trimmed and not empty. -/
def ClearIds (db : Db) : Prop :=
  ∀ a ∈ db.taskArtifacts, trimTag a.artifactId = a.artifactId ∧ a.artifactId ≠ ""

/-- Dropping repeated texts is what normalizing tags is. -/
theorem dedupeKeepOrder_eq (values : List String) : dedupeKeepOrder values = normalizeTags values := by
  rw [dedupeKeepOrder, normalizeTags, List.foldl_filter, List.foldl_map]
  refine congrArg (fun f => List.foldl f [] values) (funext fun out => funext fun value => ?_)
  by_cases hempty : String.ofList (Text.trim value.toList) = ""
  · simp [hempty]
  · by_cases hmem : String.ofList (Text.trim value.toList) ∈ out
    · simp [hempty, hmem]
    · simp [hempty, hmem]

theorem mem_listTaskArtifacts {a : TaskArtifact} {t' : TenantId} {taskId : String} :
    a ∈ db.listTaskArtifacts t' taskId ↔
      a ∈ db.taskArtifacts ∧ a.tenantId = t' ∧ a.taskId = taskId := by
  rw [Db.listTaskArtifacts, List.mem_mergeSort, List.mem_filter, Bool.and_eq_true, beq_iff_eq,
    beq_iff_eq]

theorem mem_scopeArtifacts {a : TaskArtifact} {project : Option String} {limit : ℕ}
    {tenants : List TenantId} : a ∈ db.scopeArtifacts project limit tenants ↔
      ∃ t' ∈ tenants, ∃ task ∈ db.listTasks t' project limit,
        a ∈ db.listTaskArtifacts t' task.taskId := by
  simp only [Db.scopeArtifacts, List.mem_flatMap]

theorem mem_taskArtifacts_of_listed {a : TaskArtifact} {family : DigestFamily}
    (h : a ∈ db.listedArtifacts cfg t family) : a ∈ db.taskArtifacts := by
  have hscope : ∀ {project limit tenants}, a ∈ db.scopeArtifacts project limit tenants →
      a ∈ db.taskArtifacts := by
    intro project limit tenants h
    obtain ⟨t', -, task, -, ha⟩ := mem_scopeArtifacts.mp h
    exact (mem_listTaskArtifacts.mp ha).1
  cases family with
  | taskResume taskId => exact (mem_listTaskArtifacts.mp h).1
  | projectBrief p => exact hscope h
  | failureLibrary p => exact hscope h
  | decisionLibrary p => exact hscope h
  | evidenceLibrary p => exact hscope h
  | highlightLibrary p => exact hscope h

theorem mem_sourceArtifactIds {task : TaskRow} {artifacts : List TaskArtifact} {id : String} :
    id ∈ (buildTaskResumeView task artifacts).sourceArtifactIds ↔
      ∃ a ∈ artifacts, a.artifactId = id := by
  have hids : (buildTaskResumeView task artifacts).sourceArtifactIds =
      (artifacts.insertionSort resumeBefore).map (·.artifactId) := rfl
  rw [hids, List.mem_map]
  simp only [List.mem_insertionSort]

/-- **A resume and a brief name the artifacts that are listed**, the digests among them. -/
theorem mem_relatedArtifactIds (hclear : ClearIds db) {x : DigestExternals} {stamp : Stamp}
    {family : DigestFamily} (hfamily : family.isLibrary = false) {g : TaskArtifact}
    (h : generateDigest x cfg stamp db t family = .ok g) {id : String} :
    id ∈ g.relatedArtifactIds ↔ ∃ a ∈ db.listedArtifacts cfg t family, a.artifactId = id := by
  cases family with
  -- a brief names the sources of its task views, trimmed and once each
  | projectBrief p =>
    obtain ⟨taskViews, hviews, h⟩ := Proc.except_bind_eq_ok.mp h
    obtain ⟨artifacts, -, h⟩ := Proc.except_bind_eq_ok.mp h
    obtain rfl := Except.ok.inj h
    show id ∈ dedupeKeepOrder (taskViews.flatMap (·.sourceArtifactIds)) ↔ _
    rw [dedupeKeepOrder_eq, mem_normalizeTags]
    rw [Db.loadTaskViews] at hviews
    cases htenants : db.scopedTenantsForProject cfg t (some p) with
    | error e => rw [htenants] at hviews; exact absurd hviews (by simp [Except.map])
    | ok tenants =>
      rw [htenants] at hviews
      obtain rfl := Except.ok.inj hviews
      have hlisted : db.listedArtifacts cfg t (.projectBrief p) =
          db.scopeArtifacts (some p) 200 tenants := by
        rw [Db.listedArtifacts, htenants]
        rfl
      rw [hlisted]
      have hids : ∀ given, given ∈ (tenants.flatMap fun t' => (db.listTasks t' (some p) 200).map
            fun task => buildTaskResumeView task (db.listTaskArtifacts t' task.taskId)).flatMap
            (·.sourceArtifactIds) ↔
          ∃ a ∈ db.scopeArtifacts (some p) 200 tenants, a.artifactId = given := by
        intro given
        simp only [List.mem_flatMap, List.mem_map, mem_scopeArtifacts]
        constructor
        · rintro ⟨view, ⟨t', ht', task, htask, rfl⟩, hgiven⟩
          obtain ⟨a, ha, hid⟩ := mem_sourceArtifactIds.mp hgiven
          exact ⟨a, ⟨t', ht', task, htask, ha⟩, hid⟩
        · rintro ⟨a, ⟨t', ht', task, htask, ha⟩, hid⟩
          exact ⟨_, ⟨t', ht', task, htask, rfl⟩, mem_sourceArtifactIds.mpr ⟨a, ha, hid⟩⟩
      -- clear ids are what trimming leaves
      constructor
      · rintro ⟨-, given, hgiven, rfl⟩
        obtain ⟨a, ha, rfl⟩ := (hids given).mp hgiven
        have hmem : a ∈ db.listedArtifacts cfg t (.projectBrief p) := hlisted ▸ ha
        exact ⟨a, ha, ((hclear a (mem_taskArtifacts_of_listed hmem)).1).symm⟩
      · rintro ⟨a, ha, rfl⟩
        have hmem : a ∈ db.listedArtifacts cfg t (.projectBrief p) := hlisted ▸ ha
        obtain ⟨htrim, hne⟩ := hclear a (mem_taskArtifacts_of_listed hmem)
        exact ⟨hne, _, (hids _).mpr ⟨a, ha, rfl⟩, htrim⟩
  -- a resume names the artifacts of its task
  | taskResume taskId =>
    rw [generateDigest] at h
    cases hfind : (db.listTasks t none 500).find? (·.taskId = taskId) with
    | none => rw [hfind] at h; exact absurd h (by simp)
    | some task =>
      rw [hfind] at h
      obtain rfl := Except.ok.inj h
      obtain ⟨-, htenant⟩ := task_of_find? hfind
      rw [htenant]
      exact @mem_sourceArtifactIds task _ id
  -- the libraries are not asked about
  | failureLibrary p => exact absurd hfamily.symm Bool.false_ne_true
  | decisionLibrary p => exact absurd hfamily.symm Bool.false_ne_true
  | evidenceLibrary p => exact absurd hfamily.symm Bool.false_ne_true
  | highlightLibrary p => exact absurd hfamily.symm Bool.false_ne_true

end Reads
