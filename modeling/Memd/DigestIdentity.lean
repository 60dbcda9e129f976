/-
# The identity of a digest

`stable_digest_identity` names a digest by its role and its scope key.  The key of a library names
a project or a tenant, that of a brief its project and that of a resume its task, and all of it
goes through `sanitize_tag_value`.  The tenant of a project or task is not in the id.

`artifactId_eq_iff` says when two digests get one id, and `digestsApart_iff` when a pair of scopes
is kept apart: by the ids, and so by the writes.
-/
import Memd.ArtifactStore
import Memd.DigestSources
import Memd.TagWords

open TaskArtifact TagWords

/-- What a digest is about. -/
inductive DigestScope
  | tenant (tenantId : TenantId)
  | project (projectId : String)
  | task (taskId : String)
  deriving DecidableEq, Repr

namespace DigestScope

/-- The name of the scope. -/
def name : DigestScope → String
  | tenant id | project id | task id => id

/-- Two scopes that a tag value does not tell apart: of one kind, their names of the same words. -/
def TaggedAlike : DigestScope → DigestScope → Prop
  | tenant id, tenant id' | project id, project id' | task id, task id' =>
    tagWords id.toList = tagWords id'.toList
  | _, _ => False

end DigestScope

namespace DigestFamily

/-- The scope of a library: a project, or the tenant. -/
def libraryScope (t : TenantId) : Option String → DigestScope
  | some p => .project p
  | none => .tenant t

/-- The scope a digest of the family is kept for. -/
def scope (t : TenantId) : DigestFamily → DigestScope
  | projectBrief p => .project p
  | taskResume taskId => .task taskId
  | failureLibrary p | decisionLibrary p | evidenceLibrary p | highlightLibrary p =>
    libraryScope t p

/-! ## Equal ids -/

/-- The words of a library's key: the kind, the name and the role. -/
theorem tagWords_buildScopeKey (projectId : Option String) (t : TenantId) (suffix : String) :
    tagWords (buildScopeKey projectId t suffix).toList =
      tagWords (if projectId.isSome then "project".toList else "tenant".toList) ++
        (tagWords (projectId.getD t).toList ++ tagWords suffix.toList) := by
  cases projectId with
  | some p =>
    have htext : (buildScopeKey (some p) t suffix).toList =
        "project".toList ++ ':' :: (p.toList ++ ':' :: suffix.toList) := by
      simp [buildScopeKey, String.toList_append, toString]
    rw [htext, tagWords_append_cons _ _ (by decide), tagWords_append_cons _ _ (by decide)]
    rfl
  | none =>
    have htext : (buildScopeKey none t suffix).toList =
        "tenant".toList ++ ':' :: (t.toList ++ ':' :: suffix.toList) := by
      simp [buildScopeKey, String.toList_append, toString]
    rw [htext, tagWords_append_cons _ _ (by decide), tagWords_append_cons _ _ (by decide)]
    rfl

/-- The first characters of the id, then role and key behind two colons. -/
theorem toList_digestId (role key : String) : (stableDigestIdentity role key).1.toList =
    "digest_artifact_".toList ++
      ((sanitizeTagValue role).toList ++ ':' :: ':' :: (sanitizeTagValue key).toList) := by
  simp [stableDigestIdentity, String.toList_append]

/-- **Ids of digests** agree when role and key have the same words. -/
theorem digestId_eq_iff {role role' key key' : String} :
    (stableDigestIdentity role key).1 = (stableDigestIdentity role' key').1 ↔
      tagWords role.toList = tagWords role'.toList ∧ tagWords key.toList = tagWords key'.toList := by
  rw [← String.toList_inj, toList_digestId, toList_digestId, List.append_cancel_left_eq,
    Words.append_cons_inj (colon_not_mem_sanitizeTagValue role)
      (colon_not_mem_sanitizeTagValue role'), String.toList_inj, sanitizeTagValue_eq_iff]
  simp [String.toList_inj, sanitizeTagValue_eq_iff]

theorem tagWords_role_inj {role role' : DigestRole} :
    tagWords role.asStr.toList = tagWords role'.asStr.toList ↔ role = role' := by
  have h : ∀ role role' : DigestRole, tagWords role.asStr.toList = tagWords role'.asStr.toList →
      role = role' := by
    intro role role'
    cases role <;> cases role' <;> decide
  exact ⟨h role role', fun h => by rw [h]⟩

/-- The keys of two libraries have the same words when their scopes are tagged alike. -/
theorem tagWords_libraryKey (t t' : TenantId) (p p' : Option String) (suffix : String) :
    tagWords (buildScopeKey p t suffix).toList = tagWords (buildScopeKey p' t' suffix).toList ↔
      (libraryScope t p).TaggedAlike (libraryScope t' p') := by
  have hproject : tagWords "project".toList = ["project".toList] := by decide
  have htenant : tagWords "tenant".toList = ["tenant".toList] := by decide
  have hne : "project".toList ≠ "tenant".toList := by decide
  rw [tagWords_buildScopeKey, tagWords_buildScopeKey]
  -- the first word of a key tells the kinds apart
  cases p with
  | some p =>
    cases p' with
    | some p' =>
      rw [Option.isSome_some, Option.isSome_some, List.append_cancel_left_eq,
        List.append_cancel_right_eq]
      exact Iff.rfl
    | none =>
      rw [Option.isSome_some, Option.isSome_none, if_pos rfl, if_neg Bool.false_ne_true, hproject,
        htenant]
      exact iff_of_false (fun h => hne (List.cons.inj h).1) not_false
  | none =>
    cases p' with
    | some p' =>
      rw [Option.isSome_some, Option.isSome_none, if_pos rfl, if_neg Bool.false_ne_true, hproject,
        htenant]
      exact iff_of_false (fun h => hne (List.cons.inj h).1.symm) not_false
    | none =>
      rw [Option.isSome_none, List.append_cancel_left_eq, List.append_cancel_right_eq]
      exact Iff.rfl

/-- Keys of one role have the same words when the scopes are tagged alike. -/
theorem tagWords_scopeKey {t t' : TenantId} {f f' : DigestFamily} (h : f.role = f'.role) :
    tagWords (f.scopeKey t).toList = tagWords (f'.scopeKey t').toList ↔
      (f.scope t).TaggedAlike (f'.scope t') := by
  cases f <;> cases f' <;> simp only [role, reduceCtorEq] at h
  · exact Iff.rfl
  · exact Iff.rfl
  · exact tagWords_libraryKey _ _ _ _ _
  · exact tagWords_libraryKey _ _ _ _ _
  · exact tagWords_libraryKey _ _ _ _ _
  · exact tagWords_libraryKey _ _ _ _ _

/-- **When two digests have one id**: they have one role, and a tag value does not tell their
scopes apart. -/
theorem artifactId_eq_iff {t t' : TenantId} {f f' : DigestFamily} :
    f.artifactId t = f'.artifactId t' ↔
      f.role = f'.role ∧ (f.scope t).TaggedAlike (f'.scope t') := by
  rw [artifactId, artifactId, digestId_eq_iff, tagWords_role_inj]
  exact and_congr_right tagWords_scopeKey

theorem libraryScope_injective (t : TenantId) : Function.Injective (libraryScope t) := by
  intro p p' h
  cases p with
  | some p =>
    cases p' with
    | some p' => exact congrArg some (DigestScope.project.inj h)
    | none => exact absurd h (by simp [libraryScope])
  | none =>
    cases p' with
    | some p' => exact absurd h (by simp [libraryScope])
    | none => rfl

theorem eq_of_role_of_scope {t : TenantId} {f f' : DigestFamily} (hrole : f.role = f'.role)
    (hscope : f.scope t = f'.scope t) : f = f' := by
  cases f <;> cases f' <;> simp only [role, reduceCtorEq] at hrole
  · exact congrArg _ (DigestScope.project.inj hscope)
  · exact congrArg _ (DigestScope.task.inj hscope)
  · exact congrArg _ (libraryScope_injective t hscope)
  · exact congrArg _ (libraryScope_injective t hscope)
  · exact congrArg _ (libraryScope_injective t hscope)
  · exact congrArg _ (libraryScope_injective t hscope)

end DigestFamily

/-! ## Scopes that are kept apart -/

open DigestFamily

/-- What the id of a digest is for: digests with one id are of one tenant, role and scope, and
storing one keeps that of any other scope. -/
structure DigestsApart (t : TenantId) (f : DigestFamily) (t' : TenantId) (f' : DigestFamily) :
    Prop where
  injective : f.artifactId t = f'.artifactId t' →
    t = t' ∧ f.role = f'.role ∧ f.scope t = f'.scope t'
  kept : ¬ (t = t' ∧ f = f') → ∀ (db : Db) (a a' : TaskArtifact) (projections : List ChunkId)
    (kinds : List String) (db' : Db), DigestOf t f a → DigestOf t' f' a' → a' ∈ db.taskArtifacts →
    db.insertTaskArtifactBundle a projections kinds = .ok ((), db') → a' ∈ db'.taskArtifacts

/-- The pairs an id tells apart: of different roles, of names with different words (or one a
tenant's and one a project's), or the same twice.  The tenant counts in a tenant's name only. -/
def IdTellsApart (t : TenantId) (f : DigestFamily) (t' : TenantId) (f' : DigestFamily) : Prop :=
  f.role ≠ f'.role ∨ ¬ (f.scope t).TaggedAlike (f'.scope t') ∨ (t = t' ∧ f = f')

theorem idTellsApart_iff {t t' : TenantId} {f f' : DigestFamily} :
    IdTellsApart t f t' f' ↔ (f.artifactId t = f'.artifactId t' → t = t' ∧ f = f') := by
  rw [artifactId_eq_iff, IdTellsApart]
  tauto

/-- **Exactly when two digests are kept apart**, for all tenants and families. -/
theorem digestsApart_iff (t : TenantId) (f : DigestFamily) (t' : TenantId) (f' : DigestFamily) :
    DigestsApart t f t' f' ↔ IdTellsApart t f t' f' := by
  rw [idTellsApart_iff]
  constructor
  · rintro ⟨hinj, -⟩ hid
    obtain ⟨rfl, hrole, hscope⟩ := hinj hid
    exact ⟨rfl, eq_of_role_of_scope hrole hscope⟩
  · intro htells
    refine ⟨?_, ?_⟩
    · intro hid
      obtain ⟨rfl, rfl⟩ := htells hid
      exact ⟨rfl, rfl, rfl⟩
    · intro hne db a a' projections kinds db' ha ha' hmem hins
      have hid : (a'.artifactId == a.artifactId) = false := by
        rw [beq_eq_false_iff_ne, ha.id, ha'.id]
        exact fun hid => hne (htells hid.symm)
      have htable : db'.taskArtifacts = (db.writeTaskRows a).taskArtifacts := by
        rw [Db.insertTaskArtifactBundle] at hins
        split at hins
        · exact absurd hins (by simp)
        · obtain rfl := (Prod.mk.inj (Except.ok.inj hins)).2
          exact (applyBundle_tables db a projections kinds).1
      rw [htable]
      simp only [Db.writeTaskRows, Table.mem_insertOrReplace]
      exact Or.inl ⟨hmem, hid⟩

/-- Accepted ids that are not kept apart: one project name in two tenants, two names of one tenant
that differ in punctuation, and two tenants that differ in case. -/
theorem not_digestsApart_accepted :
    (TenantId.new "alpha" = .ok "alpha" ∧ TenantId.new "beta" = .ok "beta" ∧
        ¬ DigestsApart "alpha" (.projectBrief "api") "beta" (.projectBrief "api")) ∧
      (ProjectId.validateOpt (some "api.v1") = .ok () ∧ ProjectId.validateOpt (some "api-v1") = .ok () ∧
        ¬ DigestsApart "alpha" (.failureLibrary (some "api.v1")) "alpha"
          (.failureLibrary (some "api-v1"))) ∧
      (TenantId.new "Team" = .ok "Team" ∧ TenantId.new "team" = .ok "team" ∧
        ¬ DigestsApart "Team" (.evidenceLibrary none) "team" (.evidenceLibrary none)) := by
  refine ⟨⟨by decide, by decide, ?_⟩, ⟨by decide, by decide, ?_⟩,
    ⟨by decide, by decide, ?_⟩⟩
  · intro h
    exact absurd (h.injective (by decide)).1 (by decide)
  · intro h
    exact absurd (h.injective (by decide)).2.2 (by decide)
  · intro h
    exact absurd (h.injective (by decide)).1 (by decide)
