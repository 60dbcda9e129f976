/-
# Experience bundles

Export and import of whole experience cases (`experience/bundle.rs`): the checks an import makes
before it writes, the order in which it writes, and where a failing store leaves it.

A bundle is checked against the store as it is; the maps of the checks are walked in the order of
the bundle, which decides only which of several errors is told.

* `topologicalOrder_eq_linearize` — the order of writing takes, again and again, the first
  artifact that waits for nothing.
-/
import Memd.JournalSafety

open Proc (except_bind_eq_ok)

namespace Experience

open ExperienceArtifact

/-- `BUNDLE_FORMAT`. -/
def bundleFormat : String := "memd-experience"
/-- `BUNDLE_VERSION`. -/
def bundleVersion : ℕ := 1

/-- `ExperienceBundleV1`. -/
structure ExperienceBundleV1 where
  format : String
  version : ℕ
  tenantId : TenantId
  artifacts : List ExperienceArtifact
  deriving DecidableEq, Repr

/-- `ImportReport`. -/
structure ImportReport where
  insertedArtifactIds : List String
  replayedArtifactIds : List String
  deriving DecidableEq, Repr

/-! ## Export -/

/-- The values of a map from ids, after all artifacts are inserted. -/
def valuesById (artifacts : List ExperienceArtifact) : List ExperienceArtifact :=
  artifacts.foldl (fun m a => Table.insertOrReplace (fun x y => x.artifactId == y.artifactId) a m) []

theorem keyedIds_valuesById (l : List ExperienceArtifact) : KeyedIds (valuesById l) := by
  induction l using List.reverseRecOn with
  | nil => exact List.nodup_nil
  | append_singleton l a ih =>
    rw [valuesById, List.foldl_concat]
    exact Table.Keyed.insertOrReplace ih fun b _ hid => beq_iff_eq.mpr hid

theorem mem_valuesById {l : List ExperienceArtifact} {a : ExperienceArtifact}
    (hids : ∀ a ∈ l, ∀ b ∈ l, a.artifactId = b.artifactId → a = b) :
    a ∈ valuesById l ↔ a ∈ l := by
  unfold valuesById
  rw [Table.mem_foldl_insertOrReplace]
  simp only [List.not_mem_nil, false_and, false_or]
  constructor
  · exact fun h => List.mem_reverse.mp (List.mem_of_find?_eq_some h)
  · intro ha
    cases hfind : l.reverse.find? (·.artifactId == a.artifactId) with
    | none =>
      have hno := List.find?_eq_none.mp hfind a (List.mem_reverse.mpr ha)
      simp at hno
    | some b =>
      have hid : b.artifactId = a.artifactId := by simpa using List.find?_some hfind
      rw [hids b (List.mem_reverse.mp (List.mem_of_find?_eq_some hfind)) a ha hid]

/-- `export_bundle`. -/
def ExperienceStore.exportBundle (s : ExperienceStore) (t : TenantId) (problemIds : List String) :
    Except MemdError ExperienceBundleV1 := do
  demand (!problemIds.isEmpty) "at least one problem_id is required"
  let cases ← problemIds.mapM (s.resolveCase t)
  pure ⟨bundleFormat, bundleVersion, t, sortArtifacts (valuesById (cases.flatMap (·.events)))⟩

/-! ## Checks -/

/-- `validate_bundle_header`. -/
def validateBundleHeader (expected : TenantId) (bundle : ExperienceBundleV1) :
    Except MemdError Unit := do
  demand (bundle.format == bundleFormat && bundle.version == bundleVersion)
    s!"unsupported experience bundle '{bundle.format}'/v{bundle.version}; expected '{bundleFormat}'/v{bundleVersion}"
  demand (bundle.tenantId == expected)
    s!"bundle tenant '{bundle.tenantId}' does not match target tenant '{expected}'"
  demand (!bundle.artifacts.isEmpty) "experience bundle contains no artifacts"

/-- One turn of `unique_bundle_artifacts`; `seen` are the ids so far. -/
def uniqueBundleArtifact (t : TenantId) (seen : List String) (a : ExperienceArtifact) :
    Except MemdError (List String) := do
  demand (a.tenantId == t)
    s!"artifact '{a.artifactId}' belongs to tenant '{a.tenantId}', not bundle tenant '{t}'"
  validateArtifactShape a
  demand (!seen.contains a.artifactId)
    s!"bundle contains duplicate artifact_id '{a.artifactId}'"
  pure (a.artifactId :: seen)

/-- `unique_bundle_artifacts`. -/
def uniqueBundleArtifacts (bundle : ExperienceBundleV1) : Except MemdError Unit := do
  let _ ← bundle.artifacts.foldlM (uniqueBundleArtifact bundle.tenantId) []
  pure ()

namespace ExperienceStore

variable (s : ExperienceStore)

/-- One turn of `check_global_artifact_collisions`; `replayed` are the ids so far. -/
def checkGlobalArtifactCollision (replayed : List String) (incoming : ExperienceArtifact) :
    Except MemdError (List String) :=
  match s.getTaskArtifactGlobal incoming.artifactId with
  | none => .ok replayed
  | some existing => do
    demand (existing.tenantId == incoming.tenantId && existing == incoming)
      s!"artifact_id collision for '{incoming.artifactId}' in tenant '{existing.tenantId}'"
    pure (replayed ++ [incoming.artifactId])

/-- `check_global_artifact_collisions`. -/
def checkGlobalArtifactCollisions (artifacts : List ExperienceArtifact) :
    Except MemdError (List String) :=
  artifacts.foldlM s.checkGlobalArtifactCollision []

/-- `check_global_task_collisions`. -/
def checkGlobalTaskCollisions (expected : TenantId) (artifacts : List ExperienceArtifact) :
    Except MemdError Unit :=
  (artifacts.map (·.taskId)).dedup.forM fun taskId =>
    match s.getTaskGlobal taskId with
    | none => .ok ()
    | some tenant =>
      demand (tenant == expected) s!"task_id collision for '{taskId}' in tenant '{tenant}'"

end ExperienceStore

/-! ## Stale corrections -/

section Stale

variable (existing imported : List ExperienceArtifact)

/-- `lesson_root_id`; `seen` are the ids so far. -/
def lessonRootId : ℕ → List String → String → Except MemdError String
  | 0, _, _ => invalid "correction chain contains a cycle"
  | fuel + 1, seen, current =>
    if seen.contains current then invalid "correction chain contains a cycle"
    else do
      let a ← required (byId existing current) s!"lesson ancestor '{current}' does not exist"
      match ← requiredEvent a with
      | .lesson _ => pure current
      | .correction _ supersedesId _ => lessonRootId fuel (current :: seen) supersedesId
      | _ => invalid s!"artifact '{current}' is not in a lesson correction chain"

/-- The root of an artifact; a chain that is longer than the case meets an artifact twice. -/
def rootOf (id : String) : Except MemdError String :=
  lessonRootId existing (existing.length + 1) [] id

/-- `first_existing_correction_target`; `seen` are the ids so far. -/
def firstExistingCorrectionTarget :
    ℕ → List String → String → Except MemdError (Option ExperienceArtifact)
  | 0, _, _ => invalid "imported correction chain contains a cycle"
  | fuel + 1, seen, current =>
    if seen.contains current then invalid "imported correction chain contains a cycle"
    else match byId existing current with
      | some a => .ok (some a)
      | none =>
        match byId imported current with
        | none => .ok none
        | some a => do
          match ← requiredEvent a with
          | .correction _ supersedesId _ =>
            firstExistingCorrectionTarget fuel (current :: seen) supersedesId
          | _ => pure none

/-- The heads under their roots. -/
def currentByRoot : Except MemdError (List (String × ExperienceArtifact)) := do
  let (heads, conflicts) ← currentLessonHeads existing
  let single ← heads.mapM fun head => do
    let root ← rootOf existing head.artifactId
    pure (root, head)
  let open_ ← conflicts.flatten.mapM fun id => do
    let a ← required (byId existing id) s!"conflicting head '{id}' is missing"
    let root ← rootOf existing id
    pure (root, a)
  pure (single ++ open_)

/-- One turn of the loop of `reject_stale_override`. -/
def rejectStaleCorrection (heads : List (String × ExperienceArtifact)) (replayed : List String)
    (a : ExperienceArtifact) : Except MemdError Unit :=
  -- what is replayed overrides nothing
  if replayed.contains a.artifactId then .ok ()
  else do
    match ← requiredEvent a with
    | .correction _ supersedesId _ => do
      -- the first artifact of the store along the chain of corrections
      match ← firstExistingCorrectionTarget existing imported
          (existing.length + imported.length + 1) [] supersedesId with
      | none => .ok ()
      | some target => do
        let root ← rootOf existing target.artifactId
        let current := (heads.filter (·.1 == root)).map (·.2)
        -- a correction of a current head is no override
        if current.any (·.artifactId == target.artifactId) then .ok ()
        else
          match Selection.maxByKey eventTime current with
          | none => .ok ()
          | some newest =>
            -- another one may not be as new as the newest head
            demand (decide (a.eventTime < newest.eventTime))
              s!"correction '{a.artifactId}' targets stale ancestor '{target.artifactId}' and could override current head '{newest.artifactId}'"
    | _ => .ok ()

/-- `reject_stale_override`. -/
def rejectStaleOverride (replayed : List String) : Except MemdError Unit :=
  if existing.isEmpty then .ok ()
  else do
    let heads ← currentByRoot existing
    imported.forM (rejectStaleCorrection existing imported heads replayed)

end Stale

/-! ## The order of writing -/

/-- The order in which the pending artifacts are sorted. -/
def pendingOrder (a b : ExperienceArtifact) : Prop :=
  toLex (a.eventTime, a.artifactId) ≤ toLex (b.eventTime, b.artifactId)

instance : DecidableRel pendingOrder := fun a b =>
  inferInstanceAs (Decidable (toLex (a.eventTime, a.artifactId) ≤ toLex (b.eventTime, b.artifactId)))

/-- What an artifact refers to is not imported, or is written. -/
def waitsForNothing (importedIds written : List String) (a : ExperienceArtifact) : Bool :=
  a.causalIds.all fun r => !importedIds.contains r || written.contains r

/-- The loop of `topological_order`; the fuel is the number of pending artifacts. -/
def takeReady (importedIds : List String) :
    ℕ → List String → List ExperienceArtifact → Except MemdError (List ExperienceArtifact)
  | _, _, [] => .ok []
  | 0, _, _ :: _ => invalid "experience bundle contains a causal cycle or unresolved reference"
  | fuel + 1, written, pending =>
    match pending.find? (waitsForNothing importedIds written) with
    | none => invalid "experience bundle contains a causal cycle or unresolved reference"
    | some a => do
      let rest ← takeReady importedIds fuel (a.artifactId :: written)
        (pending.eraseP (waitsForNothing importedIds written))
      pure (a :: rest)

/-- `topological_order`. -/
def topologicalOrder (pending : List ExperienceArtifact) :
    Except MemdError (List ExperienceArtifact) :=
  takeReady (pending.map (·.artifactId)) pending.length [] (pending.insertionSort pendingOrder)

/-! ## Import -/

namespace ExperienceStore

variable (s : ExperienceStore)

/-- The check of one task in `validate_combined_cases`. -/
def validateCombinedCase (t : TenantId) (incoming : List ExperienceArtifact)
    (replayed : List String) (taskId : String) : Except MemdError Unit := do
  let existing := s.experienceEvents t taskId
  let imported := incoming.filter (·.taskId == taskId)
  rejectStaleOverride existing imported replayed
  let combined := sortArtifacts (existing ++ imported.filter fun a => !replayed.contains a.artifactId)
  validateCase combined
  let _ ← currentLessonHeads combined
  pure ()

/-- `validate_combined_cases`. -/
def validateCombinedCases (t : TenantId) (incoming : List ExperienceArtifact)
    (replayed : List String) : Except MemdError Unit :=
  (incoming.map (·.taskId)).dedup.forM (s.validateCombinedCase t incoming replayed)

/-- All of `import_bundle` before its first write: the replayed ids, and what is written in
order. -/
def checkBundle (t : TenantId) (bundle : ExperienceBundleV1) :
    Except MemdError (List String × List ExperienceArtifact) := do
  validateBundleHeader t bundle
  uniqueBundleArtifacts bundle
  let replayed ← s.checkGlobalArtifactCollisions bundle.artifacts
  s.checkGlobalTaskCollisions t bundle.artifacts
  s.validateCombinedCases t bundle.artifacts replayed
  let ordered ← topologicalOrder
    (bundle.artifacts.filter fun a => !replayed.contains a.artifactId)
  pure (replayed, ordered)

/-- The writes of an import; `projections` are the ids drawn for the projections of an artifact. -/
def writeAll (projections : String → List ChunkId) (artifacts : List ExperienceArtifact) :
    Except MemdError ExperienceStore :=
  artifacts.foldlM (fun s a => s.addTaskArtifact a (projections a.artifactId)) s

/-- `import_bundle`. -/
def importBundle (t : TenantId) (projections : String → List ChunkId)
    (bundle : ExperienceBundleV1) : Except MemdError (ImportReport × ExperienceStore) := do
  let (replayed, ordered) ← s.checkBundle t bundle
  let s' ← s.writeAll projections ordered
  pure (⟨(ordered.map (·.artifactId)).insertionSort (· ≤ ·), replayed.insertionSort (· ≤ ·)⟩, s')

/-- What an import leaves behind when the store fails after some writes. -/
def importUpTo (t : TenantId) (projections : String → List ChunkId)
    (bundle : ExperienceBundleV1) (writes : ℕ) : Except MemdError ExperienceStore := do
  let (_, ordered) ← s.checkBundle t bundle
  s.writeAll projections (ordered.take writes)

end ExperienceStore

/-! ## The order of writing takes what waits for nothing -/

variable {l : List ExperienceArtifact} {a b : ExperienceArtifact}

theorem waitsForNothing_eq_ready {importedIds written : List String}
    (hall : ∀ r, r ∈ importedIds ↔ r ∈ written ∨ r ∈ l.map (·.artifactId))
    (hnot : ∀ r ∈ written, r ∉ l.map (·.artifactId)) :
    waitsForNothing importedIds written = Causal.ready (·.artifactId) causalIds l := by
  funext a
  unfold waitsForNothing Causal.ready
  refine congrArg (a.causalIds.all ·) (funext fun r => ?_)
  rw [Bool.eq_iff_iff, Bool.or_eq_true, Bool.not_eq_true', Bool.not_eq_true',
    List.contains_eq_mem, List.contains_eq_mem, List.contains_eq_mem, decide_eq_false_iff_not,
    decide_eq_false_iff_not, decide_eq_true_eq, hall]
  constructor
  · rintro (hnone | hwritten)
    · exact fun hl => hnone (.inr hl)
    · exact hnot r hwritten
  · intro hl
    by_cases hwritten : r ∈ written
    · exact .inr hwritten
    · exact .inl fun h => h.elim hwritten hl

theorem takeReady_eq_linearize {importedIds : List String} {n : ℕ} {written : List String}
    (hk : KeyedIds l) (hall : ∀ r, r ∈ importedIds ↔ r ∈ written ∨ r ∈ l.map (·.artifactId))
    (hnot : ∀ r ∈ written, r ∉ l.map (·.artifactId)) {out : List ExperienceArtifact} :
    takeReady importedIds n written l = .ok out ↔
      Causal.linearize (·.artifactId) causalIds n l = some out := by
  induction n generalizing l written out with
  | zero =>
    cases l with
    | nil => simp [takeReady]
    | cons a l => simp [takeReady, Causal.linearize]
  | succ n ih =>
    cases l with
    | nil => simp [takeReady]
    | cons c l =>
      rw [takeReady, waitsForNothing_eq_ready hall hnot, Causal.linearize]
      · cases hfind : (c :: l).find? (Causal.ready (·.artifactId) causalIds (c :: l)) with
        | none => simp
        | some a =>
          -- the first artifact that waits for nothing, and those around it
          obtain ⟨hready, pre, post, heq, hpre⟩ := List.find?_eq_some_iff_append.mp hfind
          have herase : (c :: l).eraseP (Causal.ready (·.artifactId) causalIds (c :: l)) =
              pre ++ post := by
            rw [heq] at hready hpre ⊢
            rw [List.eraseP_append_right _ (fun b hb => by simpa using hpre b hb),
              List.eraseP_cons_of_pos hready]
          have hk' : a.artifactId ∉ (pre ++ post).map (·.artifactId) ∧ KeyedIds (pre ++ post) := by
            have hnodup : ((c :: l).map (·.artifactId)).Nodup := hk
            rw [heq, List.map_append, List.map_cons, List.nodup_middle, List.nodup_cons,
              ← List.map_append] at hnodup
            exact hnodup
          have hmem : ∀ r, r ∈ (c :: l).map (·.artifactId) ↔
              r = a.artifactId ∨ r ∈ (pre ++ post).map (·.artifactId) := by
            intro r
            rw [heq]
            simp only [List.map_append, List.map_cons, List.mem_append, List.mem_cons]
            tauto
          -- the rest is ordered alike, with this one among those written
          have hih : ∀ rest, takeReady importedIds n (a.artifactId :: written) (pre ++ post) =
              .ok rest ↔ Causal.linearize (·.artifactId) causalIds n (pre ++ post) = some rest := by
            intro rest
            apply ih hk'.2
            · intro r
              rw [hall, hmem, List.mem_cons]
              tauto
            · intro r hr
              rcases List.mem_cons.mp hr with rfl | hr
              · exact hk'.1
              · exact fun hin => hnot r hr ((hmem r).mpr (.inr hin))
          simp only [herase, except_bind_eq_ok, hih, Option.map_eq_some_iff]
          constructor
          · rintro ⟨rest, hrest, hpure⟩
            exact ⟨rest, hrest, Except.ok.inj hpure⟩
          · rintro ⟨rest, hrest, rfl⟩
            exact ⟨rest, hrest, rfl⟩
      · exact List.cons_ne_nil c l
      · exact List.cons_ne_nil c l

/-- **The order of writing.** -/
theorem topologicalOrder_eq_linearize (hk : KeyedIds l) {out : List ExperienceArtifact} :
    topologicalOrder l = .ok out ↔ Causal.linearize (·.artifactId) causalIds l.length
      (l.insertionSort pendingOrder) = some out := by
  have hperm := List.perm_insertionSort pendingOrder l
  apply takeReady_eq_linearize (hk.perm hperm.symm)
  · intro r
    rw [(hperm.map _).mem_iff]
    simp
  · exact fun r hr => absurd hr List.not_mem_nil

end Experience
