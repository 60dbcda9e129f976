/-
# Refreshing a digest

`ensure_*_digest` on the states of a run: whether a second call would write again, and whether
what is stored then is what the artifacts that are no digests yield (`Converges`).

The four libraries are built from those artifacts alone.  A brief and a resume are built from
everything their tasks list, and a resume is itself listed by its task: the one that is stored
names itself the next time.  A digest with nothing to tell is not written, so what was stored
before stays.  `ensureDigest_converges_iff` says exactly when a refresh converges.
-/
import Memd.OpsRuns

open TaskArtifact Cluster

/-! ## Refreshes -/

/-- What a refresh hands to the store, when it gets there. -/
def refreshWrite (x : DigestExternals) (cfg : SearchConfig) (readOnly : Bool) (stamp : Stamp)
    (t : TenantId) (family : DigestFamily) (c : Cluster) : Option ArtifactWrite :=
  (generateDigest x cfg stamp c.db t family).toOption.bind (persistedWrite x readOnly c)

/-- The digest stored for the scope, if there is one, is what the artifacts that are no digests
yield, up to its times. -/
def StoredCurrent (x : DigestExternals) (cfg : SearchConfig) (t : TenantId)
    (family : DigestFamily) (db : Db) : Prop :=
  ∀ stored, db.getTaskArtifact t (family.artifactId t) = some stored →
    ∃ stamp g, generateDigest x cfg stamp db.withoutDigests t family = .ok g ∧
      digestArtifactsEquivalent stored (finalizeArtifactForStorage g) = true

/-- **The refresh has converged**: another call, at whatever time, hands nothing to the store,
and the stored digest is current. -/
structure Converges (x : DigestExternals) (cfg : SearchConfig) (readOnly : Bool) (t : TenantId)
    (family : DigestFamily) (c : Cluster) : Prop where
  quiet : ∀ stamp, refreshWrite x cfg readOnly stamp t family c = none
  current : StoredCurrent x cfg t family c.db

/-- What a refresh finds when it converges.  A store that is read only keeps what it has.  A
resume never does.  Otherwise there is something to tell, or nothing is stored; and a brief
reads no digest, nor lists the task its own digest is filed under. -/
def RefreshSettles (x : DigestExternals) (cfg : SearchConfig) (readOnly : Bool) (t : TenantId)
    (family : DigestFamily) (db : Db) : Prop :=
  if readOnly then StoredCurrent x cfg t family db
  else match family with
    | .taskResume _ => False
    | .projectBrief p =>
      (∀ a ∈ db.listedArtifacts cfg t family, a.artifactKind ≠ .digest) ∧
        (∀ task ∈ db.listTasks t (some p) 200, task.taskId ≠ family.digestTaskId t) ∧
        (family.Yields x (db.currentSources cfg t family) ∨
          db.getTaskArtifact t (family.artifactId t) = none)
    | _ => family.Yields x (db.currentSources cfg t family) ∨
        db.getTaskArtifact t (family.artifactId t) = none

/-! ## Equivalent digests -/

section Equivalent

variable {a b g g' : TaskArtifact}

/-- `digest_artifacts_equivalent` compares two digests without their times. -/
theorem equivalent_iff : digestArtifactsEquivalent a b = true ↔
    a.artifactKind = .digest ∧ b.artifactKind = .digest ∧ untimed a = untimed b := by
  simp [digestArtifactsEquivalent, and_assoc]

/-- Whether a digest is empty does not depend on its times. -/
theorem isEmpty_untimed (a : TaskArtifact) :
    isEmptyGeneratedDigestArtifact (untimed a) = isEmptyGeneratedDigestArtifact a :=
  rfl

/-- Preparing a digest for storage does not look at its times. -/
theorem finalize_untimed (a : TaskArtifact) :
    untimed (finalizeArtifactForStorage a) = finalizeArtifactForStorage (untimed a) :=
  rfl

/-- Equivalent digests are empty together. -/
theorem isEmpty_of_equivalent (h : digestArtifactsEquivalent a b = true) :
    isEmptyGeneratedDigestArtifact a = isEmptyGeneratedDigestArtifact b := by
  rw [← isEmpty_untimed a, (equivalent_iff.mp h).2.2, isEmpty_untimed]

/-- Equivalence of digests is transitive. -/
theorem equivalent_trans {d : TaskArtifact} (h : digestArtifactsEquivalent a b = true)
    (h' : digestArtifactsEquivalent b d = true) : digestArtifactsEquivalent a d = true := by
  obtain ⟨ha, -, hab⟩ := equivalent_iff.mp h
  obtain ⟨-, hd, hbd⟩ := equivalent_iff.mp h'
  exact equivalent_iff.mpr ⟨ha, hd, hab.trans hbd⟩

/-- An equivalent digest names the sources of the generated one. -/
theorem related_of_equivalent (h : digestArtifactsEquivalent a (finalizeArtifactForStorage g) = true) :
    a.relatedArtifactIds = g.relatedArtifactIds := by
  show (untimed a).relatedArtifactIds = (untimed (finalizeArtifactForStorage g)).relatedArtifactIds
  rw [(equivalent_iff.mp h).2.2]

/-- Equivalent digests belong to the same task. -/
theorem task_of_equivalent (h : digestArtifactsEquivalent a b = true) : a.taskId = b.taskId := by
  show (untimed a).taskId = (untimed b).taskId
  rw [(equivalent_iff.mp h).2.2]

end Equivalent

section Refresh

variable {x : DigestExternals} {cfg : SearchConfig} {t : TenantId} {family : DigestFamily}
  {db db' : Db} {stamp stamp' : Stamp} {g g' : TaskArtifact}

/-- Another time builds an equivalent digest. -/
theorem exists_generate (h : generateDigest x cfg stamp db t family = .ok g) (stamp' : Stamp) :
    ∃ g', generateDigest x cfg stamp' db t family = .ok g' ∧
      digestArtifactsEquivalent (finalizeArtifactForStorage g)
        (finalizeArtifactForStorage g') = true := by
  have htimes := untimed_generateDigest x cfg db t stamp stamp' family
  rw [h] at htimes
  cases h' : generateDigest x cfg stamp' db t family with
  | error e => rw [h'] at htimes; exact absurd htimes (by simp [Except.map])
  | ok g' =>
    rw [h'] at htimes
    have huntimed : untimed g' = untimed g := Except.ok.inj htimes
    refine ⟨g', rfl, equivalent_iff.mpr ⟨(generateDigest_digestOf h).kind,
      (generateDigest_digestOf h').kind, ?_⟩⟩
    rw [finalize_untimed, finalize_untimed, huntimed]

/-- What a refresh that builds a digest hands to the store. -/
theorem refreshWrite_eq_none_iff {c : Cluster} {readOnly : Bool}
    (h : generateDigest x cfg stamp c.db t family = .ok g) :
    refreshWrite x cfg readOnly stamp t family c = none ↔
      isEmptyGeneratedDigestArtifact (finalizeArtifactForStorage g) = true ∨
        (∃ stored, c.db.getTaskArtifact t (family.artifactId t) = some stored ∧
          digestArtifactsEquivalent stored (finalizeArtifactForStorage g) = true) ∨
        readOnly = true := by
  have hof := generateDigest_digestOf h
  rw [refreshWrite, h]
  simp only [Except.toOption, Option.bind_some, persistedWrite, hof.tenant, hof.id]
  by_cases hempty : isEmptyGeneratedDigestArtifact (finalizeArtifactForStorage g) = true
  · simp [hempty]
  rw [if_neg hempty]
  by_cases hstored : ((c.db.getTaskArtifact t (family.artifactId t)).filter
      (digestArtifactsEquivalent · (finalizeArtifactForStorage g))).isSome = true
  · rw [if_pos hstored]
    obtain ⟨stored, hfilter⟩ := Option.isSome_iff_exists.mp hstored
    exact iff_of_true rfl (.inr (.inl ⟨stored, Option.filter_eq_some_iff.mp hfilter⟩))
  · rw [if_neg hstored]
    have hnone : ¬ ∃ stored, c.db.getTaskArtifact t (family.artifactId t) = some stored ∧
        digestArtifactsEquivalent stored (finalizeArtifactForStorage g) = true := by
      rintro ⟨stored, hget, hequiv⟩
      exact hstored (Option.isSome_iff_exists.mpr
        ⟨stored, Option.filter_eq_some_iff.mpr ⟨hget, hequiv⟩⟩)
    cases readOnly with
    | true => simp
    | false => simpa [hempty] using hnone

/-- In a keyed table an artifact is looked up exactly when it is a row. -/
theorem getTaskArtifact_eq_some_iff (hids : Table.Keyed (·.artifactId) db.taskArtifacts)
    {id : String} {a : TaskArtifact} : db.getTaskArtifact t id = some a ↔
      a ∈ db.taskArtifacts ∧ a.tenantId = t ∧ a.artifactId = id := by
  constructor
  · intro h
    have hfound := List.find?_some h
    rw [Bool.and_eq_true, beq_iff_eq, beq_iff_eq] at hfound
    exact ⟨List.mem_of_find?_eq_some h, hfound⟩
  · rintro ⟨ha, rfl, rfl⟩
    cases hfind : db.getTaskArtifact a.tenantId a.artifactId with
    | none =>
      have hnone := List.find?_eq_none.mp hfind a ha
      simp at hnone
    | some b =>
      have hfound := List.find?_some hfind
      rw [Bool.and_eq_true, beq_iff_eq, beq_iff_eq] at hfound
      rw [hids.eq (List.mem_of_find?_eq_some hfind) ha hfound.2]

/-- The chunks of the other tenants after a write that returns. -/
theorem spares_of_write {ext : Externals} {call : StoreCall} {a : TaskArtifact}
    {projections : List PersistentStore.TaskProjection} {ids : List ChunkId} {c c' : Cluster}
    (hids : IdsBelow (c.view a.tenantId))
    (h : c.addTaskArtifact ext call a projections = (.ok ids, c')) :
    Table.Spares (fun r : ChunkRow => r.tenantId != a.tenantId) c.db.chunks c'.db.chunks := by
  obtain ⟨hres, hview⟩ := run_onPart_view a.tenantId (writeProg ext call a projections) c
  have hok : ((writeProg ext call a projections).run (c.view a.tenantId)).1 = .ok ids :=
    hres.symm.trans (congrArg Prod.fst h)
  have hfull : (writeProg ext call a projections).run (c.view a.tenantId) =
      (PersistentStore.addTaskArtifact ext a projections call.indexError call.now).run
        (c.view a.tenantId) := by
    revert hok
    unfold writeProg
    cases call.failAfter with
    | none => exact fun _ => rfl
    | some n => exact fun hok => Proc.run_cut_eq_ok hok
  have hafter : ((writeProg ext call a projections).run (c.view a.tenantId)).2 =
      c'.view a.tenantId := by
    rw [← hview]
    exact congrArg (view a.tenantId) (congrArg Prod.snd h)
  have hrun : (PersistentStore.addTaskArtifact ext a projections call.indexError call.now).run
      (c.view a.tenantId) = (.ok ids, c'.view a.tenantId) := by
    rw [← hfull]
    exact Prod.ext hok hafter
  obtain ⟨db₁, projectionIds, kinds, h₁, -, -, h₂⟩ :=
    PersistentStore.addTaskArtifact_run hids hrun
  exact h₁.spares.trans
    ((Db.ownChunks_applyBundle db₁ a projectionIds kinds).spares.trans h₂.spares)

/-- What a refresh leaves behind that finds an equivalent digest or writes its own. -/
structure Refreshed (cfg : SearchConfig) (t : TenantId) (family : DigestFamily) (db db' : Db)
    (a : TaskArtifact) : Prop where
  stored : db'.getTaskArtifact t (family.artifactId t) = some a
  added : ∀ b ∈ db'.taskArtifacts, b = a ∨ b ∈ db.taskArtifacts
  rows : ∃ drawn, (∀ id ∈ drawn, IsUuid id) ∧ OpsRows drawn db'
  sources : SameReads cfg t db.withoutDigests db'.withoutDigests

/-- What is stored at a family's id is what a refresh that writes nothing leaves. -/
theorem refreshed_of_stored {drawn : List String} (huuid : ∀ id ∈ drawn, IsUuid id)
    (hrows : OpsRows drawn db) {a : TaskArtifact}
    (h : db.getTaskArtifact t (family.artifactId t) = some a) :
    Refreshed cfg t family db db a :=
  ⟨h, fun _ hb => .inr hb, ⟨drawn, huuid, hrows⟩, ⟨rfl, rfl, fun _ => rfl⟩⟩

/-- A refresh that writes leaves the generated digest behind. -/
theorem refreshed_of_write {ext : Externals} {call : StoreCall}
    {projections : List PersistentStore.TaskProjection} {ids : List ChunkId} {c c' : Cluster}
    {drawn : List String} (huuid : ∀ id ∈ drawn, IsUuid id) (hrows : OpsRows drawn c.db)
    (hids : IdsBelow (c.view t)) {a : TaskArtifact} (hof : DigestOf t family a)
    (hfull : isEmptyGeneratedDigestArtifact a = false)
    (h : c.addTaskArtifact ext call a projections = (.ok ids, c')) :
    Refreshed cfg t family c.db c'.db a := by
  have hwrote : Wrote a c.db c'.db := by
    have hw := wrote_of_ok (congrArg Prod.fst h)
    rwa [h] at hw
  have hdigestId : IsDigestId a.artifactId := hof.id ▸ DigestFamily.isDigestId t family
  -- nothing but a digest is under the id
  have hfree : ∀ b ∈ c.db.taskArtifacts, b.artifactKind ≠ .digest → b.artifactId ≠ a.artifactId :=
    fun b hb hk heq => (hrows.isUuid huuid hb hk).not_isDigestId (heq ▸ hdigestId)
  have hrows' : OpsRows drawn c'.db :=
    hrows.wrote hwrote hfree (fun hk => absurd hof.kind hk) fun _ => ⟨hdigestId, hfull⟩
  refine ⟨?_, ?_, ⟨drawn, huuid, hrows'⟩, ?_, ?_, ?_⟩
  · exact (getTaskArtifact_eq_some_iff hrows'.ids).mpr
      ⟨hwrote.mem_artifacts.mpr (.inl rfl), hof.tenant, hof.id⟩
  · intro b hb
    rcases hwrote.mem_artifacts.mp hb with rfl | ⟨hb, -⟩
    · exact .inl rfl
    · exact .inr hb
  · have hartifacts : c'.db.taskArtifacts = Table.insertOrReplace
        (fun x y => x.artifactId == y.artifactId) a c.db.taskArtifacts := hwrote.artifacts
    show digestSourceArtifacts c'.db.taskArtifacts = digestSourceArtifacts c.db.taskArtifacts
    rw [hartifacts]
    refine (Table.spares_insertOrReplace (p := fun b : TaskArtifact => decide
      (b.artifactKind ≠ .digest)) (by simp [hof.kind])).mpr fun b hb hk => ?_
    simpa using hfree b hb (by simpa using hk)
  · have htasks : c'.db.tasks = if a.artifactKind ≠ .digest then
        Db.upsertTask c.db.tasks (Db.taskRowOf a) else c.db.tasks := hwrote.tasks
    rw [if_neg (not_not.mpr hof.kind)] at htasks
    exact htasks
  · have htasks : c'.db.tasks = if a.artifactKind ≠ .digest then
        Db.upsertTask c.db.tasks (Db.taskRowOf a) else c.db.tasks := hwrote.tasks
    rw [if_neg (not_not.mpr hof.kind)] at htasks
    have hspares := spares_of_write (hof.tenant ▸ hids) h
    rw [hof.tenant] at hspares
    exact fun project => scopedTenantsForProject_congr htasks hspares project

/-! ## What is listed -/

/-- Taking the digests out keeps the ids clear. -/
theorem clearIds_withoutDigests (h : ClearIds db) : ClearIds db.withoutDigests :=
  fun a ha => h a (List.mem_of_mem_filter ha)

/-- Without the digests the others are listed. -/
theorem mem_listed_withoutDigests (hids : Table.Keyed (·.artifactId) db.taskArtifacts)
    (hfamily : family.isLibrary = false) {a : TaskArtifact}
    (h : a ∈ db.withoutDigests.listedArtifacts cfg t family) :
    a ∈ db.listedArtifacts cfg t family ∧ a.artifactKind ≠ .digest := by
  have hsplit : ∀ {l : List TaskArtifact}, a ∈ digestSourceArtifacts l →
      a ∈ l ∧ a.artifactKind ≠ .digest := by
    intro l ha
    obtain ⟨hmem, hkind⟩ := List.mem_filter.mp ha
    exact ⟨hmem, by simpa using hkind⟩
  cases family with
  | projectBrief p =>
    rw [Db.listedArtifacts, scopeArtifacts_withoutDigests hids] at h
    exact hsplit h
  | taskResume taskId =>
    rw [Db.listedArtifacts, listTaskArtifacts_withoutDigests hids] at h
    exact hsplit h
  | failureLibrary p => exact absurd hfamily.symm Bool.false_ne_true
  | decisionLibrary p => exact absurd hfamily.symm Bool.false_ne_true
  | evidenceLibrary p => exact absurd hfamily.symm Bool.false_ne_true
  | highlightLibrary p => exact absurd hfamily.symm Bool.false_ne_true

/-- A brief that lists no digest is built from the artifacts that are no digests. -/
theorem generateDigest_of_noDigests (hids : Table.Keyed (·.artifactId) db.taskArtifacts)
    {p : String} (h : ∀ a ∈ db.listedArtifacts cfg t (.projectBrief p), a.artifactKind ≠ .digest) :
    generateDigest x cfg stamp db.withoutDigests t (.projectBrief p) =
      generateDigest x cfg stamp db t (.projectBrief p) := by
  have hall : ∀ {l : List TaskArtifact}, (∀ a ∈ l, a.artifactKind ≠ .digest) →
      digestSourceArtifacts l = l :=
    fun hl => List.filter_eq_self.mpr fun a ha => by simpa using hl a ha
  have htenants : db.withoutDigests.scopedTenantsForProject cfg t (some p) =
      db.scopedTenantsForProject cfg t (some p) := rfl
  rw [Db.listedArtifacts] at h
  cases hscoped : db.scopedTenantsForProject cfg t (some p) with
  | error e =>
    simp only [generateDigest, Db.loadTaskViews, htenants, hscoped, Except.map, bind, Except.bind]
  | ok tenants =>
    rw [hscoped] at h
    have hlisted : ∀ a ∈ db.scopeArtifacts (some p) 200 tenants, a.artifactKind ≠ .digest := h
    have hviews : db.withoutDigests.loadTaskViews cfg t (some p) 200 =
        db.loadTaskViews cfg t (some p) 200 := by
      rw [Db.loadTaskViews, Db.loadTaskViews, htenants, hscoped]
      refine congrArg Except.ok (List.flatMap_congr fun t' ht' => ?_)
      refine List.map_congr_left fun task htask => ?_
      rw [listTaskArtifacts_withoutDigests hids, hall]
      exact fun a ha => hlisted a (mem_scopeArtifacts.mpr ⟨t', ht', task, htask, ha⟩)
    have hload : db.withoutDigests.loadProjectArtifacts cfg t (some p) 200 =
        db.loadProjectArtifacts cfg t (some p) 200 := by
      rw [loadProjectArtifacts_withoutDigests hids, Db.loadProjectArtifacts, hscoped]
      refine congrArg Except.ok (hall fun a ha => hlisted a ?_)
      exact (List.mem_insertionSort _).mp ha
    simp only [generateDigest, hviews, hload]

/-- What can be built without the digests can be built with them. -/
theorem exists_generate_withDigests (hfamily : family.isLibrary = false)
    (h : generateDigest x cfg stamp db.withoutDigests t family = .ok g) :
    ∃ g', generateDigest x cfg stamp db t family = .ok g' := by
  cases family with
  | projectBrief p =>
    have htenants : db.withoutDigests.scopedTenantsForProject cfg t (some p) =
        db.scopedTenantsForProject cfg t (some p) := rfl
    simp only [generateDigest, Db.loadTaskViews, Db.loadProjectArtifacts, htenants] at h ⊢
    cases hscoped : db.scopedTenantsForProject cfg t (some p) with
    | error e => rw [hscoped] at h; exact absurd h (by simp [Except.map, bind, Except.bind])
    | ok tenants => exact ⟨_, rfl⟩
  | taskResume taskId =>
    have htasks : db.withoutDigests.listTasks t none 500 = db.listTasks t none 500 := rfl
    rw [generateDigest, htasks] at h
    rw [generateDigest]
    cases hfind : (db.listTasks t none 500).find? (·.taskId = taskId) with
    | none => rw [hfind] at h; exact absurd h (by simp)
    | some task => exact ⟨_, rfl⟩
  | failureLibrary p => exact absurd hfamily.symm Bool.false_ne_true
  | decisionLibrary p => exact absurd hfamily.symm Bool.false_ne_true
  | evidenceLibrary p => exact absurd hfamily.symm Bool.false_ne_true
  | highlightLibrary p => exact absurd hfamily.symm Bool.false_ne_true

/-! ## After a refresh -/

section After

variable {drawn : List String} (huuid : ∀ id ∈ drawn, IsUuid id) (hrows : OpsRows drawn db)

include huuid hrows

/-- What is stored for a scope is a digest that is not empty. -/
theorem stored_digest {a : TaskArtifact}
    (h : db.getTaskArtifact t (family.artifactId t) = some a) :
    a.artifactKind = .digest ∧ isEmptyGeneratedDigestArtifact a = false := by
  obtain ⟨hmem, -, hid⟩ := (getTaskArtifact_eq_some_iff hrows.ids).mp h
  have hkind : a.artifactKind = .digest := by
    by_contra hkind
    exact (hrows.isUuid huuid hmem hkind).not_isDigestId
      (hid ▸ DigestFamily.isDigestId t family)
  exact ⟨hkind, (hrows.digests a hmem hkind).2⟩

/-- When the artifacts that are no digests have nothing to tell, only a scope without a digest
is current. -/
theorem storedCurrent_iff_of_empty
    (hempty : ∀ stamp g, generateDigest x cfg stamp db.withoutDigests t family = .ok g →
      isEmptyGeneratedDigestArtifact (finalizeArtifactForStorage g) = true) :
    StoredCurrent x cfg t family db ↔ db.getTaskArtifact t (family.artifactId t) = none := by
  constructor
  · intro hcurrent
    by_contra hsome
    obtain ⟨a, ha⟩ := Option.ne_none_iff_exists'.mp hsome
    obtain ⟨stamp, g, hgen, hequiv⟩ := hcurrent a ha
    have hfull := (stored_digest huuid hrows ha).2
    rw [isEmpty_of_equivalent hequiv, hempty stamp g hgen] at hfull
    exact absurd hfull (by simp)
  · intro hnone a ha
    rw [hnone] at ha
    exact absurd ha (by simp)

/-- A digest that is current and would not be written again names no digest: none is listed. -/
theorem noDigests_of_converges (hfamily : family.isLibrary = false) {c : Cluster} (hc : c.db = db)
    {a : TaskArtifact} (hstored : db.getTaskArtifact t (family.artifactId t) = some a)
    (h : Converges x cfg false t family c) :
    ∀ d ∈ db.listedArtifacts cfg t family, d.artifactKind ≠ .digest := by
  intro d hd hdigest
  have hclear := hrows.clearIds huuid
  subst hc
  obtain ⟨stamp, g, hgen, hequiv⟩ := h.current a hstored
  obtain ⟨g', hgen'⟩ := exists_generate_withDigests hfamily hgen
  -- the digest that would be built names what is listed
  have hnames : d.artifactId ∈ g'.relatedArtifactIds :=
    (mem_relatedArtifactIds hclear hfamily hgen').mpr ⟨d, hd, rfl⟩
  rcases (refreshWrite_eq_none_iff hgen').mp (h.quiet stamp) with hempty | hsame | hread
  · cases family with
    | projectBrief p =>
      have hnil := (isEmpty_brief_iff hclear hrows.tasks hgen').mp hempty
      rw [hnil] at hd
      exact absurd hd List.not_mem_nil
    | taskResume taskId => exact absurd ((isEmpty_resume hgen').symm.trans hempty) (by simp)
    | failureLibrary p => exact absurd hfamily.symm Bool.false_ne_true
    | decisionLibrary p => exact absurd hfamily.symm Bool.false_ne_true
    | evidenceLibrary p => exact absurd hfamily.symm Bool.false_ne_true
    | highlightLibrary p => exact absurd hfamily.symm Bool.false_ne_true
  · obtain ⟨a', ha', hequiv'⟩ := hsame
    obtain rfl := Option.some.inj (hstored.symm.trans ha')
    -- the stored digest names the same, and nothing but what is no digest
    rw [← related_of_equivalent hequiv', related_of_equivalent hequiv] at hnames
    obtain ⟨b, hb, hid⟩ :=
      (mem_relatedArtifactIds (clearIds_withoutDigests hclear) hfamily hgen).mp hnames
    obtain ⟨hb, hkind⟩ := mem_listed_withoutDigests hrows.ids hfamily hb
    have heq := hrows.ids.eq (mem_taskArtifacts_of_listed hb) (mem_taskArtifacts_of_listed hd) hid
    exact hkind (heq ▸ hdigest)
  · exact absurd hread (by simp)

end After

/-! ## The scope of a brief -/

section Brief

variable {p : String}

/-- A project brief is generated over the tenants in scope. -/
theorem exists_scoped_of_brief (h : generateDigest x cfg stamp db t (.projectBrief p) = .ok g) :
    ∃ tenants, db.scopedTenantsForProject cfg t (some p) = .ok tenants := by
  cases hscoped : db.scopedTenantsForProject cfg t (some p) with
  | error e =>
    simp only [generateDigest, Db.loadTaskViews, hscoped, Except.map, bind, Except.bind] at h
    exact absurd h (by simp)
  | ok tenants => exact ⟨tenants, rfl⟩

/-- The artifacts a project brief is made from. -/
theorem mem_listed_brief {tenants : List TenantId}
    (h : db.scopedTenantsForProject cfg t (some p) = .ok tenants) {a : TaskArtifact} :
    a ∈ db.listedArtifacts cfg t (.projectBrief p) ↔
      ∃ t' ∈ tenants, ∃ task ∈ db.listTasks t' (some p) 200,
        a ∈ db.listTaskArtifacts t' task.taskId := by
  rw [Db.listedArtifacts, h]
  exact mem_scopeArtifacts

/-- Where no digest is listed, a brief has something to tell when anything is. -/
theorem yields_brief_iff
    (h : ∀ a ∈ db.listedArtifacts cfg t (.projectBrief p), a.artifactKind ≠ .digest) :
    DigestFamily.Yields x (db.currentSources cfg t (.projectBrief p)) (.projectBrief p) ↔
      db.listedArtifacts cfg t (.projectBrief p) ≠ [] := by
  have hall : db.currentSources cfg t (.projectBrief p) =
      newestFirst (·.timestampCreated) (db.listedArtifacts cfg t (.projectBrief p)) := by
    refine List.filter_eq_self.mpr fun a ha => ?_
    simpa using h a ((List.mem_insertionSort _).mp ha)
  rw [DigestFamily.Yields, hall, newestFirst, Ne, Ne, ← List.length_eq_zero_iff,
    List.length_insertionSort, List.length_eq_zero_iff]

end Brief

/-! ## When a refresh converges -/

section Cases

variable {c c' : Cluster} {call : StoreCall} {readOnly : Bool} {r : TaskArtifact}
  {drawn : List String}

/-- A digest is equivalent to itself. -/
theorem equivalent_self {a : TaskArtifact} (h : a.artifactKind = .digest) :
    digestArtifactsEquivalent a a = true :=
  equivalent_iff.mpr ⟨h, h, rfl⟩

/-- **What a refresh does** when it returns: nothing, for an empty digest or a store that is read
only, or else a digest equivalent to the one it has built is stored. -/
theorem ensureDigest_cases (huuid : ∀ id ∈ drawn, IsUuid id) (hrows : OpsRows drawn c.db)
    (hids : IdsBelow (c.view t))
    (hok : c.ensureDigest x cfg call readOnly stamp t family = (.ok r, c')) :
    ∃ g, generateDigest x cfg stamp c.db t family = .ok g ∧
      ((isEmptyGeneratedDigestArtifact (finalizeArtifactForStorage g) = true ∧ c' = c) ∨
        (readOnly = true ∧ c' = c) ∨
        (isEmptyGeneratedDigestArtifact (finalizeArtifactForStorage g) = false ∧
          ∃ a, digestArtifactsEquivalent a (finalizeArtifactForStorage g) = true ∧
            Refreshed cfg t family c.db c'.db a)) := by
  rw [ensureDigest] at hok
  cases hgen : generateDigest x cfg stamp c.db t family with
  | error e => rw [hgen] at hok; exact absurd (congrArg Prod.fst hok) (by simp)
  | ok g =>
    rw [hgen] at hok
    have hof := generateDigest_digestOf hgen
    refine ⟨g, rfl, ?_⟩
    rcases persistDigestArtifact_cases rfl hok with hempty | ⟨hfull, hsame | ⟨-, hread | hwrite⟩⟩
    · exact .inl hempty
    · obtain ⟨existing, hget, hequiv, rfl⟩ := hsame
      rw [hof.tenant, hof.id] at hget
      exact .inr (.inr ⟨hfull, existing, hequiv, refreshed_of_stored huuid hrows hget⟩)
    · exact .inr (.inl hread)
    · obtain ⟨-, ids, hadd⟩ := hwrite
      exact .inr (.inr ⟨hfull, _, equivalent_self hof.kind,
        refreshed_of_write huuid hrows hids hof hfull hadd⟩)

/-- Once nothing is handed to the store, nothing is at any other time. -/
theorem quiet_of_generate (hgen : generateDigest x cfg stamp c.db t family = .ok g)
    (h : isEmptyGeneratedDigestArtifact (finalizeArtifactForStorage g) = true ∨
      (∃ stored, c.db.getTaskArtifact t (family.artifactId t) = some stored ∧
        digestArtifactsEquivalent stored (finalizeArtifactForStorage g) = true) ∨
      readOnly = true) (stamp' : Stamp) :
    refreshWrite x cfg readOnly stamp' t family c = none := by
  obtain ⟨g', hgen', hequiv⟩ := exists_generate hgen stamp'
  refine (refreshWrite_eq_none_iff hgen').mpr ?_
  rcases h with hempty | ⟨stored, hget, hsame⟩ | hread
  · exact .inl ((isEmpty_of_equivalent hequiv).symm.trans hempty)
  · exact .inr (.inl ⟨stored, hget, equivalent_trans hsame hequiv⟩)
  · exact .inr (.inr hread)

/-- A stored digest that is what both kinds of sources yield. -/
theorem converges_of_equivalent {a : TaskArtifact}
    (hstored : c.db.getTaskArtifact t (family.artifactId t) = some a)
    (hgen : generateDigest x cfg stamp c.db t family = .ok g)
    (hwithout : generateDigest x cfg stamp c.db.withoutDigests t family = .ok g)
    (hequiv : digestArtifactsEquivalent a (finalizeArtifactForStorage g) = true) :
    Converges x cfg readOnly t family c := by
  refine ⟨quiet_of_generate hgen (.inr (.inl ⟨a, hstored, hequiv⟩)), fun stored h => ?_⟩
  obtain rfl := Option.some.inj (hstored.symm.trans h)
  exact ⟨stamp, g, hwithout, hequiv⟩

/-- An empty digest converges where none is stored. -/
theorem converges_iff_of_empty (huuid : ∀ id ∈ drawn, IsUuid id) (hrows : OpsRows drawn c.db)
    (hgen : generateDigest x cfg stamp c.db t family = .ok g)
    (hempty : isEmptyGeneratedDigestArtifact (finalizeArtifactForStorage g) = true)
    (hwithout : ∀ stamp, generateDigest x cfg stamp c.db.withoutDigests t family =
      generateDigest x cfg stamp c.db t family) :
    Converges x cfg readOnly t family c ↔
      c.db.getTaskArtifact t (family.artifactId t) = none := by
  have hstored : StoredCurrent x cfg t family c.db ↔
      c.db.getTaskArtifact t (family.artifactId t) = none := by
    refine storedCurrent_iff_of_empty huuid hrows fun stamp' g' hg' => ?_
    obtain ⟨g'', hgen'', hequiv⟩ := exists_generate hgen stamp'
    rw [hwithout] at hg'
    obtain rfl := Except.ok.inj (hg'.symm.trans hgen'')
    exact (isEmpty_of_equivalent hequiv).symm.trans hempty
  rw [← hstored]
  exact ⟨fun h => h.current, fun h => ⟨quiet_of_generate hgen (.inl hempty), h⟩⟩

/-- A read-only store keeps what it has. -/
theorem converges_iff_of_readOnly
    (hok : c.ensureDigest x cfg call true stamp t family = (.ok r, c')) :
    Converges x cfg true t family c' ↔ StoredCurrent x cfg t family c.db := by
  rw [ensureDigest] at hok
  cases hgen : generateDigest x cfg stamp c.db t family with
  | error e => rw [hgen] at hok; exact absurd (congrArg Prod.fst hok) (by simp)
  | ok g =>
    rw [hgen] at hok
    have hsame : c' = c := by
      rcases persistDigestArtifact_cases rfl hok with ⟨-, h⟩ | ⟨-, ⟨_, -, -, h⟩ | ⟨-, ⟨-, h⟩ | h⟩⟩
      · exact h
      · exact h
      · exact h
      · exact absurd h.1 (by simp)
    subst hsame
    exact ⟨fun h => h.current, fun h => ⟨quiet_of_generate hgen (.inr (.inr rfl)), h⟩⟩

section Families

variable (huuid : ∀ id ∈ drawn, IsUuid id) (hrows : OpsRows drawn c.db)
  (hids : IdsBelow (c.view t))
  (hok : c.ensureDigest x cfg call false stamp t family = (.ok r, c'))

include huuid hrows hids hok

/-- **The libraries** converge where there is something to tell or nothing is stored. -/
theorem library_converges_iff (hfamily : family.isLibrary = true) :
    Converges x cfg false t family c' ↔
      (family.Yields x (c.db.currentSources cfg t family) ∨
        c.db.getTaskArtifact t (family.artifactId t) = none) := by
  obtain ⟨g, hgen, hcase⟩ := ensureDigest_cases huuid hrows hids hok
  have hyields := isEmpty_library_iff hfamily hgen
  rcases hcase with ⟨hempty, rfl⟩ | ⟨hread, -⟩ | ⟨hfull, a, hequiv, href⟩
  · rw [or_iff_right (hyields.mp hempty)]
    exact converges_iff_of_empty huuid hrows hgen hempty
      fun stamp' => generateDigest_withoutDigests hrows.ids x stamp' hfamily
  · exact absurd hread (by simp)
  · have htells : family.Yields x (c.db.currentSources cfg t family) := by
      by_contra hno
      exact absurd ((hyields.mpr hno).symm.trans hfull) (by simp)
    refine iff_of_true ?_ (.inl htells)
    obtain ⟨_, -, hrows'⟩ := href.rows
    -- before and after, with and without the digests, the same is built
    have hwithout : generateDigest x cfg stamp c'.db.withoutDigests t family = .ok g := by
      rw [generateDigest_congr href.sources, generateDigest_withoutDigests hrows.ids x stamp hfamily]
      exact hgen
    refine converges_of_equivalent href.stored ?_ hwithout hequiv
    rw [← generateDigest_withoutDigests hrows'.ids x stamp hfamily]
    exact hwithout

/-- **A resume** never converges: its task lists it. -/
theorem resume_not_converges {taskId : String} (hfamily : family = .taskResume taskId) :
    ¬ Converges x cfg false t family c' := by
  subst hfamily
  intro hconv
  obtain ⟨g, hgen, hcase⟩ := ensureDigest_cases huuid hrows hids hok
  rcases hcase with ⟨hempty, -⟩ | ⟨hread, -⟩ | ⟨-, a, hequiv, href⟩
  · exact absurd ((isEmpty_resume hgen).symm.trans hempty) (by simp)
  · exact absurd hread (by simp)
  · obtain ⟨drawn', huuid', hrows'⟩ := href.rows
    obtain ⟨hmem, htenant, -⟩ := (getTaskArtifact_eq_some_iff hrows'.ids).mp href.stored
    have htask : a.taskId = taskId :=
      (task_of_equivalent hequiv).trans (generateDigest_digestOf hgen).task
    have hlisted : a ∈ c'.db.listedArtifacts cfg t (.taskResume taskId) :=
      mem_listTaskArtifacts.mpr ⟨hmem, htenant, htask⟩
    exact noDigests_of_converges huuid' hrows' rfl rfl href.stored hconv a hlisted
      (equivalent_iff.mp hequiv).1

/-- **A brief** converges where it lists no digest, its own neither, and there is something to
tell or nothing is stored. -/
theorem brief_converges_iff {p : String} (hfamily : family = .projectBrief p) :
    Converges x cfg false t family c' ↔
      (∀ a ∈ c.db.listedArtifacts cfg t family, a.artifactKind ≠ .digest) ∧
        (∀ task ∈ c.db.listTasks t (some p) 200, task.taskId ≠ family.digestTaskId t) ∧
        (family.Yields x (c.db.currentSources cfg t family) ∨
          c.db.getTaskArtifact t (family.artifactId t) = none) := by
  subst hfamily
  obtain ⟨g, hgen, hcase⟩ := ensureDigest_cases huuid hrows hids hok
  have hclear := hrows.clearIds huuid
  have hbrief := isEmpty_brief_iff hclear hrows.tasks hgen
  obtain ⟨tenants, htenants⟩ := exists_scoped_of_brief hgen
  rcases hcase with ⟨hempty, rfl⟩ | ⟨hread, -⟩ | ⟨hfull, a, hequiv, href⟩
  · -- nothing is listed
    have hnil := hbrief.mp hempty
    have hnone : ∀ a ∈ c'.db.listedArtifacts cfg t (.projectBrief p), a.artifactKind ≠ .digest := by
      rw [hnil]
      exact fun a ha => absurd ha List.not_mem_nil
    have htasks : c'.db.listTasks t (some p) 200 = [] := by
      have hscope : c'.db.scopeArtifacts (some p) 200 tenants = [] := by
        rw [Db.listedArtifacts, htenants] at hnil
        exact hnil
      exact listTasks_of_scopeArtifacts_nil hrows.tasks hscope (own_mem_scopedTenants htenants)
    rw [converges_iff_of_empty huuid hrows hgen hempty
      fun stamp' => generateDigest_of_noDigests hrows.ids hnone]
    refine ⟨fun h => ⟨hnone, by simp [htasks], .inr h⟩, fun h => h.2.2.resolve_left ?_⟩
    exact fun hyields => (yields_brief_iff hnone).mp hyields hnil
  · exact absurd hread (by simp)
  have hlisted : c.db.listedArtifacts cfg t (.projectBrief p) ≠ [] := by
    intro hnil
    exact absurd ((hbrief.mpr hnil).symm.trans hfull) (by simp)
  obtain ⟨drawn', huuid', hrows'⟩ := href.rows
  obtain ⟨hmem, htenant, -⟩ := (getTaskArtifact_eq_some_iff hrows'.ids).mp href.stored
  have htasks : ∀ t', c'.db.listTasks t' (some p) 200 = c.db.listTasks t' (some p) 200 := by
    intro t'
    have hsame : c'.db.tasks = c.db.tasks := href.sources.tasks
    rw [Db.listTasks, Db.listTasks, hsame]
  have htenants' : c'.db.scopedTenantsForProject cfg t (some p) = .ok tenants :=
    (href.sources.tenants (some p)).trans htenants
  constructor
  · intro hconv
    have hnone' := noDigests_of_converges huuid' hrows' rfl rfl href.stored hconv
    obtain ⟨_, g', hgen', hequiv'⟩ := hconv.current a href.stored
    have hnone : ∀ d ∈ c.db.listedArtifacts cfg t (.projectBrief p), d.artifactKind ≠ .digest := by
      intro d hd hdigest
      -- what is stored names the digest, and names nothing but what is no digest
      have hnames := (mem_relatedArtifactIds hclear rfl hgen).mpr ⟨d, hd, rfl⟩
      rw [← related_of_equivalent hequiv, related_of_equivalent hequiv'] at hnames
      obtain ⟨b, hb, hid⟩ := (mem_relatedArtifactIds
        (clearIds_withoutDigests (hrows'.clearIds huuid')) rfl hgen').mp hnames
      obtain ⟨hb, hkind⟩ := mem_listed_withoutDigests hrows'.ids rfl hb
      have hdigestId := (hrows.digests d (mem_taskArtifacts_of_listed hd) hdigest).1
      exact (hrows'.isUuid huuid' (mem_taskArtifacts_of_listed hb) hkind).not_isDigestId
        (hid ▸ hdigestId)
    refine ⟨hnone, fun task htask hid => ?_, .inl ((yields_brief_iff hnone).mpr hlisted)⟩
    -- the digest would be listed by that task
    have htask' : a.taskId = task.taskId :=
      (task_of_equivalent hequiv).trans ((generateDigest_digestOf hgen).task.trans hid.symm)
    refine hnone' a ((mem_listed_brief htenants').mpr ⟨t, own_mem_scopedTenants htenants, task, ?_,
      mem_listTaskArtifacts.mpr ⟨hmem, htenant, htask'⟩⟩) (equivalent_iff.mp hequiv).1
    rw [htasks]
    exact htask
  · rintro ⟨hnone, hown, -⟩
    have hnone' : ∀ d ∈ c'.db.listedArtifacts cfg t (.projectBrief p),
        d.artifactKind ≠ .digest := by
      intro d hd
      obtain ⟨t', ht', task, htask, hd⟩ := (mem_listed_brief htenants').mp hd
      rw [htasks] at htask
      obtain ⟨hdmem, hdt, hdtask⟩ := mem_listTaskArtifacts.mp hd
      rcases href.added d hdmem with rfl | hold
      · -- the digest of the brief is listed by no task
        obtain rfl := htenant.symm.trans hdt
        have hid := (task_of_equivalent hequiv).trans (generateDigest_digestOf hgen).task
        exact absurd (hdtask.symm.trans hid) (hown task htask)
      · exact hnone d ((mem_listed_brief htenants).mpr ⟨t', ht', task, htask,
          mem_listTaskArtifacts.mpr ⟨hold, hdt, hdtask⟩⟩)
    have hwithout : generateDigest x cfg stamp c'.db.withoutDigests t (.projectBrief p) = .ok g := by
      rw [generateDigest_congr href.sources, generateDigest_of_noDigests hrows.ids hnone]
      exact hgen
    refine converges_of_equivalent href.stored ?_ hwithout hequiv
    rw [← generateDigest_of_noDigests hrows'.ids hnone']
    exact hwithout

end Families

end Cases

end Refresh

/-- **Exactly when refreshing a digest converges**, in every state the handlers and refreshes
reach from an empty store, for each family and scope. -/
theorem ensureDigest_converges_iff (x : DigestExternals) (cfg : SearchConfig) {steps : List OpsStep}
    (hdraws : DrawsUuids steps) (call : StoreCall) (readOnly : Bool) (stamp : Stamp) (t : TenantId)
    (family : DigestFamily) {r : TaskArtifact} {c' : Cluster}
    (hok : (runOps x {} steps).ensureDigest x cfg call readOnly stamp t family = (.ok r, c')) :
    Converges x cfg readOnly t family c' ↔
      RefreshSettles x cfg readOnly t family (runOps x {} steps).db := by
  obtain ⟨drawn, huuid, hrows⟩ := opsRows_runOps (x := x) hdraws
  have hids : IdsBelow ((runOps x {} steps).view t) :=
    idsBelow_runOps steps (fun _ r hr => absurd hr List.not_mem_nil) t
  cases readOnly with
  | true => exact converges_iff_of_readOnly hok
  | false =>
    cases family with
    | projectBrief p => exact brief_converges_iff huuid hrows hids hok rfl
    | taskResume taskId =>
      exact iff_of_false (resume_not_converges huuid hrows hids hok rfl) not_false
    | failureLibrary p => exact library_converges_iff huuid hrows hids hok rfl
    | decisionLibrary p => exact library_converges_iff huuid hrows hids hok rfl
    | evidenceLibrary p => exact library_converges_iff huuid hrows hids hok rfl
    | highlightLibrary p => exact library_converges_iff huuid hrows hids hok rfl

/-! ### A finished task -/

/-- A task of project `p` that was finished with a failure. -/
def sampleFinish : List OpsStep :=
  [⟨{ stamp := ⟨"018f0000-0000-7000-8000-000000000001", "k0", 1⟩ }, { now := 1 }, .taskFinish
      { tenantId := "t", projectId := some "p", taskId := "k1", whatFailed := ["f"] }⟩]

/-- The artifact of the call. -/
def finishedArtifact : TaskArtifact where
  artifactId := "018f0000-0000-7000-8000-000000000001"
  artifactKind := .taskFinish
  taskId := "k1"
  tenantId := "t"
  projectId := some "p"
  status := some "completed"
  threadId := some "k1"
  whatFailed := ["f"]
  promotionState := .canonical
  timestampCreated := 1

/-- The sample run draws its ids as UUIDs. -/
theorem drawsUuids_sampleFinish : DrawsUuids sampleFinish :=
  ⟨by decide, by decide⟩

/-- The tables after the sample run. -/
theorem sampleFinish_tables : (runOps sampleSigning {} sampleFinish).db.tasks =
      [Db.taskRowOf finishedArtifact] ∧
    (runOps sampleSigning {} sampleFinish).db.taskArtifacts = [finishedArtifact] := by
  decide

/-- The tasks listed after the sample run. -/
theorem sampleFinish_listTasks (p : Option String) (hp : p.all (· = "p") = true) (limit : ℕ) :
    (runOps sampleSigning {} sampleFinish).db.listTasks "t" p (limit + 1) =
      [Db.taskRowOf finishedArtifact] := by
  have hproject : p.all (fun p => (Db.taskRowOf finishedArtifact).projectId == some p) = true := by
    cases p with
    | none => rfl
    | some p =>
      simp only [Option.all_some, decide_eq_true_eq] at hp
      subst hp
      decide
  have htenant : ((Db.taskRowOf finishedArtifact).tenantId == "t") = true := by decide
  rw [Db.listTasks, sampleFinish_tables.1, List.filter_cons, htenant, hproject]
  simp

/-- The artifacts of the sample run's task. -/
theorem sampleFinish_listTaskArtifacts :
    (runOps sampleSigning {} sampleFinish).db.listTaskArtifacts "t" "k1" = [finishedArtifact] := by
  have hkeys : (finishedArtifact.tenantId == "t" && finishedArtifact.taskId == "k1") = true := by
    decide
  rw [Db.listTaskArtifacts, sampleFinish_tables.2, List.filter_cons, hkeys]
  simp

/-- The task resume of the sample run. -/
theorem sampleFinish_generateResume :
    generateDigest sampleSigning {} ⟨"", "", 2⟩ (runOps sampleSigning {} sampleFinish).db "t"
        (.taskResume "k1") =
      .ok (buildTaskResumeDigestArtifact ⟨"", "", 2⟩
        (buildTaskResumeView (Db.taskRowOf finishedArtifact) [finishedArtifact])) := by
  have hfind : [Db.taskRowOf finishedArtifact].find? (·.taskId = "k1") =
      some (Db.taskRowOf finishedArtifact) := by
    decide
  rw [generateDigest, sampleFinish_listTasks none rfl 499, hfind]
  dsimp only
  rw [show (Db.taskRowOf finishedArtifact).tenantId = "t" from rfl, sampleFinish_listTaskArtifacts]

/-- The artifacts in scope after the sample run. -/
theorem sampleFinish_scopeArtifacts :
    (runOps sampleSigning {} sampleFinish).db.scopeArtifacts (some "p") 500 ["t"] =
      [finishedArtifact] := by
  rw [Db.scopeArtifacts, List.flatMap_singleton, sampleFinish_listTasks (some "p") rfl 499,
    List.flatMap_singleton]
  exact sampleFinish_listTaskArtifacts

/-- The tenants in scope after the sample run. -/
theorem sampleFinish_scoped :
    (runOps sampleSigning {} sampleFinish).db.scopedTenantsForProject {} "t" (some "p") =
      .ok ["t"] := by
  rfl

/-- The failure library of the sample run. -/
theorem sampleFinish_generateFailures :
    generateDigest sampleSigning {} ⟨"", "", 2⟩ (runOps sampleSigning {} sampleFinish).db "t"
        (.failureLibrary (some "p")) =
      .ok (buildLibraryDigestArtifact ⟨"", "", 2⟩ "t" (some "p") .failureLibrary
        (DigestFamily.buildScopeKey (some "p") "t" "failure_library")
        (failureContent "t" (some "p") [finishedArtifact])) := by
  rw [generateDigest, libraryDigest, Db.loadProjectArtifacts, sampleFinish_scoped, Except.map,
    sampleFinish_scopeArtifacts]
  rfl

/-- A call that returns. -/
theorem exists_ok_of_isOk {ε α σ : Type} {m : Except ε α × σ} (h : m.1.isOk = true) :
    ∃ a s, m = (.ok a, s) := by
  obtain ⟨r, s⟩ := m
  cases r with
  | ok a => exact ⟨a, s, rfl⟩
  | error e => exact absurd h Bool.false_ne_true

/-- The failure library of the project converges. -/
theorem converges_failures_of_finished : ∃ r c',
    (runOps sampleSigning {} sampleFinish).ensureDigest sampleSigning {} { now := 2 } false
        ⟨"", "", 2⟩ "t" (.failureLibrary (some "p")) = (.ok r, c') ∧
      Converges sampleSigning {} false "t" (.failureLibrary (some "p")) c' := by
  obtain ⟨r, c', hok⟩ : ∃ r c', (runOps sampleSigning {} sampleFinish).ensureDigest sampleSigning {}
      { now := 2 } false ⟨"", "", 2⟩ "t" (.failureLibrary (some "p")) = (.ok r, c') := by
    refine exists_ok_of_isOk ?_
    rw [ensureDigest, sampleFinish_generateFailures]
    decide +kernel
  refine ⟨r, c', hok, (ensureDigest_converges_iff sampleSigning {} drawsUuids_sampleFinish { now := 2 }
    false ⟨"", "", 2⟩ "t" (.failureLibrary (some "p")) hok).mpr (.inl ?_)⟩
  show inferFailureItems _ ≠ []
  rw [Db.currentSources, Db.listedArtifacts, sampleFinish_scoped]
  show inferFailureItems (digestSourceArtifacts (newestFirst (·.timestampCreated)
    ((runOps sampleSigning {} sampleFinish).db.scopeArtifacts (some "p") 500 ["t"]))) ≠ []
  rw [sampleFinish_scopeArtifacts]
  decide

/-- The resume of the task does not: another call would write it again. -/
theorem not_converges_resume_of_finished : ∃ r c',
    (runOps sampleSigning {} sampleFinish).ensureDigest sampleSigning {} { now := 2 } false
        ⟨"", "", 2⟩ "t" (.taskResume "k1") = (.ok r, c') ∧
      ¬ Converges sampleSigning {} false "t" (.taskResume "k1") c' := by
  obtain ⟨r, c', hok⟩ : ∃ r c', (runOps sampleSigning {} sampleFinish).ensureDigest sampleSigning {}
      { now := 2 } false ⟨"", "", 2⟩ "t" (.taskResume "k1") = (.ok r, c') := by
    refine exists_ok_of_isOk ?_
    rw [ensureDigest, sampleFinish_generateResume]
    decide
  obtain ⟨drawn, huuid, hrows⟩ := opsRows_runOps (x := sampleSigning) drawsUuids_sampleFinish
  have hids : IdsBelow ((runOps sampleSigning {} sampleFinish).view "t") :=
    idsBelow_runOps sampleFinish (fun _ r hr => absurd hr List.not_mem_nil) "t"
  exact ⟨r, c', hok, resume_not_converges huuid hrows hids hok rfl⟩
