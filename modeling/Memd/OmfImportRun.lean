/-
# An import, item by item

What a run of `importOmfWithEvents` does, on a store whose finalizations do not fail: the
checks on an item are a function of the database (`itemVerdict`), an admitted item leaves
its rows behind under new ids (`Written`), and the only way the loop ends early is an item
whose lifecycle block does not parse.

* `ItemRun`, `LoopRun` — the items of a run that goes through, one by one;
* `importLoop_run` — the loop ends with such a run or stops at a malformed item;
* `replayEdges_yields` — the edges behind the loop are all written.
-/
import Memd.AddRun
import Memd.Omf

open Proc PersistentStore Store

variable (x : OmfExternals) (t : TenantId) (opts : ImportOptions) (trusted : Bool)

/-! ## The checks on an item -/

/-- The canonical text an item is compared by. -/
def itemCanonical (item : OmfItem) : String :=
  canonicalizeForType x.toExternals item.content ((extractChunkType item.extensions).getD .doc)

/-- Does the database hold the item already? -/
def isDuplicate (db : Db) (item : OmfItem) : Bool :=
  isExactDuplicate db t (resolvedProject item) (itemCanonical x item)
    || opts.fuzzyThreshold.any fun thr =>
      isFuzzyDuplicate x db t (resolvedProject item) (itemCanonical x item) thr

/-- What an import does with an item, given the database. -/
def itemVerdict (now : ℤ) (db : Db) (item : OmfItem) : Except MemdError ItemVerdict :=
  if isArchived opts item then .ok .archived
  else if isDuplicate x t opts db item then .ok .duplicate
  else (requestedLifecycle trusted item).map fun initial => gateItem x item initial now

/-- Deciding an item reads the tables and changes nothing. -/
theorem decideItem_run (now : ℤ) (item : OmfItem) (s : Store) :
    (decideItem x t opts trusted now item).run s =
      (itemVerdict x t opts trusted now s.db item, s) := by
  unfold decideItem itemVerdict isDuplicate itemCanonical
  by_cases harch : isArchived opts item = true
  · simp [harch]
  simp only [harch, if_false, Bool.false_eq_true]
  by_cases hexact : isExactDuplicate s.db t (resolvedProject item) (canonicalizeForType
      x.toExternals item.content ((extractChunkType item.extensions).getD .doc)) = true
  · simp [hexact]
  have hparse : ∀ r : Except MemdError LifecycleDelta,
      ((Proc.ofExcept r).bind fun initial => .ret (gateItem x item initial now) :
        StoreProg ItemVerdict).run s = (r.map fun initial => gateItem x item initial now, s) := by
    intro r
    cases r <;> rfl
  cases hthr : opts.fuzzyThreshold with
  | none => simp [hexact, hparse]
  | some thr =>
    by_cases hfuzzy : isFuzzyDuplicate x s.db t (resolvedProject item) (canonicalizeForType
        x.toExternals item.content ((extractChunkType item.extensions).getD .doc)) thr = true
    · simp [hexact, hfuzzy]
    · simp [hexact, hfuzzy, hparse]

/-! ## References of a document that passed the preflight -/

/-- The id a trusted item is known by, if it has one. -/
def sourceRef (item : OmfItem) : Option SourceId :=
  if trusted && extVersionSupported item.extensions then
    (extractSourceChunkId x item.extensions).toOption.join
  else none

/-- The id of the item a trusted item supersedes. -/
def supersedesRef (item : OmfItem) : Option SourceId :=
  if trusted && extVersionSupported item.extensions then
    (extractSupersessionRef x item.extensions "supersedes").toOption.join
  else none

/-- The references of the item can be read. -/
def ReadableRefs (item : OmfItem) : Prop :=
  (trusted && extVersionSupported item.extensions) = true →
    (∃ r, extractSourceChunkId x item.extensions = .ok r) ∧
      ∃ r, extractSupersessionRef x item.extensions "supersedes" = .ok r

variable {x trusted}

/-- The ids recorded for an item whose references can be read. -/
theorem recordIds_eq {item : OmfItem} (h : ReadableRefs x trusted item) (target : ChunkId)
    (st : ImportState) :
    recordIds x trusted item target st = .ok { st with
      sourceToTarget := ((sourceRef x trusted item).map (·, target)).toList ++ st.sourceToTarget
      pendingEdges := st.pendingEdges ++ ((supersedesRef x trusted item).map (⟨·, target⟩)).toList } := by
  unfold recordIds sourceRef supersedesRef
  by_cases ht : (trusted && extVersionSupported item.extensions) = true
  · obtain ⟨⟨src, hsrc⟩, sup, hsup⟩ := h ht
    simp only [ht, if_true, hsrc, hsup]
    rfl
  · simp only [ht, if_false, Bool.false_eq_true]
    simp

/-- An id that is accepted was not seen before and is seen from then on. -/
theorem insertNew_ok {seen seen' : List SourceId} {msg : SourceId → String} {r : Option SourceId}
    (h : insertNew seen msg r = .ok seen') : seen' = seen ++ r.toList ∧ ∀ id ∈ r, id ∉ seen := by
  cases r with
  | none =>
    obtain rfl : seen = seen' := Except.ok.inj h
    simp
  | some id =>
    by_cases hseen : seen.contains id = true
    · exact absurd h (by simp only [insertNew, hseen, if_true]; simp)
    · simp only [insertNew, hseen, if_false, Bool.false_eq_true] at h
      obtain rfl : seen ++ [id] = seen' := Except.ok.inj h
      simpa using hseen

/-- What an item that passes the reference check has been checked for. -/
theorem validateReferences_ok {seen seen' : SeenIds} {item : OmfItem × ℕ}
    (h : validateReferences x seen item = .ok seen') :
    ReadableRefs x true item.1 ∧
      (seen'.sourceIds = seen.sourceIds ++ (sourceRef x true item.1).toList ∧
        ∀ id ∈ sourceRef x true item.1, id ∉ seen.sourceIds) ∧
      seen'.supersedes = seen.supersedes ++ (supersedesRef x true item.1).toList ∧
        ∀ id ∈ supersedesRef x true item.1, id ∉ seen.supersedes := by
  unfold validateReferences at h
  unfold ReadableRefs sourceRef supersedesRef
  by_cases hsup : extVersionSupported item.1.extensions = true
  · simp only [hsup, if_true] at h
    obtain ⟨src, hsrc, h⟩ := except_bind_eq_ok.mp h
    obtain ⟨sourceIds, hids, h⟩ := except_bind_eq_ok.mp h
    obtain ⟨old, hold, h⟩ := except_bind_eq_ok.mp h
    obtain ⟨supersedes, hseen, h⟩ := except_bind_eq_ok.mp h
    obtain ⟨_, _, h⟩ := except_bind_eq_ok.mp h
    obtain rfl := Except.ok.inj h
    simp only [hsup, Bool.and_self, if_true, hsrc, hold]
    exact ⟨fun _ => ⟨⟨src, rfl⟩, old, rfl⟩, insertNew_ok hids, insertNew_ok hseen⟩
  · simp only [hsup, if_false, Bool.false_eq_true] at h
    obtain rfl := Except.ok.inj h
    simp [hsup]

/-- Adding an id that was not seen keeps the ids distinct. -/
theorem nodup_append_toList {α : Type} {seen : List α} {r : Option α} (h : seen.Nodup)
    (hr : ∀ id ∈ r, id ∉ seen) : (seen ++ r.toList).Nodup := by
  cases r with
  | none => simpa using h
  | some id =>
    refine List.nodup_append.mpr ⟨h, by simp, ?_⟩
    rintro y hy _ hz rfl
    exact hr y (by simpa [eq_comm] using hz) hy

/-- The ids of a list, one item at a time. -/
theorem append_filterMap_cons {α β : Type} (f : α → Option β) (seen : List β) (a : α) (l : List α) :
    seen ++ (a :: l).filterMap f = (seen ++ (f a).toList) ++ l.filterMap f := by
  rw [List.filterMap_cons]
  cases f a <;> simp

/-- What a document that passes the reference check has been checked for. -/
theorem validateReferences_foldlM {items : List (OmfItem × ℕ)} {seen seen' : SeenIds}
    (h : items.foldlM (validateReferences x) seen = .ok seen') (hids : seen.sourceIds.Nodup)
    (hseen : seen.supersedes.Nodup) :
    (∀ item ∈ items, ReadableRefs x true item.1) ∧
      (seen.sourceIds ++ items.filterMap fun item => sourceRef x true item.1).Nodup ∧
      (seen.supersedes ++ items.filterMap fun item => supersedesRef x true item.1).Nodup := by
  induction items generalizing seen with
  | nil => simpa using ⟨hids, hseen⟩
  | cons item items ih =>
    rw [List.foldlM_cons] at h
    obtain ⟨seen₁, hitem, h⟩ := except_bind_eq_ok.mp h
    obtain ⟨hread, ⟨hids₁, hnewId⟩, hseen₁, hnew⟩ := validateReferences_ok hitem
    obtain ⟨hreads, hnodupIds, hnodup⟩ := ih h (hids₁ ▸ nodup_append_toList hids hnewId)
      (hseen₁ ▸ nodup_append_toList hseen hnew)
    refine ⟨?_, ?_, ?_⟩
    · intro y hy
      rcases List.mem_cons.mp hy with rfl | hy
      · exact hread
      · exact hreads y hy
    · rw [append_filterMap_cons, ← hids₁]
      exact hnodupIds
    · rw [append_filterMap_cons, ← hseen₁]
      exact hnodup

/-- After the preflight the references of the document are readable, no two items have the
same id and no two items supersede the same one. -/
theorem preflight_ok {doc : OmfDocument} (h : preflight x doc = .ok ()) :
    (∀ item ∈ doc.memories.zipIdx, ReadableRefs x (isTrusted doc) item.1) ∧
      (doc.memories.zipIdx.filterMap fun item => sourceRef x (isTrusted doc) item.1).Nodup ∧
      (doc.memories.zipIdx.filterMap fun item => supersedesRef x (isTrusted doc) item.1).Nodup := by
  unfold preflight at h
  obtain ⟨_, _, h⟩ := except_bind_eq_ok.mp h
  cases htrust : isTrusted doc with
  | false =>
    have hnone : ∀ item : OmfItem, supersedesRef x false item = none := fun _ => rfl
    have hnone' : ∀ item : OmfItem, sourceRef x false item = none := fun _ => rfl
    refine ⟨fun item _ h => absurd h (by simp), ?_, ?_⟩
    · simp [hnone']
    · simp [hnone]
  | true =>
    rw [htrust, if_pos rfl] at h
    obtain ⟨_, hfold, _⟩ := except_bind_eq_ok.mp h
    simpa using validateReferences_foldlM hfold List.nodup_nil List.nodup_nil

/-! ## The loop -/

section Loop

variable {t opts} {env : ImportEnv} {s s' : Store} {st st' : ImportState}

variable (x t opts trusted env) in
/-- One item that an import goes through. -/
inductive ItemRun (item : OmfItem × ℕ) : ImportState → Store → ImportState → Store → Prop
  | skipped {st : ImportState} {s : Store} {v : ItemVerdict}
      (h : itemVerdict x t opts trusted (env.item item.2).gate s.db item.1 = .ok v)
      (hv : v = .archived ∨ v = .rejected) :
      ItemRun item st s { st with result.skipped := st.result.skipped + 1 } s
  | duplicate {st : ImportState} {s : Store}
      (h : itemVerdict x t opts trusted (env.item item.2).gate s.db item.1 = .ok .duplicate) :
      ItemRun item st s { st with result.duplicates := st.result.duplicates + 1 } s
  | written {st : ImportState} {s s' : Store} {a : AdmittedItem} {locs : List (ℕ × ℕ)}
      (h : itemVerdict x t opts trusted (env.item item.2).gate s.db item.1 = .ok (.admitted a))
      (hw : Written x.toExternals (importedChunk t item.1 a (env.item item.2).created) a.initial
        (env.item item.2).stored locs s s') :
      ItemRun item st s
        { result := { st.result with imported := st.result.imported + 1 }
          events := st.events ++ [⟨s.nextId, a.chunkType, a.projectId, item.1.content⟩]
          sourceToTarget := ((sourceRef x trusted item.1).map (·, s.nextId)).toList
            ++ st.sourceToTarget
          pendingEdges := st.pendingEdges
            ++ ((supersedesRef x trusted item.1).map (⟨·, s.nextId⟩)).toList } s'

variable (x t opts trusted env) in
/-- The items of an import that goes through. -/
inductive LoopRun : List (OmfItem × ℕ) → ImportState → Store → ImportState → Store → Prop
  | nil {st : ImportState} {s : Store} : LoopRun [] st s st s
  | cons {item : OmfItem × ℕ} {items : List (OmfItem × ℕ)} {st st₁ st' : ImportState}
      {s s₁ s' : Store} (hitem : ItemRun x t opts trusted env item st s st₁ s₁)
      (hrest : LoopRun items st₁ s₁ st' s') : LoopRun (item :: items) st s st' s'

/-- No finalization fails. -/
def NoFault (s : Store) : Prop :=
  s.handle.config.finalizeFails = []

/-- Writing an item leaves no fault pending. -/
theorem Written.noFault {ext : Externals} {chunk : MemoryChunk} {initial : LifecycleDelta} {now : ℤ}
    {locs : List (ℕ × ℕ)} (h : Written ext chunk initial now locs s s') (hf : NoFault s) :
    NoFault s' := by
  rw [NoFault, h.config]
  exact hf

/-- Importing an item leaves no fault pending. -/
theorem ItemRun.noFault {item : OmfItem × ℕ} (h : ItemRun x t opts trusted env item st s st' s')
    (hf : NoFault s) : NoFault s' := by
  cases h with
  | skipped _ _ => exact hf
  | duplicate _ => exact hf
  | written _ hw => exact hw.noFault hf

/-- An item either goes through or does not parse, and then nothing has changed. -/
theorem importItem_run (hf : NoFault s) {item : OmfItem × ℕ} (hread : ReadableRefs x trusted item.1)
    (st : ImportState) :
    (∃ e, itemVerdict x t opts trusted (env.item item.2).gate s.db item.1 = .error e ∧
      (importItem x t opts trusted env st item).run s = (.error e, s)) ∨
    ∃ st' s', ItemRun x t opts trusted env item st s st' s' ∧
      (importItem x t opts trusted env st item).run s = (.ok st', s') := by
  have hdecide := decideItem_run x t opts trusted (env.item item.2).gate item.1 s
  unfold importItem
  cases hv : itemVerdict x t opts trusted (env.item item.2).gate s.db item.1 with
  | error e =>
    refine .inl ⟨e, rfl, ?_⟩
    rw [bind_eq, run_bind, hdecide, hv]
  | ok v =>
    refine .inr ?_
    simp only [bind_eq, run_bind, hdecide, hv]
    cases v with
    | archived => exact ⟨_, _, .skipped hv (.inl rfl), rfl⟩
    | rejected => exact ⟨_, _, .skipped hv (.inr rfl), rfl⟩
    | duplicate => exact ⟨_, _, .duplicate hv, rfl⟩
    | admitted a =>
      obtain ⟨_, s', hrun, rfl, locs, hw⟩ := addChunkWithLifecycle_yields x.toExternals
        (show (importedChunk t item.1 a (env.item item.2).created).tenantId = t from rfl) a.initial
        (env.item item.2).indexError (env.item item.2).stored hf
      refine ⟨_, s', .written hv hw, ?_⟩
      simp only [run_bind, hrun, recordIds_eq hread]
      rfl

variable (t opts env) in
/-- The loop goes through all items, or stops at one that does not parse. -/
theorem importLoop_run (hf : NoFault s) {items : List (OmfItem × ℕ)}
    (hread : ∀ item ∈ items, ReadableRefs x trusted item.1) (st : ImportState) :
    (∃ pre item post st₁ s₁ e, items = pre ++ item :: post ∧
      LoopRun x t opts trusted env pre st s st₁ s₁ ∧
      itemVerdict x t opts trusted (env.item item.2).gate s₁.db item.1 = .error e ∧
      Proc.run (items.foldlM (importItem x t opts trusted env) st) s = (.error e, s₁)) ∨
    ∃ st' s', LoopRun x t opts trusted env items st s st' s' ∧
      Proc.run (items.foldlM (importItem x t opts trusted env) st) s = (.ok st', s') := by
  induction items generalizing st s with
  | nil => exact .inr ⟨st, s, .nil, rfl⟩
  | cons item items ih =>
    rw [List.foldlM_cons, bind_eq, run_bind]
    rcases importItem_run hf (hread item List.mem_cons_self) st with
      ⟨e, hv, hrun⟩ | ⟨st₁, s₁, hitem, hrun⟩
    · exact .inl ⟨[], item, items, st, s, e, rfl, .nil, hv, by rw [hrun]⟩
    · rw [hrun]
      rcases ih (hitem.noFault hf) (fun y hy => hread y (List.mem_cons_of_mem item hy)) st₁ with
        ⟨pre, y, post, st₂, s₂, e, hsplit, hpre, hv, hrest⟩ | ⟨st', s', hloop, hrest⟩
      · exact .inl ⟨item :: pre, y, post, st₂, s₂, e, by rw [hsplit]; rfl, .cons hitem hpre, hv,
          hrest⟩
      · exact .inr ⟨st', s', .cons hitem hloop, hrest⟩

/-- The import loop leaves no fault pending. -/
theorem LoopRun.noFault {items : List (OmfItem × ℕ)}
    (h : LoopRun x t opts trusted env items st s st' s') (hf : NoFault s) : NoFault s' := by
  induction h with
  | nil => exact hf
  | cons hitem _ ih => exact ih (hitem.noFault hf)

end Loop

/-! ## Rows that stay -/

/-- The chunk has exactly one row, of the tenant, at a location in use, and no successor. -/
structure Landed (t : TenantId) (s : Store) (c : ChunkId) : Prop where
  old : c < s.nextId
  once : (s.db.metadata.map (·.chunkId)).count c = 1
  row : ∃ m ∈ s.db.metadata, m.chunkId = c ∧ m.tenantId = t ∧ s.Used (m.segmentId, m.ordinal) ∧
    m.lifecycle.supersededBy = none

section Landed

variable {t : TenantId} {ext : Externals} {chunk : MemoryChunk} {initial : LifecycleDelta} {now : ℤ}
  {locs : List (ℕ × ℕ)} {s s' : Store}

/-- The overlay leaves identity and location of a row alone. -/
theorem initialRow_frame (initial : LifecycleDelta) (now : ℤ) (m : ChunkMetadata) :
    (initialRow initial now m).chunkId = m.chunkId ∧
      (initialRow initial now m).tenantId = m.tenantId ∧
      (initialRow initial now m).segmentId = m.segmentId ∧
      (initialRow initial now m).ordinal = m.ordinal := by
  unfold initialRow
  split <;> exact ⟨rfl, rfl, rfl, rfl⟩

/-- The rows of an added item carry the ids that were next. -/
theorem ids_addedRows (ext : Externals) (chunk : MemoryChunk) (initial : LifecycleDelta) (now : ℤ)
    (n : ℕ) {locs : List (ℕ × ℕ)} (h : locs.length = (splitForAdd ext chunk).length) :
    (addedRows ext chunk initial now n locs).map (·.chunkId) = partIds ext n chunk := by
  have hlen : locs.length = (stampFrom ext n (splitForAdd ext chunk)).length := by
    rw [h, length_stampFrom]
  rw [addedRows, List.map_map, partIds, ← ids_stampFrom ext n, ← ids_rowsAt ext hlen]
  apply List.map_congr_left
  intro m _
  exact (initialRow_frame initial now m).1

/-- The ids of an added item are the next ones. -/
theorem mem_partIds {n c : ℕ} : c ∈ partIds ext n chunk ↔
    n ≤ c ∧ c < n + (splitForAdd ext chunk).length :=
  List.mem_range'_1

/-- The ids of the table after an add. -/
theorem Written.ids (hw : Written ext chunk initial now locs s s') :
    s'.db.metadata.map (·.chunkId) =
      (keptRows (rowsAt ext (stampFrom ext s.nextId (splitForAdd ext chunk)) locs)
        s.db.metadata).map (·.chunkId) ++ partIds ext s.nextId chunk := by
  rw [hw.metadata, List.map_append, ids_addedRows ext chunk initial now s.nextId
    hw.locations.length]

/-- A row with an older id at a location in use is not evicted. -/
theorem Written.mem_keptRows (hw : Written ext chunk initial now locs s s') {m : ChunkMetadata}
    (hm : m ∈ s.db.metadata) (hold : m.chunkId < s.nextId)
    (hused : m.tenantId = chunk.tenantId → s.Used (m.segmentId, m.ordinal)) :
    m ∈ keptRows (rowsAt ext (stampFrom ext s.nextId (splitForAdd ext chunk)) locs)
      s.db.metadata := by
  refine List.mem_filter.mpr ⟨hm, List.all_eq_true.mpr ?_⟩
  intro n hn
  obtain ⟨p, hp, l, hl, rfl⟩ := mem_rowsAt hn
  have hpid : p.chunkId ∈ partIds ext s.nextId chunk := by
    rw [partIds, ← ids_stampFrom ext]
    exact List.mem_map_of_mem hp
  have hne : m.chunkId ≠ p.chunkId :=
    Nat.ne_of_lt (Nat.lt_of_lt_of_le hold (mem_partIds.mp hpid).1)
  have htenant : p.tenantId = chunk.tenantId := by
    obtain ⟨y, hy, rfl⟩ := List.mem_map.mp hp
    obtain ⟨text, tags, hpart⟩ := mem_splitForAdd (List.fst_mem_of_mem_zipIdx hy)
    show y.1.tenantId = chunk.tenantId
    rw [hpart]
  have hloc : m.tenantId = p.tenantId → m.segmentId = l.1 → m.ordinal ≠ l.2 := by
    intro h₀ h₁ h₂
    exact hw.locations.free l hl
      (show s.Used (l.1, l.2) from h₁ ▸ h₂ ▸ hused (h₀.trans htenant))
  simp only [ChunkMetadata.conflicts, metadataRow, Bool.not_eq_true', Bool.or_eq_false_iff,
    Bool.and_eq_false_iff, beq_eq_false_iff_ne]
  exact ⟨hne, by tauto⟩

/-- A later add leaves a row that has landed alone. -/
theorem Landed.written {c : ChunkId} (h : Landed t s c)
    (hw : Written ext chunk initial now locs s s') : Landed t s' c := by
  obtain ⟨m, hm, hid, htenant, hused, hnone⟩ := h.row
  have hkept := hw.mem_keptRows hm (hid ▸ h.old) fun _ => hused
  refine ⟨?_, ?_, m, ?_, hid, htenant, hw.advances.used _ hused, hnone⟩
  · rw [hw.nextId]
    exact Nat.lt_add_right _ h.old
  · have hnew : (partIds ext s.nextId chunk).count c = 0 := by
      rw [List.count_eq_zero]
      intro hc
      exact absurd h.old (Nat.not_lt.mpr (mem_partIds.mp hc).1)
    have hle : ((keptRows (rowsAt ext (stampFrom ext s.nextId (splitForAdd ext chunk)) locs)
        s.db.metadata).map (·.chunkId)).count c ≤ 1 := by
      rw [← h.once]
      exact (List.filter_sublist.map _).count_le c
    have hpos : 0 < ((keptRows (rowsAt ext (stampFrom ext s.nextId (splitForAdd ext chunk)) locs)
        s.db.metadata).map (·.chunkId)).count c := by
      rw [List.count_pos_iff, ← hid]
      exact List.mem_map_of_mem hkept
    rw [hw.ids, List.count_append, hnew]
    omega
  · rw [hw.metadata]
    exact List.mem_append_left _ hkept

/-- The first part of an added chunk lands. -/
theorem Written.landed (hw : Written ext chunk initial now locs s s') (ht : chunk.tenantId = t)
    (hnone : initial.supersededBy = none) : Landed t s' s.nextId := by
  have hpos : 0 < (splitForAdd ext chunk).length :=
    List.length_pos_of_ne_nil (splitForAdd_ne_nil ext chunk)
  have hfirst : s.nextId ∈ partIds ext s.nextId chunk :=
    mem_partIds.mpr ⟨Nat.le_refl _, Nat.lt_add_of_pos_right hpos⟩
  refine ⟨by rw [hw.nextId]; exact Nat.lt_add_of_pos_right hpos, ?_, ?_⟩
  · have hold : ((keptRows (rowsAt ext (stampFrom ext s.nextId (splitForAdd ext chunk)) locs)
        s.db.metadata).map (·.chunkId)).count s.nextId = 0 := by
      rw [List.count_eq_zero]
      intro hmem
      obtain ⟨m, hm, hid⟩ := List.mem_map.mp hmem
      refine not_mem_of_keptRows hm ?_
      rw [hid, ids_rowsAt ext (by rw [hw.locations.length, length_stampFrom]), ids_stampFrom]
      exact hfirst
    rw [hw.ids, List.count_append, hold, Nat.zero_add]
    exact List.count_eq_one_of_mem List.nodup_range' hfirst
  · have hids := ids_addedRows ext chunk initial now s.nextId hw.locations.length
    rw [← hids] at hfirst
    obtain ⟨m, hm, hid⟩ := List.mem_map.mp hfirst
    refine ⟨m, by rw [hw.metadata]; exact List.mem_append_right _ hm, hid, ?_⟩
    obtain ⟨r, hr, rfl⟩ := List.mem_map.mp hm
    obtain ⟨_, htenant, hseg, hord⟩ := initialRow_frame initial now r
    obtain ⟨p, hp, l, hl, rfl⟩ := mem_rowsAt hr
    refine ⟨?_, ?_, ?_⟩
    · rw [htenant]
      obtain ⟨y, hy, rfl⟩ := List.mem_map.mp hp
      obtain ⟨text, tags, hpart⟩ := mem_splitForAdd (List.fst_mem_of_mem_zipIdx hy)
      show y.1.tenantId = t
      rw [hpart]
      exact ht
    · rw [hseg, hord]
      exact hw.locations.used l hl
    · unfold initialRow
      split
      · rfl
      · simp [ChunkMetadata.overlay, stampedDelta, hnone, metadataRow]

end Landed

/-! ## The edges -/

section Edges

variable {t : TenantId}

/-- The chunk has exactly one row, and it is the tenant's. -/
structure Present (t : TenantId) (ms : List ChunkMetadata) (c : ChunkId) : Prop where
  once : (ms.map (·.chunkId)).count c = 1
  row : ∃ m ∈ ms, m.chunkId = c ∧ m.tenantId = t

/-- No row of the chunk has a successor. -/
def IsHead (ms : List ChunkMetadata) (c : ChunkId) : Prop :=
  ∀ m ∈ ms, m.chunkId = c → m.lifecycle.supersededBy = none

/-- What the edge from `e.1` to its successor `e.2` does to a row. -/
def linkRow (t : TenantId) (now : ℤ) (e : ChunkId × ChunkId) (m : ChunkMetadata) : ChunkMetadata :=
  let m₁ : ChunkMetadata :=
    if m.tenantId = t ∧ m.chunkId = e.1 ∧ m.lifecycle.supersededBy = none then
      { m with
        status := .superseded
        lifecycle := { m.lifecycle with supersededBy := some e.2, lifecycleUpdatedAtMs := now } }
    else m
  if m₁.tenantId = t ∧ m₁.chunkId = e.2 then
    { m₁ with
      lifecycle := { m₁.lifecycle with supersedes := some e.1, lifecycleUpdatedAtMs := now } }
  else m₁

/-- Linking changes nothing of a row but its lifecycle links. -/
theorem linkRow_frame (t : TenantId) (now : ℤ) (e : ChunkId × ChunkId) (m : ChunkMetadata) :
    (linkRow t now e m).chunkId = m.chunkId ∧ (linkRow t now e m).tenantId = m.tenantId := by
  unfold linkRow
  dsimp only
  split_ifs <;> exact ⟨rfl, rfl⟩

/-- Linking sets the successor of the superseded row only. -/
theorem linkRow_supersededBy {now : ℤ} {e : ChunkId × ChunkId} {m : ChunkMetadata}
    (h : m.chunkId ≠ e.1) :
    (linkRow t now e m).lifecycle.supersededBy = m.lifecycle.supersededBy := by
  have hold : ¬(m.tenantId = t ∧ m.chunkId = e.1 ∧ m.lifecycle.supersededBy = none) :=
    fun hm => h hm.2.1
  simp only [linkRow, if_neg hold]
  split_ifs <;> rfl

/-- A change that keeps ids and tenants keeps a row present. -/
theorem Present.map {ms : List ChunkMetadata} {c : ChunkId} (h : Present t ms c)
    {f : ChunkMetadata → ChunkMetadata}
    (hf : ∀ m, (f m).chunkId = m.chunkId ∧ (f m).tenantId = m.tenantId) :
    Present t (ms.map f) c := by
  have hids : (ms.map f).map (·.chunkId) = ms.map (·.chunkId) := by
    rw [List.map_map]
    exact List.map_congr_left fun m _ => (hf m).1
  obtain ⟨m, hm, hid, htenant⟩ := h.row
  exact ⟨by rw [hids]; exact h.once, f m, List.mem_map_of_mem hm, (hf m).1.trans hid,
    (hf m).2.trans htenant⟩

/-- How many rows of a chunk a condition finds, when the chunk has one row that meets it. -/
theorem Present.countP {ms : List ChunkMetadata} {c : ChunkId} (h : Present t ms c)
    {p : ChunkMetadata → Bool} (hp : ∀ m ∈ ms, p m = true → m.chunkId = c)
    (hrow : ∀ m ∈ ms, m.chunkId = c → m.tenantId = t → p m = true) : ms.countP p = 1 := by
  obtain ⟨m, hm, hid, htenant⟩ := h.row
  have hle : ms.countP p ≤ 1 := by
    have hcount : (ms.map (·.chunkId)).count c = ms.countP fun m => m.chunkId == c := by
      rw [List.count, List.countP_map]
      rfl
    rw [← h.once, hcount]
    exact List.countP_mono_left fun m hm h => by simpa using hp m hm h
  have hpos : 0 < ms.countP p := List.countP_pos_iff.mpr ⟨m, hm, hrow m hm hid htenant⟩
  omega

/-- Superseding a head by another present row succeeds. -/
theorem Db.atomicSupersede_ok {db : Db} {old new : ChunkId} (now : ℤ)
    (hold : Present t db.metadata old) (hhead : IsHead db.metadata old)
    (hnew : Present t db.metadata new) :
    ∃ db', db.atomicSupersede t old new now = .ok ((), db') ∧
      db'.metadata = db.metadata.map (linkRow t now (old, new)) := by
  have hlink : (db.linkOld t old new now).metadata = db.metadata.map fun m =>
      if m.tenantId = t ∧ m.chunkId = old ∧ m.lifecycle.supersededBy = none then
        { m with
          status := .superseded
          lifecycle := { m.lifecycle with supersededBy := some new, lifecycleUpdatedAtMs := now } }
      else m := by
    rw [metadata, metadata, linkOld, updateChunks, Table.updateWhere, List.map_map, List.map_map]
    apply List.map_congr_left
    intro r _
    by_cases hr : r.tenantId = t ∧ r.chunkId = old ∧ r.lifecycle.supersededBy = none
    · simp [hr, ChunkRow.isRow]
    · rw [Function.comp_apply, Function.comp_apply, if_neg hr, if_neg]
      simpa [ChunkRow.isRow, and_assoc] using hr
  have holdRows : (db.chunks.filter fun r =>
      ChunkRow.isRow t old r && r.lifecycle.supersededBy.isNone).length = 1 := by
    have hcount := hold.countP (p := fun m => m.tenantId == t && m.chunkId == old
      && m.lifecycle.supersededBy.isNone) (fun m _ h => by simp at h; exact h.1.2)
      (fun m hm hid htenant => by simp [hid, htenant, hhead m hm hid])
    rw [metadata, List.countP_map] at hcount
    rw [← List.countP_eq_length_filter]
    exact hcount
  have hnew₁ : Present t (db.linkOld t old new now).metadata new := by
    rw [hlink]
    apply hnew.map
    intro m
    split_ifs <;> exact ⟨rfl, rfl⟩
  have hnewRows : ((db.linkOld t old new now).chunks.filter (ChunkRow.isRow t new)).length = 1 := by
    have hcount := hnew₁.countP (p := fun m => m.tenantId == t && m.chunkId == new)
      (fun m _ h => by simp at h; exact h.2) (fun m hm hid htenant => by simp [hid, htenant])
    rw [metadata, List.countP_map] at hcount
    rw [← List.countP_eq_length_filter]
    exact hcount
  refine ⟨(db.linkOld t old new now).linkNew t old new now, ?_, ?_⟩
  · simp only [atomicSupersede, holdRows, hnewRows, ne_eq, not_true_eq_false, if_false]
  · rw [show ((db.linkOld t old new now).linkNew t old new now).metadata =
      (db.linkOld t old new now).metadata.map fun m => if m.tenantId = t ∧ m.chunkId = new then
        { m with
          lifecycle := { m.lifecycle with supersedes := some old, lifecycleUpdatedAtMs := now } }
        else m from ?_, hlink, List.map_map]
    · rfl
    · generalize db.linkOld t old new now = db₁
      rw [metadata, metadata, linkNew, updateChunks, Table.updateWhere, List.map_map, List.map_map]
      apply List.map_congr_left
      intro r _
      by_cases hr : r.tenantId = t ∧ r.chunkId = new
      · simp [hr, ChunkRow.isRow]
      · rw [Function.comp_apply, Function.comp_apply, if_neg hr, if_neg]
        simpa [ChunkRow.isRow] using hr

/-- The edges the references of the imported items stand for; an edge to an item that was
not imported is dropped. -/
def resolvedEdges (sourceToTarget : List (SourceId × ChunkId)) (pending : List PendingSupersede) :
    List (ChunkId × ChunkId) :=
  pending.filterMap fun p =>
    (sourceToTarget.find? fun e => e.1 == p.oldSourceId).map fun e => (e.2, p.newTargetId)

/-- An edge that is resolved comes from a pending supersede. -/
theorem mem_resolvedEdges {sourceToTarget : List (SourceId × ChunkId)}
    {pending : List PendingSupersede} {e : ChunkId × ChunkId}
    (h : e ∈ resolvedEdges sourceToTarget pending) :
    ∃ p ∈ pending, (p.oldSourceId, e.1) ∈ sourceToTarget ∧ p.newTargetId = e.2 := by
  obtain ⟨p, hp, hfind⟩ := List.mem_filterMap.mp h
  obtain ⟨entry, hentry, rfl⟩ := Option.map_eq_some_iff.mp hfind
  refine ⟨p, hp, ?_, rfl⟩
  have hkey : entry.1 = p.oldSourceId := by simpa using List.find?_some hentry
  rw [← hkey]
  exact List.mem_of_find?_eq_some hentry

/-- Items superseded under different ids are different chunks. -/
theorem nodup_resolvedEdges {sourceToTarget : List (SourceId × ChunkId)}
    {pending : List PendingSupersede} (htargets : (sourceToTarget.map (·.2)).Nodup)
    (holds : (pending.map (·.oldSourceId)).Nodup) :
    ((resolvedEdges sourceToTarget pending).map (·.1)).Nodup := by
  induction pending with
  | nil => exact List.nodup_nil
  | cons p pending ih =>
    rw [List.map_cons, List.nodup_cons] at holds
    obtain ⟨hp, hrest⟩ := holds
    rw [resolvedEdges, List.filterMap_cons]
    cases hfind : sourceToTarget.find? fun e => e.1 == p.oldSourceId with
    | none => simpa [resolvedEdges] using ih hrest
    | some entry =>
      show (entry.2 :: (resolvedEdges sourceToTarget pending).map (·.1)).Nodup
      refine List.nodup_cons.mpr ⟨?_, ih hrest⟩
      intro hmem
      obtain ⟨e, he, heq⟩ := List.mem_map.mp hmem
      obtain ⟨q, hq, hsource, _⟩ := mem_resolvedEdges he
      have hentry := List.mem_of_find?_eq_some hfind
      have hkey : entry.1 = p.oldSourceId := by simpa using List.find?_some hfind
      have hsame : (q.oldSourceId, e.1) = entry :=
        List.inj_on_of_nodup_map htargets hsource hentry heq
      refine hp (List.mem_map.mpr ⟨q, hq, ?_⟩)
      rw [← hkey, ← hsame]

/-- The table after the edges. -/
def linkRows (t : TenantId) (now : ℤ) (edges : List (ChunkId × ChunkId))
    (ms : List ChunkMetadata) : List ChunkMetadata :=
  edges.foldl (fun ms e => ms.map (linkRow t now e)) ms

/-- Edges from different heads of the tenant are all written. -/
theorem replayEdges_yields (now : ℤ) (sourceToTarget : List (SourceId × ChunkId))
    (pending : List PendingSupersede) (s : Store)
    (hnodup : ((resolvedEdges sourceToTarget pending).map (·.1)).Nodup)
    (hpresent : ∀ e ∈ resolvedEdges sourceToTarget pending,
      Present t s.db.metadata e.1 ∧ Present t s.db.metadata e.2)
    (hhead : ∀ e ∈ resolvedEdges sourceToTarget pending, IsHead s.db.metadata e.1) :
    Yields (fun _ s' => ∃ db', s' = { s with db := db' } ∧
      db'.metadata = linkRows t now (resolvedEdges sourceToTarget pending) s.db.metadata)
      (replaySupersessionEdges t sourceToTarget pending now) s := by
  induction pending generalizing s with
  | nil => exact Yields.ret ⟨s.db, rfl, rfl⟩
  | cons p pending ih =>
    show Yields _ ((replayEdge t sourceToTarget now p).bind fun _ =>
      replaySupersessionEdges t sourceToTarget pending now) s
    unfold replayEdge
    cases hfind : sourceToTarget.find? fun e => e.1 == p.oldSourceId with
    -- the predecessor is not in the document: no edge
    | none =>
      have hedges : resolvedEdges sourceToTarget (p :: pending) =
          resolvedEdges sourceToTarget pending := by
        simp [resolvedEdges, hfind]
      rw [hedges] at hnodup hpresent hhead ⊢
      exact ih s hnodup hpresent hhead
    -- the first edge is between a head and another present row, so it is written
    | some entry =>
      have hedges : resolvedEdges sourceToTarget (p :: pending) =
          (entry.2, p.newTargetId) :: resolvedEdges sourceToTarget pending := by
        simp [resolvedEdges, hfind]
      rw [hedges] at hnodup hpresent hhead ⊢
      rw [List.map_cons, List.nodup_cons] at hnodup
      obtain ⟨hold, hnew⟩ := hpresent _ List.mem_cons_self
      obtain ⟨db₁, hlink, hrows⟩ := Db.atomicSupersede_ok now hold
        (hhead _ List.mem_cons_self) hnew
      refine Yields.bind (Q := fun _ s' => s' = { s with db := db₁ }) ?_ ?_
      · refine Yields.perform (a := ()) ?_ ?_
        · simp [hlink, Except.map, commit]
        · simp [hlink, Except.map, commit]
      rintro _ _ rfl
      have hframe := linkRow_frame t now (entry.2, p.newTargetId)
      refine Yields.post (ih { s with db := db₁ } hnodup.2 ?_ ?_) ?_
      · intro e he
        obtain ⟨h₁, h₂⟩ := hpresent e (List.mem_cons_of_mem _ he)
        show Present t db₁.metadata e.1 ∧ Present t db₁.metadata e.2
        rw [hrows]
        exact ⟨h₁.map hframe, h₂.map hframe⟩
      -- the other old ends stay heads, since no two edges share one
      · intro e he m hm hid
        have hm' : m ∈ s.db.metadata.map (linkRow t now (entry.2, p.newTargetId)) := hrows ▸ hm
        obtain ⟨r, hr, rfl⟩ := List.mem_map.mp hm'
        rw [(hframe r).1] at hid
        have hne : r.chunkId ≠ entry.2 := by
          intro heq
          exact hnodup.1 (List.mem_map.mpr ⟨e, he, hid.symm.trans heq⟩)
        rw [linkRow_supersededBy hne]
        exact hhead e (List.mem_cons_of_mem _ he) r hr hid
      · rintro _ _ ⟨db', rfl, hdb'⟩
        refine ⟨db', rfl, ?_⟩
        rw [hdb']
        show linkRows t now _ db₁.metadata = _
        rw [hrows]
        rfl

end Edges

/-! ## The whole import -/

section Whole

variable {t : TenantId} {opts : ImportOptions} {env : ImportEnv}

/-- An item cannot ask for links. -/
theorem requestedLifecycle_links {trusted : Bool} {item : OmfItem} {initial : LifecycleDelta}
    (h : requestedLifecycle trusted item = .ok initial) :
    initial.supersedes = none ∧ initial.supersededBy = none := by
  unfold requestedLifecycle at h
  split at h
  · unfold extractLifecycleStrict at h
    obtain ⟨lc, _, h⟩ := except_bind_eq_ok.mp h
    cases lc with
    | none =>
      obtain rfl := Except.ok.inj h
      exact ⟨rfl, rfl⟩
    | some lc =>
      obtain ⟨status, _, h⟩ := except_bind_eq_ok.mp h
      dsimp only at h
      split at h
      · obtain ⟨_, hthrow, _⟩ := except_bind_eq_ok.mp h
        exact absurd hthrow (by simp [throw, throwThe, MonadExceptOf.throw])
      obtain ⟨tier, _, h⟩ := except_bind_eq_ok.mp h
      obtain ⟨review, _, h⟩ := except_bind_eq_ok.mp h
      obtain ⟨updated, _, h⟩ := except_bind_eq_ok.mp h
      obtain ⟨expires, _, h⟩ := except_bind_eq_ok.mp h
      obtain rfl := Except.ok.inj h
      exact ⟨rfl, rfl⟩
  · obtain rfl := Except.ok.inj h
    exact ⟨rfl, rfl⟩

/-- What an admitted item has passed. -/
theorem itemVerdict_admitted {trusted : Bool} {now : ℤ} {db : Db} {item : OmfItem} {a : AdmittedItem}
    (h : itemVerdict x t opts trusted now db item = .ok (.admitted a)) :
    isArchived opts item = false ∧ isDuplicate x t opts db item = false ∧
      ∃ initial, requestedLifecycle trusted item = .ok initial ∧
        gateItem x item initial now = .admitted a := by
  unfold itemVerdict at h
  split at h
  · exact absurd (Except.ok.inj h) (by simp)
  split at h
  · exact absurd (Except.ok.inj h) (by simp)
  rename_i harch hdup
  refine ⟨by simpa using harch, by simpa using hdup, ?_⟩
  cases hreq : requestedLifecycle trusted item with
  | error e =>
    rw [hreq] at h
    exact absurd h (by simp [Except.map])
  | ok initial =>
    rw [hreq] at h
    exact ⟨initial, rfl, Except.ok.inj h⟩

/-- The gate adds tier and deadlines only. -/
theorem gateItem_overlay {item : OmfItem} {initial : LifecycleDelta} {now : ℤ}
    {a : AdmittedItem} (h : gateItem x item initial now = .admitted a) :
    a.initial.status = initial.status ∧ a.initial.supersedes = initial.supersedes ∧
      a.initial.supersededBy = initial.supersededBy := by
  unfold gateItem at h
  dsimp only at h
  split at h
  · exact absurd h (by simp)
  · obtain rfl := ItemVerdict.admitted.inj h
    exact ⟨rfl, rfl, rfl⟩

variable (x t trusted) in
/-- What the loop has collected, with the items `rest` still to come. -/
structure Collected (rest : List (OmfItem × ℕ)) (st : ImportState) (s : Store) : Prop where
  targets : (st.sourceToTarget.map (·.2)).Nodup
  landed : ∀ e ∈ st.sourceToTarget, Landed t s e.2
  edges : ∀ p ∈ st.pendingEdges, Landed t s p.newTargetId
  supersedes : (st.pendingEdges.map (·.oldSourceId)
    ++ rest.filterMap fun item => supersedesRef x trusted item.1).Nodup

/-- Importing an item records its ids and its pending supersede. -/
theorem ItemRun.collected {item : OmfItem × ℕ} {rest : List (OmfItem × ℕ)} {st st' : ImportState}
    {s s' : Store} (h : ItemRun x t opts trusted env item st s st' s')
    (hc : Collected x trusted t (item :: rest) st s) : Collected x trusted t rest st' s' := by
  have hskip : (st.pendingEdges.map (·.oldSourceId)
      ++ rest.filterMap fun item => supersedesRef x trusted item.1).Nodup := by
    refine hc.supersedes.sublist ((List.Sublist.refl _).append ?_)
    rw [List.filterMap_cons]
    split
    · exact .refl _
    · exact List.sublist_cons_self _ _
  cases h with
  | skipped _ _ => exact ⟨hc.targets, hc.landed, hc.edges, hskip⟩
  | duplicate _ => exact ⟨hc.targets, hc.landed, hc.edges, hskip⟩
  | written hv hw =>
    rename_i a locs
    obtain ⟨_, _, initial, hreq, hgate⟩ := itemVerdict_admitted hv
    have hhead : a.initial.supersededBy = none := by
      rw [(gateItem_overlay hgate).2.2]
      exact (requestedLifecycle_links hreq).2
    have hnew : Landed t s' s.nextId := hw.landed rfl hhead
    refine ⟨?_, ?_, ?_, ?_⟩
    · -- the new target is above all earlier ones
      cases sourceRef x trusted item.1 with
      | none => exact hc.targets
      | some id =>
        refine List.nodup_cons.mpr ⟨?_, hc.targets⟩
        intro hmem
        obtain ⟨e, he, heq⟩ := List.mem_map.mp hmem
        have hold := (hc.landed e he).old
        rw [heq] at hold
        exact Nat.lt_irrefl _ hold
    · intro e he
      rcases List.mem_append.mp he with he | he
      · obtain ⟨id, _, rfl⟩ := Option.map_eq_some_iff.mp (Option.mem_toList.mp he)
        exact hnew
      · exact (hc.landed e he).written hw
    · intro p hp
      rcases List.mem_append.mp hp with hp | hp
      · exact (hc.edges p hp).written hw
      · obtain ⟨id, _, rfl⟩ := Option.map_eq_some_iff.mp (Option.mem_toList.mp hp)
        exact hnew
    · have hsup := hc.supersedes
      rw [List.filterMap_cons] at hsup
      cases href : supersedesRef x trusted item.1 with
      | none => simpa [href] using hsup
      | some id => simpa [href] using hsup

/-- The import loop records the ids and the pending supersedes of all items. -/
theorem LoopRun.collected {items : List (OmfItem × ℕ)} {st st' : ImportState} {s s' : Store}
    (h : LoopRun x t opts trusted env items st s st' s')
    (hc : Collected x trusted t items st s) : Collected x trusted t [] st' s' := by
  induction h with
  | nil => exact hc
  | cons hitem _ ih => exact ih (hitem.collected hc)

/-- A row that has landed is present. -/
theorem Landed.present {s : Store} {c : ChunkId} (h : Landed t s c) : Present t s.db.metadata c := by
  obtain ⟨m, hm, hid, htenant, _⟩ := h.row
  exact ⟨h.once, m, hm, hid, htenant⟩

/-- A list with one entry for a key has one element with it. -/
theorem eq_of_count_eq_one {ms : List ChunkMetadata} {c : ChunkId}
    (h : (ms.map (·.chunkId)).count c = 1) {m n : ChunkMetadata} (hm : m ∈ ms) (hn : n ∈ ms)
    (hmc : m.chunkId = c) (hnc : n.chunkId = c) : m = n := by
  have hlen : (ms.filter fun r => r.chunkId == c).length = 1 := by
    rw [← List.countP_eq_length_filter, ← h, List.count, List.countP_map]
    rfl
  obtain ⟨r, hr⟩ := List.length_eq_one_iff.mp hlen
  have hmr : m ∈ ms.filter fun r => r.chunkId == c := List.mem_filter.mpr ⟨hm, by simp [hmc]⟩
  have hnr : n ∈ ms.filter fun r => r.chunkId == c := List.mem_filter.mpr ⟨hn, by simp [hnc]⟩
  rw [hr, List.mem_singleton] at hmr hnr
  rw [hmr, hnr]

/-- A row that has landed is superseded by nothing. -/
theorem Landed.isHead {s : Store} {c : ChunkId} (h : Landed t s c) : IsHead s.db.metadata c := by
  obtain ⟨m, hm, hid, _, _, hnone⟩ := h.row
  intro n hn hnc
  obtain rfl := eq_of_count_eq_one h.once hn hm hnc hid
  exact hnone

/-- The edges of what the loop has collected are all written. -/
theorem Collected.edges_yields {st : ImportState} {s : Store} (h : Collected x trusted t [] st s)
    (now : ℤ) :
    Yields (fun _ s' => ∃ db', s' = { s with db := db' } ∧
      db'.metadata = linkRows t now (resolvedEdges st.sourceToTarget st.pendingEdges)
        s.db.metadata)
      (replaySupersessionEdges t st.sourceToTarget st.pendingEdges now) s := by
  have holds : (st.pendingEdges.map (·.oldSourceId)).Nodup := by
    have hsup := h.supersedes
    rwa [List.filterMap_nil, List.append_nil] at hsup
  refine replayEdges_yields now _ _ s (nodup_resolvedEdges h.targets holds) ?_ ?_
  · intro e he
    obtain ⟨p, hp, hsource, hnew⟩ := mem_resolvedEdges he
    exact ⟨(h.landed _ hsource).present, hnew ▸ (h.edges p hp).present⟩
  · intro e he
    obtain ⟨_, _, hsource, _⟩ := mem_resolvedEdges he
    exact (h.landed _ hsource).isHead

/-- The accumulators an import starts with. -/
def initialState (doc : OmfDocument) : ImportState :=
  { result := { total := doc.memories.length } }

variable (t opts env) in
/-- How an import ends, when no storage step fails: it is refused before the first item, it
stops at an item whose lifecycle block does not parse, or it goes through. -/
theorem importOmf_run {s : Store} (hf : NoFault s) (doc : OmfDocument) :
    (∃ e, preflight x doc = .error e ∧
      (importOmfWithEvents x t doc opts env).run s = (.error e, s)) ∨
    (preflight x doc = .ok () ∧ ∃ pre item post st₁ s₁ e,
      doc.memories.zipIdx = pre ++ item :: post ∧
      LoopRun x t opts (isTrusted doc) env pre (initialState doc) s st₁ s₁ ∧
      itemVerdict x t opts (isTrusted doc) (env.item item.2).gate s₁.db item.1 = .error e ∧
      (importOmfWithEvents x t doc opts env).run s = (.error e, s₁)) ∨
    (preflight x doc = .ok () ∧ ∃ st' s' db',
      LoopRun x t opts (isTrusted doc) env doc.memories.zipIdx (initialState doc) s st' s' ∧
      Collected x (isTrusted doc) t [] st' s' ∧
      db'.metadata = linkRows t env.link
        (resolvedEdges st'.sourceToTarget st'.pendingEdges) s'.db.metadata ∧
      (importOmfWithEvents x t doc opts env).run s =
        (.ok (st'.result, st'.events), { s' with db := db' })) := by
  cases hpre : preflight x doc with
  | error e =>
    refine .inl ⟨e, rfl, ?_⟩
    simp only [importOmfWithEvents, hpre, bind_eq]
    rfl
  | ok u =>
    refine .inr ?_
    obtain ⟨hread, _, hnodup⟩ := preflight_ok hpre
    have hrun : (importOmfWithEvents x t doc opts env).run s =
        ((doc.memories.zipIdx.foldlM (importItem x t opts (isTrusted doc) env)
          (initialState doc)).bind fun st =>
          (replaySupersessionEdges t st.sourceToTarget st.pendingEdges env.link).bind fun _ =>
            .ret (st.result, st.events)).run s := by
      simp only [importOmfWithEvents, hpre]
      rfl
    rw [hrun, run_bind]
    rcases importLoop_run t opts env hf hread (initialState doc) with
      ⟨pre, item, post, st₁, s₁, e, hsplit, hloop, hv, hloopRun⟩ | ⟨st', s', hloop, hloopRun⟩
    · exact .inl ⟨rfl, pre, item, post, st₁, s₁, e, hsplit, hloop, hv, by rw [hloopRun]⟩
    · have hcollected : Collected x (isTrusted doc) t [] st' s' :=
        hloop.collected ⟨List.nodup_nil, by simp [initialState], by simp [initialState],
          by simpa [initialState] using hnodup⟩
      obtain ⟨_, _, hedges, db', rfl, hrows⟩ := hcollected.edges_yields env.link
      refine .inr ⟨rfl, st', s', db', hloop, hcollected, hrows, ?_⟩
      rw [hloopRun]
      dsimp only
      rw [run_bind, hedges]
      rfl

end Whole
