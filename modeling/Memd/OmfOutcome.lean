/-
# What an import makes of a document

The checks of an import see little of the table: tenant, project, canonical text and age of
its rows (`DedupRow`).  What happens to an item is a function of those rows (`judge`), and an
imported item adds the rows of its pieces (`pieceRows`).  So the outcome of a whole document
can be told from the rows alone.

* `previewLoop_run`, `LoopRun.counts` — the counts of a preview and of an import;
* `preview_predicts_import` — when the two agree;
* `import_all_or_nothing` — when a failed import leaves nothing behind.
-/
import Memd.OmfImportRun
import Memd.Session

open Proc PersistentStore Store

/-! ## What the duplicate checks see -/

/-- A row of the table, as the duplicate checks of an import see it. -/
structure DedupRow where
  tenantId : TenantId
  projectId : Option String
  canonicalText : Option String
  timestampCreated : ℤ
  deriving DecidableEq, Repr

/-- What the duplicate check looks at in a row. -/
def ChunkMetadata.dedupRow (m : ChunkMetadata) : DedupRow :=
  ⟨m.tenantId, m.projectId, m.canonicalText, m.timestampCreated⟩

/-- What the duplicate check looks at in the tables. -/
def Db.dedupRows (db : Db) : List DedupRow :=
  db.metadata.map (·.dedupRow)

section Judge

variable (x : OmfExternals) (t : TenantId) (opts : ImportOptions) (trusted : Bool)

/-- The rows of the tenant in exactly this project. -/
def inScope (project : Option String) (r : DedupRow) : Bool :=
  r.tenantId == t && r.projectId == project

/-- `is_exact_duplicate`, on rows. -/
def isExactIn (rows : List DedupRow) (project : Option String) (canonical : String) : Bool :=
  rows.any fun r => inScope t project r && r.canonicalText == some canonical

/-- `is_fuzzy_duplicate`, on rows. -/
def isFuzzyIn (rows : List DedupRow) (project : Option String) (canonical : String)
    (threshold : BitVec 32) : Bool :=
  (((rows.filter (inScope t project)).mergeSort fun a b =>
    decide (b.timestampCreated ≤ a.timestampCreated)).take fuzzyRecentPoolSize).any fun r =>
      r.canonicalText.any fun existing => isNearDuplicate x canonical existing threshold

/-- Do the rows hold the item already? -/
def isDuplicateIn (rows : List DedupRow) (item : OmfItem) : Bool :=
  isExactIn t rows (resolvedProject item) (itemCanonical x item)
    || opts.fuzzyThreshold.any fun thr =>
      isFuzzyIn x t rows (resolvedProject item) (itemCanonical x item) thr

/-- The exact duplicate check looks at these parts of the rows only. -/
theorem isExactDuplicate_eq (db : Db) (project : Option String) (canonical : String) :
    isExactDuplicate db t project canonical = isExactIn t db.dedupRows project canonical := by
  rw [Bool.eq_iff_iff]
  cases project with
  | none =>
    simp only [isExactDuplicate, Db.listByCanonicalText, isExactIn, Db.dedupRows, Db.metadata,
      inScope, List.any_eq_true, List.mem_filter, List.mem_map]
    constructor
    · rintro ⟨r, ⟨hr, hp⟩, hnone⟩
      refine ⟨r.dedupRow, ⟨_, ⟨r, hr, rfl⟩, rfl⟩, ?_⟩
      simpa [ChunkMetadata.dedupRow, and_assoc, and_comm, and_left_comm, hnone] using hp
    · rintro ⟨_, ⟨_, ⟨r, hr, rfl⟩, rfl⟩, hp⟩
      refine ⟨r, ⟨hr, ?_⟩, ?_⟩ <;> simp_all [ChunkMetadata.dedupRow]
  | some p =>
    simp only [isExactDuplicate, Db.listByCanonicalText, isExactIn, Db.dedupRows, Db.metadata,
      inScope, List.any_eq_true, List.mem_map, Bool.not_eq_true', List.isEmpty_eq_false_iff]
    constructor
    · intro hne
      obtain ⟨r, hr⟩ := List.exists_mem_of_ne_nil _ hne
      obtain ⟨hr, hp⟩ := List.mem_filter.mp hr
      refine ⟨r.dedupRow, ⟨_, ⟨r, hr, rfl⟩, rfl⟩, ?_⟩
      simpa [ChunkMetadata.dedupRow] using hp
    · rintro ⟨_, ⟨_, ⟨r, hr, rfl⟩, rfl⟩, hp⟩
      refine List.ne_nil_of_mem (List.mem_filter.mpr ⟨hr, ?_⟩)
      simpa [ChunkMetadata.dedupRow] using hp

/-- The newest rows, seen through the duplicate checks. -/
theorem newest_dedupRows (db : Db) {p : ChunkRow → Bool} {q : DedupRow → Bool} (limit : ℕ)
    (hpq : ∀ r : ChunkRow, p r = q r.dedupRow) :
    (db.newest p limit).map (fun r => r.dedupRow) =
      ((db.dedupRows.filter q).mergeSort fun a b =>
        decide (b.timestampCreated ≤ a.timestampCreated)).take limit := by
  have hrows : db.dedupRows.filter q = (db.chunks.filter p).map fun r => r.dedupRow := by
    rw [Db.dedupRows, Db.metadata, List.map_map, List.filter_map]
    congr 1
    exact List.filter_congr fun r _ => (hpq r).symm
  rw [Db.newest, List.map_take, hrows, List.map_mergeSort]
  exact fun _ _ _ _ => rfl

/-- The fuzzy duplicate check looks at these parts of the rows only. -/
theorem isFuzzyDuplicate_eq (db : Db) (project : Option String) (canonical : String)
    (threshold : BitVec 32) :
    isFuzzyDuplicate x db t project canonical threshold =
      isFuzzyIn x t db.dedupRows project canonical threshold := by
  have hany : ∀ rows : List ChunkRow,
      (rows.any fun m => m.canonicalText.any fun existing =>
        isNearDuplicate x canonical existing threshold) =
      (rows.map fun r => r.dedupRow).any fun r => r.canonicalText.any fun existing =>
        isNearDuplicate x canonical existing threshold := by
    intro rows
    rw [List.any_map]
    rfl
  unfold isFuzzyDuplicate isFuzzyIn
  dsimp only
  rw [hany]
  congr 1
  cases project with
  | none =>
    refine newest_dedupRows db _ fun r => ?_
    cases hr : r.projectId <;> simp [inScope, ChunkMetadata.dedupRow, hr]
  | some p => exact newest_dedupRows db _ fun r => by simp [inScope, ChunkMetadata.dedupRow]

/-- Both checks together look at these parts of the rows only. -/
theorem isDuplicate_eq (db : Db) (item : OmfItem) :
    isDuplicate x t opts db item = isDuplicateIn x t opts db.dedupRows item := by
  simp only [isDuplicate, isDuplicateIn, isExactDuplicate_eq, isFuzzyDuplicate_eq]

/-! ## Judging an item -/

/-- What becomes of an item. -/
inductive Judgement
  | skipped
  | duplicate
  | malformed
  | imported
  deriving DecidableEq, Repr

/-- Does the write gate refuse the item? -/
def isRefused (item : OmfItem) : Bool :=
  (classifyWrite x.gate ((extractChunkType item.extensions).getD .doc) item.content
    (normalizeTags item.tags) ((extractIngestionMode item.extensions).getD .document)).decision
      == .reject

/-- Can the lifecycle block of the item not be read? -/
def isMalformed (item : OmfItem) : Bool :=
  !(requestedLifecycle trusted item).isOk

/-- What becomes of an item, given the rows of the table. -/
def judge (rows : List DedupRow) (item : OmfItem) : Judgement :=
  if isArchived opts item then .skipped
  else if isDuplicateIn x t opts rows item then .duplicate
  else if isMalformed trusted item then .malformed
  else if isRefused x item then .skipped
  else .imported

/-- The judgement behind a verdict. -/
def judgementOf : Except MemdError ItemVerdict → Judgement
  | .error _ => .malformed
  | .ok .archived => .skipped
  | .ok .duplicate => .duplicate
  | .ok .rejected => .skipped
  | .ok (.admitted _) => .imported

/-- What becomes of an item that is not a duplicate. -/
theorem judgementOf_gateItem (item : OmfItem) (initial : LifecycleDelta) (now : ℤ) :
    judgementOf (.ok (gateItem x item initial now)) =
      if isRefused x item then .skipped else .imported := by
  unfold gateItem isRefused
  dsimp only
  unfold prepareWriteAt PreparedWrite.isRejected
  dsimp only
  by_cases h : (classifyWrite x.gate ((extractChunkType item.extensions).getD .doc) item.content
      (normalizeTags item.tags)
      ((extractIngestionMode item.extensions).getD .document)).decision = .reject
  · simp [h, judgementOf]
  · simp [h, judgementOf]

/-- What becomes of an item is a judgement on the rows. -/
theorem judgementOf_itemVerdict (now : ℤ) (db : Db) (item : OmfItem) :
    judgementOf (itemVerdict x t opts trusted now db item) =
      judge x t opts trusted db.dedupRows item := by
  unfold itemVerdict judge
  rw [isDuplicate_eq]
  split
  · rfl
  split
  · rfl
  unfold isMalformed
  cases requestedLifecycle trusted item with
  | error e => rfl
  | ok initial => exact judgementOf_gateItem x item initial now

/-- The chunk of an imported item, before the gate has worked on its tags. -/
def itemChunk (item : OmfItem) (created : ℤ) : MemoryChunk :=
  { chunkId := 0, tenantId := t, projectId := resolvedProject item, timestampCreated := created
    chunkType := (extractChunkType item.extensions).getD .doc, text := item.content
    ingestionMode := (extractIngestionMode item.extensions).getD .document }

/-- How the duplicate checks see a physical chunk. -/
def chunkRow (chunk : MemoryChunk) : DedupRow :=
  ⟨chunk.tenantId, chunk.projectId,
    some (canonicalizeForType x.toExternals chunk.text chunk.chunkType), chunk.timestampCreated⟩

/-- The rows an imported item adds: one for each of its pieces. -/
def pieceRows (item : OmfItem) (created : ℤ) : List DedupRow :=
  (splitForAdd x.toExternals (itemChunk t item created)).map (chunkRow x)

/-- The chunk that an admitted item is stored as. -/
theorem importedChunk_eq {item : OmfItem} {initial : LifecycleDelta} {now : ℤ} {a : AdmittedItem}
    (h : gateItem x item initial now = .admitted a) (created : ℤ) :
    importedChunk t item a created =
      { itemChunk t item created with tags := a.prepared.tags } := by
  unfold gateItem at h
  dsimp only at h
  split at h
  · exact absurd h (by simp)
  · obtain rfl := ItemVerdict.admitted.inj h
    unfold importedChunk PreparedWrite.applyToChunk itemChunk prepareWriteAt
    dsimp only
    split <;> rfl

/-- The tags of a chunk do not matter for its rows. -/
theorem chunkRow_splitForAdd (chunk : MemoryChunk) (tags : List String) :
    (splitForAdd x.toExternals { chunk with tags := tags }).map (chunkRow x) =
      (splitForAdd x.toExternals chunk).map (chunkRow x) := by
  unfold splitForAdd
  dsimp only
  split
  · rfl
  split
  · rfl
  rw [List.mapIdx_eq_zipIdx_map, List.mapIdx_eq_zipIdx_map, List.map_map, List.map_map]
  rfl

end Judge

/-! ## Rows an add leaves alone -/

section Roomy

variable {x : OmfExternals} {t : TenantId} {opts : ImportOptions} {trusted : Bool} {env : ImportEnv}
  {s s' : Store} {st st' : ImportState}

/-- No row has an id or sits at a location that the store has yet to hand out. -/
def Roomy (t : TenantId) (s : Store) : Prop :=
  ∀ m ∈ s.db.metadata, m.chunkId < s.nextId ∧ (m.tenantId = t → s.Used (m.segmentId, m.ordinal))

/-- In a store with room an item adds rows and changes no other. -/
theorem Written.metadata_of_roomy {ext : Externals} {chunk : MemoryChunk} {initial : LifecycleDelta}
    {now : ℤ} {locs : List (ℕ × ℕ)} (hw : Written ext chunk initial now locs s s')
    (ht : chunk.tenantId = t) (hr : Roomy t s) :
    s'.db.metadata = s.db.metadata ++ addedRows ext chunk initial now s.nextId locs := by
  have hkept : keptRows (rowsAt ext (stampFrom ext s.nextId (splitForAdd ext chunk)) locs)
      s.db.metadata = s.db.metadata := by
    refine List.filter_eq_self.mpr fun m hm => ?_
    have hmem := hw.mem_keptRows hm (hr m hm).1 fun h => (hr m hm).2 (h.trans ht)
    exact (List.mem_filter.mp hmem).2
  rw [hw.metadata, hkept]

/-- The row of an added chunk is a row of one of its parts. -/
theorem mem_addedRows {ext : Externals} {chunk : MemoryChunk} {initial : LifecycleDelta} {now : ℤ}
    {n : ℕ} {locs : List (ℕ × ℕ)} {m : ChunkMetadata}
    (h : m ∈ addedRows ext chunk initial now n locs) :
    m.chunkId < n + (splitForAdd ext chunk).length ∧ (m.segmentId, m.ordinal) ∈ locs := by
  obtain ⟨r, hr, rfl⟩ := List.mem_map.mp h
  obtain ⟨hid, _, hseg, hord⟩ := initialRow_frame initial now r
  obtain ⟨p, hp, l, hl, rfl⟩ := mem_rowsAt hr
  rw [hid, hseg, hord]
  refine ⟨?_, hl⟩
  have hmem : p.chunkId ∈ List.range' n (splitForAdd ext chunk).length := by
    rw [← ids_stampFrom ext]
    exact List.mem_map_of_mem hp
  exact (List.mem_range'_1.mp hmem).2

/-- A store with room keeps it. -/
theorem Written.roomy {ext : Externals} {chunk : MemoryChunk} {initial : LifecycleDelta} {now : ℤ}
    {locs : List (ℕ × ℕ)} (hw : Written ext chunk initial now locs s s')
    (ht : chunk.tenantId = t) (hr : Roomy t s) : Roomy t s' := by
  intro m hm
  rw [hw.metadata_of_roomy ht hr] at hm
  rw [hw.nextId]
  rcases List.mem_append.mp hm with hm | hm
  · obtain ⟨hid, hused⟩ := hr m hm
    exact ⟨Nat.lt_add_right _ hid, fun h => hw.advances.used _ (hused h)⟩
  · obtain ⟨hid, hloc⟩ := mem_addedRows hm
    exact ⟨hid, fun _ => hw.locations.used _ hloc⟩

/-- The lifecycle a row starts with plays no part in the duplicate check. -/
theorem dedupRow_initialRow (initial : LifecycleDelta) (now : ℤ) (m : ChunkMetadata) :
    (initialRow initial now m).dedupRow = m.dedupRow := by
  unfold initialRow
  split <;> rfl

/-- Rows at given locations, as the duplicate checks see them. -/
theorem dedupRow_rowsAt {parts : List MemoryChunk} {locs : List (ℕ × ℕ)} (n : ℕ)
    (h : locs.length = parts.length) :
    (rowsAt x.toExternals (stampFrom x.toExternals n parts) locs).map (·.dedupRow) =
      parts.map (chunkRow x) := by
  induction parts generalizing n locs with
  | nil => simp [stampFrom, rowsAt]
  | cons p parts ih =>
    cases locs with
    | nil => exact absurd h (by simp)
    | cons l locs =>
      rw [stampFrom, List.zipIdx_cons, List.map_cons, rowsAt, List.zipWith_cons_cons,
        List.map_cons, List.map_cons]
      exact congrArg _ (ih (n + 1) (by simpa using h))

/-- What an item adds to the rows the duplicate checks see. -/
theorem Written.dedupRows {chunk : MemoryChunk} {initial : LifecycleDelta} {now : ℤ}
    {locs : List (ℕ × ℕ)} (hw : Written x.toExternals chunk initial now locs s s')
    (ht : chunk.tenantId = t) (hr : Roomy t s) :
    s'.db.dedupRows = s.db.dedupRows ++ (splitForAdd x.toExternals chunk).map (chunkRow x) := by
  rw [Db.dedupRows, hw.metadata_of_roomy ht hr, List.map_append, addedRows, List.map_map]
  congr 1
  rw [← dedupRow_rowsAt s.nextId hw.locations.length]
  apply List.map_congr_left
  intro m _
  exact dedupRow_initialRow initial now m

/-! ## Items and their judgements -/

/-- The counts of an import after one more item. -/
def ImportResult.count (r : ImportResult) : Judgement → ImportResult
  | .skipped => { r with skipped := r.skipped + 1 }
  | .duplicate => { r with duplicates := r.duplicates + 1 }
  | .malformed => r
  | .imported => { r with imported := r.imported + 1 }

variable (x t) in
/-- The rows an item adds under a judgement. -/
def rowsOf (item : OmfItem) (created : ℤ) : Judgement → List DedupRow
  | .imported => pieceRows x t item created
  | _ => []

/-- An item of an import does what its judgement says. -/
theorem ItemRun.judged {item : OmfItem × ℕ} (h : ItemRun x t opts trusted env item st s st' s')
    (hr : Roomy t s) :
    ∃ j, judge x t opts trusted s.db.dedupRows item.1 = j ∧ j ≠ .malformed ∧
      st'.result = st.result.count j ∧
      s'.db.dedupRows = s.db.dedupRows ++ rowsOf x t item.1 (env.item item.2).created j ∧
      Roomy t s' ∧ (j ≠ .imported → s' = s) ∧ (j = .imported → s.nextId < s'.nextId) := by
  have hj := judgementOf_itemVerdict x t opts trusted (env.item item.2).gate s.db item.1
  cases h with
  | skipped hv hor =>
    rw [hv] at hj
    rcases hor with rfl | rfl <;>
      exact ⟨.skipped, hj.symm, by simp, rfl, by simp [rowsOf], hr, fun _ => rfl, by simp⟩
  | duplicate hv =>
    rw [hv] at hj
    exact ⟨.duplicate, hj.symm, by simp, rfl, by simp [rowsOf], hr, fun _ => rfl, by simp⟩
  | written hv hw =>
    rw [hv] at hj
    obtain ⟨_, _, initial, _, hgate⟩ := itemVerdict_admitted hv
    refine ⟨.imported, hj.symm, by simp, rfl, ?_, hw.roomy rfl hr, by simp, fun _ => ?_⟩
    · rw [hw.dedupRows rfl hr, importedChunk_eq x t hgate, chunkRow_splitForAdd]
      rfl
    · rw [hw.nextId]
      exact Nat.lt_add_of_pos_right (List.length_pos_of_ne_nil (splitForAdd_ne_nil _ _))

end Roomy

/-! ## A document judged against the rows it meets -/

section Document

variable (x : OmfExternals) (t : TenantId) (opts : ImportOptions) (trusted : Bool) (env : ImportEnv)

/-- The rows the items in front add, each judged against the stored rows. -/
def importedRows (rows : List DedupRow) (pre : List (OmfItem × ℕ)) : List DedupRow :=
  pre.flatMap fun item =>
    rowsOf x t item.1 (env.item item.2).created (judge x t opts trusted rows item.1)

/-- No item is judged differently because of what the items in front of it add. -/
def Undisturbed (rows : List DedupRow) (items : List (OmfItem × ℕ)) : Prop :=
  ∀ pre item post, items = pre ++ item :: post →
    judge x t opts trusted (rows ++ importedRows x t opts trusted env rows pre) item.1 =
      judge x t opts trusted rows item.1

/-- Is an unreadable item met behind an imported one?  Every imported item adds its rows. -/
def failsLate (written : Bool) (rows : List DedupRow) : List (OmfItem × ℕ) → Bool
  | [] => false
  | item :: rest =>
    match judge x t opts trusted rows item.1 with
    | .malformed => written
    | .imported => failsLate true (rows ++ pieceRows x t item.1 (env.item item.2).created) rest
    | .skipped | .duplicate => failsLate written rows rest

variable {x t opts trusted env} {s s' : Store} {st st' : ImportState}

/-- An import that meets undisturbed items counts them as judged against the stored rows. -/
theorem LoopRun.counts {items : List (OmfItem × ℕ)}
    (h : LoopRun x t opts trusted env items st s st' s') (hr : Roomy t s) {rows : List DedupRow}
    {pre : List (OmfItem × ℕ)}
    (hrows : s.db.dedupRows = rows ++ importedRows x t opts trusted env rows pre)
    (hind : ∀ mid item post, items = mid ++ item :: post →
      judge x t opts trusted (rows ++ importedRows x t opts trusted env rows (pre ++ mid)) item.1 =
        judge x t opts trusted rows item.1) :
    (∀ item ∈ items, judge x t opts trusted rows item.1 ≠ .malformed) ∧
      st'.result = (items.map fun item => judge x t opts trusted rows item.1).foldl
        ImportResult.count st.result ∧
      s'.db.dedupRows = rows ++ importedRows x t opts trusted env rows (pre ++ items) ∧
      Roomy t s' := by
  induction h generalizing pre with
  | nil => exact ⟨by simp, rfl, by rw [List.append_nil]; exact hrows, hr⟩
  | @cons item items st st₁ st' s s₁ s' hitem _ ih =>
    obtain ⟨j, hj, hgood, hcount, hadds, hr₁, _⟩ := hitem.judged hr
    have hsame : judge x t opts trusted rows item.1 = j := by
      rw [← hj, hrows]
      simpa using (hind [] item items rfl).symm
    have hrows₁ : s₁.db.dedupRows =
        rows ++ importedRows x t opts trusted env rows (pre ++ [item]) := by
      rw [hadds, hrows, importedRows, importedRows, List.flatMap_append, List.append_assoc]
      simp [hsame]
    obtain ⟨hrest, hresult, hend, hr'⟩ := ih hr₁ hrows₁ fun mid y post hsplit => by
      have := hind (item :: mid) y post (by rw [hsplit]; rfl)
      rwa [List.append_assoc]
    refine ⟨?_, ?_, ?_, hr'⟩
    · intro y hy
      rcases List.mem_cons.mp hy with rfl | hy
      · rw [hsame]
        exact hgood
      · exact hrest y hy
    · rw [hresult, hcount, List.map_cons, List.foldl_cons, hsame]
    · rw [hend, List.append_assoc]
      rfl

/-- Where an import stops can be told from the rows it started with. -/
theorem LoopRun.lateness {pre : List (OmfItem × ℕ)}
    (h : LoopRun x t opts trusted env pre st s st' s') (hr : Roomy t s)
    (rest : List (OmfItem × ℕ)) (written : Bool) :
    failsLate x t opts trusted env written s.db.dedupRows (pre ++ rest) =
        failsLate x t opts trusted env (written || decide (s.nextId < s'.nextId))
          s'.db.dedupRows rest ∧
      (s' = s ∨ s.nextId < s'.nextId) ∧ Roomy t s' := by
  induction h generalizing written with
  | nil => exact ⟨by simp, .inl rfl, hr⟩
  | @cons item items st st₁ st' s s₁ s' hitem _ ih =>
    obtain ⟨j, hj, hgood, _, hadds, hr₁, hstay, hgrow⟩ := hitem.judged hr
    by_cases himp : j = .imported
    · subst himp
      obtain ⟨hlate, hor, hr'⟩ := ih hr₁ true
      have hlt : s.nextId < s'.nextId := by
        rcases hor with rfl | hlt
        · exact hgrow rfl
        · exact Nat.lt_trans (hgrow rfl) hlt
      refine ⟨?_, .inr hlt, hr'⟩
      rw [hadds] at hlate
      rw [decide_eq_true hlt, Bool.or_true]
      rw [Bool.true_or] at hlate
      rw [List.cons_append, failsLate, hj]
      exact hlate
    · obtain rfl := hstay himp
      obtain ⟨hlate, hor, hr'⟩ := ih hr₁ written
      refine ⟨?_, hor, hr'⟩
      rw [← hlate, List.cons_append, failsLate, hj]
      cases j with
      | skipped => rfl
      | duplicate => rfl
      | malformed => exact absurd rfl hgood
      | imported => exact absurd rfl himp

end Document

/-! ## Sample documents -/

/-- The text of a UUID with one digit. -/
def sampleUuid (n : SourceId) : String :=
  "00000000-0000-0000-0000-00000000000" ++ toString n

/-- The outside functions on the documents of the sample runs: no priority tags, and ids with
one digit. -/
def sampleOmf : OmfExternals where
  toExternals := sampleExternals
  gate := ⟨fun _ => none⟩
  parseUuid text :=
    match (List.range 10).find? fun n => sampleUuid n == text with
    | some n => .ok n
    | none => .error "invalid character"
  showUuid := sampleUuid
  f32RatioAtLeast inter union _ := decide (union ≤ inter)

/-- An item with the given lifecycle fields. -/
def lifecycleItem (content : String) (fields : List (String × Json)) : OmfItem where
  content := content
  extensions := .object [("memd", .object
    [("v", .number (.posInt 1)), ("lifecycle", .object fields)])]

/-- A trusted document of some items. -/
def trustedDocument (memories : List OmfItem) : OmfDocument where
  source := some ⟨"memd"⟩
  memories := memories

/-- The environment of the samples. -/
def sampleImportEnv : ImportEnv :=
  ⟨fun _ => {}, 0⟩

/-- An empty store has no fault pending. -/
theorem noFault_empty : NoFault {} := rfl

/-- An empty store has room. -/
theorem roomy_empty (t : TenantId) : Roomy t {} := by
  intro m hm
  exact absurd hm (by simp [Db.metadata])

/-! ## Failed imports -/

section Failed

variable (x : OmfExternals) (t : TenantId) (opts : ImportOptions) (env : ImportEnv)

/-- A failed import leaves the store as it was. -/
def AllOrNothing (doc : OmfDocument) (s : Store) : Prop :=
  ∀ e s', (importOmfWithEvents x t doc opts env).run s = (.error e, s') → s' = s

/-- **When an import is all or nothing**: the document is refused as a whole, or no item
with an unreadable lifecycle block is met behind an imported one. -/
theorem import_all_or_nothing (doc : OmfDocument) {s : Store} (hf : NoFault s) (hr : Roomy t s) :
    AllOrNothing x t opts env doc s ↔
      (preflight x doc = .ok () →
        failsLate x t opts (isTrusted doc) env false s.db.dedupRows doc.memories.zipIdx = false) := by
  rcases importOmf_run t opts env hf doc with
    ⟨e, hpre, hrun⟩ | ⟨hpre, pre, item, post, st₁, s₁, e, hsplit, hloop, hv, hrun⟩
      | ⟨hpre, st', s', db', hloop, _, _, hrun⟩
  · -- refused by the preflight
    refine ⟨fun _ h => absurd (hpre.symm.trans h) (by simp), fun _ e' s' h => ?_⟩
    rw [hrun] at h
    exact (Prod.mk.inj h).2.symm
  · -- stopped at `item`
    have hj : judge x t opts (isTrusted doc) s₁.db.dedupRows item.1 = .malformed := by
      rw [← judgementOf_itemVerdict x t opts (isTrusted doc) (env.item item.2).gate, hv]
      rfl
    obtain ⟨hlate, hor, _⟩ := hloop.lateness hr (item :: post) false
    have heq : failsLate x t opts (isTrusted doc) env false s.db.dedupRows doc.memories.zipIdx =
        decide (s.nextId < s₁.nextId) := by
      rw [hsplit, hlate, failsLate, hj, Bool.false_or]
    rw [heq]
    constructor
    · intro hall _
      rw [hall e s₁ hrun]
      simp
    · intro hdec e' s' h
      have hnot : ¬ s.nextId < s₁.nextId := by simpa using hdec hpre
      rw [hrun] at h
      rw [← (Prod.mk.inj h).2]
      exact hor.resolve_right hnot
  · -- went through
    constructor
    · intro _ _
      obtain ⟨hlate, _, _⟩ := hloop.lateness hr [] false
      rw [List.append_nil] at hlate
      rw [hlate, failsLate]
    · intro _ e' s'' h
      rw [hrun] at h
      exact absurd (Prod.mk.inj h).1 (by simp)

end Failed

/-- An item with a misspelt tier, in front of the only readable one. -/
theorem import_all_or_nothing_badFirst :
    AllOrNothing sampleOmf "t" {} sampleImportEnv (trustedDocument
      [lifecycleItem "a" [("tier", .string "bogus")], lifecycleItem "b" []]) {} :=
  (import_all_or_nothing sampleOmf "t" {} sampleImportEnv _ noFault_empty (roomy_empty "t")).mpr
    fun _ => by decide

/-- Behind a readable item, a misspelt tier leaves the first item imported. -/
theorem failed_import_leaves_item :
    ¬ AllOrNothing sampleOmf "t" {} sampleImportEnv (trustedDocument
      [lifecycleItem "a" [], lifecycleItem "b" [("tier", .string "bogus")]]) {} := by
  intro hall
  have herr : ((importOmfWithEvents sampleOmf "t" (trustedDocument
      [lifecycleItem "a" [], lifecycleItem "b" [("tier", .string "bogus")]]) {}
      sampleImportEnv).run {}).1 = .error (.validationError "unknown tier: bogus") := by
    decide
  have hstore := hall _ _ (Prod.ext herr rfl)
  exact absurd (congrArg Store.nextId hstore) (by decide)

/-! ## The preview -/

section Preview

variable {x : OmfExternals} {t : TenantId} {opts : ImportOptions} {trusted : Bool} {env : ImportEnv}

/-- The counts of an import that a preview announces. -/
def PreviewResult.predicted (r : PreviewResult) : ImportResult :=
  ⟨r.total, r.toImport, r.duplicates, r.filtered⟩

variable (x t opts trusted env) in
/-- An item of the preview does what its judgement says. -/
theorem previewItem_run (r : PreviewResult) (item : OmfItem × ℕ) (s : Store) :
    (∃ e, judge x t opts trusted s.db.dedupRows item.1 = .malformed ∧
      (previewItem x t opts trusted env r item).run s = (.error e, s)) ∨
    ∃ r', judge x t opts trusted s.db.dedupRows item.1 ≠ .malformed ∧
      (previewItem x t opts trusted env r item).run s = (.ok r', s) ∧
      r'.predicted = r.predicted.count (judge x t opts trusted s.db.dedupRows item.1) := by
  have hdecide := decideItem_run x t opts trusted (env.item item.2).gate item.1 s
  rw [← judgementOf_itemVerdict x t opts trusted (env.item item.2).gate]
  unfold previewItem
  cases hv : itemVerdict x t opts trusted (env.item item.2).gate s.db item.1 with
  | error e =>
    refine .inl ⟨e, rfl, ?_⟩
    rw [bind_eq, run_bind, hdecide, hv]
  | ok v =>
    refine .inr ?_
    simp only [bind_eq, run_bind, hdecide, hv]
    cases v with
    | archived => exact ⟨_, by simp [judgementOf], rfl, rfl⟩
    | rejected => exact ⟨_, by simp [judgementOf], rfl, rfl⟩
    | duplicate => exact ⟨_, by simp [judgementOf], rfl, rfl⟩
    | admitted a =>
      cases hproject : a.projectId with
      | none => exact ⟨_, by simp [judgementOf], by simp [hproject]; rfl, rfl⟩
      | some p => exact ⟨_, by simp [judgementOf], by simp [hproject]; rfl, rfl⟩

variable (x t opts trusted env) in
/-- A preview fails on an unreadable item, and otherwise counts the judgements. -/
theorem previewLoop_run (items : List (OmfItem × ℕ)) (r : PreviewResult) (s : Store) :
    (∃ e, (∃ item ∈ items, judge x t opts trusted s.db.dedupRows item.1 = .malformed) ∧
      Proc.run (items.foldlM (previewItem x t opts trusted env) r) s = (.error e, s)) ∨
    ∃ r', (∀ item ∈ items, judge x t opts trusted s.db.dedupRows item.1 ≠ .malformed) ∧
      Proc.run (items.foldlM (previewItem x t opts trusted env) r) s = (.ok r', s) ∧
      r'.predicted = (items.map fun item => judge x t opts trusted s.db.dedupRows item.1).foldl
        ImportResult.count r.predicted := by
  induction items generalizing r with
  | nil => exact .inr ⟨r, by simp, rfl, rfl⟩
  | cons item items ih =>
    rw [List.foldlM_cons, bind_eq, run_bind]
    rcases previewItem_run x t opts trusted env r item s with ⟨e, hj, hrun⟩ | ⟨r₁, hj, hrun, hcount⟩
    · exact .inl ⟨e, ⟨item, List.mem_cons_self, hj⟩, by rw [hrun]⟩
    · rw [hrun]
      rcases ih r₁ with ⟨e, ⟨y, hy, hyj⟩, hrest⟩ | ⟨r', hgood, hrest, hcounts⟩
      · exact .inl ⟨e, ⟨y, List.mem_cons_of_mem item hy, hyj⟩, hrest⟩
      · refine .inr ⟨r', ?_, hrest, ?_⟩
        · intro y hy
          rcases List.mem_cons.mp hy with rfl | hy
          · exact hj
          · exact hgood y hy
        · rw [hcounts, hcount, List.map_cons, List.foldl_cons]

/-- The preview judges every item against the tables it finds. -/
theorem previewOmfImport_run (doc : OmfDocument) (s : Store) (hpre : preflight x doc = .ok ()) :
    (previewOmfImport x t doc opts env).run s =
      Proc.run (doc.memories.zipIdx.foldlM (previewItem x t opts (isTrusted doc) env)
        { total := doc.memories.length }) s := by
  simp only [previewOmfImport, hpre]
  rfl

/-- Preview and import end the same way, and with the same counts. -/
def Agree : Except MemdError PreviewResult → Except MemdError (ImportResult × List ImportedChunk) →
    Prop
  | .error _, .error _ => True
  | .ok p, .ok (r, _) =>
    p.toImport = r.imported ∧ p.duplicates = r.duplicates ∧ p.filtered = r.skipped
  | _, _ => False

/-- A preview agrees with the result it predicts. -/
theorem agree_of_predicted {p : PreviewResult} {r : ImportResult} {events : List ImportedChunk}
    (h : p.predicted = r) : Agree (.ok p) (.ok (r, events)) := by
  subst h
  exact ⟨rfl, rfl, rfl⟩

/-! ### More rows, more duplicates -/

variable (x t trusted) in
/-- Without near duplicates, more rows only turn items into duplicates. -/
theorem judge_of_subset (hexact : opts.fuzzyThreshold = none) {rows rows' : List DedupRow}
    (hsub : ∀ r ∈ rows, r ∈ rows') (item : OmfItem) :
    judge x t opts trusted rows' item = judge x t opts trusted rows item ∨
      judge x t opts trusted rows' item = .duplicate ∧
        judge x t opts trusted rows item ≠ .duplicate := by
  have hmono : isDuplicateIn x t opts rows item = true →
      isDuplicateIn x t opts rows' item = true := by
    simp only [isDuplicateIn, hexact, isExactIn, Option.any_none, Bool.or_false, List.any_eq_true]
    rintro ⟨r, hr, h⟩
    exact ⟨r, hsub r hr, h⟩
  by_cases harch : isArchived opts item = true
  · exact .inl (by simp [judge, harch])
  by_cases hdup : isDuplicateIn x t opts rows item = true
  · exact .inl (by simp [judge, hdup, hmono hdup])
  by_cases hdup' : isDuplicateIn x t opts rows' item = true
  · refine .inr ⟨by simp [judge, harch, hdup'], ?_⟩
    simp only [judge, harch, hdup, if_false, Bool.false_eq_true]
    split_ifs <;> simp
  · exact .inl (by simp [judge, hdup, hdup'])

/-- Counting a judgement adds to the duplicates if it is one. -/
theorem duplicates_count (r : ImportResult) (j : Judgement) :
    (r.count j).duplicates = r.duplicates + [j].count .duplicate := by
  cases j <;> rfl

/-- The duplicates counted are the judgements of that kind. -/
theorem duplicates_foldl_count (js : List Judgement) (r : ImportResult) :
    (js.foldl ImportResult.count r).duplicates = r.duplicates + js.count .duplicate := by
  induction js generalizing r with
  | nil => rfl
  | cons j js ih =>
    have hcons : (j :: js).count .duplicate = [j].count .duplicate + js.count .duplicate := by
      rw [← List.count_append]
      rfl
    rw [List.foldl_cons, ih, duplicates_count, hcons, Nat.add_assoc]

variable {s s' : Store} {st st' : ImportState}

/-- One item counts as a duplicate at least where it is one of the stored rows. -/
theorem ItemRun.duplicates {item : OmfItem × ℕ} (h : ItemRun x t opts trusted env item st s st' s')
    (hr : Roomy t s) (hexact : opts.fuzzyThreshold = none) {rows : List DedupRow}
    (hsub : ∀ r ∈ rows, r ∈ s.db.dedupRows) :
    st.result.duplicates + [judge x t opts trusted rows item.1].count .duplicate
        ≤ st'.result.duplicates ∧
      (st'.result.duplicates =
          st.result.duplicates + [judge x t opts trusted rows item.1].count .duplicate →
        judge x t opts trusted s.db.dedupRows item.1 = judge x t opts trusted rows item.1) := by
  obtain ⟨j, hj, _, hcount, _⟩ := h.judged hr
  rw [hcount, duplicates_count, hj]
  rcases judge_of_subset x t trusted hexact hsub item.1 with
    heq | ⟨hdup, hne⟩
  · rw [← heq, hj]
    exact ⟨Nat.le_refl _, fun _ => rfl⟩
  · have hzero : [judge x t opts trusted rows item.1].count .duplicate = 0 := by
      simpa [List.count_eq_zero] using fun h => hne h.symm
    rw [hj] at hdup
    subst hdup
    rw [hzero]
    refine ⟨by simp, fun h => ?_⟩
    exact absurd h (by simp)

/-- The duplicates of an import, counted from the tables before it. -/
theorem LoopRun.duplicates {items : List (OmfItem × ℕ)}
    (h : LoopRun x t opts trusted env items st s st' s') (hr : Roomy t s)
    (hexact : opts.fuzzyThreshold = none) {rows : List DedupRow}
    (hsub : ∀ r ∈ rows, r ∈ s.db.dedupRows) :
    st.result.duplicates
        + (items.map fun item => judge x t opts trusted rows item.1).count .duplicate
      ≤ st'.result.duplicates := by
  induction h with
  | nil => exact Nat.le_refl _
  | @cons item items st st₁ st' s s₁ s' hitem _ ih =>
    obtain ⟨_, _, _, _, hadds, hr₁, _⟩ := hitem.judged hr
    obtain ⟨hle, _⟩ := hitem.duplicates hr hexact hsub
    have hrest := ih hr₁ fun r hmem => by
      rw [hadds]
      exact List.mem_append_left _ (hsub r hmem)
    have hcons : ((item :: items).map fun item => judge x t opts trusted rows item.1).count
        .duplicate = [judge x t opts trusted rows item.1].count .duplicate
          + (items.map fun item => judge x t opts trusted rows item.1).count .duplicate := by
      rw [← List.count_append]
      rfl
    omega

/-- An import with no more duplicates than the preview was not disturbed. -/
theorem LoopRun.undisturbed {items : List (OmfItem × ℕ)}
    (h : LoopRun x t opts trusted env items st s st' s') (hr : Roomy t s)
    (hexact : opts.fuzzyThreshold = none) {rows : List DedupRow} {pre : List (OmfItem × ℕ)}
    (hrows : s.db.dedupRows = rows ++ importedRows x t opts trusted env rows pre)
    (hcount : st'.result.duplicates = st.result.duplicates
      + (items.map fun item => judge x t opts trusted rows item.1).count .duplicate) :
    ∀ mid item post, items = mid ++ item :: post →
      judge x t opts trusted (rows ++ importedRows x t opts trusted env rows (pre ++ mid)) item.1 =
        judge x t opts trusted rows item.1 := by
  induction h generalizing pre with
  | nil =>
    intro mid item post hsplit
    exact absurd hsplit.symm (by simp)
  | @cons item items st st₁ st' s s₁ s' hitem hloop ih =>
    obtain ⟨j, hj, _, _, hadds, hr₁, _⟩ := hitem.judged hr
    have hsub : ∀ r ∈ rows, r ∈ s.db.dedupRows := by
      intro r hmem
      rw [hrows]
      exact List.mem_append_left _ hmem
    obtain ⟨hle, heq⟩ := hitem.duplicates hr hexact hsub
    have hrest := hloop.duplicates hr₁ hexact fun r hmem => by
      rw [hadds]
      exact List.mem_append_left _ (hsub r hmem)
    have hcons : ((item :: items).map fun item => judge x t opts trusted rows item.1).count
        .duplicate = [judge x t opts trusted rows item.1].count .duplicate
          + (items.map fun item => judge x t opts trusted rows item.1).count .duplicate := by
      rw [← List.count_append]
      rfl
    have hsame : judge x t opts trusted s.db.dedupRows item.1 =
        judge x t opts trusted rows item.1 := heq (by omega)
    have hrows₁ : s₁.db.dedupRows =
        rows ++ importedRows x t opts trusted env rows (pre ++ [item]) := by
      rw [hadds, hrows, importedRows, importedRows, List.flatMap_append, List.append_assoc]
      simp [← hsame, hj]
    intro mid y post hsplit
    cases mid with
    | nil =>
      obtain ⟨rfl, rfl⟩ := List.cons.inj hsplit
      rw [List.append_nil, ← hrows]
      exact hsame
    | cons z mid =>
      obtain ⟨rfl, hrest'⟩ := List.cons.inj hsplit
      have htail := ih hr₁ hrows₁ (by omega) mid y post hrest'
      rwa [List.append_assoc] at htail

/-! ### Agreement -/

variable (x t opts trusted env) in
/-- The preview sees what the import will do: an item it cannot read stops the import, too,
and where there is none, no item is disturbed. -/
def Predictable (rows : List DedupRow) (items : List (OmfItem × ℕ)) : Prop :=
  if ∃ item ∈ items, judge x t opts trusted rows item.1 = .malformed then
    failsLate x t opts trusted env true rows items = true
  else Undisturbed x t opts trusted env rows items

/-- **When the preview predicts the import**: for documents that pass the preflight, if the
document is predictable; and, without near duplicates, only then. -/
theorem preview_predicts_import (doc : OmfDocument) (opts : ImportOptions) (env env' : ImportEnv)
    {s : Store} (hf : NoFault s) (hr : Roomy t s) :
    ((preflight x doc = .ok () →
        Predictable x t opts (isTrusted doc) env s.db.dedupRows doc.memories.zipIdx) →
      Agree ((previewOmfImport x t doc opts env').run s).1
        ((importOmfWithEvents x t doc opts env).run s).1) ∧
    (opts.fuzzyThreshold = none →
      Agree ((previewOmfImport x t doc opts env').run s).1
        ((importOmfWithEvents x t doc opts env).run s).1 →
      preflight x doc = .ok () →
        Predictable x t opts (isTrusted doc) env s.db.dedupRows doc.memories.zipIdx) := by
  have hrows : s.db.dedupRows = s.db.dedupRows
      ++ importedRows x t opts (isTrusted doc) env s.db.dedupRows [] := by
    simp [importedRows]
  rcases importOmf_run t opts env hf doc with
    ⟨e, hpre, hrun⟩ | ⟨hpre, pre, item, post, st₁, s₁, e, hsplit, hloop, hv, hrun⟩
      | ⟨hpre, st', s', db', hloop, _, _, hrun⟩
  · -- both are refused
    refine ⟨fun _ => ?_, fun _ _ h => absurd (hpre.symm.trans h) (by simp)⟩
    rw [hrun]
    simp only [previewOmfImport, hpre]
    trivial
  · -- the import stops at `item`
    -- the item that stops the import is malformed against the rows so far
    have hj : judge x t opts (isTrusted doc) s₁.db.dedupRows item.1 = .malformed := by
      rw [← judgementOf_itemVerdict x t opts (isTrusted doc) (env.item item.2).gate, hv]
      rfl
    have hlate : failsLate x t opts (isTrusted doc) env true s.db.dedupRows
        doc.memories.zipIdx = true := by
      rw [hsplit, (hloop.lateness hr (item :: post) true).1, Bool.true_or, failsLate, hj]
    rw [hrun, previewOmfImport_run doc s hpre]
    rcases previewLoop_run x t opts (isTrusted doc) env'
      doc.memories.zipIdx { total := doc.memories.length } s with
      ⟨e', hbad, hprev⟩ | ⟨r', hgood, hprev, _⟩
    · rw [hprev, Predictable, if_pos hbad]
      exact ⟨fun _ => trivial, fun _ _ _ => hlate⟩
    · rw [hprev]
      refine ⟨fun hpred => ?_, fun _ hagree => absurd hagree id⟩
      -- the preview found no malformed item, so the rows so far are those of the start
      have hnone : ¬ ∃ y ∈ doc.memories.zipIdx,
          judge x t opts (isTrusted doc) s.db.dedupRows y.1 = .malformed := by
        rintro ⟨y, hy, hyj⟩
        exact hgood y hy hyj
      have hund := hpred hpre
      rw [Predictable, if_neg hnone] at hund
      obtain ⟨_, _, hrows₁, _⟩ := hloop.counts hr hrows fun mid y tail hmid =>
        hund mid y (tail ++ item :: post) (by rw [hsplit, hmid]; simp)
      rw [hrows₁, List.nil_append, hund pre item post hsplit] at hj
      exact absurd hj (hgood item (by rw [hsplit]; simp))
  · -- the import goes through
    have hlate : failsLate x t opts (isTrusted doc) env true s.db.dedupRows
        doc.memories.zipIdx = false := by
      have h := (hloop.lateness hr [] true).1
      rwa [List.append_nil, failsLate] at h
    rw [hrun, previewOmfImport_run doc s hpre]
    rcases previewLoop_run x t opts (isTrusted doc) env'
      doc.memories.zipIdx { total := doc.memories.length } s with
      ⟨e', hbad, hprev⟩ | ⟨r', hgood, hprev, hpredicted⟩
    · rw [hprev, Predictable, if_pos hbad, hlate]
      exact ⟨fun h => absurd (h hpre) (by simp), fun _ hagree => absurd hagree id⟩
    · have hnone : ¬ ∃ y ∈ doc.memories.zipIdx,
          judge x t opts (isTrusted doc) s.db.dedupRows y.1 = .malformed := by
        rintro ⟨y, hy, hyj⟩
        exact hgood y hy hyj
      rw [hprev, Predictable, if_neg hnone]
      refine ⟨fun hund => ?_, fun hexact hagree _ => ?_⟩
      · obtain ⟨_, hcounts, _, _⟩ := hloop.counts hr hrows fun mid y tail hmid =>
          hund hpre mid y tail hmid
        apply agree_of_predicted
        rw [hpredicted, hcounts]
        rfl
      -- equal counts of duplicates leave nothing that an earlier item can have disturbed
      · refine fun mid y tail hmid => hloop.undisturbed hr hexact hrows ?_ mid y tail hmid
        have hdup : r'.duplicates = st'.result.duplicates := hagree.2.1
        have hfold := congrArg ImportResult.duplicates hpredicted
        rw [duplicates_foldl_count] at hfold
        rw [← hdup]
        exact hfold

end Preview

/-- Two different items are previewed as they are imported. -/
theorem preview_predicts_import_twoItems :
    Agree ((previewOmfImport sampleOmf "t" (trustedDocument
        [lifecycleItem "a" [], lifecycleItem "b" []]) {} sampleImportEnv).run {}).1
      ((importOmfWithEvents sampleOmf "t" (trustedDocument
        [lifecycleItem "a" [], lifecycleItem "b" []]) {} sampleImportEnv).run {}).1 := by
  refine (preview_predicts_import _ {} sampleImportEnv sampleImportEnv noFault_empty
    (roomy_empty "t")).1 fun _ => ?_
  rw [Predictable, if_neg (by decide)]
  intro pre item post hsplit
  have hlen := congrArg List.length hsplit
  match pre with
  | [] => simp [importedRows]
  | [y] =>
    obtain ⟨rfl, hrest⟩ := List.cons.inj hsplit
    obtain ⟨rfl, _⟩ := List.cons.inj hrest
    decide
  | _ :: _ :: _ :: _ | [_, _] => exact absurd hlen (by simp [trustedDocument])

/-- An item that repeats an earlier one is announced as an import and counted as a
duplicate. -/
theorem preview_misses_repetition :
    ¬ Agree ((previewOmfImport sampleOmf "t" (trustedDocument
        [lifecycleItem "a" [], lifecycleItem "a" []]) {} sampleImportEnv).run {}).1
      ((importOmfWithEvents sampleOmf "t" (trustedDocument
        [lifecycleItem "a" [], lifecycleItem "a" []]) {} sampleImportEnv).run {}).1 := by
  have hprev : ((previewOmfImport sampleOmf "t" (trustedDocument
      [lifecycleItem "a" [], lifecycleItem "a" []]) {} sampleImportEnv).run {}).1 =
        .ok { total := 2, toImport := 2, unscoped := 2 } := by
    decide
  have himport : ((importOmfWithEvents sampleOmf "t" (trustedDocument
      [lifecycleItem "a" [], lifecycleItem "a" []]) {} sampleImportEnv).run {}).1 =
        .ok ({ total := 2, imported := 1, duplicates := 1 }, [⟨0, .doc, none, "a"⟩]) := by
    decide
  rw [hprev, himport]
  rintro ⟨h, _⟩
  exact absurd h (by decide)
