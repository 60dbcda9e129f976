/-
# Export, import and preview

`omf/export.rs` and `omf/import.rs` as programs on the store: `exportOmf` writes the
tenant's rows as a document, `previewOmfImport` counts what an import would do, and
`importOmfWithEvents` does it — a preflight on the whole document, one write per item that
is new and passes the gate, and the supersession edges of a trusted document at the end.

The clock readings and the outcomes of the index calls are inputs (`ImportEnv`).
-/
import Memd.Lifecycle
import Memd.OmfDocument

/-! ## Looking for duplicates -/

namespace Db

/-- `list_by_canonical_text`. -/
def listByCanonicalText (db : Db) (t : TenantId) (project : Option String) (canonical : String) :
    List ChunkRow :=
  db.chunks.filter fun r => r.tenantId == t && (project.isNone || r.projectId == project)
    && r.canonicalText == some canonical

/-- The newest rows that satisfy `p`. -/
def newest (db : Db) (p : ChunkRow → Bool) (limit : ℕ) : List ChunkRow :=
  ((db.chunks.filter p).mergeSort fun a b =>
    decide (b.timestampCreated ≤ a.timestampCreated)).take limit

/-- `list_recent_for_project`. -/
def listRecentForProject (db : Db) (t : TenantId) (project : Option String) (limit : ℕ) :
    List ChunkRow :=
  db.newest (fun r => r.tenantId == t && (project.isNone || r.projectId == project)) limit

/-- `list_recent_with_null_project`. -/
def listRecentWithNullProject (db : Db) (t : TenantId) (limit : ℕ) : List ChunkRow :=
  db.newest (fun r => r.tenantId == t && r.projectId.isNone) limit

/-- `list_for_export`: oldest first. -/
def listForExport (db : Db) (t : TenantId) (project : Option String) (includeHistory : Bool) :
    List ChunkMetadata :=
  ((db.chunks.filter fun r => r.tenantId == t && (project.isNone || r.projectId == project)
      && (includeHistory || r.lifecycle.tier != .history)
      && !(r.status == .candidate || r.status == .deleted || r.status == .error)).mergeSort
    fun a b => decide (a.timestampCreated ≤ b.timestampCreated)).map (·.toChunkMetadata)

end Db

/-- `trigram_set` of a text: the padded windows of three characters. -/
def trigramSet (ext : Externals) (s : String) : List (List Char) :=
  let lower := (ext.toLowercase s).toList
  if lower = [] then []
  else
    let padded := ' ' :: ' ' :: lower ++ [' ']
    ((List.range (padded.length - 2)).map fun i => (padded.drop i).take 3).dedup

/-- `is_near_duplicate`. -/
def isNearDuplicate (x : OmfExternals) (a b : String) (threshold : BitVec 32) : Bool :=
  let ta := trigramSet x.toExternals a
  let tb := trigramSet x.toExternals b
  if ta = [] ∧ tb = [] then x.f32RatioAtLeast 1 1 threshold
  else
    let inter := (ta.filter tb.contains).length
    x.f32RatioAtLeast inter (ta.length + tb.length - inter) threshold

/-- `FUZZY_RECENT_POOL_SIZE`. -/
def fuzzyRecentPoolSize : ℕ := 128

/-- `is_exact_duplicate`. -/
def isExactDuplicate (db : Db) (t : TenantId) (project : Option String) (canonical : String) :
    Bool :=
  let found := db.listByCanonicalText t project canonical
  match project with
  | some _ => !found.isEmpty
  | none => found.any (·.projectId.isNone)

/-- `is_fuzzy_duplicate`. -/
def isFuzzyDuplicate (x : OmfExternals) (db : Db) (t : TenantId) (project : Option String)
    (canonical : String) (threshold : BitVec 32) : Bool :=
  let recent := match project with
    | some p => db.listRecentForProject t (some p) fuzzyRecentPoolSize
    | none => db.listRecentWithNullProject t fuzzyRecentPoolSize
  recent.any fun m => m.canonicalText.any fun existing => isNearDuplicate x canonical existing threshold

/-! ## Deciding on an item -/

/-- `ImportOptions`. -/
structure ImportOptions where
  includeArchived : Bool := true
  fuzzyThreshold : Option (BitVec 32) := none
  deriving DecidableEq, Repr

/-- What an import writes for an item that is new and passes the gate. -/
structure AdmittedItem where
  projectId : Option String
  chunkType : ChunkType
  ingestionMode : IngestionMode
  initial : LifecycleDelta
  prepared : PreparedWrite
  deriving DecidableEq, Repr

/-- What an import does with an item. -/
inductive ItemVerdict
  | archived
  | duplicate
  | rejected
  | admitted (item : AdmittedItem)
  deriving DecidableEq, Repr

/-- Is the item left out by the options? -/
def isArchived (opts : ImportOptions) (item : OmfItem) : Bool :=
  !opts.includeArchived && (item.status == some "archived" || item.status == some "expired")

/-- The lifecycle an item asks for: only a trusted item of a trusted document has one. -/
def requestedLifecycle (trusted : Bool) (item : OmfItem) : Except MemdError LifecycleDelta :=
  if trusted && extVersionSupported item.extensions then extractLifecycleStrict item.extensions
  else .ok {}

/-- The gate on an item, given the lifecycle it asks for. -/
def gateItem (x : OmfExternals) (item : OmfItem) (initial : LifecycleDelta) (now : ℤ) :
    -- what the document does not say of the type and the mode is filled in
    ItemVerdict :=
  let chunkType := (extractChunkType item.extensions).getD .doc
  let ingestionMode := (extractIngestionMode item.extensions).getD .document
  let prepared := prepareWriteAt x.gate
    { chunkType := chunkType, text := item.content, tags := item.tags,
      ingestionMode := ingestionMode, expiresAtMs := initial.expiresAtMs.join,
      reviewAfterMs := initial.reviewAfterMs.join } now
  if prepared.isRejected then .rejected
  else .admitted
    { projectId := resolvedProject item, chunkType := chunkType, ingestionMode := ingestionMode
      initial :=
        { initial with
          -- what the item asks for goes before the defaults of the gate
          tier := initial.tier.or prepared.lifecycleDelta.tier
          expiresAtMs := initial.expiresAtMs.or prepared.lifecycleDelta.expiresAtMs
          reviewAfterMs := initial.reviewAfterMs.or prepared.lifecycleDelta.reviewAfterMs }
      prepared := prepared }

/-- The checks on one item, as import and preview make them. -/
def decideItem (x : OmfExternals) (t : TenantId) (opts : ImportOptions) (trusted : Bool) (now : ℤ)
    (item : OmfItem) : StoreProg ItemVerdict :=
  -- the order is the source's: archived, exact, near, and only then the lifecycle asked for
  if isArchived opts item then pure .archived
  else do
    let project := resolvedProject item
    let canonical := canonicalizeForType x.toExternals item.content
      ((extractChunkType item.extensions).getD .doc)
    let exact ← .read .metadataRead fun s => isExactDuplicate s.db t project canonical
    if exact then pure .duplicate
    else do
      -- the near duplicates are looked for among the newest rows of the scope only
      let fuzzy ← match opts.fuzzyThreshold with
        | none => pure false
        | some thr => .read .metadataRead fun s => isFuzzyDuplicate x s.db t project canonical thr
      if fuzzy then pure .duplicate
      else do
        let initial ← .ofExcept (requestedLifecycle trusted item)
        pure (gateItem x item initial now)

/-! ## Import -/

/-- The clock readings and the index outcome of one item. -/
structure ItemEnv where
  gate : ℤ := 0
  created : ℤ := 0
  stored : ℤ := 0
  indexError : Option String := none
  deriving DecidableEq, Repr

/-- What an import takes from its surroundings. -/
structure ImportEnv where
  item : ℕ → ItemEnv
  link : ℤ

/-- `ImportResult`. -/
structure ImportResult where
  total : ℕ
  imported : ℕ := 0
  duplicates : ℕ := 0
  skipped : ℕ := 0
  deriving DecidableEq, Repr

/-- `ImportedChunk`: what is announced of an imported chunk. -/
structure ImportedChunk where
  chunkId : ChunkId
  chunkType : ChunkType
  projectId : Option String
  text : String
  deriving DecidableEq, Repr

/-- A pending edge: the old chunk by its source id, the new one by its id here. -/
structure PendingSupersede where
  oldSourceId : SourceId
  newTargetId : ChunkId
  deriving DecidableEq, Repr

/-- The accumulators of the import loop. -/
structure ImportState where
  result : ImportResult
  events : List ImportedChunk := []
  /-- newest entry first -/
  sourceToTarget : List (SourceId × ChunkId) := []
  pendingEdges : List PendingSupersede := []
  deriving DecidableEq, Repr

/-- The chunk written for an admitted item. -/
def importedChunk (t : TenantId) (item : OmfItem) (a : AdmittedItem) (created : ℤ) :
    MemoryChunk :=
  a.prepared.applyToChunk
    { chunkId := 0, tenantId := t, projectId := a.projectId, timestampCreated := created
      chunkType := a.chunkType, text := item.content, ingestionMode := a.ingestionMode }

/-- The ids an imported item is known by in its document. -/
def recordIds (x : OmfExternals) (trusted : Bool) (item : OmfItem) (target : ChunkId)
    (st : ImportState) : Except MemdError ImportState :=
  if trusted && extVersionSupported item.extensions then do
    let srcId ← extractSourceChunkId x item.extensions
    let supersedesSrc ← extractSupersessionRef x item.extensions "supersedes"
    pure { st with
      sourceToTarget := (srcId.map (·, target)).toList ++ st.sourceToTarget
      pendingEdges := st.pendingEdges ++ (supersedesSrc.map (⟨·, target⟩)).toList }
  else .ok st

/-- One item of the import loop. -/
def importItem (x : OmfExternals) (t : TenantId) (opts : ImportOptions) (trusted : Bool)
    (env : ImportEnv) (st : ImportState) (item : OmfItem × ℕ) : StoreProg ImportState := do
  let e := env.item item.2
  let verdict ← decideItem x t opts trusted e.gate item.1
  match verdict with
  -- an archived and a refused item count as skipped
  | .archived | .rejected => pure { st with result.skipped := st.result.skipped + 1 }
  | .duplicate => pure { st with result.duplicates := st.result.duplicates + 1 }
  -- the item is written before its references are read, so a bad one stops the import behind it
  | .admitted a => do
    let chunk := importedChunk t item.1 a e.created
    let (chunkId, _) ← PersistentStore.addChunkWithLifecycleAndStoredIds x.toExternals t chunk
      a.initial [] e.indexError e.stored
    let st ← .ofExcept (recordIds x trusted item.1 chunkId st)
    pure { st with
      result.imported := st.result.imported + 1
      events := st.events ++ [⟨chunkId, a.chunkType, a.projectId, chunk.text⟩] }

/-- One edge of `replay_supersession_edges`: an edge to a chunk that was not imported is
dropped. -/
def replayEdge (t : TenantId) (sourceToTarget : List (SourceId × ChunkId)) (now : ℤ)
    (edge : PendingSupersede) : StoreProg Unit :=
  match (sourceToTarget.find? fun e => e.1 == edge.oldSourceId).map (·.2) with
  | none => pure ()
  | some old => PersistentStore.atomicSupersede t old edge.newTargetId now

/-- `replay_supersession_edges`. -/
def replaySupersessionEdges (t : TenantId) (sourceToTarget : List (SourceId × ChunkId))
    (pending : List PendingSupersede) (now : ℤ) : StoreProg Unit :=
  pending.forM (replayEdge t sourceToTarget now)

/-- `import_omf_with_events`. -/
def importOmfWithEvents (x : OmfExternals) (t : TenantId) (doc : OmfDocument)
    (opts : ImportOptions) (env : ImportEnv) : StoreProg (ImportResult × List ImportedChunk) := do
  .ofExcept (preflight x doc)
  let st ← doc.memories.zipIdx.foldlM (importItem x t opts (isTrusted doc) env)
    { result := { total := doc.memories.length } }
  replaySupersessionEdges t st.sourceToTarget st.pendingEdges env.link
  pure (st.result, st.events)

/-! ## Preview -/

/-- `PreviewResult`. -/
structure PreviewResult where
  total : ℕ
  toImport : ℕ := 0
  duplicates : ℕ := 0
  filtered : ℕ := 0
  unscoped : ℕ := 0
  /-- how many items go to each project -/
  byProject : List (String × ℕ) := []
  deriving DecidableEq, Repr

/-- `*by_project.entry(p).or_default() += 1`. -/
def countProject (p : String) : List (String × ℕ) → List (String × ℕ)
  | [] => [(p, 1)]
  | (q, n) :: rest => if q = p then (q, n + 1) :: rest else (q, n) :: countProject p rest

/-- One item of the preview loop. -/
def previewItem (x : OmfExternals) (t : TenantId) (opts : ImportOptions) (trusted : Bool)
    (env : ImportEnv) (r : PreviewResult) (item : OmfItem × ℕ) : StoreProg PreviewResult := do
  let verdict ← decideItem x t opts trusted (env.item item.2).gate item.1
  match verdict with
  | .archived | .rejected => pure { r with filtered := r.filtered + 1 }
  | .duplicate => pure { r with duplicates := r.duplicates + 1 }
  | .admitted a =>
    match a.projectId with
    | some p => pure { r with toImport := r.toImport + 1, byProject := countProject p r.byProject }
    | none => pure { r with toImport := r.toImport + 1, unscoped := r.unscoped + 1 }

/-- `preview_omf_import`. -/
def previewOmfImport (x : OmfExternals) (t : TenantId) (doc : OmfDocument) (opts : ImportOptions)
    (env : ImportEnv) : StoreProg PreviewResult := do
  .ofExcept (preflight x doc)
  doc.memories.zipIdx.foldlM (previewItem x t opts (isTrusted doc) env)
    { total := doc.memories.length }

/-! ## Export -/

/-- `ExportOptions`. -/
structure ExportOptions where
  projectId : Option String := none
  includeHistory : Bool := false
  includeSuperseded : Bool := true
  includeExpired : Bool := true
  deriving DecidableEq, Repr

/-- `ChunkType::to_string`. -/
def ChunkType.asStr : ChunkType → String
  | .code => "code"
  | .doc => "doc"
  | .trace => "trace"
  | .decision => "decision"
  | .plan => "plan"
  | .research => "research"
  | .message => "message"
  | .summary => "summary"
  | .other => "other"

/-- `IngestionMode::to_string`. -/
def IngestionMode.asStr : IngestionMode → String
  | .conversation => "conversation"
  | .document => "document"

/-- `MemoryTier::to_string`. -/
def MemoryTier.asStr : MemoryTier → String
  | .working => "working"
  | .longTerm => "long_term"
  | .history => "history"

namespace Json

/-- `json!` of an optional value. -/
def ofOption {α : Type} (f : α → Json) : Option α → Json
  | none => .null
  | some a => f a

/-- `json!` of an `i64`. -/
def ofInt (n : ℤ) : Json :=
  .number (if 0 ≤ n then .posInt n.toNat else .negInt n)

end Json

/-- The `lifecycle` block of an exported row. -/
def lifecycleExt (x : OmfExternals) (m : ChunkMetadata) : Json :=
  .object [
    ("status", .string m.status.asStr),
    ("tier", .string m.lifecycle.tier.asStr),
    ("supersedes", .ofOption (fun c => .string (x.showUuid c)) m.lifecycle.supersedes),
    ("superseded_by", .ofOption (fun c => .string (x.showUuid c)) m.lifecycle.supersededBy),
    ("expires_at_ms", .ofOption Json.ofInt m.lifecycle.expiresAtMs),
    ("review_after_ms", .ofOption Json.ofInt m.lifecycle.reviewAfterMs),
    ("lifecycle_updated_at_ms", .ofInt m.lifecycle.lifecycleUpdatedAtMs)]

/-- `to_omf_item`. -/
def toOmfItem (x : OmfExternals) (chunk : MemoryChunk) (m : ChunkMetadata) : OmfItem where
  content := chunk.text
  tags := chunk.tags
  status := match m.status with
    | .superseded => some "superseded"
    | .expired => some "expired"
    | _ => none
  extensions := .object [("memd", .object [
    ("v", .number (.posInt memdExtVersion)),
    ("chunk_id", .string (x.showUuid chunk.chunkId)),
    ("project_id", .ofOption .string m.projectId),
    ("chunk_type", .string chunk.chunkType.asStr),
    ("ingestion_mode", .string chunk.ingestionMode.asStr),
    ("lifecycle", lifecycleExt x m)])]

/-- Is the row part of the export? -/
def isExported (opts : ExportOptions) (now : ℤ) (m : ChunkMetadata) : Bool :=
  !(m.status == .candidate || m.status == .deleted || m.status == .error)
    && (opts.includeSuperseded || m.status != .superseded)
    && (opts.includeExpired || (m.status != .expired
      && !m.lifecycle.expiresAtMs.any fun e => decide (e ≤ now)))
    && (opts.includeHistory || m.lifecycle.tier != .history)

/-- One row of `export_omf`. -/
def exportRow (x : OmfExternals) (t : TenantId) (opts : ExportOptions) (now : ℤ)
    (memories : List OmfItem) (m : ChunkMetadata) : StoreProg (List OmfItem) :=
  if isExported opts now m then do
    let chunk ← PersistentStore.getChunkForRetrieval t m.chunkId
    match chunk with
    | none => pure memories
    | some c => pure (memories ++ [toOmfItem x c m])
  else pure memories

/-- `export_omf`. -/
def exportOmf (x : OmfExternals) (t : TenantId) (opts : ExportOptions) (now : ℤ) :
    StoreProg OmfDocument := do
  let rows ← .read .metadataRead (·.db.listForExport t opts.projectId opts.includeHistory)
  let memories ← rows.foldlM (exportRow x t opts now) []
  pure { omf := omfVersion, source := some ⟨memdSourceApp⟩, memories := memories }
