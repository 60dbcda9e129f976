/-
# OMF documents

The interchange format of `omf/mod.rs` and the readers of `omf/import.rs` on it: the
envelope and its items, `validateOmf`, the trust predicate, the fields of the
`extensions.memd` block of an item, and the preflight on the supersession references of a
trusted document.

A chunk id in a document belongs to the store that wrote it.  It is a UUID string there and
is read by `OmfExternals.parseUuid`; the importing store hands out ids of its own.
-/
import Memd.WriteAdmission

/-! ## Values -/

/-- A number of a JSON document. -/
inductive JsonNumber
  | posInt (n : ℕ)
  | negInt (n : ℤ)
  | float
  deriving DecidableEq, Repr

/-- `serde_json::Value`; an object has one entry for each of its keys. -/
inductive Json
  | null
  | bool (b : Bool)
  | number (n : JsonNumber)
  | string (s : String)
  | array (items : List Json)
  | object (fields : List (String × Json))
  deriving Repr

namespace Json

/-- `Value::get` with a key. -/
def get : Json → String → Option Json
  | .object fields, key => (fields.find? fun f => f.1 == key).map (·.2)
  | _, _ => none

/-- `Value::as_str`. -/
def asStr : Json → Option String
  | .string s => some s
  | _ => none

/-- `Value::as_u64`. -/
def asU64 : Json → Option ℕ
  | .number (.posInt n) => some n
  | _ => none

/-- `Value::as_i64`. -/
def asI64 : Json → Option ℤ
  | .number (.posInt n) => if n < 2 ^ 63 then some n else none
  | .number (.negInt n) => some n
  | _ => none

/-- The value is an object. -/
def isObject : Json → Bool
  | .object _ => true
  | _ => false

end Json

/-! ## Documents -/

/-- `OMF_VERSION`. -/
def omfVersion : String := "1.0"

/-- `MEMD_EXT_VERSION`. -/
def memdExtVersion : ℕ := 1

/-- `MEMD_SOURCE_APP`. -/
def memdSourceApp : String := "memd"

/-- One memory item: what an import reads of it. -/
structure OmfItem where
  content : String
  category : Option String := none
  tags : List String := []
  status : Option String := none
  extensions : Json := .null
  deriving Repr

/-- `OmfSource`. -/
structure OmfSource where
  app : String
  deriving DecidableEq, Repr

/-- `OmfDocument`. -/
structure OmfDocument where
  omf : String := omfVersion
  source : Option OmfSource := none
  memories : List OmfItem
  deriving Repr

/-- A UUID of the store a document was written by. -/
abbrev SourceId := ℕ

/-- What the import takes from libraries and from the write gate. -/
structure OmfExternals where
  toExternals : Externals
  gate : GateExternals
  /-- `Uuid::parse_str`: the id, or the text of the error -/
  parseUuid : String → Except String SourceId
  /-- `Uuid::to_string` -/
  showUuid : SourceId → String
  /-- `inter as f32 / union as f32 >= threshold`, the threshold given by its bits -/
  f32RatioAtLeast : ℕ → ℕ → BitVec 32 → Bool

/-- `validate_omf`, the items from the `i`-th on. -/
def validateContents : ℕ → List OmfItem → Except MemdError Unit
  | _, [] => .ok ()
  | i, m :: rest =>
    if Text.trim m.content.toList = [] then
      .error (.validationError s!"memories[{i}].content is empty")
    else validateContents (i + 1) rest

/-- `validate_omf`. -/
def validateOmf (doc : OmfDocument) : Except MemdError Unit :=
  if doc.omf ≠ omfVersion then
    .error (.validationError s!"unsupported omf version: {doc.omf} (expected {omfVersion})")
  else validateContents 0 doc.memories

/-- `is_trusted`. -/
def isTrusted (doc : OmfDocument) : Bool :=
  doc.source.any fun s => s.app == memdSourceApp

/-! ## The fields of `extensions.memd` -/

/-- A string field of `extensions.memd`. -/
def extractString (ext : Json) (field : String) : Option String :=
  ((ext.get "memd").bind (·.get field)).bind Json.asStr

/-- `extract_project_id`. -/
def extractProjectId (ext : Json) : Option String :=
  extractString ext "project_id"

/-- `ChunkType::from_str`. -/
def ChunkType.parse : String → Option ChunkType
  | "code" => some .code
  | "doc" => some .doc
  | "trace" => some .trace
  | "decision" => some .decision
  | "plan" => some .plan
  | "research" => some .research
  | "message" => some .message
  | "summary" => some .summary
  | "other" => some .other
  | _ => none

/-- `ChunkStatus::from_str`. -/
def ChunkStatus.parse : String → Except MemdError ChunkStatus
  | "draft" => .ok .draft
  | "candidate" => .ok .candidate
  | "final" => .ok .final
  | "error" => .ok .error
  | "deleted" => .ok .deleted
  | "superseded" => .ok .superseded
  | "expired" => .ok .expired
  | s => .error (.validationError s!"unknown status: {s}")

/-- `IngestionMode::from_str`. -/
def IngestionMode.parse : String → Option IngestionMode
  | "conversation" => some .conversation
  | "document" => some .document
  | _ => none

/-- `MemoryTier::from_str`. -/
def MemoryTier.parse : String → Except MemdError MemoryTier
  | "working" => .ok .working
  | "long_term" => .ok .longTerm
  | "history" => .ok .history
  | s => .error (.validationError s!"unknown tier: {s}")

/-- `extract_chunk_type`. -/
def extractChunkType (ext : Json) : Option ChunkType :=
  (extractString ext "chunk_type").bind ChunkType.parse

/-- `extract_ingestion_mode`. -/
def extractIngestionMode (ext : Json) : Option IngestionMode :=
  (extractString ext "ingestion_mode").bind IngestionMode.parse

/-- `ext_version_supported`. -/
def extVersionSupported (ext : Json) : Bool :=
  decide (((ext.get "memd").bind (·.get "v")).bind Json.asU64 = some memdExtVersion)

/-- `ProjectId::validate`. -/
def validProjectId (id : String) : Bool :=
  id == "" || (!Text.contains id.toList ".."
    && id.toList.all fun c => c.isAlphanum || c == '_' || c == '-' || c == '.')

/-- The project an item is imported into: a malformed one is dropped. -/
def resolvedProject (item : OmfItem) : Option String :=
  ((extractProjectId item.extensions).or item.category).filter validProjectId

/-- `ChunkId::parse`. -/
def parseChunkId (x : OmfExternals) (s : String) : Except MemdError SourceId :=
  match x.parseUuid s with
  | .ok id => .ok id
  | .error e => .error (.validationError s!"invalid chunk_id: {e}")

/-- An optional id field: absent and null are no id, anything but a string is an error. -/
def parseOptionalId (x : OmfExternals) (msg : String) : Option Json → Except MemdError (Option SourceId)
  | none | some .null => .ok none
  | some (.string s) => (parseChunkId x s).map some
  | some _ => .error (.validationError msg)

/-- `extract_source_chunk_id`. -/
def extractSourceChunkId (x : OmfExternals) (ext : Json) : Except MemdError (Option SourceId) :=
  match ext.get "memd" with
  | none => .ok none
  | some memd => parseOptionalId x "extensions.memd.chunk_id must be a string" (memd.get "chunk_id")

/-- The `lifecycle` object of an item, if it has one. -/
def lifecycleObject (ext : Json) : Except MemdError (Option Json) :=
  match (ext.get "memd").bind (·.get "lifecycle") with
  | none => .ok none
  | some v =>
    if v.isObject then .ok (some v)
    else .error (.validationError "extensions.memd.lifecycle must be an object")

/-- `extract_supersession_ref`. -/
def extractSupersessionRef (x : OmfExternals) (ext : Json) (field : String) :
    Except MemdError (Option SourceId) := do
  match ← lifecycleObject ext with
  | none => pure none
  | some lc => parseOptionalId x s!"extensions.memd.lifecycle.{field} must be a string" (lc.get field)

/-- `parse_optional_string_field`. -/
def parseOptionalStringField {α : Type} (obj : Json) (key : String)
    (parse : String → Except MemdError α) : Except MemdError (Option α) :=
  match obj.get key with
  | none | some .null => .ok none
  | some (.string s) => (parse s).map some
  | some _ => .error (.validationError s!"extensions.memd.lifecycle.{key} must be a string")

/-- `parse_optional_i64_field`. -/
def parseOptionalI64Field (obj : Json) (key : String) : Except MemdError (Option ℤ) :=
  match obj.get key with
  | none | some .null => .ok none
  | some v =>
    match v.asI64 with
    | some n => .ok (some n)
    | none => .error (.validationError s!"extensions.memd.lifecycle.{key} must be an integer")

/-- `extract_lifecycle_strict`. -/
def extractLifecycleStrict (ext : Json) : Except MemdError LifecycleDelta := do
  match ← lifecycleObject ext with
  | none => pure {}
  | some lc =>
    -- a status that cannot be read is an error, as is `candidate`
    let status ← parseOptionalStringField lc "status" ChunkStatus.parse
    if status = some .candidate then
      throw (.validationError "extensions.memd.lifecycle.status=candidate requires a local consolidation journal")
    let tier ← parseOptionalStringField lc "tier" MemoryTier.parse
    let reviewAfterMs ← parseOptionalI64Field lc "review_after_ms"
    let lifecycleUpdatedAtMs ← parseOptionalI64Field lc "lifecycle_updated_at_ms"
    let expiresAtMs ← parseOptionalI64Field lc "expires_at_ms"
    -- the links are not taken from here: they are replayed once all items are in
    pure {
      status := status
      tier := tier
      expiresAtMs := expiresAtMs.map some
      reviewAfterMs := reviewAfterMs.map some
      lifecycleUpdatedAtMs := lifecycleUpdatedAtMs }

/-! ## The preflight of a trusted document -/

/-- The source ids and the superseded ids seen so far. -/
structure SeenIds where
  sourceIds : List SourceId := []
  supersedes : List SourceId := []
  deriving DecidableEq, Repr

/-- Remember an id that must not have been seen before. -/
def insertNew (seen : List SourceId) (msg : SourceId → String) :
    Option SourceId → Except MemdError (List SourceId)
  | none => .ok seen
  | some id => if seen.contains id then .error (.validationError (msg id)) else .ok (seen ++ [id])

/-- One item of `validate_trusted_supersession_invariants`. -/
def validateReferences (x : OmfExternals) (seen : SeenIds) (item : OmfItem × ℕ) :
    Except MemdError SeenIds :=
  if extVersionSupported item.1.extensions then do
    let srcId ← extractSourceChunkId x item.1.extensions
    let sourceIds ← insertNew seen.sourceIds (fun id => s!"memories[{item.2}].extensions.memd.chunk_id duplicates an earlier item: {x.showUuid id}") srcId
    let oldSrc ← extractSupersessionRef x item.1.extensions "supersedes"
    let supersedes ← insertNew seen.supersedes (fun id => s!"memories[{item.2}].extensions.memd.lifecycle.supersedes forks: {x.showUuid id} is named by multiple successors") oldSrc
    let _ ← extractSupersessionRef x item.1.extensions "superseded_by"
    pure ⟨sourceIds, supersedes⟩
  else .ok seen

/-- `validate_trusted_supersession_invariants`. -/
def validateTrustedSupersessionInvariants (x : OmfExternals) (doc : OmfDocument) :
    Except MemdError Unit := do
  let _ ← doc.memories.zipIdx.foldlM (validateReferences x) {}
  pure ()

/-- What `import_omf` and its preview check before the first item. -/
def preflight (x : OmfExternals) (doc : OmfDocument) : Except MemdError Unit := do
  validateOmf doc
  if isTrusted doc then validateTrustedSupersessionInvariants x doc else pure ()
