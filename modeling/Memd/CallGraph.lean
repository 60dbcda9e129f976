/-
# The symbols and call edges of a code base

`structural/storage.rs`, `SymbolIndexer`, `CallGraphIndexer` and `link_callees`, and
`maybe_index_structural_chunk`, which indexes the text of a stored code chunk.  Indexing a file
replaces its symbols and the edges that start in it; the edges get no callee.  `link_callees`
looks up the callees of the edges that have none.

The parser is a parameter: it returns nothing for a path of an unknown language and for a text
it cannot parse.  Both tables are in the order of their row ids, which is the order of a lookup
by name.  Columns, signatures, visibility and imports play no part.
-/
import Mathlib.Data.List.Sort
import Memd.Chunk
import Memd.Rowid
import Memd.SearchSources

open Table (insertRowids updateWhere deleteWhere)
open Text (trim)

/-! ## Records -/

/-- `SymbolKind`. -/
inductive SymbolKind
  | function | classSymbol | method | variable | type | module | interface | enum | constant
  deriving DecidableEq, Repr

/-- `CallType`. -/
inductive CallType
  | direct | method | qualified
  deriving DecidableEq, Repr

/-- What the store is given of a symbol. -/
structure ExtractedSymbol where
  name : String
  kind : SymbolKind
  lineStart : ℕ
  lineEnd : ℕ
  deriving DecidableEq, Repr

/-- What the store is given of a call. -/
structure ExtractedCall where
  calleeName : String
  callLine : ℕ
  callCol : ℕ
  callType : CallType
  deriving DecidableEq, Repr

/-- What the parser finds in a file. -/
structure ParsedFile where
  symbols : List ExtractedSymbol
  calls : List ExtractedCall
  deriving DecidableEq, Repr

/-- `SymbolRecord`. -/
structure SymbolRecord where
  symbolId : ℕ
  tenantId : TenantId
  projectId : Option String
  filePath : String
  name : String
  kind : SymbolKind
  lineStart : ℕ
  lineEnd : ℕ
  deriving DecidableEq, Repr

/-- `CallEdgeRecord`. -/
structure CallEdgeRecord where
  edgeId : ℕ
  tenantId : TenantId
  callerSymbolId : ℕ
  calleeName : String
  calleeSymbolId : Option ℕ
  callFile : String
  callLine : ℕ
  callCol : ℕ
  callType : CallType
  deriving DecidableEq, Repr

/-- The tables of symbols and call edges. -/
structure StructuralStore where
  symbols : List SymbolRecord := []
  callEdges : List CallEdgeRecord := []
  deriving DecidableEq, Repr

/-- Code outside the model. -/
structure StructuralExternals where
  /-- `parse_file` and the extraction of symbols and calls -/
  parse : (path text : String) → Option ParsedFile

/-! ## Indexing a file -/

/-- The symbol is of the tenant and the file. -/
def SymbolRecord.inFile (t : TenantId) (file : String) (x : SymbolRecord) : Bool :=
  x.tenantId = t && x.filePath = file

/-- The edge is of the tenant and the file. -/
def CallEdgeRecord.inFile (t : TenantId) (file : String) (e : CallEdgeRecord) : Bool :=
  e.tenantId = t && e.callFile = file

/-- `to_symbol_record`, with the id the row gets. -/
def toSymbolRecord (t : TenantId) (project : Option String) (file : String) (x : ExtractedSymbol)
    (id : ℕ) : SymbolRecord where
  symbolId := id
  tenantId := t
  projectId := project
  filePath := file
  name := x.name
  kind := x.kind
  lineStart := x.lineStart
  lineEnd := x.lineEnd

namespace StructuralStore

/-- `delete_file_symbols`. -/
def deleteFileSymbols (s : StructuralStore) (t : TenantId) (file : String) : StructuralStore :=
  { s with symbols := deleteWhere (SymbolRecord.inFile t file) s.symbols }

/-- `delete_file_edges`. -/
def deleteFileEdges (s : StructuralStore) (t : TenantId) (file : String) : StructuralStore :=
  { s with callEdges := deleteWhere (CallEdgeRecord.inFile t file) s.callEdges }

/-- `SymbolIndexer::index_file`. -/
def indexSymbols (s : StructuralStore) (t : TenantId) (project : Option String) (file : String)
    (parsed : ParsedFile) : StructuralStore :=
  let s := s.deleteFileSymbols t file
  { s with
    symbols := insertRowids SymbolRecord.symbolId s.symbols
      (parsed.symbols.map (toSymbolRecord t project file)) }

/-- `find_symbols_by_file`. -/
def findSymbolsByFile (s : StructuralStore) (t : TenantId) (file : String) : List SymbolRecord :=
  (s.symbols.filter (SymbolRecord.inFile t file)).insertionSort fun a b => a.lineStart ≤ b.lineStart

/-- The symbol a call is made in. -/
def callerOf (fileSymbols : List SymbolRecord) (call : ExtractedCall) : Option SymbolRecord :=
  fileSymbols.find? fun x => x.lineStart ≤ call.callLine && call.callLine ≤ x.lineEnd

/-- The edge of a call in a symbol, with the id the row gets. -/
def toCallEdge (t : TenantId) (file : String) (caller : SymbolRecord) (call : ExtractedCall)
    (id : ℕ) : CallEdgeRecord where
  edgeId := id
  tenantId := t
  callerSymbolId := caller.symbolId
  calleeName := call.calleeName
  calleeSymbolId := none
  callFile := file
  callLine := call.callLine
  callCol := call.callCol
  callType := call.callType

/-- `index_file_calls`. -/
def indexFileCalls (s : StructuralStore) (t : TenantId) (file : String) (parsed : ParsedFile)
    (fileSymbols : List SymbolRecord) : StructuralStore :=
  let s := s.deleteFileEdges t file
  { s with
    callEdges := insertRowids CallEdgeRecord.edgeId s.callEdges
      (parsed.calls.filterMap fun call =>
        (callerOf fileSymbols call).map fun caller => toCallEdge t file caller call) }

/-- The work of `maybe_index_structural_chunk` behind its checks. -/
def indexFile (s : StructuralStore) (t : TenantId) (project : Option String) (file : String)
    (parsed : ParsedFile) : StructuralStore :=
  let s := s.indexSymbols t project file parsed
  s.indexFileCalls t file parsed (s.findSymbolsByFile t file)

end StructuralStore

/-- The arguments of `maybe_index_structural_chunk`. -/
structure StructuralIndexRequest where
  tenantId : String
  projectId : Option String
  chunkType : String
  sourcePath : Option String
  text : String
  deriving DecidableEq, Repr

/-- The tenant, the path and the content of a request that is indexed. -/
def StructuralIndexRequest.accepted (env : StructuralExternals) (r : StructuralIndexRequest) :
    Option (TenantId × String × ParsedFile) := do
  guard (String.ofList (Text.asciiLower r.chunkType.toList) = "code")
  let path ← r.sourcePath.filter fun p => trim p.toList ≠ []
  let t ← (TenantId.new r.tenantId).toOption
  let parsed ← env.parse path r.text
  pure (t, path, parsed)

/-- `maybe_index_structural_chunk`, if it completes. -/
def maybeIndexStructuralChunk (env : StructuralExternals) (s : StructuralStore) (r : StructuralIndexRequest) :
    StructuralStore :=
  match r.accepted env with
  | none => s
  | some (t, path, parsed) => s.indexFile t r.projectId path parsed

/-! ## Linking callees -/

/-- `kind_priority`: callables first. -/
def kindPriority : SymbolKind → ℕ
  | .function => 0
  | .method => 1
  | .classSymbol => 2
  | .interface => 3
  | .type => 4
  | .enum => 5
  | .variable => 6
  | .constant => 7
  | .module => 8

namespace StructuralStore

/-- `list_unresolved_call_edges`. -/
def listUnresolvedCallEdges (s : StructuralStore) (t : TenantId) : List CallEdgeRecord :=
  s.callEdges.filter fun e => e.tenantId = t && e.calleeSymbolId.isNone

/-- `find_symbols_by_name`. -/
def findSymbolsByName (s : StructuralStore) (t : TenantId) (name : String) : List SymbolRecord :=
  s.symbols.filter fun x => x.tenantId = t && x.name = name

/-- `get_symbol_by_id`. -/
def getSymbolById (s : StructuralStore) (t : TenantId) (id : ℕ) : Option SymbolRecord :=
  s.symbols.find? fun x => x.symbolId = id && x.tenantId = t

/-- The candidates of an edge: those of the caller's project, if there are any, with the better
kinds first. -/
def calleePool (s : StructuralStore) (t : TenantId) (e : CallEdgeRecord) : List SymbolRecord :=
  let candidates := s.findSymbolsByName t e.calleeName
  let preferred := match (s.getSymbolById t e.callerSymbolId).bind (·.projectId) with
    | some project => candidates.filter fun x => x.projectId = some project
    | none => candidates
  let pool := if preferred.isEmpty then candidates else preferred
  pool.insertionSort fun a b => kindPriority a.kind ≤ kindPriority b.kind

/-- The symbol an edge is linked to, unless the best two tie in different files. -/
def calleeFor (s : StructuralStore) (t : TenantId) (e : CallEdgeRecord) : Option SymbolRecord :=
  match s.calleePool t e with
  | [] => none
  | [best] => some best
  | best :: second :: _ =>
    if kindPriority best.kind = kindPriority second.kind && best.filePath ≠ second.filePath then
      none
    else some best

/-- `update_call_edge_callee`. -/
def updateCallEdgeCallee (s : StructuralStore) (edgeId symbolId : ℕ) : StructuralStore :=
  { s with
    callEdges := updateWhere (fun e => e.edgeId = edgeId)
      (fun e => { e with calleeSymbolId := some symbolId }) s.callEdges }

/-- One pass of the loop of `link_callees`. -/
def linkEdge (t : TenantId) (s : StructuralStore) (e : CallEdgeRecord) : StructuralStore :=
  match s.calleeFor t e with
  | none => s
  | some best => s.updateCallEdgeCallee e.edgeId best.symbolId

/-- `link_callees`. -/
def linkCallees (s : StructuralStore) (t : TenantId) : StructuralStore :=
  (s.listUnresolvedCallEdges t).foldl (linkEdge t) s

end StructuralStore

/-! ## Runs -/

/-- What happens to the tables: a chunk is indexed, or the callees of a tenant are linked. -/
inductive GraphStep
  | index (r : StructuralIndexRequest)
  | link (t : TenantId)
  deriving Repr

/-- The tables after one step. -/
def StructuralStore.step (env : StructuralExternals) (s : StructuralStore) :
    GraphStep → StructuralStore
  | .index r => maybeIndexStructuralChunk env s r
  | .link t => s.linkCallees t

/-- The tables after a list of steps. -/
def StructuralStore.run (env : StructuralExternals) (s : StructuralStore) (steps : List GraphStep) :
    StructuralStore :=
  steps.foldl (StructuralStore.step env) s
