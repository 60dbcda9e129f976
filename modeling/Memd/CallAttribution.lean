/-
# The symbol a call is attributed to

`SymbolExtractor::extract` and `CallGraphExtractor::extract_calls` read the nodes of a parse tree,
`index_file_calls` matches what they extract.  A node is an arbitrary range of the text.

* `CallsAttributed` — each call in a stored symbol has one edge, from the innermost such symbol,
  and the other calls have none;
* `LinesAgree` — what has to hold of the rows of a call and of the symbols;
* `calls_attributed_iff` — the calls of a file are attributed exactly if the lines of each agree.

The rows of a symbol count from 0 and the line of a call from 1, so a call is looked up one line
below its own.  The lookup takes the first symbol by its start, which is the outermost.
-/
import Memd.CallGraphIntegrity
import Memd.ListSelection

open Table (insertRowids deleteWhere)
open Text (trim)
open Selection

/-! ## Nodes -/

/-- A position in a text, both parts counted from 0. -/
structure TextPoint where
  row : ℕ
  column : ℕ
  deriving DecidableEq, Repr

namespace TextPoint

instance : LE TextPoint := ⟨fun p q => p.row < q.row ∨ p.row = q.row ∧ p.column ≤ q.column⟩

instance (p q : TextPoint) : Decidable (p ≤ q) := inferInstanceAs (Decidable (_ ∨ _))

theorem row_le {p q : TextPoint} (h : p ≤ q) : p.row ≤ q.row := by
  rcases h with h | h
  · omega
  · omega

end TextPoint

/-- `start_position` and `end_position` of a node. -/
structure SourceRange where
  start : TextPoint
  stop : TextPoint
  ordered : start ≤ stop
  deriving DecidableEq, Repr

namespace SourceRange

/-- One range lies within another. -/
def Contains (outer inner : SourceRange) : Prop :=
  outer.start ≤ inner.start ∧ inner.stop ≤ outer.stop

instance (outer inner : SourceRange) : Decidable (outer.Contains inner) :=
  inferInstanceAs (Decidable (_ ∧ _))

/-- One contains the other, or one ends before the other starts. -/
def NestedOrDisjoint (x y : SourceRange) : Prop :=
  x.Contains y ∨ y.Contains x ∨ x.stop ≤ y.start ∨ y.stop ≤ x.start

instance (x y : SourceRange) : Decidable (x.NestedOrDisjoint y) :=
  inferInstanceAs (Decidable (_ ∨ _))

end SourceRange

/-- A match of the symbol query. -/
structure SymbolNode where
  name : String
  kind : SymbolKind
  range : SourceRange
  hasError : Bool := false
  deriving DecidableEq, Repr

/-- A match of the call query. -/
structure CallNode where
  calleeName : String
  range : SourceRange
  callType : CallType
  deriving DecidableEq, Repr

/-! ## Extraction -/

/-- Symbols with a blank name or inside an error are dropped. -/
def SymbolNode.isStored (n : SymbolNode) : Bool :=
  !(trim n.name.toList).isEmpty && !n.hasError

/-- What the extractor reports of a symbol, with rows counted from one. -/
def SymbolNode.extracted (n : SymbolNode) : ExtractedSymbol where
  name := String.ofList (trim n.name.toList)
  kind := n.kind
  lineStart := n.range.start.row
  lineEnd := n.range.stop.row

/-- `SymbolExtractor::extract`. -/
def extractSymbols (nodes : List SymbolNode) : List ExtractedSymbol :=
  (nodes.filter SymbolNode.isStored).map SymbolNode.extracted

/-- What the extractor reports of a call, with its row counted from one. -/
def CallNode.extracted (c : CallNode) : ExtractedCall where
  calleeName := c.calleeName
  callLine := c.range.start.row + 1
  callCol := c.range.start.column + 1
  callType := c.callType

/-- `extract_calls`. -/
def extractCalls (calls : List CallNode) : List ExtractedCall :=
  calls.map CallNode.extracted

/-- What the two extractors find. -/
def extractFile (nodes : List SymbolNode) (calls : List CallNode) : ParsedFile where
  symbols := extractSymbols nodes
  calls := extractCalls calls

/-! ## Attribution -/

/-- The symbol contains the call and lies in every symbol that does. -/
def Innermost (symbols : List SymbolNode) (c : CallNode) (x : SymbolNode) : Prop :=
  x.range.Contains c.range ∧ ∀ y ∈ symbols, y.range.Contains c.range → y.range.Contains x.range

instance (symbols : List SymbolNode) (c : CallNode) (x : SymbolNode) :
    Decidable (Innermost symbols c x) := inferInstanceAs (Decidable (_ ∧ _))

/-- Who calls: the id of an innermost symbol, or nobody outside of all symbols. -/
def HasCaller (symbols : List SymbolNode) (ids : List ℕ) (c : CallNode) : Option ℕ → Prop
  | none => ∀ x ∈ symbols, ¬ x.range.Contains c.range
  | some id => ∃ x, (x, id) ∈ symbols.zip ids ∧ Innermost symbols c x

/-- What an edge says of the call. -/
def CallEdgeRecord.call (e : CallEdgeRecord) : ExtractedCall where
  calleeName := e.calleeName
  callLine := e.callLine
  callCol := e.callCol
  callType := e.callType

/-- The edges of a file are those of its calls that have a caller, one for each. -/
def CallsAttributed (s : StructuralStore) (t : TenantId) (file : String) (symbols : List SymbolNode)
    (calls : List CallNode) : Prop :=
  ∃ callers : List (CallNode × Option ℕ), callers.map Prod.fst = calls ∧
    (∀ p ∈ callers, HasCaller symbols
      ((s.symbols.filter (SymbolRecord.inFile t file)).map (·.symbolId)) p.1 p.2) ∧
    (s.callEdges.filter (CallEdgeRecord.inFile t file)).map (fun e => (e.call, e.callerSymbolId)) =
      callers.filterMap fun p => p.2.map (p.1.extracted, ·)

/-! ## Lines -/

/-- The line is one of the rows of the symbol. -/
def OnLine (line : ℕ) (x : SymbolNode) : Prop :=
  x.range.start.row ≤ line ∧ line ≤ x.range.stop.row

instance (line : ℕ) (x : SymbolNode) : Decidable (OnLine line x) :=
  inferInstanceAs (Decidable (_ ∧ _))

/-- The order of the lookup, of symbols with their places: by the first row, then by the place. -/
def LookedUpBefore (x y : SymbolNode × ℕ) : Prop :=
  x.1.range.start.row < y.1.range.start.row ∨
    x.1.range.start.row = y.1.range.start.row ∧ x.2 < y.2

instance (x y : SymbolNode × ℕ) : Decidable (LookedUpBefore x y) :=
  inferInstanceAs (Decidable (_ ∨ _))

/-- A call in a symbol: an innermost one goes on below the row of the call, and those looked up
before it end on that row or above.  A call outside: no symbol has the row below. -/
def LinesAgree (symbols : List SymbolNode) (c : CallNode) : Prop :=
  ((∃ x ∈ symbols, x.range.Contains c.range) → ∃ x ∈ symbols.zipIdx, Innermost symbols c x.1 ∧
    c.range.start.row < x.1.range.stop.row ∧
    ∀ y ∈ symbols.zipIdx, LookedUpBefore y x → y.1.range.stop.row ≤ c.range.start.row) ∧
  ((∀ x ∈ symbols, ¬ x.range.Contains c.range) →
    ∀ x ∈ symbols, ¬ OnLine (c.range.start.row + 1) x)

instance (symbols : List SymbolNode) (c : CallNode) : Decidable (LinesAgree symbols c) :=
  inferInstanceAs (Decidable (_ ∧ _))

section Lines

variable {symbols : List SymbolNode} {c : CallNode}

/-- Symbols with the same place are the same. -/
theorem eq_of_snd_eq {x y : SymbolNode × ℕ} (hx : x ∈ symbols.zipIdx) (hy : y ∈ symbols.zipIdx)
    (h : x.2 = y.2) : x = y := by
  have hx' := List.mem_zipIdx_iff_getElem?.mp hx
  have hy' := List.mem_zipIdx_iff_getElem?.mp hy
  rw [h, hy'] at hx'
  exact Prod.ext (Option.some.inj hx').symm h

theorem start_row_le {x : SymbolNode} (h : x.range.Contains c.range) :
    x.range.start.row ≤ c.range.start.row :=
  TextPoint.row_le h.1

/-- No symbol has the line: it must be outside of all. -/
theorem outside_iff_linesAgree (hnone : ∀ x ∈ symbols, ¬ OnLine (c.range.start.row + 1) x) :
    (∀ x ∈ symbols, ¬ x.range.Contains c.range) ↔ LinesAgree symbols c := by
  constructor
  · intro hout
    exact ⟨fun ⟨x, hx, hin⟩ => absurd hin (hout x hx), fun _ => hnone⟩
  · rintro ⟨hinside, _⟩ x hx hin
    obtain ⟨y, hy, hinner, hbelow, _⟩ := hinside ⟨x, hx, hin⟩
    have hrow := start_row_le hinner.1
    apply hnone y.1 (List.fst_mem_of_mem_zipIdx hy)
    exact ⟨by omega, hbelow⟩

/-- The symbol that is looked up first of those on the line: it must be innermost. -/
theorem innermost_iff_linesAgree {x : SymbolNode × ℕ} (hx : x ∈ symbols.zipIdx)
    (hline : OnLine (c.range.start.row + 1) x.1)
    (hfirst : ∀ y ∈ symbols.zipIdx, OnLine (c.range.start.row + 1) y.1 → ¬ LookedUpBefore y x) :
    Innermost symbols c x.1 ↔ LinesAgree symbols c := by
  have hmem := List.fst_mem_of_mem_zipIdx hx
  constructor
  · intro hinner
    refine ⟨fun _ => ⟨x, hx, hinner, hline.2, fun y hy hbefore => ?_⟩,
      fun hout => absurd hinner.1 (hout x.1 hmem)⟩
    -- a symbol that is looked up earlier starts no later, so it has to end above the line
    by_contra hlate
    have hrow := start_row_le hinner.1
    refine hfirst y hy ⟨?_, by omega⟩ hbefore
    rcases hbefore with h | h
    · omega
    · omega
  · rintro ⟨hinside, houtside⟩
    have hin : ∃ y ∈ symbols, y.range.Contains c.range := by
      by_contra hnone
      exact houtside (fun y hy h => hnone ⟨y, hy, h⟩) x.1 hmem hline
    obtain ⟨y, hy, hinner, hbelow, hbefore⟩ := hinside hin
    -- the innermost symbol is on the line as well, and neither is looked up before the other
    have hrow := start_row_le hinner.1
    have hnot := hfirst y hy ⟨by omega, hbelow⟩
    have hnot' : ¬ LookedUpBefore x y := by
      intro h
      have hend := hbefore x hx h
      have hline' := hline.2
      omega
    have hplace : x.2 = y.2 := by
      unfold LookedUpBefore at hnot hnot'
      omega
    rw [eq_of_snd_eq hx hy hplace]
    exact hinner

/-- The caller at a place, where ids ascend from the first place. -/
theorem hasCaller_place_iff {x : SymbolNode × ℕ} (hx : x ∈ symbols.zipIdx) (first : ℕ) :
    HasCaller symbols (symbols.zipIdx.map fun y => first + y.2) c (some (first + x.2)) ↔
      Innermost symbols c x.1 := by
  have hzip : symbols.zip (symbols.zipIdx.map fun y => first + y.2) =
      symbols.zipIdx.map fun y => (y.1, first + y.2) := by
    rw [← List.zip_map', List.zipIdx_map_fst]
  show (∃ y, _ ∈ symbols.zip _ ∧ Innermost symbols c y) ↔ _
  rw [hzip]
  constructor
  · rintro ⟨y, hy, hinner⟩
    obtain ⟨z, hz, heq⟩ := List.mem_map.mp hy
    rw [Prod.mk.injEq] at heq
    rw [eq_of_snd_eq hx hz (by omega), heq.1]
    exact hinner
  · intro hinner
    exact ⟨x.1, List.mem_map.mpr ⟨x, hx, rfl⟩, hinner⟩

end Lines

/-! ## The lookup -/

section Lookup

variable (s : StructuralStore) (t : TenantId) (project : Option String) (file : String)
  (nodes : List SymbolNode) (calls : List CallNode)

/-- The row of the symbol at a place. -/
def recordAt (x : SymbolNode × ℕ) : SymbolRecord :=
  toSymbolRecord t project file x.1.extracted (s.firstNewId t file + x.2)

/-- `ORDER BY line_start`, and the row ids where lines are equal. -/
def startsBefore (a b : SymbolRecord) : Prop :=
  a.lineStart < b.lineStart ∨ a.lineStart = b.lineStart ∧ a.symbolId ≤ b.symbolId

instance : DecidableRel startsBefore := fun _ _ => inferInstanceAs (Decidable (_ ∨ _))

instance : Std.Total startsBefore := ⟨fun a b => by unfold startsBefore; omega⟩

instance : IsTrans SymbolRecord startsBefore := ⟨fun a b c hab hbc => by
  unfold startsBefore at *
  omega⟩

theorem filter_symbols_indexFile :
    (s.indexFile t project file (extractFile nodes calls)).symbols.filter
        (SymbolRecord.inFile t file) =
      (nodes.filter SymbolNode.isStored).zipIdx.map (recordAt s t project file) := by
  have hold : (deleteWhere (SymbolRecord.inFile t file) s.symbols).filter
      (SymbolRecord.inFile t file) = [] := by
    rw [List.filter_eq_nil_iff]
    intro x hx
    simpa using (Table.mem_deleteWhere.mp hx).2
  rw [StructuralStore.indexFile_symbols, List.filter_append, hold, List.nil_append]
  have hnew : ((extractFile nodes calls).symbols.mapIdx fun i y =>
      toSymbolRecord t project file y (s.firstNewId t file + i)) =
        (nodes.filter SymbolNode.isStored).zipIdx.map (recordAt s t project file) := by
    rw [List.mapIdx_eq_zipIdx_map]
    show List.map _ ((List.map _ _).zipIdx) = _
    rw [List.zipIdx_map, List.map_map]
    rfl
  rw [hnew, List.filter_eq_self]
  intro x hx
  obtain ⟨y, _, rfl⟩ := List.mem_map.mp hx
  simp [recordAt, toSymbolRecord, SymbolRecord.inFile]

/-- The rows in the order of the lookup. -/
theorem findSymbolsByFile_indexSymbols :
    (s.indexSymbols t project file (extractFile nodes calls)).findSymbolsByFile t file =
      ((nodes.filter SymbolNode.isStored).zipIdx.map
        (recordAt s t project file)).insertionSort startsBefore := by
  unfold StructuralStore.findSymbolsByFile
  have hsymbols : (s.indexSymbols t project file (extractFile nodes calls)).symbols =
      (s.indexFile t project file (extractFile nodes calls)).symbols := rfl
  rw [hsymbols, filter_symbols_indexFile]
  apply insertionSort_congr
  -- the ids ascend, so an element stands before those behind it when the lines are equal
  rw [List.pairwise_map]
  have hids := List.pairwise_lt_range' (s := 0) (n := (nodes.filter SymbolNode.isStored).length)
  rw [← List.zipIdx_map_snd 0 (nodes.filter SymbolNode.isStored), List.pairwise_map] at hids
  refine hids.imp fun {x y} hlt => ?_
  simp only [recordAt, toSymbolRecord, startsBefore]
  omega

/-- The id of the caller the code finds. -/
def callerIdOf (call : ExtractedCall) : Option ℕ :=
  (StructuralStore.callerOf
    ((s.indexSymbols t project file (extractFile nodes calls)).findSymbolsByFile t file)
    call).map (·.symbolId)

variable {s t project file nodes calls}

/-- **The caller** is the symbol on the line that is looked up first. -/
theorem callerIdOf_eq_some_iff {c : CallNode} {id : ℕ} :
    callerIdOf s t project file nodes calls c.extracted = some id ↔
      ∃ x ∈ (nodes.filter SymbolNode.isStored).zipIdx, id = s.firstNewId t file + x.2 ∧
        OnLine (c.range.start.row + 1) x.1 ∧
        ∀ y ∈ (nodes.filter SymbolNode.isStored).zipIdx, OnLine (c.range.start.row + 1) y.1 →
          ¬ LookedUpBefore y x := by
  have hanti : ∀ a ∈ (nodes.filter SymbolNode.isStored).zipIdx.map (recordAt s t project file),
      ∀ b ∈ (nodes.filter SymbolNode.isStored).zipIdx.map (recordAt s t project file),
        startsBefore a b → startsBefore b a → a = b := by
    intro a ha b hb hab hba
    obtain ⟨x, hx, rfl⟩ := List.mem_map.mp ha
    obtain ⟨y, hy, rfl⟩ := List.mem_map.mp hb
    have hplace : x.2 = y.2 := by
      simp only [recordAt, toSymbolRecord, startsBefore] at hab hba
      omega
    rw [eq_of_snd_eq hx hy hplace]
  rw [callerIdOf, Option.map_eq_some_iff]
  simp only [findSymbolsByFile_indexSymbols, StructuralStore.callerOf,
    find?_insertionSort_eq_some_iff hanti, List.mem_map, Bool.and_eq_true, decide_eq_true_eq]
  constructor
  · rintro ⟨_, ⟨⟨x, hx, rfl⟩, hline, hfirst⟩, rfl⟩
    refine ⟨x, hx, rfl, hline, fun y hy hy' hbefore => ?_⟩
    have hle := hfirst (recordAt s t project file y) ⟨y, hy, rfl⟩ hy'
    simp only [recordAt, toSymbolRecord, SymbolNode.extracted, startsBefore] at hle
    unfold LookedUpBefore at hbefore
    omega
  · rintro ⟨x, hx, rfl, hline, hfirst⟩
    refine ⟨recordAt s t project file x, ⟨⟨x, hx, rfl⟩, hline, ?_⟩, rfl⟩
    rintro _ ⟨y, hy, rfl⟩ hy'
    have hnot := hfirst y hy hy'
    simp only [recordAt, toSymbolRecord, SymbolNode.extracted, startsBefore]
    unfold LookedUpBefore at hnot
    omega

theorem callerIdOf_eq_none_iff {c : CallNode} :
    callerIdOf s t project file nodes calls c.extracted = none ↔
      ∀ x ∈ nodes.filter SymbolNode.isStored, ¬ OnLine (c.range.start.row + 1) x := by
  rw [callerIdOf, Option.map_eq_none_iff, StructuralStore.callerOf, List.find?_eq_none,
    findSymbolsByFile_indexSymbols]
  simp only [List.mem_insertionSort, Bool.and_eq_true, decide_eq_true_eq]
  constructor
  · intro h x hx hline
    obtain ⟨i, hi⟩ := List.mem_iff_getElem?.mp hx
    exact h _ (List.mem_map_of_mem (List.mk_mem_zipIdx_iff_getElem?.mpr hi)) hline
  · intro h a ha hline
    obtain ⟨x, hx, rfl⟩ := List.mem_map.mp ha
    exact h x.1 (List.fst_mem_of_mem_zipIdx hx) hline

/-- **One call.** -/
theorem hasCaller_callerIdOf_iff {c : CallNode} :
    HasCaller (nodes.filter SymbolNode.isStored)
        (((s.indexFile t project file (extractFile nodes calls)).symbols.filter
          (SymbolRecord.inFile t file)).map (·.symbolId)) c
        (callerIdOf s t project file nodes calls c.extracted) ↔
      LinesAgree (nodes.filter SymbolNode.isStored) c := by
  rw [filter_symbols_indexFile, List.map_map]
  cases hid : callerIdOf s t project file nodes calls c.extracted with
  | none => exact outside_iff_linesAgree (callerIdOf_eq_none_iff.mp hid)
  | some id =>
    obtain ⟨x, hx, rfl, hline, hfirst⟩ := callerIdOf_eq_some_iff.mp hid
    exact (hasCaller_place_iff hx _).trans (innermost_iff_linesAgree hx hline hfirst)

/-- The call and the caller of an edge in the file. -/
def attribution (t : TenantId) (file : String) (e : CallEdgeRecord) :
    Option (ExtractedCall × ℕ) :=
  if e.inFile t file then some (e.call, e.callerSymbolId) else none

theorem map_filter_eq_attributions (edges : List CallEdgeRecord) :
    (edges.filter (CallEdgeRecord.inFile t file)).map (fun e => (e.call, e.callerSymbolId)) =
      edges.filterMap (attribution t file) := by
  rw [← List.filterMap_eq_map, List.filterMap_filter]
  rfl

/-- The edges of the file, each with the caller the code finds. -/
theorem attributions_indexFile :
    ((s.indexFile t project file (extractFile nodes calls)).callEdges.filter
        (CallEdgeRecord.inFile t file)).map (fun e => (e.call, e.callerSymbolId)) =
      calls.filterMap fun c =>
        (callerIdOf s t project file nodes calls c.extracted).map (c.extracted, ·) := by
  have hold : (deleteWhere (CallEdgeRecord.inFile t file) s.callEdges).filterMap
      (attribution t file) = [] := by
    rw [List.filterMap_eq_nil_iff]
    intro e he
    exact if_neg (by simpa using (Table.mem_deleteWhere.mp he).2)
  have hnew : ∀ (x : SymbolRecord) (call : ExtractedCall),
      attribution t file (StructuralStore.toCallEdge t file x call 0) = some (call, x.symbolId) :=
    fun x call => if_pos (by simp [StructuralStore.toCallEdge, CallEdgeRecord.inFile])
  rw [map_filter_eq_attributions, StructuralStore.indexFile_callEdges,
    Table.filterMap_insertRowids, hold, List.nil_append, List.filterMap_filterMap]
  · show List.filterMap _ (calls.map CallNode.extracted) = _
    rw [List.filterMap_map]
    apply List.filterMap_congr
    intro c _
    simp only [Function.comp_apply, callerIdOf]
    cases StructuralStore.callerOf ((s.indexSymbols t project file
      (extractFile nodes calls)).findSymbolsByFile t file) c.extracted with
    | none => rfl
    | some x => exact hnew x c.extracted
  · intro row hrow n
    obtain ⟨call, _, hcall⟩ := List.mem_filterMap.mp hrow
    obtain ⟨caller, _, rfl⟩ := Option.map_eq_some_iff.mp hcall
    rfl

/-- Calls with one extract get one caller, so callers that the edges agree with are the callers
the code finds. -/
theorem CallsAttributed.linesAgree
    (h : CallsAttributed (s.indexFile t project file (extractFile nodes calls)) t file
      (nodes.filter SymbolNode.isStored) calls) {c : CallNode} (hc : c ∈ calls) :
    LinesAgree (nodes.filter SymbolNode.isStored) c := by
  obtain ⟨callers, rfl, hcallers, hedges⟩ := h
  rw [attributions_indexFile, List.filterMap_map] at hedges
  obtain ⟨p, hp, rfl⟩ := List.mem_map.mp hc
  have hsame := forall_eq_of_filterMap_eq (fun p : CallNode × Option ℕ => p.1.extracted) Prod.snd
    (callerIdOf s t project file nodes (callers.map Prod.fst)) hedges.symm p hp
  rw [← hasCaller_callerIdOf_iff, ← hsame]
  exact hcallers p hp

variable (s t project file nodes calls)

/-- **The calls of a file** are attributed to the innermost symbols around them exactly if the
lines of each call agree with those of the symbols. -/
theorem calls_attributed_iff :
    CallsAttributed (s.indexFile t project file (extractFile nodes calls)) t file
        (nodes.filter SymbolNode.isStored) calls ↔
      ∀ c ∈ calls, LinesAgree (nodes.filter SymbolNode.isStored) c := by
  constructor
  · exact fun h c hc => h.linesAgree hc
  · intro h
    refine ⟨calls.map fun c => (c, callerIdOf s t project file nodes calls c.extracted), ?_, ?_, ?_⟩
    · rw [List.map_map]
      exact List.map_id calls
    · intro p hp
      obtain ⟨c, hc, rfl⟩ := List.mem_map.mp hp
      exact hasCaller_callerIdOf_iff.mpr (h c hc)
    · rw [attributions_indexFile, List.filterMap_map]
      rfl

end Lookup

/-! ### Three small files -/

/-- A function on one line. -/
def oneLineSymbol : SymbolNode :=
  ⟨"f", .function, ⟨⟨0, 0⟩, ⟨0, 15⟩, by decide⟩, false⟩

/-- A call in the function on one line. -/
def oneLineCall : CallNode := ⟨"g", ⟨⟨0, 9⟩, ⟨0, 12⟩, by decide⟩, .direct⟩

/-- A module with a function in it. -/
def moduleSymbols : List SymbolNode :=
  [⟨"m", .module, ⟨⟨0, 0⟩, ⟨4, 1⟩, by decide⟩, false⟩,
    ⟨"f", .function, ⟨⟨1, 2⟩, ⟨3, 3⟩, by decide⟩, false⟩]

/-- A call in the function of the module. -/
def moduleCall : CallNode := ⟨"g", ⟨⟨2, 4⟩, ⟨2, 7⟩, by decide⟩, .direct⟩

/-- A function behind a call. -/
def laterSymbol : SymbolNode :=
  ⟨"f", .function, ⟨⟨1, 0⟩, ⟨2, 8⟩, by decide⟩, false⟩

/-- A call on the line before the function. -/
def earlierCall : CallNode := ⟨"g", ⟨⟨0, 0⟩, ⟨0, 3⟩, by decide⟩, .direct⟩

/-- The calls of a file are attributed when nothing else was indexed before. -/
def AttributedAlone (nodes : List SymbolNode) (calls : List CallNode) : Prop :=
  CallsAttributed (StructuralStore.indexFile {} StructuralStore.sampleTenant none "a.rs"
    (extractFile nodes calls)) StructuralStore.sampleTenant "a.rs"
    (nodes.filter SymbolNode.isStored) calls

/-- **Lost, misattributed, made up**: the call of a function on one line has no edge, that of a
function in a module comes from the module, and a call above a function comes from it. -/
theorem calls_misattributed :
    ¬ AttributedAlone [oneLineSymbol] [oneLineCall] ∧
      (moduleSymbols.Pairwise (fun x y => x.range.NestedOrDisjoint y.range) ∧
        ¬ AttributedAlone moduleSymbols [moduleCall]) ∧
      ¬ AttributedAlone [laterSymbol] [earlierCall] := by
  have hnot : ∀ {nodes : List SymbolNode} {c : CallNode},
      ¬ LinesAgree (nodes.filter SymbolNode.isStored) c → ¬ AttributedAlone nodes [c] :=
    fun h hall => h (CallsAttributed.linesAgree hall List.mem_cons_self)
  refine ⟨hnot ?_, ⟨?_, hnot ?_⟩, hnot ?_⟩
  · decide
  · decide
  · decide
  · decide
