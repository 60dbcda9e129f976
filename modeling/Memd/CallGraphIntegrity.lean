/-
# References in the call graph

What the two tables of the call graph promise each other, over any order of indexing and
linking.

* `Referential` — the caller of an edge is a symbol of its file, its callee a symbol of its
  name, both of its tenant;
* `referential_indexFile_iff`, `relinked_linkCallees` — what one call preserves;
* `NeverGuesses` — what `link_callees` promises about candidates that are equally good;
* `call_graph_sound_iff` — a run keeps both promises exactly if every call meets its condition.

Indexing a file deletes its symbols, but the edges of other files keep the ids of callees they
were linked to.  Such an id then belongs to no symbol, or to whatever symbol got it next
(`keepsTargets`).  Linking compares the two best candidates only, so two candidates of one file
hide a third one of another (`tiesInOneFile`).
-/
import Mathlib.Data.List.Perm.Basic
import Memd.CallGraph

open Table (nextRowid insertRowids updateWhere deleteWhere mem_deleteWhere mem_updateWhere)

/-! ## Promises and conditions -/

namespace StructuralStore

/-- Every edge stands between symbols of the tables. -/
structure Referential (s : StructuralStore) : Prop where
  caller : ∀ e ∈ s.callEdges, ∃ x ∈ s.symbols,
    x.symbolId = e.callerSymbolId ∧ x.inFile e.tenantId e.callFile = true
  callee : ∀ e ∈ s.callEdges, ∀ id, e.calleeSymbolId = some id → ∃ x ∈ s.symbols,
    x.symbolId = id ∧ x.tenantId = e.tenantId ∧ x.name = e.calleeName

/-- No edge is linked to one of several equally good candidates in different files. -/
def NeverGuesses (s : StructuralStore) (t : TenantId) : Prop :=
  ∀ e ∈ s.listUnresolvedCallEdges t, ∀ best, s.calleeFor t e = some best →
    ∀ c ∈ s.calleePool t e, kindPriority c.kind = kindPriority best.kind →
      c.filePath = best.filePath

/-- The id an indexed file's symbols get first. -/
def firstNewId (s : StructuralStore) (t : TenantId) (file : String) : ℕ :=
  nextRowid SymbolRecord.symbolId (s.deleteFileSymbols t file).symbols

/-- No edge of another file is linked into the file, or the symbol that gets the id again has
the name. -/
def keepsTargets (s : StructuralStore) (t : TenantId) (file : String) (parsed : ParsedFile) : Bool :=
  s.callEdges.all fun e => e.inFile t file ||
    s.symbols.all fun x =>
      !(e.calleeSymbolId = some x.symbolId && x.inFile t file)
        || (s.firstNewId t file ≤ x.symbolId
          && (parsed.symbols[x.symbolId - s.firstNewId t file]?).any fun y => y.name = e.calleeName)

/-- If the two best candidates tie in one file, every candidate that ties is in it. -/
def tiesInOneFile (s : StructuralStore) (t : TenantId) : Bool :=
  (s.listUnresolvedCallEdges t).all fun e =>
    match s.calleePool t e with
    | best :: second :: rest =>
      !(kindPriority best.kind = kindPriority second.kind && best.filePath = second.filePath)
        || rest.all fun c => kindPriority c.kind ≠ kindPriority best.kind || c.filePath = best.filePath
    | _ => true

/-- The condition of one call, on the state before it. -/
def meets (env : StructuralExternals) (s : StructuralStore) : GraphStep → Bool
  | .index r =>
    match r.accepted env with
    | none => true
    | some (t, file, parsed) => s.keepsTargets t file parsed
  | .link t => s.tiesInOneFile t

/-- Every step of a list meets its condition. -/
def meetsAll (env : StructuralExternals) : StructuralStore → List GraphStep → Bool
  | _, [] => true
  | s, step :: steps => s.meets env step && meetsAll env (s.step env step) steps

/-- The promise of one call beyond the references. -/
def StepSound (s : StructuralStore) : GraphStep → Prop
  | .index _ => True
  | .link t => s.NeverGuesses t

/-- Every state of the run keeps the references, and every call its promise. -/
def Sound (env : StructuralExternals) : StructuralStore → List GraphStep → Prop
  | s, [] => s.Referential
  | s, step :: steps => s.Referential ∧ s.StepSound step ∧ Sound env (s.step env step) steps

/-! ## Ids -/

/-- Row ids are unique. -/
structure Keys (s : StructuralStore) : Prop where
  symbols : Table.Keyed SymbolRecord.symbolId s.symbols
  callEdges : Table.Keyed CallEdgeRecord.edgeId s.callEdges

variable {s : StructuralStore} {t : TenantId} {project : Option String} {file : String}
  {parsed : ParsedFile}

/-- The symbols after a file is indexed. -/
theorem indexFile_symbols :
    (s.indexFile t project file parsed).symbols =
      deleteWhere (SymbolRecord.inFile t file) s.symbols ++
        parsed.symbols.mapIdx fun i y =>
          toSymbolRecord t project file y (s.firstNewId t file + i) := by
  show insertRowids SymbolRecord.symbolId _ _ = _
  rw [Table.insertRowids_eq]
  · congr 1
    apply List.ext_getElem?
    intro i
    rw [List.getElem?_mapIdx, List.getElem?_map, List.getElem?_mapIdx, Option.map_map]
    rfl
  · intro row hrow n
    obtain ⟨y, _, rfl⟩ := List.mem_map.mp hrow
    rfl

/-- The edges after a file is indexed. -/
theorem indexFile_callEdges :
    (s.indexFile t project file parsed).callEdges =
      insertRowids CallEdgeRecord.edgeId (deleteWhere (CallEdgeRecord.inFile t file) s.callEdges)
        (parsed.calls.filterMap fun call =>
          (callerOf ((s.indexSymbols t project file parsed).findSymbolsByFile t file) call).map
            fun caller => toCallEdge t file caller call) := rfl

/-- Indexing a file keeps the tables keyed. -/
theorem Keys.indexFile (h : s.Keys) : (s.indexFile t project file parsed).Keys where
  symbols := by
    refine Table.Keyed.insertRowids _ ?_ (h.symbols.deleteWhere _)
    intro row hrow n
    obtain ⟨y, _, rfl⟩ := List.mem_map.mp hrow
    rfl
  callEdges := by
    rw [indexFile_callEdges]
    refine Table.Keyed.insertRowids _ ?_ (h.callEdges.deleteWhere _)
    intro row hrow n
    obtain ⟨call, _, hcall⟩ := List.mem_filterMap.mp hrow
    obtain ⟨caller, _, rfl⟩ := Option.map_eq_some_iff.mp hcall
    rfl

/-- The edges after indexing: those of other files, and unlinked ones from symbols of the file. -/
theorem mem_indexFile_callEdges {e : CallEdgeRecord}
    (he : e ∈ (s.indexFile t project file parsed).callEdges) :
    (e ∈ s.callEdges ∧ e.inFile t file = false) ∨
      (e.calleeSymbolId = none ∧ ∃ x ∈ (s.indexFile t project file parsed).symbols,
        x.symbolId = e.callerSymbolId ∧ x.inFile e.tenantId e.callFile = true) := by
  rw [indexFile_callEdges, Table.insertRowids_eq] at he
  · rcases List.mem_append.mp he with he | he
    · exact Or.inl (mem_deleteWhere.mp he)
    · obtain ⟨i, hi, rfl⟩ := List.mem_mapIdx.mp he
      obtain ⟨call, _, hcall⟩ := List.mem_filterMap.mp (List.getElem_mem hi)
      obtain ⟨caller, hcaller, hrow⟩ := Option.map_eq_some_iff.mp hcall
      rw [← hrow]
      refine Or.inr ⟨rfl, caller, ?_⟩
      have hmem := List.mem_of_find?_eq_some hcaller
      have hmem := (List.perm_insertionSort _ _).mem_iff.mp hmem
      obtain ⟨hsym, hfile⟩ := List.mem_filter.mp hmem
      exact ⟨hsym, rfl, hfile⟩
  · intro row hrow n
    obtain ⟨call, _, hcall⟩ := List.mem_filterMap.mp hrow
    obtain ⟨caller, _, rfl⟩ := Option.map_eq_some_iff.mp hcall
    rfl

/-- Indexing a file keeps the edges of other files. -/
theorem mem_indexFile_of_other {e : CallEdgeRecord} (he : e ∈ s.callEdges)
    (hfile : e.inFile t file = false) : e ∈ (s.indexFile t project file parsed).callEdges := by
  rw [indexFile_callEdges, Table.insertRowids_eq]
  · exact List.mem_append_left _ (mem_deleteWhere.mpr ⟨he, hfile⟩)
  · intro row hrow n
    obtain ⟨call, _, hcall⟩ := List.mem_filterMap.mp hrow
    obtain ⟨caller, _, rfl⟩ := Option.map_eq_some_iff.mp hcall
    rfl

/-- A row id of the file before indexing that the new symbols get again. -/
theorem keepsTargets_iff : s.keepsTargets t file parsed = true ↔
    ∀ e ∈ s.callEdges, e.inFile t file = false → ∀ x ∈ s.symbols,
      e.calleeSymbolId = some x.symbolId → x.inFile t file = true →
      s.firstNewId t file ≤ x.symbolId ∧
        ∃ y, parsed.symbols[x.symbolId - s.firstNewId t file]? = some y ∧ y.name = e.calleeName := by
  unfold keepsTargets
  rw [List.all_eq_true]
  refine forall₂_congr fun e _ => ?_
  cases hfile : e.inFile t file with
  | true => simp
  | false =>
    rw [Bool.false_or, List.all_eq_true]
    simp only [forall_const]
    refine forall₂_congr fun x _ => ?_
    cases hx : x.inFile t file with
    | false => simp
    | true =>
      by_cases hid : e.calleeSymbolId = some x.symbolId
      · simp [hid, Option.any_eq_true]
      · simp [hid]

/-- **Indexing** a file whose symbols stay keeps every edge between symbols. -/
theorem Referential.indexFile (hs : s.Referential) (hk : s.keepsTargets t file parsed = true) :
    (s.indexFile t project file parsed).Referential where
  caller := by
    intro e he
    rcases mem_indexFile_callEdges he with ⟨hold, hother⟩ | ⟨_, hnew⟩
    · obtain ⟨x, hx, hid, hfile⟩ := hs.caller e hold
      refine ⟨x, ?_, hid, hfile⟩
      rw [indexFile_symbols]
      refine List.mem_append_left _ (mem_deleteWhere.mpr ⟨hx, ?_⟩)
      simp only [SymbolRecord.inFile, CallEdgeRecord.inFile, Bool.and_eq_true,
        decide_eq_true_eq] at hfile hother ⊢
      rw [hfile.1, hfile.2]
      exact hother
    · exact hnew
  callee := by
    intro e he id hid
    rcases mem_indexFile_callEdges he with ⟨hold, hother⟩ | ⟨hnone, _⟩
    · obtain ⟨x, hx, rfl, htenant, hname⟩ := hs.callee e hold id hid
      rw [indexFile_symbols]
      cases hfile : x.inFile t file with
      | false => exact ⟨x, List.mem_append_left _ (mem_deleteWhere.mpr ⟨hx, hfile⟩), rfl, htenant, hname⟩
      | true =>
        obtain ⟨hle, y, hy, hyname⟩ := keepsTargets_iff.mp hk e hold hother x hx hid hfile
        have ht : x.tenantId = t := by
          simp only [SymbolRecord.inFile, Bool.and_eq_true, decide_eq_true_eq] at hfile
          exact hfile.1
        refine ⟨toSymbolRecord t project file y x.symbolId, List.mem_append_right _ ?_, rfl,
          ht.symm.trans htenant, hyname⟩
        rw [List.mem_iff_getElem?]
        refine ⟨x.symbolId - s.firstNewId t file, ?_⟩
        rw [List.getElem?_mapIdx, hy]
        simp only [Option.map_some, Nat.add_sub_cancel' hle]
    · rw [hnone] at hid
      exact absurd hid (by simp)

/-- An edge of another file that was linked into the file needs its id back under the name. -/
theorem keepsTargets_of_referential (hkeys : s.Keys)
    (h : (s.indexFile t project file parsed).Referential) :
    s.keepsTargets t file parsed = true := by
  refine keepsTargets_iff.mpr fun e he hother x hx hid hfile => ?_
  obtain ⟨z, hz, hzid, _, hzname⟩ := h.callee e (mem_indexFile_of_other he hother) _ hid
  rw [indexFile_symbols] at hz
  rcases List.mem_append.mp hz with hz | hz
  · -- a symbol that stays has its own id
    obtain ⟨hzmem, hzfile⟩ := mem_deleteWhere.mp hz
    have hzx : z = x := hkeys.symbols.eq hzmem hx hzid
    rw [hzx, hfile] at hzfile
    exact absurd hzfile (by simp)
  · obtain ⟨i, hi, rfl⟩ := List.mem_mapIdx.mp hz
    have hzid : s.firstNewId t file + i = x.symbolId := hzid
    refine ⟨by omega, parsed.symbols[i], ?_, hzname⟩
    rw [← hzid, Nat.add_sub_cancel_left, List.getElem?_eq_getElem hi]

/-- **Indexing a file** keeps the references exactly if no edge is left at an id of the file
that now means something else. -/
theorem referential_indexFile_iff (hkeys : s.Keys) (hs : s.Referential) :
    (s.indexFile t project file parsed).Referential ↔ s.keepsTargets t file parsed = true :=
  ⟨keepsTargets_of_referential hkeys, hs.indexFile⟩

/-! ## Linking -/

variable {e : CallEdgeRecord}

/-- The candidates for a callee are symbols of the tenant with the name. -/
theorem mem_calleePool {x : SymbolRecord} (hx : x ∈ s.calleePool t e) :
    x ∈ s.symbols ∧ x.tenantId = t ∧ x.name = e.calleeName := by
  unfold calleePool at hx
  dsimp only at hx
  have hx := (List.perm_insertionSort _ _).mem_iff.mp hx
  have hname : x ∈ s.findSymbolsByName t e.calleeName := by
    cases hproject : (s.getSymbolById t e.callerSymbolId).bind (·.projectId) with
    | none =>
      rw [hproject] at hx
      simpa only [ite_self] using hx
    | some project =>
      rw [hproject] at hx
      dsimp only at hx
      split at hx
      · exact hx
      · exact (List.mem_filter.mp hx).1
  obtain ⟨hmem, hmatch⟩ := List.mem_filter.mp hname
  simp only [Bool.and_eq_true, decide_eq_true_eq] at hmatch
  exact ⟨hmem, hmatch⟩

/-- The callee chosen is a candidate. -/
theorem calleeFor_mem {best : SymbolRecord} (h : s.calleeFor t e = some best) :
    best ∈ s.calleePool t e := by
  unfold calleeFor at h
  cases hpool : s.calleePool t e with
  | nil => rw [hpool] at h; exact absurd h (by simp)
  | cons first rest =>
    rw [hpool] at h
    cases rest with
    | nil =>
      cases h
      exact List.mem_cons_self
    | cons second rest =>
      dsimp only at h
      split at h
      · exact absurd h (by simp)
      · cases h
        exact List.mem_cons_self

/-- The edges of `s'` are edges of `s`, up to the callee they are linked to. -/
structure Relinked (s s' : StructuralStore) : Prop where
  symbols : s'.symbols = s.symbols
  edgeIds : s'.callEdges.map CallEdgeRecord.edgeId = s.callEdges.map CallEdgeRecord.edgeId
  edges : ∀ e' ∈ s'.callEdges, ∃ e ∈ s.callEdges, e'.edgeId = e.edgeId ∧
    e'.tenantId = e.tenantId ∧ e'.calleeName = e.calleeName

/-- Nothing has been relinked. -/
theorem Relinked.refl (s : StructuralStore) : s.Relinked s :=
  ⟨rfl, rfl, fun e he => ⟨e, he, rfl, rfl, rfl⟩⟩

/-- Setting the callee of an edge relinks. -/
theorem Relinked.update {s' : StructuralStore} (h : s.Relinked s') (edgeId symbolId : ℕ) :
    s.Relinked (s'.updateCallEdgeCallee edgeId symbolId) where
  symbols := h.symbols
  edgeIds := by
    rw [← h.edgeIds]
    show (s'.callEdges.map _).map _ = _
    rw [List.map_map]
    refine List.map_congr_left fun e _ => ?_
    by_cases he : e.edgeId = edgeId <;> simp [he]
  edges := by
    intro e' he'
    obtain ⟨e₁, he₁, rfl⟩ := mem_updateWhere.mp he'
    obtain ⟨e, he, hid, htenant, hname⟩ := h.edges e₁ he₁
    refine ⟨e, he, ?_⟩
    split
    · exact ⟨hid, htenant, hname⟩
    · exact ⟨hid, htenant, hname⟩

/-- Setting the callee of an edge to a symbol keeps every edge between symbols. -/
theorem Referential.update {s' : StructuralStore} (hs : s'.Referential) {edgeId : ℕ}
    {best : SymbolRecord} (hbest : best ∈ s'.symbols)
    (hedge : ∀ e' ∈ s'.callEdges, e'.edgeId = edgeId →
      best.tenantId = e'.tenantId ∧ best.name = e'.calleeName) :
    (s'.updateCallEdgeCallee edgeId best.symbolId).Referential where
  caller := by
    intro e' he'
    obtain ⟨e, he, rfl⟩ := mem_updateWhere.mp he'
    obtain ⟨x, hx, hid, hfile⟩ := hs.caller e he
    refine ⟨x, hx, ?_⟩
    split
    · exact ⟨hid, hfile⟩
    · exact ⟨hid, hfile⟩
  callee := by
    intro e' he' id hid
    obtain ⟨e, he, rfl⟩ := mem_updateWhere.mp he'
    by_cases hk : e.edgeId = edgeId
    · simp only [hk, decide_true, if_true, Option.some.injEq] at hid ⊢
      obtain ⟨htenant, hname⟩ := hedge e he hk
      exact ⟨best, hbest, hid, htenant, hname⟩
    · simp only [hk, decide_false, Bool.false_eq_true, if_false] at hid ⊢
      exact hs.callee e he id hid

/-- The loop of `link_callees`, from any point on. -/
theorem Relinked.loop (hkeys : s.Keys) (l : List CallEdgeRecord)
    (hl : ∀ e ∈ l, e ∈ s.callEdges ∧ e.tenantId = t) :
    ∀ {s' : StructuralStore}, s.Relinked s' → s'.Referential →
      s.Relinked (l.foldl (linkEdge t) s') ∧ (l.foldl (linkEdge t) s').Referential := by
  induction l with
  | nil => exact fun hr hs => ⟨hr, hs⟩
  | cons e l ih =>
    intro s' hr hs
    have hrest := @ih (fun e' he' => hl e' (List.mem_cons_of_mem _ he')) (linkEdge t s' e)
    obtain ⟨hmem, htenant⟩ := hl e List.mem_cons_self
    rw [List.foldl_cons]
    cases hbest : s'.calleeFor t e with
    | none =>
      have hstep : linkEdge t s' e = s' := by
        unfold linkEdge
        rw [hbest]
      rw [hstep] at hrest ⊢
      exact hrest hr hs
    | some best =>
      have hstep : linkEdge t s' e = s'.updateCallEdgeCallee e.edgeId best.symbolId := by
        unfold linkEdge
        rw [hbest]
      obtain ⟨hsym, hbestTenant, hbestName⟩ := mem_calleePool (calleeFor_mem hbest)
      rw [hstep] at hrest ⊢
      refine hrest (hr.update _ _) (hs.update hsym fun e' he' hid => ?_)
      obtain ⟨e₀, he₀, hid₀, htenant₀, hname₀⟩ := hr.edges e' he'
      have heq : e₀ = e := hkeys.callEdges.eq he₀ hmem (hid₀.symm.trans hid)
      rw [htenant₀, hname₀, heq]
      exact ⟨hbestTenant.trans htenant.symm, hbestName⟩

/-- **Linking** changes callees only, and to symbols of the tables. -/
theorem relinked_linkCallees (hkeys : s.Keys) (hs : s.Referential) (t : TenantId) :
    s.Relinked (s.linkCallees t) ∧ (s.linkCallees t).Referential := by
  refine (Relinked.refl s).loop hkeys _ (fun e he => ?_) hs
  obtain ⟨hmem, htenant⟩ := List.mem_filter.mp he
  simp only [Bool.and_eq_true, decide_eq_true_eq] at htenant
  exact ⟨hmem, htenant.1⟩

/-- Relinking keeps the tables keyed. -/
theorem Keys.relinked {s' : StructuralStore} (h : s.Keys) (hr : s.Relinked s') : s'.Keys where
  symbols := by
    rw [hr.symbols]
    exact h.symbols
  callEdges := by
    rw [Table.Keyed, hr.edgeIds]
    exact h.callEdges

/-- **Linking** guesses exactly where the two best candidates tie in one file and a further one
ties in another. -/
theorem neverGuesses_iff : s.NeverGuesses t ↔ s.tiesInOneFile t = true := by
  unfold NeverGuesses tiesInOneFile
  rw [List.all_eq_true]
  refine forall₂_congr fun e _ => ?_
  have hsorted : (s.calleePool t e).Pairwise fun a b => kindPriority a.kind ≤ kindPriority b.kind :=
    List.pairwise_insertionSort _ _
  unfold calleeFor
  cases hpool : s.calleePool t e with
  | nil => simp
  | cons best rest =>
    cases rest with
    | nil => simp
    | cons second rest =>
      rw [hpool] at hsorted
      obtain ⟨hbest, hrest⟩ := List.pairwise_cons.mp hsorted
      have hfirst := hbest second List.mem_cons_self
      by_cases htie : kindPriority best.kind = kindPriority second.kind
      · by_cases hfile : best.filePath = second.filePath
        · have hall : (∀ c ∈ best :: second :: rest,
              kindPriority c.kind = kindPriority best.kind → c.filePath = best.filePath) ↔
              ∀ c ∈ rest, kindPriority c.kind = kindPriority best.kind →
                c.filePath = best.filePath :=
            ⟨fun h c hc => h c (List.mem_cons_of_mem _ (List.mem_cons_of_mem _ hc)),
              fun h => List.forall_mem_cons.mpr ⟨fun _ => rfl,
                List.forall_mem_cons.mpr ⟨fun _ => hfile.symm, h⟩⟩⟩
          dsimp only
          rw [if_neg (by simp [hfile])]
          simp only [Option.some.injEq, forall_eq', hall]
          simp [htie, hfile, imp_iff_not_or]
        · simp [htie, hfile]
      · -- the best kind is better than the second, so nothing ties with it
        simp only [htie, decide_false, Bool.false_and, Bool.false_eq_true, if_false,
          Option.some.injEq, forall_eq', Bool.not_false, Bool.true_or, iff_true]
        intro c hc hkind
        rcases List.mem_cons.mp hc with rfl | hc
        · rfl
        · have hle : kindPriority second.kind ≤ kindPriority c.kind := by
            rcases List.mem_cons.mp hc with rfl | hc
            · exact Nat.le_refl _
            · exact (List.pairwise_cons.mp hrest).1 c hc
          omega

/-! ## Runs -/

/-- Every step keeps the tables keyed. -/
theorem Keys.step (env : StructuralExternals) (hkeys : s.Keys) (hs : s.Referential)
    (step : GraphStep) : (s.step env step).Keys := by
  cases step with
  | index r =>
    show (maybeIndexStructuralChunk env s r).Keys
    unfold maybeIndexStructuralChunk
    cases r.accepted env with
    | none => exact hkeys
    | some accepted => exact hkeys.indexFile
  | link t => exact hkeys.relinked (relinked_linkCallees hkeys hs t).1

/-- **One call.** -/
theorem step_sound_iff (env : StructuralExternals) (hkeys : s.Keys) (hs : s.Referential)
    (step : GraphStep) :
    s.StepSound step ∧ (s.step env step).Referential ↔ s.meets env step = true := by
  cases step with
  | index r =>
    show True ∧ (maybeIndexStructuralChunk env s r).Referential ↔ _
    unfold maybeIndexStructuralChunk meets
    rw [true_and]
    dsimp only
    cases r.accepted env with
    | none => exact ⟨fun _ => rfl, fun _ => hs⟩
    | some accepted => exact referential_indexFile_iff hkeys hs
  | link t =>
    show s.NeverGuesses t ∧ (s.linkCallees t).Referential ↔ s.tiesInOneFile t = true
    rw [neverGuesses_iff]
    exact and_iff_left (relinked_linkCallees hkeys hs t).2

/-- The condition on the steps is decided by running them. -/
theorem sound_iff (env : StructuralExternals) (steps : List GraphStep) :
    ∀ {s : StructuralStore}, s.Keys → s.Referential →
      (s.Sound env steps ↔ s.meetsAll env steps = true) := by
  induction steps with
  | nil => exact fun _ hs => ⟨fun _ => rfl, fun _ => hs⟩
  | cons step steps ih =>
    intro s hkeys hs
    have hone := step_sound_iff env hkeys hs step
    have hkeys' := hkeys.step env hs step
    rw [Sound, meetsAll, Bool.and_eq_true, ← hone]
    constructor
    · rintro ⟨_, hstep, hrest⟩
      have hs' : (s.step env step).Referential := by
        cases steps with
        | nil => exact hrest
        | cons _ _ => exact hrest.1
      exact ⟨⟨hstep, hs'⟩, (ih hkeys' hs').mp hrest⟩
    · rintro ⟨⟨hstep, hs'⟩, hrest⟩
      exact ⟨hs, hstep, (ih hkeys' hs').mpr hrest⟩

/-- The empty tables are keyed. -/
theorem keys_empty : Keys {} := ⟨Table.Keyed.nil _, Table.Keyed.nil _⟩

/-- The empty tables have no edge. -/
theorem referential_empty : Referential {} :=
  ⟨fun _ he => absurd he List.not_mem_nil, fun _ he => absurd he List.not_mem_nil⟩

/-- **The call graph keeps its references**, and linking never guesses, exactly in the runs whose
calls all meet their condition. -/
theorem call_graph_sound_iff (env : StructuralExternals) (steps : List GraphStep) :
    StructuralStore.Sound env {} steps ↔ StructuralStore.meetsAll env {} steps = true :=
  sound_iff env steps keys_empty referential_empty

/-- The contents of the files below: rows count from 0, the lines of calls from 1. -/
def sampleParser : StructuralExternals where
  parse _ text := match text with
    | "fn main() \x7b\n    f();\n\x7d" => some
      { symbols := [⟨"main", .function, 0, 2⟩], calls := [⟨"f", 2, 5, .direct⟩] }
    | "fn f() {}" => some { symbols := [⟨"f", .function, 0, 0⟩], calls := [] }
    | "#[cfg(a)]\nfn f() {}\n#[cfg(b)]\nfn f() {}" => some
      { symbols := [⟨"f", .function, 1, 1⟩, ⟨"f", .function, 3, 3⟩], calls := [] }
    | "fn g() {}" => some { symbols := [⟨"g", .function, 0, 0⟩], calls := [] }
    | "// moved" => some { symbols := [], calls := [] }
    | _ => none

/-- A file of the sample is indexed. -/
def sampleIndex (file text : String) : GraphStep :=
  .index { tenantId := "t", projectId := none, chunkType := "code", sourcePath := some file,
           text := text }

/-- The tenant of the sample. -/
def sampleTenant : TenantId := "t"

/-- The file with the call. -/
def sampleCaller : GraphStep :=
  sampleIndex "a.rs" "fn main() \x7b\n    f();\n\x7d"

/-- The edge of the call is stored, so there is something to lose. -/
example : (StructuralStore.step sampleParser {} sampleCaller).callEdges.map (·.calleeName) = ["f"] := by
  decide

/-- **A linked callee is deleted.**  After its file is indexed again the edge keeps an id of no
symbol, or of a symbol of another name. -/
theorem reindexed_callee_is_lost :
    ¬ StructuralStore.Sound sampleParser {}
        [sampleCaller, sampleIndex "b.rs" "fn f() {}", .link sampleTenant,
          sampleIndex "b.rs" "// moved"] ∧
      ¬ StructuralStore.Sound sampleParser {}
        [sampleCaller, sampleIndex "b.rs" "fn f() {}", .link sampleTenant,
          sampleIndex "b.rs" "fn g() {}"] ∧
      ¬ StructuralStore.Sound sampleParser {}
        [sampleCaller, sampleIndex "b.rs" "#[cfg(a)]\nfn f() {}\n#[cfg(b)]\nfn f() {}",
          sampleIndex "c.rs" "fn f() {}", .link sampleTenant] := by
  refine ⟨?_, ?_, ?_⟩ <;> rw [sound_iff _ _ keys_empty referential_empty] <;> decide

end StructuralStore
