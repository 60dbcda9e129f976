/-
# Searching the callers of a name

`find_callers` of the structural queries walks up the call graph with a stack of names and one
set of callers it has seen.

* `foldl_visitEdge` — what visiting the edges of a name adds;
* `Later`, `Later.expand` — what holds once the callers of the name itself are visited;
* `exact_of_not_shortcut` — without a shortcut the search returns the callers within its depth,
  with the length of their shortest chains;
* `not_exact_of_shortcut` — with one, some order of the edges gives a wrong depth;
* `findCallers_exact_iff` — the two together.
-/
import Mathlib.Data.Finset.Image
import Memd.CallGraph
import Memd.RankedMerge

/-! ## The search -/

/-- `CallerInfo`: a caller as `find_callers` returns it. -/
structure CallerInfo where
  callerName : String
  callerFile : String
  callLine : ℕ
  callCol : ℕ
  callerKind : SymbolKind
  depth : ℕ
  deriving DecidableEq, Repr

/-- What the search keeps between two names; a caller stands with the id of its symbol. -/
structure CallerSearch where
  callers : List (ℕ × CallerInfo) := []
  visited : Finset ℕ := ∅
  toVisit : List (String × ℕ) := []

namespace StructuralStore

/-- `find_callers` of the store. -/
def callEdgesOf (s : StructuralStore) (t : TenantId) (callee : String) : List CallEdgeRecord :=
  s.callEdges.filter fun e => e.tenantId = t && e.calleeName = callee

/-- Name, kind and project of a caller, or what stands for a symbol that is not found. -/
def resolveCaller (s : StructuralStore) (t : TenantId) (id : ℕ) :
    String × SymbolKind × Option String :=
  match s.getSymbolById t id with
  | some x => (x.name, x.kind, x.projectId)
  | none => (s!"caller_{id}", .function, none)

/-- The name of a symbol, or nothing for one that is gone. -/
def callerName (s : StructuralStore) (t : TenantId) (id : ℕ) : String :=
  (s.resolveCaller t id).1

/-- The filter on the project of a caller. -/
def inProject (s : StructuralStore) (t : TenantId) (project : Option String) (id : ℕ) : Bool :=
  project.all fun p => (s.resolveCaller t id).2.2 == some p

/-- The answer's entry for the caller of an edge. -/
def callerInfo (s : StructuralStore) (t : TenantId) (depth : ℕ) (e : CallEdgeRecord) : CallerInfo where
  callerName := s.callerName t e.callerSymbolId
  callerFile := e.callFile
  callLine := e.callLine
  callCol := e.callCol
  callerKind := (s.resolveCaller t e.callerSymbolId).2.1
  depth := depth

/-- One pass of the inner loop of `find_callers`; the top of the stack is the head of the list. -/
def visitEdge (s : StructuralStore) (t : TenantId) (project : Option String) (maxDepth depth : ℕ)
    (st : CallerSearch) (e : CallEdgeRecord) : CallerSearch :=
  if e.callerSymbolId ∈ st.visited then st
  else
    let st := { st with visited := insert e.callerSymbolId st.visited }
    if s.inProject t project e.callerSymbolId then
      { st with
        callers := st.callers ++ [(e.callerSymbolId, s.callerInfo t depth e)]
        toVisit := if depth < maxDepth then
          (s.callerName t e.callerSymbolId, depth + 1) :: st.toVisit else st.toVisit }
    else st

variable (s : StructuralStore) (t : TenantId) (project : Option String) (maxDepth : ℕ)

/-- The callers of a name, visited at a depth. -/
def expand (st : CallerSearch) (callee : String) (depth : ℕ) : CallerSearch :=
  (s.callEdgesOf t callee).foldl (s.visitEdge t project maxDepth depth) st

/-- The edges whose callers are not visited, and the names on the stack. -/
def workLeft (st : CallerSearch) : ℕ :=
  (s.callEdges.filter fun e => e.callerSymbolId ∉ st.visited).length + st.toVisit.length

/-- Visiting an edge leaves no more work than before. -/
theorem workLeft_visitEdge (depth : ℕ) (st : CallerSearch) {e : CallEdgeRecord}
    (he : e ∈ s.callEdges) :
    s.workLeft (s.visitEdge t project maxDepth depth st e) ≤ s.workLeft st := by
  unfold visitEdge
  split
  · exact Nat.le_refl _
  · rename_i hnew
    have hfewer : (s.callEdges.filter fun x =>
        x.callerSymbolId ∉ insert e.callerSymbolId st.visited).length <
        (s.callEdges.filter fun x => x.callerSymbolId ∉ st.visited).length := by
      have hmem : e ∈ s.callEdges.filter fun x => x.callerSymbolId ∉ st.visited :=
        List.mem_filter.mpr ⟨he, by simpa using hnew⟩
      have hsplit : (s.callEdges.filter fun x =>
          x.callerSymbolId ∉ insert e.callerSymbolId st.visited) =
          (s.callEdges.filter fun x => x.callerSymbolId ∉ st.visited).filter fun x =>
            x.callerSymbolId ≠ e.callerSymbolId := by
        rw [List.filter_filter]
        apply List.filter_congr
        intro x _
        simp [not_or]
      rw [hsplit]
      exact List.length_filter_lt_length_iff_exists.mpr ⟨e, hmem, by simp⟩
    dsimp only
    split
    · unfold workLeft
      dsimp only
      split
      · rw [List.length_cons]
        omega
      · omega
    · unfold workLeft
      dsimp only
      omega

/-- Expanding a name leaves no more work than before. -/
theorem workLeft_expand (st : CallerSearch) (callee : String) (depth : ℕ) :
    s.workLeft (s.expand t project maxDepth st callee depth) ≤ s.workLeft st := by
  unfold expand
  have hsub : ∀ e ∈ s.callEdgesOf t callee, e ∈ s.callEdges := fun e => List.mem_of_mem_filter
  generalize s.callEdgesOf t callee = edges at hsub
  induction edges generalizing st with
  | nil => exact Nat.le_refl _
  | cons e edges ih =>
    rw [List.foldl_cons]
    exact (ih _ fun x hx => hsub x (List.mem_cons_of_mem e hx)).trans
      (workLeft_visitEdge s t project maxDepth depth st (hsub e List.mem_cons_self))

/-- The loop of `find_callers`. -/
def searchCallers (st : CallerSearch) : CallerSearch :=
  match _h : st.toVisit with
  | [] => st
  | (callee, depth) :: rest =>
    if maxDepth < depth then searchCallers { st with toVisit := rest }
    else searchCallers (s.expand t project maxDepth { st with toVisit := rest } callee depth)
termination_by s.workLeft st
decreasing_by
  · simp [workLeft, _h]
  · refine (workLeft_expand s t project maxDepth _ callee depth).trans_lt ?_
    simp [workLeft, _h]

/-- The edges through which callers of a name become new, of the project. -/
def newEdges (st : CallerSearch) (edges : List CallEdgeRecord) : List CallEdgeRecord :=
  (Ranked.firstOf CallEdgeRecord.callerSymbolId st.visited edges).filter fun e =>
    s.inProject t project e.callerSymbolId

/-- **The inner loop** visits the callers of the edges, and adds the new ones of the project. -/
theorem foldl_visitEdge (depth : ℕ) (edges : List CallEdgeRecord) (st : CallerSearch) :
    edges.foldl (s.visitEdge t project maxDepth depth) st =
      { callers := st.callers ++ (newEdges s t project st edges).map fun e =>
          (e.callerSymbolId, s.callerInfo t depth e)
        visited := st.visited ∪ (edges.map CallEdgeRecord.callerSymbolId).toFinset
        toVisit := (if depth < maxDepth then ((newEdges s t project st edges).map fun e =>
          (s.callerName t e.callerSymbolId, depth + 1)).reverse else []) ++ st.toVisit } := by
  induction edges generalizing st with
  | nil => simp [newEdges]
  | cons e edges ih =>
    rw [List.foldl_cons, ih]
    unfold visitEdge newEdges
    by_cases hseen : e.callerSymbolId ∈ st.visited
    · rw [if_pos hseen, Ranked.firstOf_cons_of_mem hseen, List.map_cons, List.toFinset_cons]
      have hvisited : st.visited ∪ (edges.map CallEdgeRecord.callerSymbolId).toFinset = st.visited ∪
          insert e.callerSymbolId (edges.map CallEdgeRecord.callerSymbolId).toFinset := by
        rw [Finset.union_insert, Finset.insert_eq_of_mem (Finset.mem_union_left _ hseen)]
      rw [hvisited]
    · rw [if_neg hseen, Ranked.firstOf_cons_of_notMem hseen, List.map_cons, List.toFinset_cons,
        Finset.union_insert, ← Finset.insert_union]
      dsimp only
      by_cases hproject : s.inProject t project e.callerSymbolId
      · by_cases hdepth : depth < maxDepth <;> simp [hproject, hdepth]
      · by_cases hdepth : depth < maxDepth <;> simp [hproject, hdepth]

/-- `find_callers`, with the ids of the callers. -/
def findCallersById (name : String) : List (ℕ × CallerInfo) :=
  (searchCallers s t project (max 1 (min maxDepth 3)) { toVisit := [(name, 1)] }).callers

/-- `find_callers`. -/
def findCallers (name : String) : List CallerInfo :=
  (findCallersById s t project maxDepth name).map Prod.snd

/-! ## Call chains -/

/-- A caller has an edge to a name. -/
def Calls (id : ℕ) (callee : String) : Prop :=
  ∃ e ∈ s.callEdgesOf t callee, e.callerSymbolId = id

/-- Callers of the project, each of which calls the name of the one before it, the first the name
of the search. -/
inductive CallChain (name : String) : ℕ → ℕ → Prop
  | direct {id : ℕ} (hproject : s.inProject t project id = true) (hcalls : s.Calls t id name) :
      CallChain name 1 id
  | further {k c id : ℕ} (hproject : s.inProject t project id = true)
      (hchain : CallChain name k c) (hcalls : s.Calls t id (s.callerName t c)) :
      CallChain name (k + 1) id

/-- The length of the shortest chain of a caller. -/
def ShortestChain (name : String) (k id : ℕ) : Prop :=
  CallChain s t project name k id ∧ ∀ j < k, ¬ CallChain s t project name j id

variable {s t project maxDepth}
variable {name callee : String} {st : CallerSearch} {depth k id : ℕ}

/-- A chain of calls has at least one call. -/
theorem CallChain.pos (h : CallChain s t project name k id) : 1 ≤ k := by
  cases h with
  | direct => exact Nat.le_refl 1
  | further => exact Nat.le_add_left 1 _

/-- The caller at the head of a chain is in the project. -/
theorem CallChain.inProject (h : CallChain s t project name k id) :
    s.inProject t project id = true := by
  cases h with
  | direct hproject => exact hproject
  | further hproject => exact hproject

/-- A chain of one call is a call. -/
theorem CallChain.calls (h : CallChain s t project name 1 id) : s.Calls t id name := by
  cases h with
  | direct _ hcalls => exact hcalls
  | further _ hchain _ => exact absurd hchain.pos (by decide)

/-- The length of a shortest chain is unique. -/
theorem ShortestChain.eq {j : ℕ} (h : ShortestChain s t project name k id)
    (h' : ShortestChain s t project name j id) : k = j := by
  rcases Nat.lt_trichotomy k j with hlt | heq | hlt
  · exact absurd h.1 (h'.2 k hlt)
  · exact heq
  · exact absurd h'.1 (h.2 j hlt)

/-! ## What a name adds -/

/-- An edge taken up is one of the list, with a new caller in the project. -/
theorem of_mem_newEdges {e : CallEdgeRecord} {edges : List CallEdgeRecord}
    (h : e ∈ newEdges s t project st edges) :
    e ∈ edges ∧ e.callerSymbolId ∉ st.visited ∧ s.inProject t project e.callerSymbolId = true := by
  obtain ⟨hfirst, hproject⟩ := List.mem_filter.mp h
  exact ⟨(Ranked.firstOf_sublist _ _ _).subset hfirst,
    (Ranked.firstOf_keys _ _ _).1 e hfirst, hproject⟩

/-- No caller is taken up twice. -/
theorem nodup_newEdges (edges : List CallEdgeRecord) :
    ((newEdges s t project st edges).map CallEdgeRecord.callerSymbolId).Nodup :=
  (Ranked.firstOf_nodup _ _ _).sublist (List.filter_sublist.map _)

/-- A new caller of the project is added. -/
theorem exists_newEdges (hcalls : s.Calls t id callee) (hnew : id ∉ st.visited)
    (hproject : s.inProject t project id = true) :
    ∃ e ∈ newEdges s t project st (s.callEdgesOf t callee), e.callerSymbolId = id := by
  obtain ⟨e, he, rfl⟩ := hcalls
  obtain ⟨e', he', hid⟩ := Ranked.exists_mem_firstOf CallEdgeRecord.callerSymbolId _ st.visited e he hnew
  exact ⟨e', List.mem_filter.mpr ⟨he', by rw [hid]; exact hproject⟩, hid⟩

/-- After a name is expanded its callers have been visited. -/
theorem mem_visited_expand : id ∈ (s.expand t project maxDepth st callee depth).visited ↔
    id ∈ st.visited ∨ s.Calls t id callee := by
  rw [expand, foldl_visitEdge, Finset.mem_union, List.mem_toFinset, List.mem_map]
  rfl

/-- Expanding a name appends its new callers at that depth. -/
theorem callers_expand : (s.expand t project maxDepth st callee depth).callers = st.callers ++
    (newEdges s t project st (s.callEdgesOf t callee)).map fun e =>
      (e.callerSymbolId, s.callerInfo t depth e) := by
  rw [expand, foldl_visitEdge]

/-- The names on the stack behind a name. -/
theorem mem_toVisit_expand {x : String × ℕ} :
    x ∈ (s.expand t project maxDepth st callee depth).toVisit ↔ x ∈ st.toVisit ∨
      depth < maxDepth ∧ ∃ e ∈ newEdges s t project st (s.callEdgesOf t callee),
        x = (s.callerName t e.callerSymbolId, depth + 1) := by
  rw [expand, foldl_visitEdge, List.mem_append]
  split
  · rename_i hlt
    simp only [List.mem_reverse, List.mem_map, hlt, true_and, eq_comm, or_comm]
  · rename_i hge
    simp [hge]

/-! ## The search finds chains -/

section Run

variable (s t project maxDepth name)

/-- The name stands on the stack at a depth at which it belongs there. -/
def NameAt (x : String × ℕ) : Prop :=
  x = (name, 1) ∨ ∃ c j, CallChain s t project name j c ∧ x = (s.callerName t c, j + 1)

/-- What the search has found, and what it still has to visit. -/
structure SoundSearch (st : CallerSearch) : Prop where
  nodup : (st.callers.map Prod.fst).Nodup
  seen : ∀ p ∈ st.callers, p.1 ∈ st.visited
  found : ∀ id ∈ st.visited, s.inProject t project id = true → id ∈ st.callers.map Prod.fst
  chain : ∀ p ∈ st.callers, CallChain s t project name p.2.depth p.1 ∧ p.2.depth ≤ maxDepth
  entry : ∀ p ∈ st.callers, ∃ e ∈ s.callEdges, e.tenantId = t ∧ e.callerSymbolId = p.1 ∧
    p.2 = s.callerInfo t p.2.depth e
  item : ∀ x ∈ st.toVisit, NameAt s t project name x ∧ x.2 ≤ maxDepth
  closed : ∀ p ∈ st.callers, p.2.depth < maxDepth →
    (s.callerName t p.1, p.2.depth + 1) ∈ st.toVisit ∨
      ∀ id, s.Calls t id (s.callerName t p.1) → id ∈ st.visited
  root : (name, 1) ∈ st.toVisit ∨ ∀ id, s.Calls t id name → id ∈ st.visited

variable {s t project maxDepth name}

/-- A caller of a name at some depth has a chain one longer. -/
theorem NameAt.chain (h : NameAt s t project name (callee, depth))
    (hproject : s.inProject t project id = true) (hcalls : s.Calls t id callee) :
    CallChain s t project name depth id := by
  rcases h with h | ⟨c, j, hchain, h⟩
  · obtain ⟨rfl, rfl⟩ := Prod.mk.inj h
    exact .direct hproject hcalls
  · obtain ⟨rfl, rfl⟩ := Prod.mk.inj h
    exact .further hproject hchain hcalls

/-- **Visiting a name** keeps what is found. -/
theorem SoundSearch.expand {rest : List (String × ℕ)} (h : SoundSearch s t project maxDepth name st)
    (htop : st.toVisit = (callee, depth) :: rest) : SoundSearch s t project maxDepth name
      (s.expand t project maxDepth { st with toVisit := rest } callee depth) := by
  obtain ⟨hname, hdepth⟩ := h.item (callee, depth) (htop ▸ List.mem_cons_self)
  -- a name that leaves the stack has its callers visited
  have hleaves : ∀ {n : String} {k : ℕ}, (n, k) ∈ st.toVisit → (n, k) ∈ rest ∨ n = callee := by
    intro n k hmem
    rw [htop] at hmem
    rcases List.mem_cons.mp hmem with heq | hmem
    · exact .inr (Prod.mk.inj heq).1
    · exact .inl hmem
  constructor
  · rw [callers_expand, List.map_append, List.map_map]
    refine List.nodup_append.mpr ⟨h.nodup, nodup_newEdges _, ?_⟩
    intro id hid id' hid' heq
    obtain ⟨p, hp, rfl⟩ := List.mem_map.mp hid
    obtain ⟨e, he, rfl⟩ := List.mem_map.mp hid'
    have hsame : p.1 = e.callerSymbolId := heq
    exact (of_mem_newEdges he).2.1 (hsame ▸ h.seen p hp)
  · intro p hp
    rw [mem_visited_expand]
    rw [callers_expand] at hp
    rcases List.mem_append.mp hp with hp | hp
    · exact .inl (h.seen p hp)
    · obtain ⟨e, he, rfl⟩ := List.mem_map.mp hp
      exact .inr ⟨e, (of_mem_newEdges he).1, rfl⟩
  · intro id hid hproject
    rw [callers_expand, List.map_append, List.mem_append]
    by_cases hold : id ∈ st.visited
    · exact .inl (h.found id hold hproject)
    · have hcalls := (mem_visited_expand.mp hid).resolve_left hold
      obtain ⟨e, he, rfl⟩ := exists_newEdges hcalls hold hproject
      exact .inr (List.mem_map.mpr ⟨_, List.mem_map.mpr ⟨e, he, rfl⟩, rfl⟩)
  · intro p hp
    rw [callers_expand] at hp
    rcases List.mem_append.mp hp with hp | hp
    · exact h.chain p hp
    · obtain ⟨e, he, rfl⟩ := List.mem_map.mp hp
      obtain ⟨hedge, -, hproject⟩ := of_mem_newEdges he
      exact ⟨hname.chain hproject ⟨e, hedge, rfl⟩, hdepth⟩
  · intro p hp
    rw [callers_expand] at hp
    rcases List.mem_append.mp hp with hp | hp
    · exact h.entry p hp
    · obtain ⟨e, he, rfl⟩ := List.mem_map.mp hp
      obtain ⟨hmem, hedge⟩ := List.mem_filter.mp (of_mem_newEdges he).1
      simp only [Bool.and_eq_true, decide_eq_true_eq] at hedge
      exact ⟨e, hmem, hedge.1, rfl, rfl⟩
  · intro x hx
    rcases mem_toVisit_expand.mp hx with hx | ⟨hlt, e, he, rfl⟩
    · exact h.item x (htop ▸ List.mem_cons_of_mem _ hx)
    · obtain ⟨hedge, -, hproject⟩ := of_mem_newEdges he
      exact ⟨.inr ⟨_, _, hname.chain hproject ⟨e, hedge, rfl⟩, rfl⟩, hlt⟩
  · intro p hp hlt
    rw [callers_expand] at hp
    rcases List.mem_append.mp hp with hp | hp
    · rcases h.closed p hp hlt with hmem | hdone
      · rcases hleaves hmem with hmem | heq
        · exact .inl (mem_toVisit_expand.mpr (.inl hmem))
        · right
          intro id hcalls
          exact mem_visited_expand.mpr (.inr (heq ▸ hcalls))
      · exact .inr fun id hcalls => mem_visited_expand.mpr (.inl (hdone id hcalls))
    · obtain ⟨e, he, rfl⟩ := List.mem_map.mp hp
      exact .inl (mem_toVisit_expand.mpr (.inr ⟨hlt, e, he, rfl⟩))
  · rcases h.root with hmem | hdone
    · rcases hleaves hmem with hmem | heq
      · exact .inl (mem_toVisit_expand.mpr (.inl hmem))
      · exact .inr fun id hcalls => mem_visited_expand.mpr (.inr (heq ▸ hcalls))
    · exact .inr fun id hcalls => mem_visited_expand.mpr (.inl (hdone id hcalls))

/-- What visiting a name keeps holds when the stack is empty. -/
theorem searchCallers_induction {P : CallerSearch → Prop}
    (hstep : ∀ st callee depth rest, P st → st.toVisit = (callee, depth) :: rest →
      depth ≤ maxDepth ∧ P (s.expand t project maxDepth { st with toVisit := rest } callee depth))
    (st : CallerSearch) (h : P st) : P (s.searchCallers t project maxDepth st) ∧
      (s.searchCallers t project maxDepth st).toVisit = [] := by
  fun_induction searchCallers s t project maxDepth st with
  | case1 st hempty => exact ⟨h, hempty⟩
  | case2 st callee depth rest htop hlt ih =>
    exact absurd (hstep st callee depth rest h htop).1 (not_le.mpr hlt)
  | case3 st callee depth rest htop hlt ih => exact ih (hstep st callee depth rest h htop).2

/-! ## Depths -/

variable (s t project name)

/-- A caller of depth 2 that calls another one of depth 2, but not the name through which that
one was found. -/
def Shortcut : Prop :=
  ∃ b c d, ShortestChain s t project name 1 b ∧ ShortestChain s t project name 2 c ∧
    s.Calls t c (s.callerName t b) ∧ ShortestChain s t project name 2 d ∧
    s.Calls t d (s.callerName t c) ∧ ¬ s.Calls t d (s.callerName t b)

variable (maxDepth)

/-- The state behind the callers of the name itself: depths are shortest, and a name at depth 3
is that of a caller found through a name whose callers are all visited. -/
structure Later (st : CallerSearch) : Prop extends SoundSearch s t project maxDepth name st where
  shortest : ∀ p ∈ st.callers, ShortestChain s t project name p.2.depth p.1
  deep : ∀ x ∈ st.toVisit, 2 ≤ x.2
  rootDone : ∀ id, s.Calls t id name → id ∈ st.visited
  third : ∀ x ∈ st.toVisit, x.2 = 3 → ∃ b c, ShortestChain s t project name 1 b ∧
    ShortestChain s t project name 2 c ∧ s.Calls t c (s.callerName t b) ∧
    x.1 = s.callerName t c ∧ ∀ id, s.Calls t id (s.callerName t b) → id ∈ st.visited

variable {s t project maxDepth name}

/-- A chain of one call is shortest. -/
theorem shortest_one (h : CallChain s t project name 1 id) : ShortestChain s t project name 1 id := by
  refine ⟨h, fun j hj hchain => ?_⟩
  have hpos := hchain.pos
  omega

/-- A caller that is new behind the name itself has no chain of length 1. -/
theorem shortest_two (hroot : ∀ id, s.Calls t id name → id ∈ st.visited) (hnew : id ∉ st.visited)
    (h : CallChain s t project name 2 id) : ShortestChain s t project name 2 id := by
  refine ⟨h, fun j hj hchain => ?_⟩
  have hpos := hchain.pos
  obtain rfl : j = 1 := by omega
  exact hnew (hroot id hchain.calls)

/-- The invariant of the search holds at its start. -/
theorem sound_start (h : 1 ≤ maxDepth) :
    SoundSearch s t project maxDepth name { toVisit := [(name, 1)] } where
  nodup := List.nodup_nil
  seen p hp := absurd hp List.not_mem_nil
  found id hid := absurd hid (Finset.notMem_empty id)
  chain p hp := absurd hp List.not_mem_nil
  entry p hp := absurd hp List.not_mem_nil
  item x hx := by
    rw [List.mem_singleton.mp hx]
    exact ⟨.inl rfl, h⟩
  closed p hp := absurd hp List.not_mem_nil
  root := .inl List.mem_cons_self

/-- **Visiting the name itself** finds its callers, at depth 1. -/
theorem later_start (h : 1 ≤ maxDepth) : Later s t project maxDepth name
    (s.expand t project maxDepth {} name 1) where
  toSoundSearch := (sound_start h).expand rfl
  shortest p hp := by
    have hsound : SoundSearch s t project maxDepth name (s.expand t project maxDepth {} name 1) :=
      (sound_start h).expand rfl
    obtain ⟨hchain, -⟩ := hsound.chain p hp
    rw [callers_expand] at hp
    obtain ⟨e, he, rfl⟩ := List.mem_map.mp ((List.mem_append.mp hp).resolve_left List.not_mem_nil)
    exact shortest_one hchain
  deep x hx := by
    rcases mem_toVisit_expand.mp hx with hx | ⟨-, e, -, rfl⟩
    · exact absurd hx List.not_mem_nil
    · exact Nat.le_refl 2
  rootDone id hcalls := mem_visited_expand.mpr (.inr hcalls)
  third x hx hthree := by
    rcases mem_toVisit_expand.mp hx with hx | ⟨-, e, -, rfl⟩
    · exact absurd hx List.not_mem_nil
    · exact absurd hthree (by simp)

/-- **Visiting a later name** keeps depths shortest, if there is no shortcut at depth 3. -/
theorem Later.expand {rest : List (String × ℕ)} (h : Later s t project maxDepth name st)
    (hmax : maxDepth ≤ 3) (hcut : maxDepth ≤ 2 ∨ ¬ Shortcut s t project name)
    (htop : st.toVisit = (callee, depth) :: rest) : Later s t project maxDepth name
      (s.expand t project maxDepth { st with toVisit := rest } callee depth) := by
  have htopMem : (callee, depth) ∈ st.toVisit := htop ▸ List.mem_cons_self
  obtain ⟨hname, hdepth⟩ := h.item _ htopMem
  have hdeep : 2 ≤ depth := h.deep _ htopMem
  -- the depth of a new caller is that of its shortest chain
  have hnew : ∀ e ∈ newEdges s t project { st with toVisit := rest } (s.callEdgesOf t callee),
      ShortestChain s t project name depth e.callerSymbolId := by
    intro e he
    obtain ⟨hedge, hvisited, hproject⟩ := of_mem_newEdges he
    have hcalls : s.Calls t e.callerSymbolId callee := ⟨e, hedge, rfl⟩
    have hchain := hname.chain hproject hcalls
    by_cases htwo : depth = 2
    · subst htwo
      exact shortest_two h.rootDone hvisited hchain
    · obtain rfl : depth = 3 := by omega
      obtain ⟨b, c, hb, hc, hcb, rfl, hdone⟩ := h.third _ htopMem rfl
      refine ⟨hchain, fun j hj hshort => ?_⟩
      have hpos := hshort.pos
      by_cases hone : j = 1
      · subst hone
        exact hvisited (h.rootDone _ hshort.calls)
      · obtain rfl : j = 2 := by omega
        have hnot := hcut.resolve_left (by omega)
        exact hnot ⟨b, c, e.callerSymbolId, hb, hc, hcb, shortest_two h.rootDone hvisited hshort,
          hcalls, fun hcall => hvisited (hdone _ hcall)⟩
  refine ⟨h.toSoundSearch.expand htop, ?_, ?_, ?_, ?_⟩
  · intro p hp
    rw [callers_expand] at hp
    rcases List.mem_append.mp hp with hp | hp
    · exact h.shortest p hp
    · obtain ⟨e, he, rfl⟩ := List.mem_map.mp hp
      exact hnew e he
  · intro x hx
    rcases mem_toVisit_expand.mp hx with hx | ⟨-, e, -, rfl⟩
    · exact h.deep x (htop ▸ List.mem_cons_of_mem _ hx)
    · exact hdeep.trans (Nat.le_add_right depth 1)
  · intro id hcalls
    exact mem_visited_expand.mpr (.inl (h.rootDone id hcalls))
  · intro x hx hthree
    rcases mem_toVisit_expand.mp hx with hx | ⟨-, e, he, rfl⟩
    · obtain ⟨b, c, hb, hc, hcb, hxc, hdone⟩ := h.third x (htop ▸ List.mem_cons_of_mem _ hx) hthree
      exact ⟨b, c, hb, hc, hcb, hxc, fun id hcalls =>
        mem_visited_expand.mpr (.inl (hdone id hcalls))⟩
    · -- the name at depth 2 that is visited now is that of a caller at depth 1
      obtain rfl : depth = 2 := by simpa using hthree
      obtain ⟨b, hb, rfl⟩ : ∃ b, CallChain s t project name 1 b ∧ callee = s.callerName t b := by
        rcases hname with heq | ⟨b, j, hb, heq⟩
        · exact absurd (Prod.mk.inj heq).2 (by decide)
        · obtain ⟨hcallee, hj⟩ := Prod.mk.inj heq
          obtain rfl : j = 1 := by omega
          exact ⟨b, hb, hcallee⟩
      obtain ⟨hedge, -, -⟩ := of_mem_newEdges he
      exact ⟨b, e.callerSymbolId, shortest_one hb, hnew e he, ⟨e, hedge, rfl⟩, rfl,
        fun id hcalls => mem_visited_expand.mpr (.inr hcalls)⟩

/-! ## The result -/

variable (s t project maxDepth name)

/-- The callers with a chain of at most the given length, each once, with the length of its
shortest chain and one of its edges. -/
structure ExactCallers (result : List (ℕ × CallerInfo)) : Prop where
  nodup : (result.map Prod.fst).Nodup
  sound : ∀ p ∈ result, ShortestChain s t project name p.2.depth p.1 ∧ p.2.depth ≤ maxDepth ∧
    ∃ e ∈ s.callEdges, e.tenantId = t ∧ e.callerSymbolId = p.1 ∧
      p.2 = s.callerInfo t p.2.depth e
  complete : ∀ k ≤ maxDepth, ∀ id, CallChain s t project name k id → id ∈ result.map Prod.fst

variable {s t project maxDepth name}

/-- A name that is within the depth is visited. -/
theorem searchCallers_cons {rest : List (String × ℕ)} (htop : st.toVisit = (callee, depth) :: rest)
    (hdepth : depth ≤ maxDepth) : s.searchCallers t project maxDepth st =
      s.searchCallers t project maxDepth
        (s.expand t project maxDepth { st with toVisit := rest } callee depth) := by
  rw [searchCallers]
  split
  · rename_i hempty
    exact absurd (htop.symm.trans hempty) (List.cons_ne_nil _ _)
  · rename_i callee' depth' rest' htop'
    obtain ⟨hx, rfl⟩ := List.cons.inj (htop.symm.trans htop')
    obtain ⟨rfl, rfl⟩ := Prod.mk.inj hx
    rw [if_neg (not_lt.mpr hdepth)]

/-- Shortest depths make the search complete. -/
theorem Later.exact (h : Later s t project maxDepth name st) (hempty : st.toVisit = []) :
    ExactCallers s t project maxDepth name st.callers where
  nodup := h.nodup
  sound p hp := ⟨h.shortest p hp, (h.chain p hp).2, h.entry p hp⟩
  complete := by
    intro k hk id hchain
    induction hchain with
    | direct hproject hcalls => exact h.found _ (h.rootDone _ hcalls) hproject
    | @further k c id hproject hchain hcalls ih =>
      obtain ⟨p, hp, rfl⟩ := List.mem_map.mp (ih (by omega))
      have hle : p.2.depth ≤ k := by
        by_contra hlt
        exact (h.shortest p hp).2 k (by omega) hchain
      rcases h.closed p hp (by omega) with hmem | hdone
      · rw [hempty] at hmem
        exact absurd hmem List.not_mem_nil
      · exact h.found _ (hdone _ hcalls) hproject

/-- **Without a shortcut** the search is exact. -/
theorem exact_of_not_shortcut (hpos : 1 ≤ maxDepth) (hmax : maxDepth ≤ 3)
    (hcut : maxDepth ≤ 2 ∨ ¬ Shortcut s t project name) :
    ExactCallers s t project maxDepth name
      (s.searchCallers t project maxDepth { toVisit := [(name, 1)] }).callers := by
  rw [searchCallers_cons rfl hpos]
  obtain ⟨hlater, hempty⟩ := searchCallers_induction
    (P := Later s t project maxDepth name)
    (fun st callee depth rest h htop =>
      ⟨(h.item _ (htop ▸ List.mem_cons_self)).2, h.expand hmax hcut htop⟩)
    _ (later_start hpos)
  exact hlater.exact hempty

/-! ## A shortcut in the way -/

variable (s t c)

/-- A caller is found at depth 3, or the name through which it will be stands on the stack above
names of smaller depth. -/
def FoundDeep (c d : ℕ) (st : CallerSearch) : Prop :=
  (∃ p ∈ st.callers, p.1 = d ∧ p.2.depth = 3) ∨
    d ∉ st.visited ∧ ∃ above below, st.toVisit = above ++ (s.callerName t c, 3) :: below ∧
      ∀ x ∈ above, x.2 = 3

variable {s t}

/-- A caller found too deep stays found too deep. -/
theorem FoundDeep.expand {c d : ℕ} {rest : List (String × ℕ)} (h : FoundDeep s t c d st)
    (hproject : s.inProject t project d = true) (hcalls : s.Calls t d (s.callerName t c))
    (htop : st.toVisit = (callee, depth) :: rest) :
    FoundDeep s t c d (s.expand t project 3 { st with toVisit := rest } callee depth) := by
  rcases h with ⟨p, hp, hpd, hdepth⟩ | ⟨hnew, above, below, hstack, habove⟩
  · exact .inl ⟨p, by rw [callers_expand]; exact List.mem_append_left _ hp, hpd, hdepth⟩
  · -- a name at depth 3 that the caller calls finds it
    have hfind : depth = 3 → s.Calls t d callee → FoundDeep s t c d
        (s.expand t project 3 { st with toVisit := rest } callee depth) := by
      rintro rfl hcallee
      have hnew' : d ∉ ({ st with toVisit := rest } : CallerSearch).visited := hnew
      obtain ⟨e, he, hid⟩ := exists_newEdges hcallee hnew' hproject
      refine .inl ⟨(e.callerSymbolId, s.callerInfo t 3 e), ?_, hid, rfl⟩
      rw [callers_expand]
      exact List.mem_append_right _ (List.mem_map.mpr ⟨e, he, rfl⟩)
    rw [htop] at hstack
    cases above with
    | nil =>
      obtain ⟨hx, -⟩ := List.cons.inj hstack
      obtain ⟨rfl, rfl⟩ := Prod.mk.inj hx
      exact hfind rfl hcalls
    | cons x above =>
      obtain ⟨rfl, rfl⟩ := List.cons.inj hstack
      obtain rfl : depth = 3 := habove (callee, depth) List.mem_cons_self
      by_cases hcallee : s.Calls t d callee
      · exact hfind rfl hcallee
      · refine .inr ⟨fun hmem => ?_, above, below, ?_, fun y hy =>
          habove y (List.mem_cons_of_mem _ hy)⟩
        · exact (mem_visited_expand.mp hmem).elim hnew hcallee
        · rw [StructuralStore.expand, foldl_visitEdge]
          rfl

/-- Edges of one caller at the end put its name on top of the stack. -/
theorem expand_last {b : ℕ} {others own : List CallEdgeRecord} {e : CallEdgeRecord}
    (hedges : s.callEdgesOf t name = others ++ e :: own) (hothers : ∀ x ∈ others, x.callerSymbolId ≠ b)
    (he : e.callerSymbolId = b) (hown : ∀ x ∈ own, x.callerSymbolId = b)
    (hproject : s.inProject t project b = true) :
    ∃ rest, (s.expand t project 3 {} name 1).toVisit = (s.callerName t b, 2) :: rest := by
  have hunvisited : b ∉ (others.foldl (s.visitEdge t project 3 1) {}).visited := by
    rw [foldl_visitEdge]
    intro hmem
    rcases Finset.mem_union.mp hmem with hmem | hmem
    · exact Finset.notMem_empty b hmem
    · obtain ⟨x, hx, hxb⟩ := List.mem_map.mp (List.mem_toFinset.mp hmem)
      exact hothers x hx hxb
  rw [StructuralStore.expand, hedges, List.foldl_append, List.foldl_cons]
  generalize others.foldl (s.visitEdge t project 3 1) {} = st at hunvisited
  refine ⟨st.toVisit, ?_⟩
  -- the edge behind the others is the first of its caller
  have hone : (s.visitEdge t project 3 1 st e).toVisit = (s.callerName t b, 2) :: st.toVisit ∧
      b ∈ (s.visitEdge t project 3 1 st e).visited := by
    unfold visitEdge
    rw [he, if_neg hunvisited]
    simp [hproject]
  have hstay : ∀ l : List CallEdgeRecord, (∀ x ∈ l, x.callerSymbolId = b) → ∀ st' : CallerSearch,
      b ∈ st'.visited → l.foldl (s.visitEdge t project 3 1) st' = st' := by
    intro l hl st' hb
    induction l with
    | nil => rfl
    | cons x l ih =>
      have hskip : s.visitEdge t project 3 1 st' x = st' := by
        unfold visitEdge
        rw [hl x List.mem_cons_self, if_pos hb]
      rw [List.foldl_cons, hskip]
      exact ih fun y hy => hl y (List.mem_cons_of_mem x hy)
  rw [hstay own hown _ hone.2, hone.1]

/-- **With a shortcut** through the caller that is visited last, a depth is wrong. -/
theorem not_exact_of_last {b c d : ℕ} {rest : List (String × ℕ)}
    (htop : (s.expand t project 3 {} name 1).toVisit = (s.callerName t b, 2) :: rest)
    (hc : ShortestChain s t project name 2 c) (hcb : s.Calls t c (s.callerName t b))
    (hd : ShortestChain s t project name 2 d) (hdc : s.Calls t d (s.callerName t c))
    (hdb : ¬ s.Calls t d (s.callerName t b)) :
    ¬ ExactCallers s t project 3 name
      (s.searchCallers t project 3 { toVisit := [(name, 1)] }).callers := by
  intro hexact
  have hproject := hd.1.inProject
  have hstart : Later s t project 3 name (s.expand t project 3 {} name 1) :=
    later_start (by decide)
  -- a caller of depth 2 does not call the name itself
  have hunvisited : ∀ {id : ℕ}, ShortestChain s t project name 2 id →
      id ∉ (s.expand t project 3 {} name 1).visited := by
    intro id hid hmem
    rcases mem_visited_expand.mp hmem with hmem | hcalls
    · exact Finset.notMem_empty id hmem
    · exact hid.2 1 (by decide) (.direct hid.1.inProject hcalls)
  generalize hst : s.expand t project 3 {} name 1 = st₁ at *
  have hsecond := hstart.toSoundSearch.expand htop
  have hcnew : c ∉ ({ st₁ with toVisit := rest } : CallerSearch).visited := hunvisited hc
  obtain ⟨e, he, rfl⟩ := exists_newEdges hcb hcnew hc.1.inProject
  have hdeep : FoundDeep s t e.callerSymbolId d
      (s.expand t project 3 { st₁ with toVisit := rest } (s.callerName t b) 2) := by
    refine .inr ⟨fun hmem => (mem_visited_expand.mp hmem).elim (hunvisited hd) hdb, ?_⟩
    obtain ⟨before, behind, hsplit⟩ := List.append_of_mem he
    rw [StructuralStore.expand, foldl_visitEdge, hsplit]
    refine ⟨(behind.map fun e => (s.callerName t e.callerSymbolId, 3)).reverse,
      (before.map fun e => (s.callerName t e.callerSymbolId, 3)).reverse ++ rest, ?_, ?_⟩
    · simp
    · intro x hx
      obtain ⟨e', -, rfl⟩ := List.mem_map.mp (List.mem_reverse.mp hx)
      rfl
  obtain ⟨⟨-, hfound⟩, hempty⟩ := searchCallers_induction
    (P := fun st => SoundSearch s t project 3 name st ∧ FoundDeep s t e.callerSymbolId d st)
    (fun st callee depth rest h htop => ⟨(h.1.item _ (htop ▸ List.mem_cons_self)).2,
      h.1.expand htop, h.2.expand hproject hdc htop⟩) _ ⟨hsecond, hdeep⟩
  rw [searchCallers_cons rfl (by decide), hst, searchCallers_cons htop (by decide)] at hexact
  rcases hfound with ⟨p, hp, rfl, hdepth⟩ | ⟨-, above, below, hstack, -⟩
  · have hthree := (hexact.sound p hp).1
    rw [hdepth] at hthree
    exact absurd (hd.eq hthree) (by decide)
  · rw [hempty] at hstack
    exact absurd hstack.symm (by simp)


/-! ## The order of the edges -/

/-- The symbols with the call edges in another order. -/
def withEdges (s : StructuralStore) (edges : List CallEdgeRecord) : StructuralStore :=
  { s with callEdges := edges }

variable {edges : List CallEdgeRecord}

/-- Which symbol calls which does not depend on the order of the edges. -/
theorem calls_withEdges (h : edges.Perm s.callEdges) :
    (s.withEdges edges).Calls t id callee ↔ s.Calls t id callee := by
  unfold Calls callEdgesOf withEdges
  simp only [List.mem_filter, h.mem_iff]

/-- Chains of calls do not depend on the order of the edges. -/
theorem chain_withEdges (h : edges.Perm s.callEdges) :
    CallChain (s.withEdges edges) t project name k id ↔ CallChain s t project name k id := by
  constructor
  · intro hchain
    induction hchain with
    | direct hproject hcalls => exact .direct hproject ((calls_withEdges h).mp hcalls)
    | further hproject _ hcalls ih => exact .further hproject ih ((calls_withEdges h).mp hcalls)
  · intro hchain
    induction hchain with
    | direct hproject hcalls => exact .direct hproject ((calls_withEdges h).mpr hcalls)
    | further hproject _ hcalls ih => exact .further hproject ih ((calls_withEdges h).mpr hcalls)

/-- Shortest chains do not depend on the order of the edges. -/
theorem shortest_withEdges (h : edges.Perm s.callEdges) :
    ShortestChain (s.withEdges edges) t project name k id ↔ ShortestChain s t project name k id := by
  unfold ShortestChain
  simp only [chain_withEdges h]

/-- Whether there is a shortcut does not depend on the order of the edges. -/
theorem shortcut_withEdges (h : edges.Perm s.callEdges) :
    Shortcut (s.withEdges edges) t project name ↔ Shortcut s t project name := by
  unfold Shortcut
  simp only [shortest_withEdges h, calls_withEdges h]
  rfl

/-- An order in which the edges of one caller to a name come last. -/
theorem exists_last (h : s.Calls t id name) : ∃ edges, edges.Perm s.callEdges ∧
    ∃ others e own, (s.withEdges edges).callEdgesOf t name = others ++ e :: own ∧
      (∀ x ∈ others, x.callerSymbolId ≠ id) ∧ e.callerSymbolId = id ∧
      ∀ x ∈ own, x.callerSymbolId = id := by
  let isOwn : CallEdgeRecord → Bool := fun x => x.callerSymbolId == id
  refine ⟨s.callEdges.filter (fun x => !isOwn x) ++ s.callEdges.filter isOwn,
    List.perm_append_comm.trans (List.filter_append_perm _ _), ?_⟩
  obtain ⟨e, he, rfl⟩ := h
  obtain ⟨hmem, hedge⟩ := List.mem_filter.mp he
  have hown : e ∈ (s.callEdges.filter isOwn).filter fun x => x.tenantId = t && x.calleeName = name :=
    List.mem_filter.mpr ⟨List.mem_filter.mpr ⟨hmem, by simp [isOwn]⟩, hedge⟩
  obtain ⟨first, own, hsplit⟩ := List.exists_cons_of_ne_nil (List.ne_nil_of_mem hown)
  have hid : ∀ x ∈ first :: own, x.callerSymbolId = e.callerSymbolId := by
    intro x hx
    rw [← hsplit] at hx
    exact beq_iff_eq.mp (List.mem_filter.mp (List.mem_filter.mp hx).1).2
  refine ⟨(s.callEdges.filter (fun x => !isOwn x)).filter fun x =>
    x.tenantId = t && x.calleeName = name, first, own, ?_, ?_, hid first List.mem_cons_self,
    fun x hx => hid x (List.mem_cons_of_mem first hx)⟩
  · unfold callEdgesOf withEdges
    rw [List.filter_append, hsplit]
  · intro x hx
    have hnot := (List.mem_filter.mp (List.mem_filter.mp hx).1).2
    simpa [isOwn] using hnot

/-- The depth of a search. -/
def clampDepth (maxDepth : ℕ) : ℕ := max 1 (min maxDepth 3)

variable (s t project maxDepth name)

/-- The search is exact, in whatever order the store returns the edges. -/
def ExactInEveryOrder : Prop :=
  ∀ edges, edges.Perm s.callEdges → ExactCallers (s.withEdges edges) t project
    (clampDepth maxDepth) name (findCallersById (s.withEdges edges) t project maxDepth name)

variable {s t project maxDepth name}

/-- **With a shortcut** some order of the edges gives a wrong depth. -/
theorem not_exact_of_shortcut (hthree : clampDepth maxDepth = 3) (hcut : Shortcut s t project name) :
    ¬ ExactInEveryOrder s t project maxDepth name := by
  intro hexact
  obtain ⟨b, c, d, hb, hc, hcb, hd, hdc, hdb⟩ := hcut
  obtain ⟨edges, hperm, others, e, own, hedges, hothers, he, hown⟩ := exists_last hb.1.calls
  obtain ⟨rest, htop⟩ := expand_last hedges hothers he hown hb.1.inProject
  have hwrong := not_exact_of_last htop ((shortest_withEdges hperm).mpr hc)
    ((calls_withEdges hperm).mpr hcb) ((shortest_withEdges hperm).mpr hd)
    ((calls_withEdges hperm).mpr hdc) fun h => hdb ((calls_withEdges hperm).mp h)
  have hright := hexact edges hperm
  unfold findCallersById at hright
  rw [show max 1 (min maxDepth 3) = 3 from hthree, hthree] at hright
  exact hwrong hright

variable (s t project maxDepth name)

/-- **Callers within a depth.**  The search returns the callers with a chain within its depth,
each once and with the length of its shortest chain, in every order of the edges, exactly when the
depth is at most 2 or the graph has no shortcut. -/
theorem findCallers_exact_iff :
    ExactInEveryOrder s t project maxDepth name ↔
      clampDepth maxDepth ≤ 2 ∨ ¬ Shortcut s t project name := by
  have hpos : 1 ≤ clampDepth maxDepth := le_max_left _ _
  have hmax : clampDepth maxDepth ≤ 3 := max_le (by decide) (min_le_right _ _)
  constructor
  · intro hexact
    by_contra hnot
    obtain ⟨hdeep, hcut⟩ := not_or.mp hnot
    exact not_exact_of_shortcut (by omega) (not_not.mp hcut) hexact
  · intro hcut edges hperm
    exact exact_of_not_shortcut hpos hmax
      (hcut.imp_right fun hnot h => hnot ((shortcut_withEdges hperm).mp h))

/-- A name with two callers; one of them has a caller `c`, and `d` calls the other and `c`. -/
def diamond : StructuralStore :=
  let symbol (id : ℕ) (name : String) : SymbolRecord :=
    ⟨id, "t", none, "a.rs", name, .function, id, id⟩
  let edge (id caller : ℕ) (callee : String) : CallEdgeRecord :=
    ⟨id, "t", caller, callee, none, "a.rs", caller, 0, .direct⟩
  { symbols := [symbol 1 "a", symbol 2 "b", symbol 3 "c", symbol 4 "d"]
    callEdges := [edge 1 1 "f", edge 2 2 "f", edge 3 3 "b", edge 4 4 "a", edge 5 4 "c"] }

/-- The caller `d` of the diamond has a chain of length 2 and is returned with depth 3. -/
theorem not_exact_diamond :
    ¬ ExactInEveryOrder diamond "t" none 3 "f" ∧
      (diamond.findCallers "t" none 3 "f").map (fun i => (i.callerName, i.depth)) =
        [("a", 1), ("b", 1), ("c", 2), ("d", 3)] := by
  refine ⟨fun hexact => ?_, by decide +kernel⟩
  have hmem : (4, (⟨"d", "a.rs", 4, 0, .function, 3⟩ : CallerInfo)) ∈
      findCallersById (diamond.withEdges diamond.callEdges) "t" none 3 "f" := by decide +kernel
  obtain ⟨⟨-, hshort⟩, -⟩ := (hexact _ (List.Perm.refl _)).sound _ hmem
  have ha : CallChain (diamond.withEdges diamond.callEdges) "t" none "f" 1 1 :=
    .direct rfl ⟨⟨1, "t", 1, "f", none, "a.rs", 1, 0, .direct⟩, by decide, rfl⟩
  exact hshort 2 (by decide)
    (.further rfl ha ⟨⟨4, "t", 4, "a", none, "a.rs", 4, 0, .direct⟩, by decide, rfl⟩)

end Run

end StructuralStore
