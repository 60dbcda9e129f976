/-
# Querying stack traces

`find_errors` has two paths.  With a function name the store selects the traces by tenant and
function, without one by tenant, signature and time; the first `limit` of them are then checked
against the filters that are left.

* `findErrors_eq` — both paths are a filter behind a limit behind a sort;
* `findErrors_exact_iff` — when this is the filter in front of the limit.
-/
import Mathlib.Data.List.Dedup
import Memd.DateFormats
import Memd.ListSelection

open Selection

/-! ## The tables -/

/-- `StackTraceRecord`. -/
structure StackTraceRecord where
  traceId : ℤ
  tenantId : TenantId
  sessionId : Option String
  timestampMs : ℤ
  errorSignature : String
  errorMessage : String
  deriving DecidableEq, Repr

/-- `StackFrameRecord`. -/
structure StackFrameRecord where
  traceId : ℤ
  frameIdx : ℕ
  filePath : Option String
  functionName : Option String
  lineNumber : Option ℕ
  colNumber : Option ℕ
  deriving DecidableEq, Repr

/-- The tables of traces and frames; the id is the primary key of a trace. -/
structure TraceDb where
  stackTraces : List StackTraceRecord
  stackFrames : List StackFrameRecord
  traceIds : (stackTraces.map StackTraceRecord.traceId).Nodup

/-- The `TimeRange` of a trace search. -/
structure TraceTimeRange where
  fromMs : Option ℤ := none
  toMs : Option ℤ := none

/-- A time is within the range. -/
def TraceTimeRange.contains (range : TraceTimeRange) (timestampMs : ℤ) : Bool :=
  range.fromMs.all (fun lo => decide (lo ≤ timestampMs))
    && range.toMs.all (fun hi => decide (timestampMs ≤ hi))

/-! ## The statements -/

/-- `ORDER BY timestamp_ms DESC`; `tie` is the order in which a statement visits the traces. -/
def newestTraceFirst (tie : ℤ → ℕ) (a b : StackTraceRecord) : Prop :=
  b.timestampMs < a.timestampMs ∨
    a.timestampMs = b.timestampMs ∧ tie a.traceId ≤ tie b.traceId

instance (tie : ℤ → ℕ) : DecidableRel (newestTraceFirst tie) := fun _ _ =>
  inferInstanceAs (Decidable (_ ∨ _))

instance (tie : ℤ → ℕ) : Std.Total (newestTraceFirst tie) where
  total a b := by
    unfold newestTraceFirst
    omega

instance (tie : ℤ → ℕ) : IsTrans StackTraceRecord (newestTraceFirst tie) where
  trans a b c hab hbc := by
    unfold newestTraceFirst at *
    omega

/-- The signature and the time of a trace. -/
def wantedTrace (errorSignature : Option String) (timeRange : Option TraceTimeRange)
    (r : StackTraceRecord) : Bool :=
  errorSignature.all (fun s => r.errorSignature == s)
    && timeRange.all fun range => range.contains r.timestampMs

/-- `find_stack_traces`. -/
def findStackTraces (tie : ℤ → ℕ) (db : TraceDb) (tenant : TenantId)
    (errorSignature : Option String) (timeRange : Option TraceTimeRange) : List StackTraceRecord :=
  (db.stackTraces.filter fun r => r.tenantId == tenant && wantedTrace errorSignature timeRange r)
    |>.insertionSort (newestTraceFirst tie)

/-- The rows of the join of the traces with their frames of a function. -/
def functionRows (db : TraceDb) (tenant : TenantId) (functionName : String) : List StackTraceRecord :=
  db.stackTraces.flatMap fun r => (db.stackFrames.filter fun f =>
    f.traceId == r.traceId && r.tenantId == tenant && f.functionName == some functionName).map
      fun _ => r

/-- `find_stack_traces_by_function`: `SELECT DISTINCT` over the join. -/
def findStackTracesByFunction (tie : ℤ → ℕ) (db : TraceDb) (tenant : TenantId) (functionName : String) :
    List StackTraceRecord :=
  (functionRows db tenant functionName).dedup.insertionSort (newestTraceFirst tie)

/-- `get_stack_frames`. -/
def getStackFrames (db : TraceDb) (traceId : ℤ) : List StackFrameRecord :=
  (db.stackFrames.filter (·.traceId == traceId)).insertionSort fun a b => a.frameIdx ≤ b.frameIdx

/-! ## The query -/

/-- `FrameInfo`. -/
structure FrameInfo where
  index : ℕ
  functionName : Option String
  filePath : Option String
  lineNumber : Option ℕ
  colNumber : Option ℕ
  deriving DecidableEq, Repr

/-- What is answered of a frame. -/
def FrameInfo.ofRecord (f : StackFrameRecord) : FrameInfo :=
  ⟨f.frameIdx, f.functionName, f.filePath, f.lineNumber, f.colNumber⟩

/-- `ErrorResult`. -/
structure ErrorResult where
  traceId : ℤ
  errorSignature : String
  errorMessage : String
  timestampMs : ℤ
  timestampFormatted : Option String
  frames : List FrameInfo
  sessionId : Option String

/-- `trace_to_error_result`. -/
def traceToErrorResult (trace : StackTraceRecord) (frames : List StackFrameRecord) : ErrorResult :=
  { traceId := trace.traceId, errorSignature := trace.errorSignature
    errorMessage := trace.errorMessage, timestampMs := trace.timestampMs
    timestampFormatted := formatTimestamp trace.timestampMs
    frames := frames.map FrameInfo.ofRecord, sessionId := trace.sessionId }

/-- The filters and the limit of a query. -/
structure ErrorQuery where
  tenantId : TenantId
  errorSignature : Option String := none
  functionName : Option String := none
  filePath : Option String := none
  timeRange : Option TraceTimeRange := none
  limit : ℕ

/-- The filter on the frames of a trace. -/
def onPath (filePath : Option String) (frames : List StackFrameRecord) : Bool :=
  filePath.all fun path => frames.any fun f => f.filePath == some path

/-- `find_errors`. -/
def findErrors (ties : Option String → ℤ → ℕ) (db : TraceDb) (q : ErrorQuery) : List ErrorResult :=
  match q.functionName with
  -- with a function the limit cuts the traces before they are filtered
  | some name =>
    ((findStackTracesByFunction (ties (some name)) db q.tenantId name).take q.limit).filterMap
      fun trace =>
        if !wantedTrace q.errorSignature q.timeRange trace then none
        else
          let frames := getStackFrames db trace.traceId
          if onPath q.filePath frames then some (traceToErrorResult trace frames) else none
  -- without one the signature and the time are asked of the table itself
  | none =>
    ((findStackTraces (ties none) db q.tenantId q.errorSignature q.timeRange).take q.limit).filterMap
      fun trace =>
        let frames := getStackFrames db trace.traceId
        if onPath q.filePath frames then some (traceToErrorResult trace frames) else none

/-! ## What a query selects -/

/-- The trace has a frame with a property. -/
def TraceDb.hasFrame (db : TraceDb) (r : StackTraceRecord) (p : StackFrameRecord → Bool) : Bool :=
  db.stackFrames.any fun f => f.traceId == r.traceId && p f

namespace ErrorQuery

/-- The filters of the statement of a query. -/
def selects (db : TraceDb) (q : ErrorQuery) (r : StackTraceRecord) : Bool :=
  match q.functionName with
  | some name => r.tenantId == q.tenantId && db.hasFrame r fun f => f.functionName == some name
  | none => r.tenantId == q.tenantId && wantedTrace q.errorSignature q.timeRange r

/-- The trace has a frame on the path of a query. -/
def hasPath (db : TraceDb) (q : ErrorQuery) (r : StackTraceRecord) : Bool :=
  q.filePath.all fun path => db.hasFrame r fun f => f.filePath == some path

/-- The filters that are left behind the statement. -/
def checks (db : TraceDb) (q : ErrorQuery) (r : StackTraceRecord) : Bool :=
  match q.functionName with
  | some _ => wantedTrace q.errorSignature q.timeRange r && q.hasPath db r
  | none => q.hasPath db r

/-- All filters of a query. -/
def passes (db : TraceDb) (q : ErrorQuery) (r : StackTraceRecord) : Bool :=
  r.tenantId == q.tenantId && wantedTrace q.errorSignature q.timeRange r
    && q.functionName.all (fun name => db.hasFrame r fun f => f.functionName == some name)
    && q.hasPath db r

end ErrorQuery

/-- The newest first of the traces with a property. -/
def newestOf (tie : ℤ → ℕ) (db : TraceDb) (p : StackTraceRecord → Bool) : List StackTraceRecord :=
  (db.stackTraces.filter p).insertionSort (newestTraceFirst tie)

/-- The result of a trace. -/
def errorResultOf (db : TraceDb) (r : StackTraceRecord) : ErrorResult :=
  traceToErrorResult r (getStackFrames db r.traceId)

variable {db : TraceDb} {q : ErrorQuery} {r : StackTraceRecord}

theorem any_getStackFrames (p : StackFrameRecord → Bool) :
    (getStackFrames db r.traceId).any p = db.hasFrame r p := by
  rw [getStackFrames, (List.perm_insertionSort _ _).any_eq, List.any_filter, TraceDb.hasFrame]

theorem onPath_getStackFrames :
    onPath q.filePath (getStackFrames db r.traceId) = q.hasPath db r := by
  unfold onPath ErrorQuery.hasPath
  congr 1
  funext path
  exact any_getStackFrames _

/-- Rows repeated in place, each once. -/
theorem dedup_flatMap {α β : Type} [DecidableEq α] {l : List α} (h : l.Nodup) (rows : α → List β) :
    (l.flatMap fun a => (rows a).map fun _ => a).dedup = l.filter fun a => !(rows a).isEmpty := by
  induction l with
  | nil => rfl
  | cons a l ih =>
    obtain ⟨ha, hl⟩ := List.nodup_cons.mp h
    have hnot : a ∉ l.flatMap fun a => (rows a).map fun _ => a := by
      intro hmem
      obtain ⟨b, hb, hab⟩ := List.mem_flatMap.mp hmem
      obtain ⟨-, -, rfl⟩ := List.mem_map.mp hab
      exact ha hb
    rw [List.flatMap_cons, List.filter_cons]
    cases rows a with
    | nil => simpa using ih hl
    | cons b bs =>
      -- all but the last of the repetitions are dropped
      have hrep : ∀ bs : List β, (a :: (bs.map fun _ => a) ++
          l.flatMap fun a => (rows a).map fun _ => a).dedup =
          a :: (l.flatMap fun a => (rows a).map fun _ => a).dedup := by
        intro bs
        induction bs with
        | nil => exact List.dedup_cons_of_notMem hnot
        | cons b bs ihb =>
          rw [List.map_cons, List.cons_append, List.dedup_cons_of_mem (by simp)]
          exact ihb
      rw [List.map_cons, hrep bs, ih hl]
      rfl

/-- The rows of a function are the traces with a frame of it. -/
theorem findStackTracesByFunction_eq (tie : ℤ → ℕ) (db : TraceDb) (tenant : TenantId)
    (name : String) : findStackTracesByFunction tie db tenant name = newestOf tie db fun r =>
      r.tenantId == tenant && db.hasFrame r fun f => f.functionName == some name := by
  have hnodup : db.stackTraces.Nodup := db.traceIds.of_map _
  unfold findStackTracesByFunction functionRows newestOf
  rw [dedup_flatMap hnodup]
  congr 1
  apply List.filter_congr
  intro r _
  rw [Bool.eq_iff_iff]
  simp only [TraceDb.hasFrame, List.isEmpty_eq_false_iff_exists_mem, Bool.not_eq_true',
    List.mem_filter, List.any_eq_true, Bool.and_eq_true]
  constructor
  · rintro ⟨f, hf, ⟨hid, htenant⟩, hname⟩
    exact ⟨htenant, f, hf, hid, hname⟩
  · rintro ⟨htenant, f, hf, hid, hname⟩
    exact ⟨f, hf, ⟨hid, htenant⟩, hname⟩

/-- **A query** is a sort, a limit and then the filters that are left. -/
theorem findErrors_eq (ties : Option String → ℤ → ℕ) (db : TraceDb) (q : ErrorQuery) :
    findErrors ties db q = (((newestOf (ties q.functionName) db (q.selects db)).take q.limit).filter
      (q.checks db)).map (errorResultOf db) := by
  rw [← List.filterMap_eq_map, ← List.filterMap_eq_filter, List.filterMap_filterMap]
  obtain ⟨tenant, signature, function, path, range, limit⟩ := q
  cases function with
  | some name =>
    simp only [findErrors, ErrorQuery.checks, findStackTracesByFunction_eq]
    apply List.filterMap_congr
    intro r _
    rw [onPath_getStackFrames (q := ⟨tenant, signature, some name, path, range, limit⟩)]
    by_cases hscope : wantedTrace signature range r <;>
      by_cases hpath : ErrorQuery.hasPath db ⟨tenant, signature, some name, path, range, limit⟩ r <;>
      simp [Option.guard, hscope, hpath, errorResultOf]
  | none =>
    simp only [findErrors, ErrorQuery.checks]
    apply List.filterMap_congr
    intro r _
    rw [onPath_getStackFrames (q := ⟨tenant, signature, none, path, range, limit⟩)]
    by_cases hpath : ErrorQuery.hasPath db ⟨tenant, signature, none, path, range, limit⟩ r <;>
      simp [Option.guard, hpath, errorResultOf]

/-- The statement and the checks behind it are all filters. -/
theorem passes_eq (db : TraceDb) (q : ErrorQuery) (r : StackTraceRecord) :
    q.passes db r = (q.selects db r && q.checks db r) := by
  unfold ErrorQuery.passes ErrorQuery.selects ErrorQuery.checks
  cases q.functionName with
  | none => simp
  | some name =>
    rw [Option.all_some]
    cases r.tenantId == q.tenantId <;> cases wantedTrace q.errorSignature q.timeRange r <;> simp

/-- Filters may be applied before or after the sort. -/
theorem newestOf_filter (tie : ℤ → ℕ) (db : TraceDb) (p p' : StackTraceRecord → Bool) :
    (newestOf tie db p).filter p' = newestOf tie db fun r => p r && p' r := by
  unfold newestOf
  rw [filter_insertionSort, List.filter_filter]
  congr 1
  apply List.filter_congr
  intro r _
  exact Bool.and_comm _ _

/-! ## The limit -/

/-- The query returns the first `limit` of the traces that pass all its filters, the newest
first. -/
def FiltersFirst (ties : Option String → ℤ → ℕ) (db : TraceDb) (q : ErrorQuery) : Prop :=
  findErrors ties db q =
    ((newestOf (ties q.functionName) db (q.passes db)).take q.limit).map (errorResultOf db)

/-- Among the traces that the statement of the query selects, the newest `limit` all pass the
filters that are left, or no other one does. -/
def LimitHarmless (ties : Option String → ℤ → ℕ) (db : TraceDb) (q : ErrorQuery) : Prop :=
  (∀ r ∈ (newestOf (ties q.functionName) db (q.selects db)).take q.limit, q.checks db r = true) ∨
    ∀ r ∈ (newestOf (ties q.functionName) db (q.selects db)).drop q.limit, q.checks db r = false

theorem filtersFirst_iff (ties : Option String → ℤ → ℕ) (db : TraceDb) (q : ErrorQuery) :
    FiltersFirst ties db q ↔ LimitHarmless ties db q := by
  have hpasses : newestOf (ties q.functionName) db (q.passes db) =
      (newestOf (ties q.functionName) db (q.selects db)).filter (q.checks db) := by
    rw [newestOf_filter]
    congr 1
    funext r
    exact passes_eq db q r
  unfold FiltersFirst LimitHarmless
  rw [findErrors_eq, hpasses, ← filter_take_eq_iff]
  constructor
  · intro h
    exact (filter_take_isPrefix q.limit).eq_of_length (by simpa using congrArg List.length h)
  · intro h
    rw [h]

/-- The timestamps do not depend on the order of the ties. -/
theorem timestamps_newestOf (tie tie' : ℤ → ℕ) (db : TraceDb) (p : StackTraceRecord → Bool) :
    (newestOf tie db p).map StackTraceRecord.timestampMs =
      (newestOf tie' db p).map StackTraceRecord.timestampMs := by
  have hsorted : ∀ tie, ((newestOf tie db p).map StackTraceRecord.timestampMs).Pairwise (· ≥ ·) := by
    intro tie
    refine List.pairwise_map.mpr ((List.pairwise_insertionSort (newestTraceFirst tie) _).imp ?_)
    intro a b hab
    unfold newestTraceFirst at hab
    omega
  have hperm : (newestOf tie db p).Perm (newestOf tie' db p) :=
    (List.perm_insertionSort _ _).trans (List.perm_insertionSort _ _).symm
  exact (hperm.map _).eq_of_pairwise (fun a b _ _ hab hba => le_antisymm hba hab) (hsorted tie)
    (hsorted tie')

/-- The query with a filter on the function. -/
def ErrorQuery.withFunction (q : ErrorQuery) (name : String) : ErrorQuery :=
  { q with functionName := some name }

/-- A function that all traces of a query have is no filter. -/
theorem passes_withFunction {name : String} (h : q.functionName = none)
    (hall : ∀ r ∈ db.stackTraces, q.passes db r = true →
      db.hasFrame r (fun f => f.functionName == some name) = true) (tie : ℤ → ℕ) :
    newestOf tie db ((q.withFunction name).passes db) = newestOf tie db (q.passes db) := by
  unfold newestOf
  congr 1
  apply List.filter_congr
  intro r hr
  have hframe := hall r hr
  unfold ErrorQuery.passes ErrorQuery.withFunction ErrorQuery.hasPath at *
  rw [h] at hframe ⊢
  rw [Bool.eq_iff_iff]
  simp only [Option.all_none, Option.all_some, Bool.and_true, Bool.and_eq_true] at *
  tauto

/-- Two traces of one function, the newer one with another signature. -/
def twoErrors : TraceDb where
  stackTraces := [⟨1, "t", none, 2000, "A", "newer"⟩, ⟨2, "t", none, 1000, "B", "older"⟩]
  stackFrames := [⟨1, 0, none, some "main", none, none⟩, ⟨2, 0, none, some "main", none, none⟩]
  traceIds := by decide
