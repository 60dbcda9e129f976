/-
# The write-admission gate

`write_admission.rs`, `auto_priority.rs` and `write_service.rs`: what every write that is
not an artifact passes before it is stored.  `classifyWrite` decides whether a text is
stored durably, stored short-lived or refused; `prepareWriteAt` normalizes the tags, lowers
priorities that are not backed by an action, stamps an automatic priority and fills in the
retention deadlines the caller left open.

The priority of a tag is a 32-bit float in the source.  `GateExternals.parseFiniteF32` is
the parser of the standard library on the strings it reads as a finite value.
-/
import Mathlib.Algebra.Group.Nat.Defs
import Mathlib.Algebra.Ring.Int.Defs
import Mathlib.Data.List.Infix
import Mathlib.Data.Rat.Defs
import Memd.Chunk

/-! ## Text -/

namespace Text

/-- `str::trim`. -/
def trim (s : List Char) : List Char :=
  ((s.dropWhile isWhitespace).reverse.dropWhile isWhitespace).reverse

/-- A text whose ends are no white space is its own trimming. -/
theorem trim_eq_self {l : List Char} (hfirst : ∀ c ∈ l.head?, isWhitespace c = false)
    (hlast : ∀ c ∈ l.getLast?, isWhitespace c = false) : trim l = l := by
  have hdrop : ∀ m : List Char, (∀ c ∈ m.head?, isWhitespace c = false) →
      m.dropWhile isWhitespace = m := by
    intro m hm
    cases m with
    | nil => rfl
    | cons c m => rw [List.dropWhile_cons_of_neg (by simp [hm c rfl])]
  rw [trim, hdrop l hfirst, hdrop l.reverse (by rwa [List.head?_reverse]), List.reverse_reverse]

/-- A text without white space is its own trimming. -/
theorem trim_of_all {l : List Char} (h : ∀ c ∈ l, isWhitespace c = false) : trim l = l :=
  trim_eq_self (fun c hc => h c (List.mem_of_mem_head? hc))
    fun c hc => h c (List.mem_of_mem_getLast? hc)

/-- `to_ascii_lowercase`. -/
def asciiLower (s : List Char) : List Char :=
  s.map Char.toLower

/-- `starts_with`. -/
def startsWith (s : List Char) (pat : String) : Bool :=
  pat.toList.isPrefixOf s

/-- `contains`. -/
def contains (s : List Char) (pat : String) : Bool :=
  decide (pat.toList <:+: s)

/-- `strip_prefix`. -/
def stripPrefix (s pat : String) : Option String :=
  if startsWith s.toList pat then some (String.ofList (s.toList.drop pat.toList.length)) else none

end Text

open Text

/-- What the write gate takes from libraries. -/
structure GateExternals where
  /-- `str::parse::<f32>`, where the value is finite -/
  parseFiniteF32 : String → Option ℚ

/-! ## Priorities -/

/-- The number of a `priority:` or `importance:` tag. -/
def priorityValue (g : GateExternals) (tag : String) : Option ℚ :=
  ((stripPrefix tag "priority:").or (stripPrefix tag "importance:")).bind g.parseFiniteF32

/-- `has_explicit_priority`. -/
def hasExplicitPriority (g : GateExternals) (tags : List String) : Bool :=
  tags.any fun tag => (priorityValue g tag).isSome

/-- `explicit_high_priority`. -/
def explicitHighPriority (g : GateExternals) (tags : List String) : Bool :=
  tags.any fun tag => (priorityValue g tag).any fun v => decide (8 ≤ v)

/-- `downgrade_high_priority_tags`, one tag. -/
def downgradeTag (g : GateExternals) (tag : String) : String :=
  match ["priority:", "importance:"].find? (startsWith tag.toList) with
  | none => tag
  | some pre =>
    if (g.parseFiniteF32 (String.ofList (tag.toList.drop pre.toList.length))).any
        fun v => decide (8 ≤ v) then
      pre ++ "7"
    else tag

/-- `downgrade_high_priority_tags`. -/
def downgradeHighPriorityTags (g : GateExternals) (tags : List String) : List String :=
  tags.map (downgradeTag g)

/-- `MAX_AUTO_PRIORITY`. -/
def maxAutoPriority : ℕ := 7

/-- `MIN_AUTO_PRIORITY`. -/
def minAutoPriority : ℕ := 3

/-- What one tag adds to the heuristic priority; `none` stops the stamping. -/
def tagScore (tag : String) : Option ℤ :=
  if tag = "kind:decision" then some 4
  else if tag = "kind:finish" then some 3
  else if tag = "kind:evidence" then some 3
  else if tag = "kind:run" then some 1
  else if tag = "kind:progress" then some 0
  else if startsWith tag.toList "kind:consolidated" then some 6
  else if startsWith tag.toList "kind:superseded" then none
  else if startsWith tag.toList "validated:true" || tag == "supports:true" then some 1
  else if startsWith tag.toList "status:failed" then some 1
  else if startsWith tag.toList "ctx:file:" || startsWith tag.toList "ctx:subsystem:" then some 1
  else some 0

/-- `compute_priority`. -/
def computePriority (chunkType : ChunkType) (text : String) (tags : List String) : ℕ :=
  let base : ℤ := match chunkType with
    | .decision => 5
    | .summary => 1
    | .research => 2
    | .plan => 1
    | _ => 0
  match tags.mapM tagScore with
  | none => 0
  | some scores =>
    let lowered := asciiLower text.toList
    let validated : ℤ :=
      if ["validated:", "validation:", "reproduced", "confirmed"].any (contains lowered) then 1
      else 0
    let fixed : ℤ := if ["root cause", "fix:"].any (contains lowered) then 1 else 0
    let chatter : ℤ :=
      if ["todo", "starting", "about to "].any (startsWith lowered) then -2 else 0
    (min (max (base + scores.sum + validated + fixed + chatter) 0) maxAutoPriority).toNat

/-- `stamp_auto_priority`: the tags afterwards. -/
def stampAutoPriority (g : GateExternals) (chunkType : ChunkType) (text : String)
    (tags : List String) : List String :=
  if hasExplicitPriority g tags then tags
  else
    let computed := computePriority chunkType text tags
    if computed < minAutoPriority then tags
    else tags ++ [s!"priority:{min computed maxAutoPriority}"]

/-! ## Concrete actions -/

/-- The imperative verbs that make an `Agent action:` sentence concrete. -/
def actionVerbs : List String :=
  ["apply", "avoid", "check", "configure", "confirm", "disable", "do", "enable", "export",
   "follow", "include", "keep", "pin", "point", "prefer", "record", "review", "resolve", "reuse",
   "run", "set", "treat", "update", "use", "verify", "write"]

/-- Does the marker stand at the front, in any case? -/
def atMarker (marker : String) (text : List Char) : Bool :=
  startsWith (asciiLower (text.take marker.toList.length)) marker

/-- What stands in front of the next marker. -/
def untilMarker (marker : String) : List Char → List Char
  | [] => []
  | c :: cs => if atMarker marker (c :: cs) then [] else c :: untilMarker marker cs

/-- `concrete_agent_action_candidates`: what follows each marker on its line, up to the next
marker.  The markers searched for do not overlap themselves. -/
def concreteAgentActionCandidates (marker : String) : List Char → List (List Char)
  | [] => []
  | c :: cs =>
    let later := concreteAgentActionCandidates marker cs
    if atMarker marker (c :: cs) then
      let body := untilMarker marker ((c :: cs).drop marker.toList.length)
      trim (body.takeWhile fun d => d != '\n' && d != '\r') :: later
    else later

/-- `contains_action_verb`. -/
def containsActionVerb (text : List Char) : Bool :=
  (text.splitOnP fun c => !c.isAlpha).any fun word =>
    actionVerbs.contains (String.ofList (asciiLower word))

/-- `is_concrete_agent_action`. -/
def isConcreteAgentAction (action : List Char) : Bool :=
  decide (24 ≤ action.length) && containsActionVerb action

/-- `has_concrete_agent_action`. -/
def hasConcreteAgentAction (text : List Char) : Bool :=
  (concreteAgentActionCandidates "agent action:" text).any isConcreteAgentAction

/-! ## Classification -/

/-- `AdmissionDecision`. -/
inductive AdmissionDecision
  | durable | ephemeral | reject
  deriving DecidableEq, Repr

/-- `AdmissionOutcome`. -/
structure AdmissionOutcome where
  decision : AdmissionDecision
  reason : String
  warning : Option String := none
  deriving DecidableEq, Repr

/-- `MAX_MEMORY_TEXT_BYTES`. -/
def maxMemoryTextBytes : ℕ := 1024 * 1024

/-- `is_generated_digest_wrapper`. -/
def isGeneratedDigestWrapper (text : List Char) (tags : List String) : Bool :=
  let generated := tags.any (· == "task:status:generated")
  let digestLike := tags.any fun tag =>
    startsWith tag.toList "task:role:" || startsWith tag.toList "task:digest:"
  let lowered := asciiLower text
  (generated && digestLike)
    || startsWith lowered "task digest status generated"
    || ["artifact role: highlight_library", "artifact role: project_brief",
        "artifact role: failure_library", "artifact role: decision_library",
        "artifact role: evidence_library"].any (contains lowered)

/-- `is_low_signal_progress`. -/
def isLowSignalProgress (text : List Char) : Bool :=
  let lowered := asciiLower text
  ["todo", "starting", "about to ", "working on ", "checking ", "investigating ",
      "looking into "].any (startsWith lowered)
    || (decide ((splitWhitespace lowered).length ≤ 8)
      && !(["/", "http", "validated", "root cause"].any (contains lowered)))

/-- The reason one tag gives for keeping a text. -/
def tagReason (tag : String) : Option String :=
  if tag = "kind:decision" then some "decision tag"
  else if tag = "kind:evidence" then some "evidence tag"
  else if tag = "kind:finish" then some "finished task outcome tag"
  else if tag = "kind:consolidated" then some "consolidated durable lesson tag"
  else if tag = "kind:run" then some "run/result evidence tag"
  else none

/-- The markers of a durable text, with the reason they give, in the order they are tried. -/
def durableMarkers : List (List String × String) :=
  [(["decision:", "rationale:"], "decision with rationale"),
   (["validated:", "validation:", "reproduced", "confirmed", "passed"], "validated result"),
   (["root cause", "failed because"], "root-cause failure"),
   (["fix:", "fixed by", "solution:"], "validated fix"),
   (["command:", "path:", "parameter:", "parameters:", "/home/", "crates/", "tasks/", ".rs", ".md",
     "http://", "https://"], "command/path/parameter evidence"),
   (["next step:", "follow-up:", "followup:"], "durable follow-up")]

/-- `durable_signal_reason`. -/
def durableSignalReason (chunkType : ChunkType) (text : List Char) (tags : List String) :
    Option String :=
  match chunkType with
  | .decision => some "decision chunk type"
  | .code => some "code or path-bearing chunk type"
  | _ =>
    (tags.findSome? tagReason).or
      ((durableMarkers.find? fun m => m.1.any (contains (asciiLower text))).map (·.2))

/-- `classify_write`. -/
def classifyWrite (g : GateExternals) (chunkType : ChunkType) (text : String) (tags : List String)
    (mode : IngestionMode) : AdmissionOutcome :=
  let trimmed := trim text.toList
  -- the checks that refuse come first
  if text.utf8ByteSize > maxMemoryTextBytes then
    { decision := .reject
      reason := s!"memory text is {text.utf8ByteSize} bytes, over the {maxMemoryTextBytes}-byte limit; chunk large documents before storing" }
  else if trimmed = [] then
    { decision := .reject, reason := "empty memory text is not useful durable context" }
  else if isGeneratedDigestWrapper trimmed tags then
    { decision := .reject
      reason := "generated digest wrapper records are not accepted through memory.add" }
  -- a high priority needs an action that says what to do, else it is lowered to 7
  else if explicitHighPriority g tags && !hasConcreteAgentAction trimmed then
    { decision := .durable
      reason := "high-priority memory without concrete Agent action; priority downgraded to 7"
      warning := some ("priority:8+ or importance:8+ memories need a concrete 'Agent action:' sentence (>= 24 chars containing one of: "
        ++ ", ".intercalate actionVerbs ++ "); stored at priority 7") }
  else if hasExplicitPriority g tags then
    { decision := .durable, reason := "explicit priority or importance tag" }
  else
    let durableReason := durableSignalReason chunkType trimmed tags
    -- progress chatter is kept for a while in a conversation and refused in a document
    if tags.any (· == "kind:progress") && isLowSignalProgress trimmed && durableReason.isNone then
      if mode = .conversation then
        { decision := .ephemeral
          reason := "low-signal conversation progress is stored as short-lived hidden context" }
      else
        { decision := .reject
          reason := "low-signal progress chatter needs a concrete result, decision, failure, command, path, or explicit priority" }
    else { decision := .durable, reason := durableReason.getD "accepted" }

/-! ## Preparing a write -/

/-- `WRITE_ADMISSION_EPHEMERAL_TTL_MS`. -/
def writeAdmissionEphemeralTtlMs : ℤ := 14 * 24 * 60 * 60 * 1000

/-- `WRITE_ADMISSION_PROGRESS_TTL_MS`. -/
def writeAdmissionProgressTtlMs : ℤ := 14 * 24 * 60 * 60 * 1000

/-- `WRITE_ADMISSION_RUN_TRACE_TTL_MS`. -/
def writeAdmissionRunTraceTtlMs : ℤ := 30 * 24 * 60 * 60 * 1000

/-- `normalize_tags`: trimmed, without empty ones and without repetitions. -/
def normalizeTags (tags : List String) : List String :=
  (tags.map fun tag => String.ofList (trim tag.toList)).filter (· ≠ "") |>.foldl
    (fun seen tag => if seen.contains tag then seen else seen ++ [tag]) []

/-- `has_durable_retention_override`. -/
def hasDurableRetentionOverride (tags : List String) : Bool :=
  tags.any fun tag =>
    ["kind:evidence", "kind:decision", "kind:finish", "kind:consolidated", "retention:durable",
      "validated:true", "supports:true"].contains tag
      || startsWith tag.toList "evidence:" || startsWith tag.toList "source:evidence"

/-- `should_apply_run_trace_retention`. -/
def shouldApplyRunTraceRetention (g : GateExternals) (chunkType : ChunkType)
    (tags : List String) : Bool :=
  (chunkType == .trace || tags.any (· == "kind:run")) && !hasExplicitPriority g tags
    && !hasDurableRetentionOverride tags

/-- `should_apply_progress_summary_retention`. -/
def shouldApplyProgressSummaryRetention (g : GateExternals) (chunkType : ChunkType)
    (tags : List String) : Bool :=
  chunkType == .summary && tags.any (· == "kind:progress") && !hasExplicitPriority g tags
    && !hasDurableRetentionOverride tags

/-- `PrepareWriteRequest`. -/
structure PrepareWriteRequest where
  chunkType : ChunkType
  text : String
  tags : List String
  ingestionMode : IngestionMode
  expiresAtMs : Option ℤ
  reviewAfterMs : Option ℤ
  deriving DecidableEq, Repr

/-- `RetentionSource`. -/
inductive RetentionSource
  | none | caller | conversationDefault | ephemeralDefault | progressDefault | runTraceDefault
  deriving DecidableEq, Repr

/-- The two deadlines of a write, where they come from, and which of them were filled in. -/
structure PreparedRetention where
  expiresAtMs : Option ℤ
  reviewAfterMs : Option ℤ
  source : RetentionSource
  defaultedExpiresAt : Bool
  defaultedReviewAfter : Bool
  deriving DecidableEq, Repr

/-- The source of deadlines that no default was added to. -/
def RetentionSource.ofCaller (expiresAtMs reviewAfterMs : Option ℤ) : RetentionSource :=
  if expiresAtMs.isSome || reviewAfterMs.isSome then .caller else .none

namespace PreparedRetention

/-- `PreparedRetention::new`. -/
def new (expiresAtMs reviewAfterMs : Option ℤ) : PreparedRetention where
  expiresAtMs := expiresAtMs
  reviewAfterMs := reviewAfterMs
  source := .ofCaller expiresAtMs reviewAfterMs
  defaultedExpiresAt := false
  defaultedReviewAfter := false

/-- `default_review`. -/
def defaultReview (r : PreparedRetention) (value : ℤ) (source : RetentionSource) :
    PreparedRetention :=
  if r.reviewAfterMs.isNone then
    { r with reviewAfterMs := some value, defaultedReviewAfter := true, source := source }
  else r

/-- `default_both`. -/
def defaultBoth (r : PreparedRetention) (value : ℤ) (source : RetentionSource) :
    PreparedRetention where
  expiresAtMs := r.expiresAtMs.or (some value)
  reviewAfterMs := r.reviewAfterMs.or (some value)
  source := source
  defaultedExpiresAt := r.defaultedExpiresAt || r.expiresAtMs.isNone
  defaultedReviewAfter := r.defaultedReviewAfter || r.reviewAfterMs.isNone

/-- `strip_defaults`. -/
def stripDefaults (r : PreparedRetention) : PreparedRetention :=
  new (if r.defaultedExpiresAt then Option.none else r.expiresAtMs)
    (if r.defaultedReviewAfter then Option.none else r.reviewAfterMs)

end PreparedRetention

/-- `PreparedWrite`. -/
structure PreparedWrite where
  outcome : AdmissionOutcome
  tags : List String
  retention : PreparedRetention
  lifecycleTier : Option MemoryTier
  ingestionMode : IngestionMode
  deriving DecidableEq, Repr

/-- `PreparedWrite::is_rejected`. -/
def PreparedWrite.isRejected (p : PreparedWrite) : Bool :=
  p.outcome.decision == .reject

/-- `PreparedWrite::lifecycle_delta`. -/
def PreparedWrite.lifecycleDelta (p : PreparedWrite) : LifecycleDelta where
  tier := p.lifecycleTier
  expiresAtMs := p.retention.expiresAtMs.map some
  reviewAfterMs := p.retention.reviewAfterMs.map some

/-- `PreparedWrite::apply_to_chunk`. -/
def PreparedWrite.applyToChunk (p : PreparedWrite) (chunk : MemoryChunk) : MemoryChunk :=
  { chunk with tags := p.tags, ingestionMode := p.ingestionMode }

/-- The retention of an admitted write. -/
def preparedRetention (g : GateExternals) (request : PrepareWriteRequest) (tags : List String)
    (decision : AdmissionDecision) (now : ℤ) : PreparedRetention :=
  let caller := PreparedRetention.new request.expiresAtMs request.reviewAfterMs
  let retention :=
    -- a conversation is looked at again after a while; the other defaults set both deadlines
    if request.ingestionMode = .conversation then
      caller.defaultReview (now + writeAdmissionProgressTtlMs) .conversationDefault
    else caller
  if decision = .ephemeral then
    retention.defaultBoth (now + writeAdmissionEphemeralTtlMs) .ephemeralDefault
  else if shouldApplyRunTraceRetention g request.chunkType tags then
    retention.defaultBoth (now + writeAdmissionRunTraceTtlMs) .runTraceDefault
  else if shouldApplyProgressSummaryRetention g request.chunkType tags then
    retention.defaultBoth (now + writeAdmissionProgressTtlMs) .progressDefault
  else retention

/-- The tags of an admitted write. -/
def preparedTags (g : GateExternals) (request : PrepareWriteRequest) (tags : List String)
    (outcome : AdmissionOutcome) : List String :=
  let tags := if outcome.warning.isSome then downgradeHighPriorityTags g tags else tags
  let tags :=
    if outcome.decision = .ephemeral then
      ["admission:ephemeral", "retention:short_lived"].foldl
        (fun tags tag => if tags.contains tag then tags else tags ++ [tag]) tags
    else tags
  if outcome.decision = .durable then stampAutoPriority g request.chunkType request.text tags
  else tags

/-- `prepare_write_at`. -/
def prepareWriteAt (g : GateExternals) (request : PrepareWriteRequest) (now : ℤ) :
    PreparedWrite :=
  let tags := normalizeTags request.tags
  let outcome := classifyWrite g request.chunkType request.text tags request.ingestionMode
  -- a refused write keeps the caller's deadlines and gets no default
  if outcome.decision = .reject then
    { outcome := outcome, tags := tags
      retention := .new request.expiresAtMs request.reviewAfterMs
      lifecycleTier := none, ingestionMode := request.ingestionMode }
  else
    { outcome := outcome
      tags := preparedTags g request tags outcome
      retention := preparedRetention g request tags outcome.decision now
      -- short-lived memories start in the history
      lifecycleTier := if outcome.decision = .ephemeral then some .history else none
      ingestionMode := request.ingestionMode }
