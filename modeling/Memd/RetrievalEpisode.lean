/-
# Retrieval episodes and outcomes

`store/outcome.rs` and the three transactions of `sqlite/episodes.rs`: a search stores what
it fetched and what it showed (`insertRetrievalEpisode`), a reranker behind it may replace
the shown part (`finalizeRetrievalEpisode`), and an outcome credits or blames chunks that
were shown (`insertOutcomeEvent`).

A score is a 32-bit float, given by its bits.  A rank is a `usize`; its column holds the
same 64 bits as an `i64`, and a negative one cannot be read back (`sqlUsize`).  The three
sizes of an episode are bounded by 200 before they are stored.
-/
import Mathlib.Data.List.Sort
import Memd.ChunkStatements
import Memd.WriteAdmission

open Text

/-! ## Data -/

/-- `RetrievalEpisodeId`. -/
abbrev RetrievalEpisodeId := ℕ

/-- `OutcomeEventId`. -/
abbrev OutcomeEventId := ℕ

/-- `RankingPolicyMode`. -/
inductive RankingPolicyMode
  | off | shadow | serve
  deriving DecidableEq, Repr

/-- `OutcomeKind`. -/
inductive OutcomeKind
  | passed | accepted | observedUsed | corrected | failed | abandoned | verifierError
  deriving DecidableEq, Repr

/-- `OutcomeKind::credits_used`. -/
def OutcomeKind.creditsUsed : OutcomeKind → Bool
  | .passed | .accepted => true
  | _ => false

/-- `OutcomeKind::credits_harmful`. -/
def OutcomeKind.creditsHarmful : OutcomeKind → Bool
  | .corrected | .failed => true
  | _ => false

/-- `OutcomeVerifier`. -/
inductive OutcomeVerifier
  | user | automatedTest | externalTool | taskSystem | agentSelfReport
  deriving DecidableEq, Repr

namespace OutcomeVerifier

/-- `OutcomeVerifier::as_str`. -/
def asStr : OutcomeVerifier → String
  | user => "user"
  | automatedTest => "automated_test"
  | externalTool => "external_tool"
  | taskSystem => "task_system"
  | agentSelfReport => "agent_self_report"

/-- `OutcomeVerifier::is_ranking_eligible`. -/
def isRankingEligible (v : OutcomeVerifier) : Bool :=
  v != .agentSelfReport

/-- `OutcomeVerifier::requires_evidence`. -/
def requiresEvidence : OutcomeVerifier → Bool
  | automatedTest | externalTool | taskSystem => true
  | _ => false

end OutcomeVerifier

/-- `RetrievalEpisode`. -/
structure RetrievalEpisode where
  episodeId : RetrievalEpisodeId
  tenantId : TenantId
  projectId : Option String
  queryHash : String
  queryMode : String
  requestedK : ℕ
  fetchedK : ℕ
  renderedK : ℕ
  policyVersion : String
  policyMode : RankingPolicyMode
  taskId : Option String
  threadId : Option String
  createdAtMs : ℤ
  expiresAtMs : ℤ
  deriving DecidableEq, Repr

/-- `RetrievalEpisodeItem`. -/
structure RetrievalEpisodeItem where
  episodeId : RetrievalEpisodeId
  chunkId : ChunkId
  originTenantId : TenantId
  originProjectId : Option String
  originalRank : BitVec 64
  originalScore : F32
  laneScoresJson : String
  outcomeAdjustment : F32
  servedRank : Option (BitVec 64)
  shadowRank : Option (BitVec 64)
  rendered : Bool
  sourceDedupGroup : Option String
  deriving DecidableEq, Repr

/-- `OutcomeEvent`. -/
structure OutcomeEvent where
  eventId : OutcomeEventId
  episodeId : RetrievalEpisodeId
  outcome : OutcomeKind
  verifier : OutcomeVerifier
  usedChunkIds : List ChunkId
  harmfulChunkIds : List ChunkId
  evidenceReference : Option String
  rankingEligible : Bool
  timestampMs : ℤ
  deriving DecidableEq, Repr

/-! ## Validating an episode -/

/-- An early return with a validation error. -/
def rejectIf (bad : Prop) [Decidable bad] (msg : String) : Except MemdError Unit :=
  if bad then .error (.validationError msg) else .ok ()

theorem rejectIf_eq_ok {bad : Prop} [Decidable bad] {msg : String} {u : Unit} :
    rejectIf bad msg = .ok u ↔ ¬ bad := by
  by_cases h : bad <;> simp [rejectIf, h]

/-- `is_ascii_hexdigit`. -/
def isHexDigit (c : Char) : Bool :=
  c.isDigit || ('a' ≤ c && c ≤ 'f') || ('A' ≤ c && c ≤ 'F')

/-- The check on the task and the thread id of an episode. -/
def checkContextId (name : String) (value : Option String) : Except MemdError Unit :=
  rejectIf (value.any fun v => decide (trim v.toList = []) || decide (512 < v.utf8ByteSize))
    s!"retrieval episode {name} must contain 1 to 512 bytes"

/-- The ids and ranks seen so far. -/
structure SeenItems where
  chunkIds : List ChunkId := []
  originalRanks : List (BitVec 64) := []
  servedRanks : List (BitVec 64) := []
  shadowRanks : List (BitVec 64) := []
  deriving DecidableEq, Repr

/-- Remember a rank that must not have been seen before. -/
def insertRank (seen : List (BitVec 64)) (msg : String) :
    Option (BitVec 64) → Except MemdError (List (BitVec 64))
  | none => .ok seen
  | some rank => if seen.contains rank then .error (.validationError msg) else .ok (seen ++ [rank])

/-- One item of `validate_retrieval_episode`; `isJsonObject` says which texts `serde_json`
reads as an object. -/
def validateItem (isJsonObject : String → Bool) (episodeId : RetrievalEpisodeId) (seen : SeenItems)
    (item : RetrievalEpisodeItem) : Except MemdError SeenItems :=
  if item.episodeId ≠ episodeId then
    .error (.validationError "retrieval episode item references a different episode")
  else if seen.chunkIds.contains item.chunkId || seen.originalRanks.contains item.originalRank then
    .error (.validationError
      "retrieval episode candidate IDs and original ranks must be unique")
  else if !item.originalScore.isFinite || !item.outcomeAdjustment.isFinite then
    .error (.validationError "retrieval episode scores must be finite")
  else if 4096 < item.laneScoresJson.utf8ByteSize || !isJsonObject item.laneScoresJson then
    .error (.validationError "retrieval episode lane scores must be a bounded JSON object")
  else do
    let servedRanks ← insertRank seen.servedRanks "retrieval episode served ranks must be unique"
      item.servedRank
    let shadowRanks ← insertRank seen.shadowRanks "retrieval episode shadow ranks must be unique"
      item.shadowRank
    if item.rendered && item.servedRank.isNone then
      .error (.validationError "a rendered retrieval item must have a served rank")
    else .ok {
      chunkIds := seen.chunkIds ++ [item.chunkId]
      originalRanks := seen.originalRanks ++ [item.originalRank]
      servedRanks := servedRanks
      shadowRanks := shadowRanks }

/-- `validate_retrieval_episode`. -/
def validateRetrievalEpisode (isJsonObject : String → Bool) (episode : RetrievalEpisode)
    (items : List RetrievalEpisodeItem) : Except MemdError Unit := do
  rejectIf (episode.queryHash.utf8ByteSize ≠ 64 ∨ ¬ episode.queryHash.toList.all isHexDigit)
    "retrieval episode query hash must be a SHA-256 hex digest"
  rejectIf (trim episode.queryMode.toList = [] ∨ trim episode.policyVersion.toList = [])
    "retrieval episode mode and policy version must not be empty"
  checkContextId "task_id" episode.taskId
  checkContextId "thread_id" episode.threadId
  rejectIf (episode.expiresAtMs ≤ episode.createdAtMs)
    "retrieval episode expiry must follow creation"
  rejectIf (episode.fetchedK ≠ items.length)
    s!"retrieval episode fetched_k {episode.fetchedK} does not match {items.length} candidate items"
  rejectIf (200 < episode.requestedK ∨ 200 < episode.fetchedK ∨ 200 < episode.renderedK)
    "retrieval episode exceeds bounded k limits"
  rejectIf (episode.renderedK ≠ (items.filter (·.rendered)).length)
    "retrieval episode rendered_k does not match rendered items"
  let _ ← items.foldlM (validateItem isJsonObject episode.episodeId) {}
  pure ()

/-! ## Replacing the shown part -/

/-- The check on the rendered ids, from those already seen on. -/
def checkRendered (items : List RetrievalEpisodeItem) : List ChunkId → List ChunkId →
    Except MemdError Unit
  | _, [] => .ok ()
  | requested, c :: rest =>
    if requested.contains c then
      .error (.validationError "rendered retrieval order contains duplicate chunk IDs")
    else if !items.any (·.chunkId == c) then
      .error (.validationError s!"rendered chunk {c} was not in the retrieval candidate pool")
    else checkRendered items (requested ++ [c]) rest

/-- The item without its served rank. -/
def RetrievalEpisodeItem.hide (item : RetrievalEpisodeItem) : RetrievalEpisodeItem :=
  { item with servedRank := none, rendered := false }

/-- The item as the `rank`-th of the shown ones. -/
def RetrievalEpisodeItem.serve (item : RetrievalEpisodeItem) (rank : ℕ) : RetrievalEpisodeItem :=
  { item with servedRank := some (BitVec.ofNat 64 rank), rendered := true }

/-- `items.iter_mut().find(…)` and the two assignments behind it. -/
def showFirst (c : ChunkId) (rank : ℕ) : List RetrievalEpisodeItem → List RetrievalEpisodeItem
  | [] => []
  | item :: items =>
    if item.chunkId = c then item.serve rank :: items else item :: showFirst c rank items

/-- `apply_rendered_order`. -/
def applyRenderedOrder (isJsonObject : String → Bool) (episode : RetrievalEpisode)
    (items : List RetrievalEpisodeItem) (rendered : List ChunkId) :
    Except MemdError (RetrievalEpisode × List RetrievalEpisodeItem) :=
  if episode.requestedK < rendered.length then
    .error (.validationError s!"rendered retrieval count {rendered.length} exceeds requested k {episode.requestedK}")
  else do
    checkRendered items [] rendered
    let shown := rendered.zipIdx.foldl (fun items e => showFirst e.1 e.2 items)
      (items.map (·.hide))
    let episode := { episode with renderedK := rendered.length }
    validateRetrievalEpisode isJsonObject episode shown
    pure (episode, shown)

/-! ## Validating an outcome -/

/-- `rsplit_once(':')`. -/
def rsplitOnceColon (s : List Char) : Option (List Char × List Char) :=
  let line := (s.reverse.takeWhile (· != ':')).reverse
  if s.contains ':' then some (s.take (s.length - line.length - 1), line) else none

/-- `parse::<usize>`. -/
def parseUsize (s : List Char) : Option ℕ :=
  let digits := match s with
    | '+' :: rest => rest
    | s => s
  if digits = [] ∨ ¬ digits.all Char.isDigit then none
  else
    let n := digits.foldl (fun n c => 10 * n + (c.toNat - '0'.toNat)) 0
    if n < 2 ^ 64 then some n else none

/-- `is_legacy_codex_scanner_outcome`. -/
def isLegacyCodexScannerOutcome (outcome : OutcomeKind) (verifier : OutcomeVerifier)
    (evidence : Option String) : Bool :=
  outcome == .accepted && verifier == .externalTool &&
    ((evidence.bind (stripPrefix · "codex:")).bind fun r => rsplitOnceColon r.toList).any fun r =>
      r.1 != [] && ".jsonl".toList.isSuffixOf r.1 && !r.1.contains '/' && !r.1.contains '\\'
        && (parseUsize r.2).any fun n => decide (0 < n)

/-- `expected_ranking_eligibility`. -/
def expectedRankingEligibility (outcome : OutcomeKind) (verifier : OutcomeVerifier)
    (hasUsed hasHarmful : Bool) (evidence : Option String) : Bool :=
  verifier.isRankingEligible && !isLegacyCodexScannerOutcome outcome verifier evidence
    && ((outcome.creditsUsed && hasUsed) || (outcome.creditsHarmful && hasHarmful))

/-- `validate_outcome_event`. -/
def validateOutcomeEvent (t : TenantId) (episode : RetrievalEpisode)
    (items : List RetrievalEpisodeItem) (event : OutcomeEvent) : Except MemdError Unit := do
  rejectIf (episode.tenantId ≠ t ∨ event.episodeId ≠ episode.episodeId)
    "outcome tenant or episode does not match the retrieval episode"
  rejectIf (event.timestampMs < episode.createdAtMs ∨ episode.expiresAtMs < event.timestampMs)
    "outcome timestamp falls outside the retrieval episode retention window"
  rejectIf (event.verifier.requiresEvidence ∧
      ¬ event.evidenceReference.any fun r => decide (trim r.toList ≠ []))
    s!"{event.verifier.asStr} outcomes require an evidence reference"
  rejectIf (event.evidenceReference.any fun r => decide (2048 < r.utf8ByteSize))
    "outcome evidence reference exceeds 2048 bytes"
  let rendered := (items.filter (·.rendered)).map (·.chunkId)
  rejectIf (¬ event.usedChunkIds.Nodup ∨ ¬ event.harmfulChunkIds.Nodup)
    "outcome chunk IDs must not contain duplicates"
  rejectIf (event.usedChunkIds.any event.harmfulChunkIds.contains)
    "outcome used and harmful chunk IDs must not overlap"
  rejectIf ((event.usedChunkIds ++ event.harmfulChunkIds).any fun c => !rendered.contains c)
    "outcome attribution is limited to chunks rendered in the episode"
  rejectIf (event.rankingEligible ≠ expectedRankingEligibility event.outcome event.verifier
      (!event.usedChunkIds.isEmpty) (!event.harmfulChunkIds.isEmpty) event.evidenceReference)
    "outcome ranking eligibility does not match its verifier and attribution"

/-! ## The tables -/

/-- The three tables of `init_outcome_schema`, beside the rest of the database. -/
structure EpisodeDb where
  db : Db := {}
  episodes : List RetrievalEpisode := []
  items : List RetrievalEpisodeItem := []
  events : List OutcomeEvent := []
  deriving DecidableEq, Repr

namespace EpisodeDb

/-- `usize::try_from` on the value of a column. -/
def sqlUsize (rank : BitVec 64) : Except MemdError (BitVec 64) :=
  if rank.toInt < 0 then .error (.storageError "out of range integral type conversion attempted")
  else .ok rank

/-- The same on a column that may be NULL. -/
def sqlUsizeOpt : Option (BitVec 64) → Except MemdError (Option (BitVec 64))
  | none => .ok none
  | some rank => (sqlUsize rank).map some

/-- `row_to_retrieval_episode_item`. -/
def rowToItem (row : RetrievalEpisodeItem) : Except MemdError RetrievalEpisodeItem := do
  let originalRank ← sqlUsize row.originalRank
  let servedRank ← sqlUsizeOpt row.servedRank
  let shadowRank ← sqlUsizeOpt row.shadowRank
  pure { row with originalRank := originalRank, servedRank := servedRank, shadowRank := shadowRank }

/-- The rows of an episode's items, `ORDER BY original_rank`. -/
def itemRows (s : EpisodeDb) (id : RetrievalEpisodeId) : List RetrievalEpisodeItem :=
  (s.items.filter (·.episodeId == id)).insertionSort
    fun a b => a.originalRank.toInt ≤ b.originalRank.toInt

/-- `query_retrieval_episode_items`. -/
def queryItems (s : EpisodeDb) (id : RetrievalEpisodeId) :
    Except MemdError (List RetrievalEpisodeItem) :=
  (s.itemRows id).mapM rowToItem

/-- The episode of the tenant. -/
def findEpisode (s : EpisodeDb) (t : TenantId) (id : RetrievalEpisodeId) :
    Except MemdError RetrievalEpisode :=
  match s.episodes.find? fun e => e.tenantId == t && e.episodeId == id with
  | none => .error (.validationError s!"unknown retrieval episode {id} for tenant")
  | some e => .ok e

/-- A transaction: an error rolls everything back. -/
def transact (f : EpisodeDb → Except MemdError EpisodeDb) (s : EpisodeDb) :
    Except MemdError Unit × EpisodeDb :=
  match f s with
  | .ok s' => (.ok (), s')
  | .error e => (.error e, s)

/-- The check that an item's chunk belongs to its origin. -/
def checkOrigin (s : EpisodeDb) (item : RetrievalEpisodeItem) : Except MemdError Unit :=
  match s.db.row item.originTenantId item.chunkId with
  | none => .error (.validationError
      s!"retrieval episode chunk {item.chunkId} does not belong to its origin tenant")
  | some r =>
    if r.projectId ≠ item.originProjectId then .error (.validationError
      s!"retrieval episode chunk {item.chunkId} origin project does not match")
    else .ok ()

/-- `INSERT INTO retrieval_episodes`. -/
def insertEpisodeRow (episode : RetrievalEpisode) (s : EpisodeDb) : Except MemdError EpisodeDb :=
  if s.episodes.any (·.episodeId == episode.episodeId) then
    .error (.storageError "UNIQUE constraint failed: retrieval_episodes.episode_id")
  else .ok { s with episodes := s.episodes ++ [episode] }

/-- `INSERT INTO retrieval_episode_items`. -/
def insertItemRow (s : EpisodeDb) (item : RetrievalEpisodeItem) : Except MemdError EpisodeDb :=
  if s.items.any fun r => r.episodeId == item.episodeId
      && (r.chunkId == item.chunkId || r.originalRank == item.originalRank) then
    .error (.storageError "UNIQUE constraint failed: retrieval_episode_items")
  else if !s.episodes.any (·.episodeId == item.episodeId) then
    .error (.storageError "FOREIGN KEY constraint failed")
  else .ok { s with items := s.items ++ [item] }

/-- `insert_retrieval_episode`. -/
def insertRetrievalEpisode (isJsonObject : String → Bool) (episode : RetrievalEpisode)
    (items : List RetrievalEpisodeItem) : EpisodeDb → Except MemdError Unit × EpisodeDb :=
  transact fun s => do
    validateRetrievalEpisode isJsonObject episode items
    items.forM s.checkOrigin
    let s ← insertEpisodeRow episode s
    items.foldlM insertItemRow s

/-- `UPDATE retrieval_episodes SET rendered_k`. -/
def setRenderedK (t : TenantId) (id : RetrievalEpisodeId) (k : ℕ) (s : EpisodeDb) : EpisodeDb :=
  { s with
    episodes := Table.updateWhere (fun e => e.tenantId == t && e.episodeId == id)
      (fun e => { e with renderedK := k }) s.episodes }

/-- The `UPDATE` that hides all items of an episode. -/
def hideItems (id : RetrievalEpisodeId) (s : EpisodeDb) : EpisodeDb :=
  { s with items := Table.updateWhere (·.episodeId == id) (·.hide) s.items }

/-- The `UPDATE` of one rendered id. -/
def showItem (id : RetrievalEpisodeId) (s : EpisodeDb) (e : ChunkId × ℕ) : EpisodeDb :=
  { s with
    items := Table.updateWhere (fun r => r.episodeId == id && r.chunkId == e.1)
      (·.serve e.2) s.items }

/-- `finalize_retrieval_episode`. -/
def finalizeRetrievalEpisode (isJsonObject : String → Bool) (t : TenantId) (id : RetrievalEpisodeId)
    (rendered : List ChunkId) : EpisodeDb → Except MemdError Unit × EpisodeDb :=
  transact fun s => do
    let episode ← s.findEpisode t id
    let items ← s.queryItems id
    let (episode, _) ← applyRenderedOrder isJsonObject episode items rendered
    pure (rendered.zipIdx.foldl (showItem id) (hideItems id (setRenderedK t id episode.renderedK s)))

/-- `INSERT INTO outcome_events`. -/
def insertEventRow (event : OutcomeEvent) (s : EpisodeDb) : Except MemdError EpisodeDb :=
  if s.events.any (·.eventId == event.eventId) then
    .error (.storageError "UNIQUE constraint failed: outcome_events.event_id")
  else .ok { s with events := s.events ++ [event] }

/-- `insert_outcome_event`. -/
def insertOutcomeEvent (t : TenantId) (event : OutcomeEvent) :
    EpisodeDb → Except MemdError Unit × EpisodeDb :=
  transact fun s => do
    let episode ← s.findEpisode t event.episodeId
    let items ← s.queryItems event.episodeId
    validateOutcomeEvent t episode items event
    insertEventRow event s

/-- The transactions on the three tables, and what other code does to the rest. -/
inductive Op
  | insertEpisode (episode : RetrievalEpisode) (items : List RetrievalEpisodeItem)
  | finalize (t : TenantId) (id : RetrievalEpisodeId) (rendered : List ChunkId)
  | insertOutcome (t : TenantId) (event : OutcomeEvent)
  | other (db : Db)

/-- One transaction. -/
def step (isJsonObject : String → Bool) (s : EpisodeDb) : Op → EpisodeDb
  | .insertEpisode episode items => (insertRetrievalEpisode isJsonObject episode items s).2
  | .finalize t id rendered => (finalizeRetrievalEpisode isJsonObject t id rendered s).2
  | .insertOutcome t event => (insertOutcomeEvent t event s).2
  | .other db => { s with db := db }

/-- A run of transactions, in the order they commit. -/
def run (isJsonObject : String → Bool) (s : EpisodeDb) (ops : List Op) : EpisodeDb :=
  ops.foldl (step isJsonObject) s

end EpisodeDb
