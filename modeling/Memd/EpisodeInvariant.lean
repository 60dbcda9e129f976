/-
# What the episode tables keep

A stored episode always passes its own check, whatever transactions run: inserting checks
it, and replacing the shown part computes in memory what the `UPDATE`s then do to the rows.
An outcome is checked against the shown part when it is inserted and never again, so a later
finalize that drops a credited chunk leaves an outcome about a chunk that was not shown.

* `WellFormed` — what `validateRetrievalEpisode` checks;
* `projected` — what a finalize does to an item, in memory and in the table;
* `finalize_frame` — a finalize changes the shown part only, and nothing when it errs;
* `outcomes_shown_iff` — which runs keep the episodes valid and the outcomes shown.
-/
import Mathlib.Data.List.Perm.Basic
import Memd.Proc
import Memd.RetrievalEpisode

open Text EpisodeDb Proc

/-! ## What the check on an episode says -/

/-- The checks on an episode that do not look at its items. -/
structure HeaderOk (episode : RetrievalEpisode) : Prop where
  queryHash : episode.queryHash.utf8ByteSize = 64 ∧ episode.queryHash.toList.all isHexDigit = true
  mode : trim episode.queryMode.toList ≠ [] ∧ trim episode.policyVersion.toList ≠ []
  taskId : checkContextId "task_id" episode.taskId = .ok ()
  threadId : checkContextId "thread_id" episode.threadId = .ok ()
  expiry : episode.createdAtMs < episode.expiresAtMs

/-- The checks on one item. -/
structure ItemOk (isJsonObject : String → Bool) (id : RetrievalEpisodeId)
    (item : RetrievalEpisodeItem) : Prop where
  episodeId : item.episodeId = id
  finite : item.originalScore.isFinite = true ∧ item.outcomeAdjustment.isFinite = true
  lanes : item.laneScoresJson.utf8ByteSize ≤ 4096 ∧ isJsonObject item.laneScoresJson = true
  served : item.rendered = true → item.servedRank.isSome = true

/-- What `validateRetrievalEpisode` checks. -/
structure WellFormed (isJsonObject : String → Bool) (episode : RetrievalEpisode)
    (items : List RetrievalEpisodeItem) : Prop where
  header : HeaderOk episode
  fetched : episode.fetchedK = items.length
  bounds : episode.requestedK ≤ 200 ∧ episode.fetchedK ≤ 200 ∧ episode.renderedK ≤ 200
  rendered : episode.renderedK = (items.filter (·.rendered)).length
  each : ∀ item ∈ items, ItemOk isJsonObject episode.episodeId item
  chunkIds : (items.map (·.chunkId)).Nodup
  originalRanks : (items.map (·.originalRank)).Nodup
  servedRanks : (items.filterMap (·.servedRank)).Nodup
  shadowRanks : (items.filterMap (·.shadowRank)).Nodup

section Validate

variable {isJsonObject : String → Bool} {episode : RetrievalEpisode}
  {items : List RetrievalEpisodeItem}

/-- A rank is accepted if it was not seen before. -/
theorem insertRank_eq_ok {seen seen' : List (BitVec 64)} {msg : String} {r : Option (BitVec 64)} :
    insertRank seen msg r = .ok seen' ↔ seen' = seen ++ r.toList ∧ ∀ k ∈ r, k ∉ seen := by
  cases r with
  | none => simp [insertRank, eq_comm]
  | some k =>
    by_cases hk : seen.contains k = true
    · have hmem : k ∈ seen := by simpa using hk
      simp only [insertRank, hk, if_true]
      constructor
      · exact fun h => absurd h (by simp)
      · exact fun h => absurd hmem (h.2 k rfl)
    · have hmem : k ∉ seen := by simpa using hk
      simp [insertRank, hmem, eq_comm]

/-- What one item adds to the seen ones. -/
def SeenItems.add (seen : SeenItems) (item : RetrievalEpisodeItem) : SeenItems where
  chunkIds := seen.chunkIds ++ [item.chunkId]
  originalRanks := seen.originalRanks ++ [item.originalRank]
  servedRanks := seen.servedRanks ++ item.servedRank.toList
  shadowRanks := seen.shadowRanks ++ item.shadowRank.toList

/-- An item is accepted if it is well formed and repeats nothing that was seen. -/
theorem validateItem_eq_ok {id : RetrievalEpisodeId} {seen seen' : SeenItems}
    {item : RetrievalEpisodeItem} :
    validateItem isJsonObject id seen item = .ok seen' ↔
      seen' = seen.add item ∧ ItemOk isJsonObject id item ∧
        item.chunkId ∉ seen.chunkIds ∧ item.originalRank ∉ seen.originalRanks ∧
        (∀ k ∈ item.servedRank, k ∉ seen.servedRanks) ∧
        ∀ k ∈ item.shadowRank, k ∉ seen.shadowRanks := by
  unfold validateItem
  constructor
  · intro h
    split at h
    · exact absurd h (by simp)
    rename_i hid
    split at h
    · exact absurd h (by simp)
    rename_i hseen
    split at h
    · exact absurd h (by simp)
    rename_i hfinite
    split at h
    · exact absurd h (by simp)
    rename_i hlanes
    obtain ⟨served, hserved, h⟩ := except_bind_eq_ok.mp h
    obtain ⟨shadow, hshadow, h⟩ := except_bind_eq_ok.mp h
    split at h
    · exact absurd h (by simp)
    rename_i hrendered
    obtain rfl := Except.ok.inj h
    obtain ⟨rfl, hnew⟩ := insertRank_eq_ok.mp hserved
    obtain ⟨rfl, hnew'⟩ := insertRank_eq_ok.mp hshadow
    have hitem : ItemOk isJsonObject id item := by
      refine ⟨by simpa using hid, by simpa using hfinite, ?_, ?_⟩
      · simpa using hlanes
      · intro hr
        cases hs : item.servedRank with
        | none => exact absurd (by simp [hr, hs]) hrendered
        | some k => rfl
    have hids : item.chunkId ∉ seen.chunkIds ∧ item.originalRank ∉ seen.originalRanks := by
      simpa using hseen
    exact ⟨rfl, hitem, hids.1, hids.2, hnew, hnew'⟩
  · rintro ⟨rfl, hitem, hchunk, hrank, hserved, hshadow⟩
    rw [if_neg (by simpa using hitem.episodeId), if_neg (by simp [hchunk, hrank]),
      if_neg (by simp [hitem.finite]), if_neg (by simp [hitem.lanes])]
    refine except_bind_eq_ok.mpr ⟨_, insertRank_eq_ok.mpr ⟨rfl, hserved⟩, ?_⟩
    refine except_bind_eq_ok.mpr ⟨_, insertRank_eq_ok.mpr ⟨rfl, hshadow⟩, ?_⟩
    rw [if_neg]
    · rfl
    · intro h
      simp only [Bool.and_eq_true, Option.isNone_iff_eq_none] at h
      have hsome := hitem.served h.1
      simp [h.2] at hsome

/-- No rank or id of the seen items is there twice. -/
structure SeenItems.Distinct (seen : SeenItems) : Prop where
  chunkIds : seen.chunkIds.Nodup
  originalRanks : seen.originalRanks.Nodup
  servedRanks : seen.servedRanks.Nodup
  shadowRanks : seen.shadowRanks.Nodup

/-- The seen items, with more behind them. -/
def SeenItems.addAll (seen : SeenItems) (items : List RetrievalEpisodeItem) : SeenItems where
  chunkIds := seen.chunkIds ++ items.map (·.chunkId)
  originalRanks := seen.originalRanks ++ items.map (·.originalRank)
  servedRanks := seen.servedRanks ++ items.filterMap (·.servedRank)
  shadowRanks := seen.shadowRanks ++ items.filterMap (·.shadowRank)

/-- The first value of a list, and those of the rest. -/
theorem append_filterMap_toList {α β : Type} (f : α → Option β) (seen : List β) (a : α)
    (l : List α) : seen ++ (a :: l).filterMap f = (seen ++ (f a).toList) ++ l.filterMap f := by
  rw [List.filterMap_cons]
  cases f a <;> simp

/-- Items are seen one after the other. -/
theorem SeenItems.addAll_cons (seen : SeenItems) (item : RetrievalEpisodeItem)
    (items : List RetrievalEpisodeItem) :
    seen.addAll (item :: items) = (seen.add item).addAll items := by
  simp only [addAll, add, append_filterMap_toList, List.map_cons, List.append_assoc,
    List.singleton_append]

/-- One more value without a repetition. -/
theorem nodup_append_option {α : Type} {seen : List α} {r : Option α} :
    (seen ++ r.toList).Nodup ↔ seen.Nodup ∧ ∀ k ∈ r, k ∉ seen := by
  cases r with
  | none => simp
  | some k =>
    simp only [Option.toList_some, List.nodup_append, List.nodup_cons, List.not_mem_nil,
      not_false_eq_true, List.nodup_nil, and_self, true_and, List.mem_singleton, Option.mem_def,
      Option.some.injEq]
    grind

/-- One more item is distinct from those before. -/
theorem SeenItems.distinct_add {seen : SeenItems} {item : RetrievalEpisodeItem} :
    (seen.add item).Distinct ↔ seen.Distinct ∧ item.chunkId ∉ seen.chunkIds ∧
      item.originalRank ∉ seen.originalRanks ∧ (∀ k ∈ item.servedRank, k ∉ seen.servedRanks) ∧
      ∀ k ∈ item.shadowRank, k ∉ seen.shadowRanks := by
  constructor
  · rintro ⟨h₁, h₂, h₃, h₄⟩
    obtain ⟨h₁, h₁'⟩ := nodup_append_option (r := some item.chunkId) |>.mp h₁
    obtain ⟨h₂, h₂'⟩ := nodup_append_option (r := some item.originalRank) |>.mp h₂
    obtain ⟨h₃, h₃'⟩ := nodup_append_option.mp h₃
    obtain ⟨h₄, h₄'⟩ := nodup_append_option.mp h₄
    exact ⟨⟨h₁, h₂, h₃, h₄⟩, h₁' _ rfl, h₂' _ rfl, h₃', h₄'⟩
  · rintro ⟨⟨h₁, h₂, h₃, h₄⟩, h₁', h₂', h₃', h₄'⟩
    exact ⟨nodup_append_option (r := some item.chunkId) |>.mpr ⟨h₁, by simpa using h₁'⟩,
      nodup_append_option (r := some item.originalRank) |>.mpr ⟨h₂, by simpa using h₂'⟩,
      nodup_append_option.mpr ⟨h₃, h₃'⟩, nodup_append_option.mpr ⟨h₄, h₄'⟩⟩

/-- What was seen before had no repetitions either. -/
theorem SeenItems.Distinct.of_addAll {seen : SeenItems} (h : (seen.addAll items).Distinct) :
    seen.Distinct :=
  ⟨h.chunkIds.of_append_left, h.originalRanks.of_append_left, h.servedRanks.of_append_left,
    h.shadowRanks.of_append_left⟩

/-- The loop over the items, from the seen ones on. -/
theorem validateItems_ok {id : RetrievalEpisodeId} {seen : SeenItems} (hseen : seen.Distinct) :
    (∃ seen', items.foldlM (validateItem isJsonObject id) seen = .ok seen') ↔
      (∀ item ∈ items, ItemOk isJsonObject id item) ∧ (seen.addAll items).Distinct := by
  induction items generalizing seen with
  | nil => simpa [SeenItems.addAll, pure, Except.pure] using hseen
  | cons item items ih =>
    simp only [List.foldlM_cons, except_bind_eq_ok, SeenItems.addAll_cons, List.forall_mem_cons]
    constructor
    · rintro ⟨seen', seen₁, hitem, hrest⟩
      obtain ⟨rfl, hok, hnew⟩ := validateItem_eq_ok.mp hitem
      obtain ⟨hall, hdistinct⟩ :=
        (ih (SeenItems.distinct_add.mpr ⟨hseen, hnew⟩)).mp ⟨seen', hrest⟩
      exact ⟨⟨hok, hall⟩, hdistinct⟩
    · rintro ⟨⟨hok, hall⟩, hdistinct⟩
      have hadd := hdistinct.of_addAll
      obtain ⟨seen', hrest⟩ := (ih hadd).mpr ⟨hall, hdistinct⟩
      exact ⟨seen', _, validateItem_eq_ok.mpr ⟨rfl, hok, (SeenItems.distinct_add.mp hadd).2⟩,
        hrest⟩

/-- **The check on an episode**, clause by clause. -/
theorem validateRetrievalEpisode_eq_ok :
    validateRetrievalEpisode isJsonObject episode items = .ok () ↔
      WellFormed isJsonObject episode items := by
  have hitems : (∃ seen', items.foldlM (validateItem isJsonObject episode.episodeId) {} = .ok seen') ↔
      (∀ item ∈ items, ItemOk isJsonObject episode.episodeId item) ∧
        (SeenItems.addAll {} items).Distinct :=
    validateItems_ok ⟨List.nodup_nil, List.nodup_nil, List.nodup_nil, List.nodup_nil⟩
  simp only [validateRetrievalEpisode, except_bind_eq_ok, rejectIf_eq_ok]
  constructor
  · rintro ⟨_, hhash, _, hmode, _, htask, _, hthread, _, hexpiry, _, hfetched, _, hbounds, _,
      hrendered, hloop⟩
    obtain ⟨hall, hdistinct⟩ := hitems.mp ⟨_, hloop.choose_spec.1⟩
    refine ⟨⟨by simpa using hhash, by simpa using hmode, htask, hthread, by simpa using hexpiry⟩,
      by simpa using hfetched, by simpa using hbounds, by simpa using hrendered, hall, ?_, ?_, ?_, ?_⟩
    · exact hdistinct.chunkIds
    · exact hdistinct.originalRanks
    · exact hdistinct.servedRanks
    · exact hdistinct.shadowRanks
  · intro h
    obtain ⟨seen', hloop⟩ := hitems.mpr ⟨h.each, h.chunkIds, h.originalRanks, h.servedRanks,
      h.shadowRanks⟩
    refine ⟨(), ?_, (), ?_, (), h.header.taskId, (), h.header.threadId, (), ?_, (), ?_, (), ?_, (),
      ?_, seen', hloop, rfl⟩
    · simpa using h.header.queryHash
    · simpa using h.header.mode
    · simpa using h.header.expiry
    · simpa using h.fetched
    · simpa using h.bounds
    · simpa using h.rendered

/-- The order of the items does not matter. -/
theorem WellFormed.perm {items' : List RetrievalEpisodeItem}
    (h : WellFormed isJsonObject episode items) (hp : items.Perm items') :
    WellFormed isJsonObject episode items' where
  header := h.header
  fetched := h.fetched.trans hp.length_eq
  bounds := h.bounds
  rendered := h.rendered.trans (hp.filter _).length_eq
  each := fun item hitem => h.each item (hp.mem_iff.mpr hitem)
  chunkIds := (hp.map _).nodup_iff.mp h.chunkIds
  originalRanks := (hp.map _).nodup_iff.mp h.originalRanks
  servedRanks := (hp.filterMap _).nodup_iff.mp h.servedRanks
  shadowRanks := (hp.filterMap _).nodup_iff.mp h.shadowRanks

end Validate

/-! ## Reading items back -/

/-- The ranks of the item fit the columns. -/
structure Readable (item : RetrievalEpisodeItem) : Prop where
  original : 0 ≤ item.originalRank.toInt
  served : ∀ k ∈ item.servedRank, 0 ≤ k.toInt
  shadow : ∀ k ∈ item.shadowRank, 0 ≤ k.toInt

/-- A number that fits a signed column is read back. -/
theorem sqlUsize_eq_ok {k k' : BitVec 64} : sqlUsize k = .ok k' ↔ k = k' ∧ 0 ≤ k.toInt := by
  unfold sqlUsize
  split
  · rename_i h
    simp only [reduceCtorEq, false_iff, not_and]
    intro _ h'
    omega
  · rename_i h
    simp only [Except.ok.injEq]
    exact ⟨fun heq => ⟨heq, by omega⟩, fun heq => heq.1⟩

/-- So is an optional one. -/
theorem sqlUsizeOpt_eq_ok {k k' : Option (BitVec 64)} :
    sqlUsizeOpt k = .ok k' ↔ k = k' ∧ ∀ r ∈ k, 0 ≤ r.toInt := by
  cases k with
  | none => simp [sqlUsizeOpt, eq_comm]
  | some r =>
    by_cases h : r.toInt < 0
    · have hneg : ¬ 0 ≤ r.toInt := by omega
      simp [sqlUsizeOpt, sqlUsize, h, Except.map]
    · have hpos : 0 ≤ r.toInt := by omega
      simp [sqlUsizeOpt, sqlUsize, h, Except.map, hpos, eq_comm]

/-- A readable row is read back as it is. -/
theorem rowToItem_eq_ok {row item : RetrievalEpisodeItem} :
    rowToItem row = .ok item ↔ item = row ∧ Readable row := by
  unfold rowToItem
  simp only [except_bind_eq_ok, sqlUsize_eq_ok, sqlUsizeOpt_eq_ok]
  constructor
  · rintro ⟨_, ⟨rfl, h₁⟩, _, ⟨rfl, h₂⟩, _, ⟨rfl, h₃⟩, h⟩
    exact ⟨(Except.ok.inj h).symm, h₁, h₂, h₃⟩
  · rintro ⟨rfl, h₁, h₂, h₃⟩
    exact ⟨_, ⟨rfl, h₁⟩, _, ⟨rfl, h₂⟩, _, ⟨rfl, h₃⟩, rfl⟩

/-- So are readable rows. -/
theorem mapM_rowToItem {rows items : List RetrievalEpisodeItem} :
    rows.mapM rowToItem = .ok items ↔ items = rows ∧ ∀ row ∈ rows, Readable row := by
  induction rows generalizing items with
  | nil => simp [pure, Except.pure, eq_comm]
  | cons row rows ih =>
    rw [List.mapM_cons]
    simp only [except_bind_eq_ok, rowToItem_eq_ok, ih, List.forall_mem_cons]
    constructor
    · rintro ⟨_, ⟨rfl, hrow⟩, _, ⟨rfl, hrows⟩, h⟩
      exact ⟨(Except.ok.inj h).symm, hrow, hrows⟩
    · rintro ⟨rfl, hrow, hrows⟩
      exact ⟨_, ⟨rfl, hrow⟩, _, ⟨rfl, hrows⟩, rfl⟩

namespace EpisodeDb

variable (isJsonObject : String → Bool) {s s' : EpisodeDb} {id : RetrievalEpisodeId}

/-- The rows of an episode's items, as they stand in the table. -/
def itemsOf (s : EpisodeDb) (id : RetrievalEpisodeId) : List RetrievalEpisodeItem :=
  s.items.filter (·.episodeId == id)

/-- The rows of an episode are its items in another order. -/
theorem itemRows_perm (s : EpisodeDb) (id : RetrievalEpisodeId) :
    (s.itemRows id).Perm (s.itemsOf id) :=
  List.perm_insertionSort _ _

/-- The items of an episode. -/
theorem mem_itemsOf {item : RetrievalEpisodeItem} :
    item ∈ s.itemsOf id ↔ item ∈ s.items ∧ item.episodeId = id := by
  simp [itemsOf]

/-- A query returns the rows of the episode if all are readable. -/
theorem queryItems_eq_ok {items : List RetrievalEpisodeItem} :
    s.queryItems id = .ok items ↔ items = s.itemRows id ∧ ∀ row ∈ s.itemsOf id, Readable row := by
  rw [queryItems, mapM_rowToItem]
  refine and_congr_right fun _ => forall_congr' fun row => ?_
  rw [(s.itemRows_perm id).mem_iff]

/-- The stored episode can be read back and passes its own check. -/
def Valid (s : EpisodeDb) (episode : RetrievalEpisode) : Prop :=
  ∃ items, s.queryItems episode.episodeId = .ok items ∧
    validateRetrievalEpisode isJsonObject episode items = .ok ()

/-- An episode is valid if it is well formed and can be read. -/
theorem valid_iff {episode : RetrievalEpisode} :
    s.Valid isJsonObject episode ↔ WellFormed isJsonObject episode (s.itemsOf episode.episodeId) ∧
      ∀ row ∈ s.itemsOf episode.episodeId, Readable row := by
  have hp := s.itemRows_perm episode.episodeId
  simp only [Valid, queryItems_eq_ok, validateRetrievalEpisode_eq_ok]
  constructor
  · rintro ⟨_, ⟨rfl, hread⟩, hwf⟩
    exact ⟨hwf.perm hp, hread⟩
  · rintro ⟨hwf, hread⟩
    exact ⟨_, ⟨rfl, hread⟩, hwf.perm hp.symm⟩

end EpisodeDb

/-! ## What a finalize does to an item -/

/-- The item under the new order: served at its place in it, or hidden. -/
def projected (rendered : List ChunkId) (item : RetrievalEpisodeItem) : RetrievalEpisodeItem :=
  match rendered.idxOf? item.chunkId with
  | some rank => item.serve rank
  | none => item.hide

/-- One rendered id, on one item. -/
def serveIf (item : RetrievalEpisodeItem) (e : ChunkId × ℕ) : RetrievalEpisodeItem :=
  if item.chunkId = e.1 then item.serve e.2 else item

/-- Serving keeps the chunk. -/
theorem serveIf_chunkId (item : RetrievalEpisodeItem) (e : ChunkId × ℕ) :
    (serveIf item e).chunkId = item.chunkId := by
  unfold serveIf
  split <;> rfl

/-- An item that is not rendered is not served. -/
theorem serveIf_of_not_mem {rendered : List ChunkId} {item : RetrievalEpisodeItem}
    (h : item.chunkId ∉ rendered) (n : ℕ) : (rendered.zipIdx n).foldl serveIf item = item := by
  induction rendered generalizing n with
  | nil => rfl
  | cons c rendered ih =>
    rw [List.mem_cons, not_or] at h
    rw [List.zipIdx_cons, List.foldl_cons, serveIf, if_neg h.1]
    exact ih h.2 (n + 1)

/-- The rendered ids one after the other, on one item. -/
theorem serveIf_foldl {rendered : List ChunkId} (hnodup : rendered.Nodup)
    (item : RetrievalEpisodeItem) (n : ℕ) :
    (rendered.zipIdx n).foldl serveIf item =
      match rendered.idxOf? item.chunkId with
      | some rank => item.serve (n + rank)
      | none => item := by
  induction rendered generalizing n with
  | nil => rfl
  | cons c rendered ih =>
    obtain ⟨hc, hnodup⟩ := List.nodup_cons.mp hnodup
    rw [List.zipIdx_cons, List.foldl_cons, List.idxOf?_cons]
    by_cases heq : item.chunkId = c
    · -- the item is served here and not again
      have hserved : serveIf item (c, n) = item.serve n := if_pos heq
      rw [hserved, serveIf_of_not_mem (by show item.chunkId ∉ rendered; rw [heq]; exact hc)]
      simp [heq]
    · have hkept : serveIf item (c, n) = item := if_neg heq
      rw [hkept, ih hnodup (n + 1)]
      cases hidx : rendered.idxOf? item.chunkId with
      | none => simp [Ne.symm heq]
      | some rank =>
        have hrank : n + 1 + rank = n + (rank + 1) := by omega
        simp [Ne.symm heq, hrank]

/-- Serving one chunk after the other is the projection of the rendered list. -/
theorem projected_eq {rendered : List ChunkId} (hnodup : rendered.Nodup)
    (item : RetrievalEpisodeItem) :
    rendered.zipIdx.foldl serveIf item.hide = projected rendered item := by
  rw [serveIf_foldl hnodup, projected]
  show (match rendered.idxOf? item.chunkId with
    | some rank => item.hide.serve (0 + rank)
    | none => item.hide) = _
  cases rendered.idxOf? item.chunkId with
  | none => rfl
  | some rank =>
    show item.hide.serve (0 + rank) = item.serve rank
    rw [Nat.zero_add]
    rfl

/-- Where no chunk repeats, the first item of a chunk is its only one. -/
theorem showFirst_eq {items : List RetrievalEpisodeItem} (hnodup : (items.map (·.chunkId)).Nodup)
    (c : ChunkId) (rank : ℕ) :
    showFirst c rank items = items.map fun item => serveIf item (c, rank) := by
  induction items with
  | nil => rfl
  | cons item items ih =>
    rw [List.map_cons, List.nodup_cons] at hnodup
    rw [showFirst, List.map_cons, serveIf]
    by_cases heq : item.chunkId = c
    · rw [if_pos heq, if_pos heq]
      congr 1
      -- no later item has the id
      refine (List.map_id _).symm.trans (List.map_congr_left fun other hother => ?_)
      refine (if_neg ?_).symm
      rintro rfl
      exact hnodup.1 (heq ▸ List.mem_map_of_mem hother)
    · rw [if_neg heq, if_neg heq, ih hnodup.2]

/-- The order as `applyRenderedOrder` writes it into the items. -/
theorem showFirst_foldl {items : List RetrievalEpisodeItem}
    (hnodup : (items.map (·.chunkId)).Nodup) (es : List (ChunkId × ℕ)) :
    es.foldl (fun items e => showFirst e.1 e.2 items) items =
      items.map fun item => es.foldl serveIf item := by
  induction es generalizing items with
  | nil => exact (List.map_id _).symm
  | cons e es ih =>
    rw [List.foldl_cons, showFirst_eq hnodup, ih, List.map_map]
    · rfl
    rw [List.map_map]
    have hids : items.map (fun item => (serveIf item (e.1, e.2)).chunkId) =
        items.map (·.chunkId) := List.map_congr_left fun item _ => serveIf_chunkId item _
    exact (show items.map ((·.chunkId) ∘ fun item => serveIf item (e.1, e.2)) = _ from hids) ▸ hnodup

/-- The updates of a finalization are the projection of the rendered list. -/
theorem applied_eq {items : List RetrievalEpisodeItem} (hitems : (items.map (·.chunkId)).Nodup)
    {rendered : List ChunkId} (hrendered : rendered.Nodup) :
    rendered.zipIdx.foldl (fun items e => showFirst e.1 e.2 items) (items.map (·.hide)) =
      items.map (projected rendered) := by
  have hhide : ((items.map (·.hide)).map (·.chunkId)).Nodup := by
    rw [List.map_map]
    exact hitems
  rw [showFirst_foldl hhide, List.map_map]
  exact List.map_congr_left fun item _ => projected_eq hrendered item

/-- The rendered list is accepted if it repeats nothing and names items only. -/
theorem checkRendered_eq_ok {items : List RetrievalEpisodeItem} {seen rendered : List ChunkId}
    (hseen : seen.Nodup) :
    checkRendered items seen rendered = .ok () ↔
      (seen ++ rendered).Nodup ∧ ∀ c ∈ rendered, ∃ item ∈ items, item.chunkId = c := by
  induction rendered generalizing seen with
  | nil => simpa [checkRendered] using hseen
  | cons c rendered ih =>
    unfold checkRendered
    by_cases hc : c ∈ seen
    · simp only [List.contains_iff_mem, hc, if_true, reduceCtorEq, false_iff, not_and]
      intro hnodup
      exact absurd hc (fun h => (List.nodup_append.mp hnodup).2.2 c h c List.mem_cons_self rfl)
    · have hseen' : (seen ++ [c]).Nodup := by
        refine List.nodup_append.mpr ⟨hseen, by simp, ?_⟩
        rintro a ha _ hb rfl
        exact hc (List.mem_singleton.mp hb ▸ ha)
      by_cases hpool : items.any (·.chunkId == c) = true
      · have hex : ∃ item ∈ items, item.chunkId = c := by simpa using hpool
        simp only [List.contains_iff_mem, hc, if_false, hpool, Bool.not_true, Bool.false_eq_true]
        rw [ih hseen', List.append_assoc, List.singleton_append, List.forall_mem_cons]
        exact ⟨fun h => ⟨h.1, hex, h.2⟩, fun h => ⟨h.1, h.2.2⟩⟩
      · have hex : ¬ ∃ item ∈ items, item.chunkId = c := by simpa using hpool
        simp only [List.contains_iff_mem, hc, if_false, hpool, Bool.not_false, if_true,
          reduceCtorEq, false_iff, not_and]
        intro _ hall
        exact hex (hall c List.mem_cons_self)

/-- What a successful `applyRenderedOrder` has checked, and what it returns. -/
theorem applyRenderedOrder_ok {isJsonObject : String → Bool} {episode episode' : RetrievalEpisode}
    {items items' : List RetrievalEpisodeItem} {rendered : List ChunkId}
    (hitems : (items.map (·.chunkId)).Nodup)
    (h : applyRenderedOrder isJsonObject episode items rendered = .ok (episode', items')) :
    rendered.length ≤ episode.requestedK ∧ rendered.Nodup ∧
      (∀ c ∈ rendered, ∃ item ∈ items, item.chunkId = c) ∧
      episode' = { episode with renderedK := rendered.length } ∧
      items' = items.map (projected rendered) ∧ WellFormed isJsonObject episode' items' := by
  unfold applyRenderedOrder at h
  split at h
  · exact absurd h (by simp)
  rename_i hlen
  obtain ⟨_, hcheck, h⟩ := except_bind_eq_ok.mp h
  obtain ⟨_, hvalid, h⟩ := except_bind_eq_ok.mp h
  obtain ⟨hnodup, hpool⟩ := (checkRendered_eq_ok List.nodup_nil).mp hcheck
  rw [List.nil_append] at hnodup
  rw [applied_eq hitems hnodup] at hvalid h
  obtain ⟨rfl, rfl⟩ := Prod.mk.inj (Except.ok.inj h)
  exact ⟨by omega, hnodup, hpool, rfl, rfl, validateRetrievalEpisode_eq_ok.mp hvalid⟩

namespace EpisodeDb

variable {isJsonObject : String → Bool} {s s' : EpisodeDb} {id : RetrievalEpisodeId} {t : TenantId}

/-! ## The transactions -/

/-- The tables after a finalize. -/
def finalized (s : EpisodeDb) (t : TenantId) (id : RetrievalEpisodeId) (rendered : List ChunkId) :
    EpisodeDb :=
  { s with
    episodes := Table.updateWhere (fun e => e.tenantId == t && e.episodeId == id)
      (fun e => { e with renderedK := rendered.length }) s.episodes
    items := s.items.map fun item =>
      if item.episodeId = id then projected rendered item else item }

/-- What the updates do to the table of items. -/
theorem showItem_foldl (es : List (ChunkId × ℕ)) (s : EpisodeDb) :
    es.foldl (showItem id) s = { s with
      items := s.items.map fun item =>
        es.foldl (fun item e => if item.episodeId = id then serveIf item e else item) item } := by
  induction es generalizing s with
  | nil => simp
  | cons e es ih =>
    rw [List.foldl_cons, ih]
    simp only [showItem, Table.updateWhere, List.map_map]
    congr 1
    apply List.map_congr_left
    intro item _
    show es.foldl _ (if (item.episodeId == id && item.chunkId == e.1) = true then item.serve e.2
      else item) = es.foldl _ (if item.episodeId = id then serveIf item e else item)
    congr 1
    unfold serveIf
    by_cases h₁ : item.episodeId = id <;> by_cases h₂ : item.chunkId = e.1 <;> simp [h₁, h₂]

/-- Serving keeps the episode. -/
theorem serveIf_episodeId (item : RetrievalEpisodeItem) (e : ChunkId × ℕ) :
    (serveIf item e).episodeId = item.episodeId := by
  unfold serveIf
  split <;> rfl

/-- The rendered ids on the row of an item of the episode, and on any other row. -/
theorem serveIn_foldl (es : List (ChunkId × ℕ)) (item : RetrievalEpisodeItem) :
    es.foldl (fun item e => if item.episodeId = id then serveIf item e else item) item =
      if item.episodeId = id then es.foldl serveIf item else item := by
  induction es generalizing item with
  | nil => simp
  | cons e es ih =>
    rw [List.foldl_cons, ih, List.foldl_cons]
    by_cases h : item.episodeId = id
    · simp [h, serveIf_episodeId]
    · simp [h]

/-- The `UPDATE`s of a finalize leave the projected rows. -/
theorem finalized_eq {rendered : List ChunkId} (hnodup : rendered.Nodup) :
    rendered.zipIdx.foldl (showItem id) (hideItems id (setRenderedK t id rendered.length s)) =
      s.finalized t id rendered := by
  rw [showItem_foldl]
  simp only [hideItems, setRenderedK, finalized, Table.updateWhere, List.map_map]
  congr 1
  apply List.map_congr_left
  intro item _
  rw [Function.comp_apply, serveIn_foldl]
  by_cases h : item.episodeId = id
  · have hhide : (item.hide).episodeId = id := h
    simp only [h, beq_self_eq_true, if_true, hhide]
    exact projected_eq hnodup item
  · simp [h]

/-- A transaction fails and changes nothing, or commits. -/
theorem transact_cases (f : EpisodeDb → Except MemdError EpisodeDb) (s : EpisodeDb) :
    (∃ e, f s = .error e ∧ transact f s = (.error e, s)) ∨
      ∃ s', f s = .ok s' ∧ transact f s = (.ok (), s') := by
  unfold transact
  cases h : f s with
  | error e => exact .inl ⟨e, rfl, rfl⟩
  | ok s' => exact .inr ⟨s', rfl, rfl⟩

/-- A transaction that goes through commits. -/
theorem transact_of_ok {f : EpisodeDb → Except MemdError EpisodeDb} (h : f s = .ok s') :
    transact f s = (.ok (), s') := by
  unfold transact
  rw [h]

/-- An episode that is found is one of the tenant with this id. -/
theorem findEpisode_ok {episode : RetrievalEpisode} (h : s.findEpisode t id = .ok episode) :
    episode ∈ s.episodes ∧ episode.tenantId = t ∧ episode.episodeId = id := by
  unfold findEpisode at h
  cases hfind : s.episodes.find? fun e => e.tenantId == t && e.episodeId == id with
  | none =>
    rw [hfind] at h
    exact absurd h (by simp)
  | some e =>
    rw [hfind] at h
    obtain rfl := Except.ok.inj h
    have hp := List.find?_some hfind
    simp only [Bool.and_eq_true, beq_iff_eq] at hp
    exact ⟨List.mem_of_find?_eq_some hfind, hp.1, hp.2⟩

/-- Keys and references of the tables. -/
structure Keys (s : EpisodeDb) : Prop where
  episodes : Table.Keyed (·.episodeId) s.episodes
  items : ∀ item ∈ s.items, ∃ e ∈ s.episodes, e.episodeId = item.episodeId
  chunks : ∀ id, ((s.itemsOf id).map (·.chunkId)).Nodup

/-- A finalize fails and changes nothing, or it has passed its checks. -/
theorem finalize_cases (isJsonObject : String → Bool) (hk : s.Keys) (t : TenantId)
    (id : RetrievalEpisodeId) (rendered : List ChunkId) :
    (∃ e, finalizeRetrievalEpisode isJsonObject t id rendered s = (.error e, s)) ∨
    (finalizeRetrievalEpisode isJsonObject t id rendered s = (.ok (), s.finalized t id rendered) ∧
      rendered.length ≤ 200 ∧ rendered.Nodup ∧
      (∀ row ∈ s.itemsOf id, Readable row) ∧
      ∃ episode ∈ s.episodes, episode.tenantId = t ∧ episode.episodeId = id ∧
        WellFormed isJsonObject { episode with renderedK := rendered.length }
          ((s.itemsOf id).map (projected rendered))) := by
  rcases transact_cases (fun s => do
      let episode ← s.findEpisode t id
      let items ← s.queryItems id
      let shown ← applyRenderedOrder isJsonObject episode items rendered
      pure (rendered.zipIdx.foldl (showItem id)
        (hideItems id (setRenderedK t id shown.1.renderedK s)))) s with ⟨e, _, htx⟩ | ⟨s', hok, htx⟩
  · exact .inl ⟨e, htx⟩
  refine .inr ?_
  have hrun : finalizeRetrievalEpisode isJsonObject t id rendered s = (.ok (), s') := htx
  rw [hrun]
  obtain ⟨episode, hfind, hok⟩ := except_bind_eq_ok.mp hok
  obtain ⟨items, hquery, hok⟩ := except_bind_eq_ok.mp hok
  obtain ⟨⟨episode', items'⟩, happly, hok⟩ := except_bind_eq_ok.mp hok
  obtain ⟨hmem, htenant, hid⟩ := findEpisode_ok hfind
  obtain ⟨rfl, hread⟩ := queryItems_eq_ok.mp hquery
  have hp := s.itemRows_perm id
  have hnodup : ((s.itemRows id).map (·.chunkId)).Nodup :=
    (hp.map _).nodup_iff.mpr (hk.chunks id)
  obtain ⟨hlen, hrendered, _, rfl, rfl, hwf⟩ := applyRenderedOrder_ok hnodup happly
  obtain rfl := Except.ok.inj hok
  have hbound := hwf.bounds.2.2
  refine ⟨?_, hbound, hrendered, hread, episode, hmem, htenant, hid, hwf.perm (hp.map _)⟩
  show (Except.ok (), rendered.zipIdx.foldl (showItem id)
    (hideItems id (setRenderedK t id rendered.length s))) = _
  rw [finalized_eq hrendered]

/-- The items of an insert are appended. -/
theorem insertItems_ok {items : List RetrievalEpisodeItem}
    (h : items.foldlM insertItemRow s = .ok s') : s' = { s with items := s.items ++ items } := by
  induction items generalizing s with
  | nil =>
    obtain rfl := Except.ok.inj h
    simp
  | cons item items ih =>
    rw [List.foldlM_cons] at h
    obtain ⟨s₁, hitem, h⟩ := except_bind_eq_ok.mp h
    unfold insertItemRow at hitem
    split at hitem
    · exact absurd hitem (by simp)
    split at hitem
    · exact absurd hitem (by simp)
    obtain rfl := Except.ok.inj hitem
    rw [ih h]
    simp

/-- The tables after an insert of an episode. -/
def inserted (s : EpisodeDb) (episode : RetrievalEpisode) (items : List RetrievalEpisodeItem) :
    EpisodeDb :=
  { s with episodes := s.episodes ++ [episode], items := s.items ++ items }

/-- An insert of an episode fails and changes nothing, or it has passed its checks. -/
theorem insertEpisode_cases (isJsonObject : String → Bool) (episode : RetrievalEpisode) (items : List RetrievalEpisodeItem)
    (s : EpisodeDb) :
    (∃ e, insertRetrievalEpisode isJsonObject episode items s = (.error e, s)) ∨
    (insertRetrievalEpisode isJsonObject episode items s = (.ok (), s.inserted episode items) ∧
      (∀ e ∈ s.episodes, e.episodeId ≠ episode.episodeId) ∧
      WellFormed isJsonObject episode items) := by
  unfold insertRetrievalEpisode
  rcases transact_cases (fun s => do
      validateRetrievalEpisode isJsonObject episode items
      items.forM s.checkOrigin
      let s ← insertEpisodeRow episode s
      items.foldlM insertItemRow s) s with ⟨e, _, htx⟩ | ⟨s', hok, htx⟩
  · exact .inl ⟨e, htx⟩
  refine .inr ?_
  rw [htx]
  obtain ⟨_, hvalid, hok⟩ := except_bind_eq_ok.mp hok
  obtain ⟨_, _, hok⟩ := except_bind_eq_ok.mp hok
  obtain ⟨s₁, hrow, hok⟩ := except_bind_eq_ok.mp hok
  unfold insertEpisodeRow at hrow
  split at hrow
  · exact absurd hrow (by simp)
  rename_i hnew
  obtain rfl := Except.ok.inj hrow
  refine ⟨by rw [insertItems_ok hok]; rfl, by simpa using hnew,
    validateRetrievalEpisode_eq_ok.mp hvalid⟩

/-- What a validated outcome says about the items of its episode. -/
theorem validateOutcomeEvent_ok {episode : RetrievalEpisode} {items : List RetrievalEpisodeItem}
    {event : OutcomeEvent} (h : validateOutcomeEvent t episode items event = .ok ()) :
    event.usedChunkIds.Disjoint event.harmfulChunkIds ∧
      ∀ c ∈ event.usedChunkIds ++ event.harmfulChunkIds,
        ∃ item ∈ items, item.rendered = true ∧ item.chunkId = c := by
  simp only [validateOutcomeEvent, except_bind_eq_ok, rejectIf_eq_ok] at h
  obtain ⟨_, _, _, _, _, _, _, _, _, _, _, hoverlap, _, hshown, _⟩ := h
  refine ⟨?_, ?_⟩
  · intro c hc hc'
    exact hoverlap (List.any_eq_true.mpr ⟨c, hc, by simpa using hc'⟩)
  · intro c hc
    by_contra hnot
    refine hshown (List.any_eq_true.mpr ⟨c, hc, ?_⟩)
    simp only [Bool.not_eq_true', List.contains_eq_mem, decide_eq_false_iff_not, List.mem_map,
      List.mem_filter]
    rintro ⟨item, ⟨hitem, hrendered⟩, hid⟩
    exact hnot ⟨item, hitem, hrendered, hid⟩

/-- The stored projection of the episode shows the chunk. -/
def Shown (s : EpisodeDb) (id : RetrievalEpisodeId) (c : ChunkId) : Prop :=
  ∃ item ∈ s.items, item.episodeId = id ∧ item.chunkId = c ∧ item.rendered = true

instance (s : EpisodeDb) (id : RetrievalEpisodeId) (c : ChunkId) : Decidable (s.Shown id c) :=
  inferInstanceAs (Decidable (∃ item ∈ s.items, _))

/-- The chunks an outcome credits or blames. -/
def attributed (event : OutcomeEvent) : List ChunkId :=
  event.usedChunkIds ++ event.harmfulChunkIds

/-- Every stored outcome is about chunks that its episode shows. -/
def OutcomesShown (s : EpisodeDb) : Prop :=
  ∀ event ∈ s.events, (∀ c ∈ attributed event, s.Shown event.episodeId c) ∧
    event.usedChunkIds.Disjoint event.harmfulChunkIds

/-- An event row is added at the end. -/
theorem insertEventRow_ok {event : OutcomeEvent} (h : insertEventRow event s = .ok s') :
    s' = { s with events := s.events ++ [event] } := by
  unfold insertEventRow at h
  split at h
  · exact absurd h (by simp)
  · exact (Except.ok.inj h).symm

/-- An outcome is refused and nothing changes, or it is about shown chunks. -/
theorem insertOutcome_cases (t : TenantId) (event : OutcomeEvent) (s : EpisodeDb) :
    (∃ e, insertOutcomeEvent t event s = (.error e, s)) ∨
    (insertOutcomeEvent t event s = (.ok (), { s with events := s.events ++ [event] }) ∧
      (∀ c ∈ attributed event, s.Shown event.episodeId c) ∧
      event.usedChunkIds.Disjoint event.harmfulChunkIds) := by
  unfold insertOutcomeEvent
  rcases transact_cases (fun s => do
      let episode ← s.findEpisode t event.episodeId
      let items ← s.queryItems event.episodeId
      validateOutcomeEvent t episode items event
      insertEventRow event s) s with ⟨e, _, htx⟩ | ⟨s', hok, htx⟩
  · exact .inl ⟨e, htx⟩
  refine .inr ?_
  rw [htx]
  obtain ⟨episode, _, hok⟩ := except_bind_eq_ok.mp hok
  obtain ⟨items, hquery, hok⟩ := except_bind_eq_ok.mp hok
  obtain ⟨_, hvalid, hrow⟩ := except_bind_eq_ok.mp hok
  rw [insertEventRow_ok hrow]
  obtain ⟨rfl, _⟩ := queryItems_eq_ok.mp hquery
  obtain ⟨hdisjoint, hshown⟩ := validateOutcomeEvent_ok hvalid
  refine ⟨rfl, ?_, hdisjoint⟩
  intro c hc
  obtain ⟨item, hitem, hrendered, hid⟩ := hshown c hc
  obtain ⟨hmem, hepisode⟩ := mem_itemsOf.mp ((s.itemRows_perm _).mem_iff.mp hitem)
  exact ⟨item, hmem, hepisode, hid, hrendered⟩

/-! ## Keys are kept -/

/-- The items of each episode behind an insert. -/
theorem itemsOf_inserted {episode : RetrievalEpisode} {items : List RetrievalEpisodeItem}
    (hk : s.Keys) (hnew : ∀ e ∈ s.episodes, e.episodeId ≠ episode.episodeId)
    (hwf : WellFormed isJsonObject episode items) (id : RetrievalEpisodeId) :
    (s.inserted episode items).itemsOf id =
      if id = episode.episodeId then items else s.itemsOf id := by
  show (s.items ++ items).filter (·.episodeId == id) = _
  rw [List.filter_append]
  by_cases hid : id = episode.episodeId
  · have hold : s.items.filter (·.episodeId == id) = [] := by
      rw [List.filter_eq_nil_iff]
      intro item hitem heq
      obtain ⟨e, he, hepisode⟩ := hk.items item hitem
      exact hnew e he (hepisode.trans ((beq_iff_eq.mp heq).trans hid))
    have hall : items.filter (·.episodeId == id) = items := by
      rw [List.filter_eq_self]
      intro item hitem
      simpa [hid] using (hwf.each item hitem).episodeId
    rw [if_pos hid, hold, hall, List.nil_append]
  · have hnone : items.filter (·.episodeId == id) = [] := by
      rw [List.filter_eq_nil_iff]
      intro item hitem heq
      exact hid ((beq_iff_eq.mp heq).symm.trans (hwf.each item hitem).episodeId)
    rw [if_neg hid, hnone, List.append_nil]
    rfl

/-- A projection changes the served rank only. -/
theorem projected_frame (rendered : List ChunkId) (item : RetrievalEpisodeItem) :
    projected rendered item =
      { item with
        servedRank := (projected rendered item).servedRank
        rendered := (projected rendered item).rendered } := by
  unfold projected
  cases rendered.idxOf? item.chunkId <;> rfl

/-- It keeps the chunk. -/
theorem projected_chunkId (rendered : List ChunkId) (item : RetrievalEpisodeItem) :
    (projected rendered item).chunkId = item.chunkId := by
  rw [projected_frame]

/-- And the episode. -/
theorem projected_episodeId (rendered : List ChunkId) (item : RetrievalEpisodeItem) :
    (projected rendered item).episodeId = item.episodeId := by
  rw [projected_frame]

/-- The items of each episode behind a finalization. -/
theorem itemsOf_finalized (t : TenantId) (id : RetrievalEpisodeId) (rendered : List ChunkId)
    (id' : RetrievalEpisodeId) :
    (s.finalized t id rendered).itemsOf id' =
      if id' = id then (s.itemsOf id).map (projected rendered) else s.itemsOf id' := by
  unfold itemsOf
  show ((s.items.map _).filter _) = _
  rw [List.filter_map]
  have hkey : ((fun item : RetrievalEpisodeItem => item.episodeId == id') ∘ fun item =>
      if item.episodeId = id then projected rendered item else item) =
      fun item => item.episodeId == id' := by
    funext item
    rw [Function.comp_apply]
    split
    · rw [projected_episodeId]
    · rfl
  rw [hkey]
  by_cases hid : id' = id
  · rw [if_pos hid, hid]
    apply List.map_congr_left
    intro item hitem
    have hepisode : item.episodeId = id := by simpa using (List.mem_filter.mp hitem).2
    rw [if_pos hepisode]
  · rw [if_neg hid]
    refine (List.map_congr_left fun item hitem => ?_).trans (List.map_id _)
    have hepisode : item.episodeId = id' := by simpa using (List.mem_filter.mp hitem).2
    rw [if_neg (by rw [hepisode]; exact hid)]
    rfl

/-- The episodes behind a finalization. -/
theorem mem_finalized {t : TenantId} {id : RetrievalEpisodeId} {rendered : List ChunkId}
    {e : RetrievalEpisode} (he : e ∈ (s.finalized t id rendered).episodes) :
    ∃ e₀ ∈ s.episodes, e = (if e₀.tenantId = t ∧ e₀.episodeId = id then
      { e₀ with renderedK := rendered.length } else e₀) := by
  obtain ⟨e₀, he₀, heq⟩ := Table.mem_updateWhere.mp he
  refine ⟨e₀, he₀, heq.trans ?_⟩
  simp

/-- An insert keeps the keys of the tables. -/
theorem Keys.inserted {episode : RetrievalEpisode} {items : List RetrievalEpisodeItem}
    (hk : s.Keys) (hnew : ∀ e ∈ s.episodes, e.episodeId ≠ episode.episodeId)
    (hwf : WellFormed isJsonObject episode items) : (s.inserted episode items).Keys where
  episodes := by
    show ((s.episodes ++ [episode]).map (·.episodeId)).Nodup
    rw [List.map_append, List.nodup_append]
    refine ⟨hk.episodes, by simp, ?_⟩
    intro a ha b hb heq
    obtain ⟨e, he, rfl⟩ := List.mem_map.mp ha
    exact hnew e he (heq.trans (by simpa using hb))
  items := by
    intro item hitem
    rcases List.mem_append.mp hitem with hitem | hitem
    · obtain ⟨e, he, hid⟩ := hk.items item hitem
      exact ⟨e, List.mem_append_left _ he, hid⟩
    · exact ⟨episode, by simp [EpisodeDb.inserted], (hwf.each item hitem).episodeId.symm⟩
  chunks := by
    intro id
    rw [itemsOf_inserted hk hnew hwf]
    split
    · exact hwf.chunkIds
    · exact hk.chunks id

/-- So does a finalization. -/
theorem Keys.finalized (hk : s.Keys) (t : TenantId) (id : RetrievalEpisodeId)
    (rendered : List ChunkId) : (s.finalized t id rendered).Keys where
  episodes := hk.episodes.updateWhere _ _ fun _ => rfl
  items := by
    intro item hitem
    obtain ⟨item₀, hitem₀, rfl⟩ := List.mem_map.mp hitem
    obtain ⟨e, he, hid⟩ := hk.items item₀ hitem₀
    have hepisode : (if item₀.episodeId = id then projected rendered item₀
        else item₀).episodeId = item₀.episodeId := by
      split
      · exact projected_episodeId rendered item₀
      · rfl
    refine ⟨_, List.mem_map_of_mem he, ?_⟩
    rw [hepisode]
    split
    · exact hid
    · exact hid
  chunks := by
    intro id'
    rw [itemsOf_finalized]
    split
    · rw [List.map_map]
      have hids : (s.itemsOf id).map ((·.chunkId) ∘ projected rendered) =
          (s.itemsOf id).map (·.chunkId) :=
        List.map_congr_left fun item _ => projected_chunkId rendered item
      rw [hids]
      exact hk.chunks id
    · exact hk.chunks id'

/-! ## Which transactions commit -/

/-- The checks of an insert, on its arguments and the tables before it. -/
def InsertAccepted (isJsonObject : String → Bool) (s : EpisodeDb) (episode : RetrievalEpisode)
    (items : List RetrievalEpisodeItem) : Prop :=
  validateRetrievalEpisode isJsonObject episode items = .ok () ∧
    items.forM s.checkOrigin = .ok () ∧ ∀ e ∈ s.episodes, e.episodeId ≠ episode.episodeId

/-- The checks of a finalize, on its arguments and the tables before it. -/
def FinalizeAccepted (isJsonObject : String → Bool) (s : EpisodeDb) (t : TenantId)
    (id : RetrievalEpisodeId) (rendered : List ChunkId) : Prop :=
  ∃ episode items, s.findEpisode t id = .ok episode ∧ s.queryItems id = .ok items ∧
    (applyRenderedOrder isJsonObject episode items rendered).isOk = true

/-- Rows with new keys are all inserted. -/
theorem insertItems_total {id : RetrievalEpisodeId} {items : List RetrievalEpisodeItem}
    (hid : ∀ item ∈ items, item.episodeId = id) (hepisode : ∃ e ∈ s.episodes, e.episodeId = id)
    (hchunks : (items.map (·.chunkId)).Nodup) (hranks : (items.map (·.originalRank)).Nodup)
    (hnew : ∀ r ∈ s.items, r.episodeId = id → ∀ item ∈ items,
      r.chunkId ≠ item.chunkId ∧ r.originalRank ≠ item.originalRank) :
    ∃ s', items.foldlM insertItemRow s = .ok s' := by
  induction items generalizing s with
  | nil => exact ⟨s, rfl⟩
  | cons item items ih =>
    rw [List.map_cons, List.nodup_cons] at hchunks hranks
    have hitem : insertItemRow s item = .ok { s with items := s.items ++ [item] } := by
      unfold insertItemRow
      rw [if_neg, if_neg]
      · obtain ⟨e, he, heq⟩ := hepisode
        simp only [Bool.not_eq_true', Bool.not_eq_false, List.any_eq_true, beq_iff_eq]
        exact ⟨e, he, heq.trans (hid item (by simp)).symm⟩
      · simp only [List.any_eq_true, Bool.and_eq_true, Bool.or_eq_true, beq_iff_eq, not_exists,
          not_and, not_or]
        intro r hr hrid
        exact hnew r hr (hrid.trans (hid item (by simp))) item (by simp)
    rw [List.foldlM_cons, hitem]
    refine ih (fun i hi => hid i (by simp [hi])) hepisode hchunks.2 hranks.2 ?_
    intro r hr hrid i hi
    rcases List.mem_append.mp hr with hr | hr
    · exact hnew r hr hrid i (by simp [hi])
    · obtain rfl := List.mem_singleton.mp hr
      exact ⟨fun h => hchunks.1 (List.mem_map.mpr ⟨i, hi, h.symm⟩),
        fun h => hranks.1 (List.mem_map.mpr ⟨i, hi, h.symm⟩)⟩

/-- **An insert** is accepted exactly then. -/
theorem insertEpisode_ok_iff (hk : s.Keys) {episode : RetrievalEpisode}
    {items : List RetrievalEpisodeItem} :
    (insertRetrievalEpisode isJsonObject episode items s).1 = .ok () ↔
      s.InsertAccepted isJsonObject episode items := by
  unfold insertRetrievalEpisode
  constructor
  · intro h
    rcases transact_cases (fun s => do
        validateRetrievalEpisode isJsonObject episode items
        items.forM s.checkOrigin
        let s ← insertEpisodeRow episode s
        items.foldlM insertItemRow s) s with ⟨e, _, htx⟩ | ⟨s', hok, _⟩
    · rw [htx] at h
      exact absurd h (by simp)
    obtain ⟨_, hvalid, hok⟩ := except_bind_eq_ok.mp hok
    obtain ⟨_, horigin, hok⟩ := except_bind_eq_ok.mp hok
    obtain ⟨s₁, hrow, _⟩ := except_bind_eq_ok.mp hok
    refine ⟨hvalid, horigin, ?_⟩
    unfold insertEpisodeRow at hrow
    split at hrow
    · exact absurd hrow (by simp)
    · rename_i hnew
      simpa using hnew
  · rintro ⟨hvalid, horigin, hnew⟩
    have hwf := validateRetrievalEpisode_eq_ok.mp hvalid
    have hrow : insertEpisodeRow episode s =
        .ok { s with episodes := s.episodes ++ [episode] } := by
      unfold insertEpisodeRow
      rw [if_neg (by simpa using hnew)]
    -- the rows stored so far belong to other episodes
    have hfresh : ∀ r ∈ s.items, r.episodeId ≠ episode.episodeId := by
      intro r hr hrid
      obtain ⟨e, he, heq⟩ := hk.items r hr
      exact hnew e he (heq.trans hrid)
    obtain ⟨s', hs'⟩ := insertItems_total
      (s := { s with episodes := s.episodes ++ [episode] })
      (fun item hitem => (hwf.each item hitem).episodeId) ⟨episode, by simp, rfl⟩ hwf.chunkIds
      hwf.originalRanks (fun r hr hrid => absurd hrid (hfresh r hr))
    rw [transact_of_ok (by
      show (validateRetrievalEpisode isJsonObject episode items >>= _ : Except _ EpisodeDb) = _
      rw [hvalid]
      show (items.forM s.checkOrigin >>= _ : Except _ EpisodeDb) = _
      rw [horigin]
      show (insertEpisodeRow episode s >>= _ : Except _ EpisodeDb) = _
      rw [hrow]
      exact hs')]

/-- **A finalization** is accepted exactly then. -/
theorem finalize_ok_iff {t : TenantId} {id : RetrievalEpisodeId} {rendered : List ChunkId} :
    (finalizeRetrievalEpisode isJsonObject t id rendered s).1 = .ok () ↔
      s.FinalizeAccepted isJsonObject t id rendered := by
  constructor
  · intro h
    rcases transact_cases (fun s => do
        let episode ← s.findEpisode t id
        let items ← s.queryItems id
        let shown ← applyRenderedOrder isJsonObject episode items rendered
        pure (rendered.zipIdx.foldl (showItem id)
          (hideItems id (setRenderedK t id shown.1.renderedK s)))) s with ⟨e, _, htx⟩ | ⟨s', hok, _⟩
    · have hrun : finalizeRetrievalEpisode isJsonObject t id rendered s = (.error e, s) := htx
      rw [hrun] at h
      exact absurd h (by simp)
    obtain ⟨episode, hfind, hok⟩ := except_bind_eq_ok.mp hok
    obtain ⟨items, hquery, hok⟩ := except_bind_eq_ok.mp hok
    obtain ⟨r, happly, _⟩ := except_bind_eq_ok.mp hok
    refine ⟨episode, items, hfind, hquery, ?_⟩
    rw [happly]
    rfl
  · rintro ⟨episode, items, hfind, hquery, happly⟩
    unfold finalizeRetrievalEpisode
    cases hr : applyRenderedOrder isJsonObject episode items rendered with
    | error e =>
      rw [hr] at happly
      exact absurd happly (by simp [Except.isOk, Except.toBool])
    | ok r =>
      rw [transact_of_ok (by
        show (s.findEpisode t id >>= _ : Except _ EpisodeDb) = _
        rw [hfind]
        show (s.queryItems id >>= _ : Except _ EpisodeDb) = _
        rw [hquery]
        show (applyRenderedOrder isJsonObject episode items rendered >>= _ :
          Except _ EpisodeDb) = _
        rw [hr]
        rfl)]

/-! ## One transaction -/

section Step

variable (isJsonObject)

/-- Every stored episode passes its check and every outcome is about shown chunks. -/
def Good (s : EpisodeDb) : Prop :=
  (∀ e ∈ s.episodes, s.Valid isJsonObject e) ∧ s.OutcomesShown

/-- What a transaction that passes its checks needs: ranks that fit their columns, and a
finalize that keeps what the outcomes of the episode are about. -/
def Sound (s : EpisodeDb) : Op → Prop
  | .insertEpisode episode items =>
    s.InsertAccepted isJsonObject episode items → ∀ item ∈ items, Readable item
  | .finalize t id rendered =>
    s.FinalizeAccepted isJsonObject t id rendered →
      ∀ event ∈ s.events, event.episodeId = id → ∀ c ∈ attributed event, c ∈ rendered
  | _ => True

variable {isJsonObject}

/-- Validity depends on the items of the episode only. -/
theorem valid_congr {e : RetrievalEpisode} (h : s'.itemsOf e.episodeId = s.itemsOf e.episodeId) :
    s'.Valid isJsonObject e ↔ s.Valid isJsonObject e := by
  rw [valid_iff, valid_iff, h]

/-- An accepted episode is good. -/
theorem good_inserted {episode : RetrievalEpisode} {items : List RetrievalEpisodeItem}
    (hk : s.Keys) (hnew : ∀ e ∈ s.episodes, e.episodeId ≠ episode.episodeId)
    (hwf : WellFormed isJsonObject episode items) (hgood : s.Good isJsonObject) :
    (s.inserted episode items).Good isJsonObject ↔ ∀ item ∈ items, Readable item := by
  have hitems := itemsOf_inserted hk hnew hwf
  constructor
  · intro h
    have hvalid := h.1 episode (by simp [inserted])
    rw [valid_iff, hitems, if_pos rfl] at hvalid
    exact hvalid.2
  · intro hread
    refine ⟨?_, ?_⟩
    · intro e he
      rcases List.mem_append.mp he with he | he
      · exact (valid_congr (by rw [hitems, if_neg (hnew e he)])).mpr (hgood.1 e he)
      · obtain rfl := List.mem_singleton.mp he
        rw [valid_iff, hitems, if_pos rfl]
        exact ⟨hwf, hread⟩
    · intro event hevent
      refine ⟨?_, (hgood.2 event hevent).2⟩
      intro c hc
      obtain ⟨item, hitem, hshown⟩ := (hgood.2 event hevent).1 c hc
      exact ⟨item, List.mem_append_left _ hitem, hshown⟩

/-- A projected row can be read. -/
theorem readable_projected {rendered : List ChunkId} (hlen : rendered.length ≤ 200)
    {item : RetrievalEpisodeItem} (h : Readable item) : Readable (projected rendered item) := by
  unfold projected
  cases hidx : rendered.idxOf? item.chunkId with
  | none => exact ⟨h.original, by simp [RetrievalEpisodeItem.hide], h.shadow⟩
  | some rank =>
    have hrank : rank < rendered.length := by
      obtain ⟨hlt, _⟩ := List.findIdx?_eq_some_iff_getElem.mp hidx
      exact hlt
    refine ⟨h.original, ?_, h.shadow⟩
    intro k hk
    obtain rfl := Option.some.inj hk
    have hnat : (BitVec.ofNat 64 rank).toNat = rank := by
      rw [BitVec.toNat_ofNat]
      omega
    rw [BitVec.toInt_eq_toNat_cond, hnat, if_pos (by omega)]
    omega

/-- The rendered items are those whose chunk was rendered. -/
theorem rendered_projected (rendered : List ChunkId) (item : RetrievalEpisodeItem) :
    (projected rendered item).rendered = true ↔ item.chunkId ∈ rendered := by
  unfold projected
  cases hidx : rendered.idxOf? item.chunkId with
  | none =>
    have hnot : item.chunkId ∉ rendered := List.idxOf?_eq_none_iff.mp hidx
    simp [RetrievalEpisodeItem.hide, hnot]
  | some rank =>
    have hmem : item.chunkId ∈ rendered := by
      by_contra hnot
      rw [List.idxOf?_eq_none_iff.mpr hnot] at hidx
      exact absurd hidx (by simp)
    simp [RetrievalEpisodeItem.serve, hmem]

/-- What a finalize shows: for its own episode the chunks of the new order. -/
theorem shown_finalized {rendered : List ChunkId} {id' : RetrievalEpisodeId} {c : ChunkId}
    (h : s.Shown id' c) :
    (s.finalized t id rendered).Shown id' c ↔ id' = id → c ∈ rendered := by
  constructor
  · rintro ⟨_, hitem, hepisode, hchunk, hrendered⟩ rfl
    obtain ⟨item, _, rfl⟩ := List.mem_map.mp hitem
    by_cases hid : item.episodeId = id'
    · rw [if_pos hid] at hchunk hrendered
      rw [projected_chunkId] at hchunk
      exact hchunk ▸ (rendered_projected rendered item).mp hrendered
    · rw [if_neg hid] at hepisode
      exact absurd hepisode hid
  · intro hkeep
    obtain ⟨item, hitem, hepisode, hchunk, hrendered⟩ := h
    refine ⟨_, List.mem_map_of_mem hitem, ?_⟩
    by_cases hid : item.episodeId = id
    · rw [if_pos hid, projected_episodeId, projected_chunkId, rendered_projected]
      exact ⟨hepisode, hchunk, hchunk ▸ hkeep (hepisode.symm.trans hid)⟩
    · rw [if_neg hid]
      exact ⟨hepisode, hchunk, hrendered⟩

/-- A finalized episode is good. -/
theorem good_finalized {rendered : List ChunkId} (hk : s.Keys) (hlen : rendered.length ≤ 200)
    {episode : RetrievalEpisode} (hmem : episode ∈ s.episodes) (htenant : episode.tenantId = t)
    (hid : episode.episodeId = id)
    (hwf : WellFormed isJsonObject { episode with renderedK := rendered.length }
      ((s.itemsOf id).map (projected rendered))) (hgood : s.Good isJsonObject) :
    (s.finalized t id rendered).Good isJsonObject ↔
      ∀ event ∈ s.events, event.episodeId = id → ∀ c ∈ attributed event, c ∈ rendered := by
  have hvalid : ∀ e ∈ (s.finalized t id rendered).episodes,
      (s.finalized t id rendered).Valid isJsonObject e := by
    intro e he
    obtain ⟨e₀, he₀, rfl⟩ := mem_finalized he
    by_cases hcase : e₀.tenantId = t ∧ e₀.episodeId = id
    · -- the finalized episode is the only one with its id
      obtain rfl := hk.episodes.eq he₀ hmem (hcase.2.trans hid.symm)
      rw [if_pos hcase, valid_iff]
      show WellFormed _ _ ((s.finalized t id rendered).itemsOf e₀.episodeId) ∧
        ∀ row ∈ (s.finalized t id rendered).itemsOf e₀.episodeId, Readable row
      rw [itemsOf_finalized, if_pos hid]
      refine ⟨hwf, ?_⟩
      intro row hrow
      obtain ⟨item, hitem, rfl⟩ := List.mem_map.mp hrow
      have hread := ((valid_iff isJsonObject).mp (hgood.1 e₀ he₀)).2
      rw [hid] at hread
      exact readable_projected hlen (hread item hitem)
    · rw [if_neg hcase]
      have hother : e₀.episodeId ≠ id := by
        intro heq
        obtain rfl := hk.episodes.eq he₀ hmem (heq.trans hid.symm)
        exact hcase ⟨htenant, heq⟩
      exact (valid_congr (by rw [itemsOf_finalized, if_neg hother])).mpr (hgood.1 e₀ he₀)
  constructor
  · intro h event hevent heq c hc
    have hbefore := (hgood.2 event hevent).1 c hc
    exact (shown_finalized hbefore).mp ((h.2 event hevent).1 c hc) heq
  · intro hkeep
    refine ⟨hvalid, ?_⟩
    intro event hevent
    refine ⟨?_, (hgood.2 event hevent).2⟩
    intro c hc
    exact (shown_finalized ((hgood.2 event hevent).1 c hc)).mpr fun heq =>
      hkeep event hevent heq c hc

/-- Every call keeps the keys. -/
theorem Keys.step (hk : s.Keys) (op : Op) : (s.step isJsonObject op).Keys := by
  cases op with
  | insertEpisode episode items =>
    show (insertRetrievalEpisode isJsonObject episode items s).2.Keys
    rcases insertEpisode_cases isJsonObject episode items s with ⟨e, h⟩ | ⟨h, hnew, hwf⟩
    · rw [h]
      exact hk
    · rw [h]
      exact hk.inserted hnew hwf
  | finalize t id rendered =>
    show (finalizeRetrievalEpisode isJsonObject t id rendered s).2.Keys
    rcases finalize_cases isJsonObject hk t id rendered with ⟨e, h⟩ | ⟨h, _⟩
    · rw [h]
      exact hk
    · rw [h]
      exact hk.finalized t id rendered
  | insertOutcome t event =>
    show (insertOutcomeEvent t event s).2.Keys
    rcases insertOutcome_cases t event s with ⟨e, h⟩ | ⟨h, _⟩
    · rw [h]
      exact hk
    · rw [h]
      exact ⟨hk.episodes, hk.items, hk.chunks⟩
  | other db => exact ⟨hk.episodes, hk.items, hk.chunks⟩

/-- **One transaction** keeps the tables good exactly when it is sound. -/
theorem good_step (hk : s.Keys) (hgood : s.Good isJsonObject) (op : Op) :
    (s.step isJsonObject op).Good isJsonObject ↔ s.Sound isJsonObject op := by
  cases op with
  | insertEpisode episode items =>
    show (insertRetrievalEpisode isJsonObject episode items s).2.Good isJsonObject ↔
      (s.InsertAccepted isJsonObject episode items → ∀ item ∈ items, Readable item)
    rw [← insertEpisode_ok_iff hk]
    rcases insertEpisode_cases isJsonObject episode items s with ⟨e, h⟩ | ⟨h, hnew, hwf⟩
    · rw [h]
      exact ⟨fun _ herr => absurd herr (by simp), fun _ => hgood⟩
    · rw [h]
      exact (good_inserted hk hnew hwf hgood).trans ⟨fun hread _ => hread, fun hread => hread rfl⟩
  | finalize t id rendered =>
    show (finalizeRetrievalEpisode isJsonObject t id rendered s).2.Good isJsonObject ↔
      (s.FinalizeAccepted isJsonObject t id rendered →
        ∀ event ∈ s.events, event.episodeId = id → ∀ c ∈ attributed event, c ∈ rendered)
    rw [← finalize_ok_iff]
    rcases finalize_cases isJsonObject hk t id rendered with
      ⟨e, h⟩ | ⟨h, hlen, _, _, episode, hmem, htenant, hid, hwf⟩
    · rw [h]
      exact ⟨fun _ herr => absurd herr (by simp), fun _ => hgood⟩
    · rw [h]
      exact (good_finalized hk hlen hmem htenant hid hwf hgood).trans
        ⟨fun hkeep _ => hkeep, fun hkeep => hkeep rfl⟩
  | insertOutcome t event =>
    show (insertOutcomeEvent t event s).2.Good isJsonObject ↔ True
    rcases insertOutcome_cases t event s with ⟨e, h⟩ | ⟨h, hshown, hdisjoint⟩
    · rw [h]
      exact ⟨fun _ => trivial, fun _ => hgood⟩
    · rw [h]
      refine ⟨fun _ => trivial, fun _ => ⟨hgood.1, ?_⟩⟩
      intro event' hevent'
      rcases List.mem_append.mp hevent' with hevent' | hevent'
      · exact hgood.2 event' hevent'
      · obtain rfl := List.mem_singleton.mp hevent'
        exact ⟨hshown, hdisjoint⟩
  | other db => exact ⟨fun _ => trivial, fun _ => hgood⟩

end Step

/-! ## Runs -/

/-- An empty database has them. -/
theorem keys_empty : Keys {} :=
  ⟨Table.Keyed.nil _, by simp, by simp [itemsOf]⟩

/-- A run and one more call. -/
theorem run_concat (isJsonObject : String → Bool) (s : EpisodeDb) (ops : List Op) (op : Op) :
    s.run isJsonObject (ops ++ [op]) = (s.run isJsonObject ops).step isJsonObject op := by
  simp [run]

/-- Every run keeps the keys. -/
theorem Keys.run (hk : s.Keys) (ops : List Op) : (s.run isJsonObject ops).Keys := by
  induction ops using List.reverseRecOn with
  | nil => exact hk
  | append_singleton ops op ih =>
    rw [run_concat]
    exact ih.step op

/-- A run that starts good stays good exactly as long as its transactions are sound. -/
theorem good_run (ops : List Op) :
    (∀ pre, pre <+: ops → (run isJsonObject {} pre).Good isJsonObject) ↔
      ∀ pre op, pre ++ [op] <+: ops → (run isJsonObject {} pre).Sound isJsonObject op := by
  constructor
  · intro h pre op hpre
    have hbefore := h pre ((List.prefix_append pre [op]).trans hpre)
    have hafter := h (pre ++ [op]) hpre
    rw [run_concat] at hafter
    exact (good_step (keys_empty.run pre) hbefore op).mp hafter
  · intro h pre
    induction pre using List.reverseRecOn with
    | nil => exact fun _ => ⟨by simp [run], by simp [run, OutcomesShown]⟩
    | append_singleton pre op ih =>
      intro hpre
      have hbefore := ih ((List.prefix_append pre [op]).trans hpre)
      rw [run_concat]
      exact (good_step (keys_empty.run pre) hbefore op).mpr (h pre op hpre)

/-- A finalize changes only `rendered_k` of its episode and the two columns of its items, and
nothing when it errs. -/
def FinalizeFrame (isJsonObject : String → Bool) (s : EpisodeDb) : Prop :=
  ∀ t id rendered,
    let r := finalizeRetrievalEpisode isJsonObject t id rendered s
    (r.1 ≠ .ok () → r.2 = s) ∧ r.2.db = s.db ∧ r.2.events = s.events ∧
      (∃ f : RetrievalEpisode → ℕ, r.2.episodes = s.episodes.map fun e =>
        if e.tenantId = t ∧ e.episodeId = id then { e with renderedK := f e } else e) ∧
      ∃ (served : RetrievalEpisodeItem → Option (BitVec 64)) (rendered : RetrievalEpisodeItem → Bool),
        r.2.items = s.items.map fun item => if item.episodeId = id then
          { item with servedRank := served item, rendered := rendered item } else item

/-- A finalization changes its own episode only. -/
theorem finalize_frame (hk : s.Keys) : s.FinalizeFrame isJsonObject := by
  intro t id rendered
  rcases finalize_cases isJsonObject hk t id rendered with ⟨e, h⟩ | ⟨h, _⟩
  · rw [h]
    refine ⟨fun _ => rfl, rfl, rfl, ⟨(·.renderedK), ?_⟩, (·.servedRank), (·.rendered), ?_⟩
    · simp
    · simp
  · rw [h]
    refine ⟨fun herr => absurd rfl herr, rfl, rfl, ⟨fun _ => rendered.length, ?_⟩,
      fun item => (projected rendered item).servedRank,
      fun item => (projected rendered item).rendered, ?_⟩
    · show Table.updateWhere _ _ _ = _
      rw [Table.updateWhere]
      apply List.map_congr_left
      intro e _
      simp
    · apply List.map_congr_left
      intro item _
      by_cases hid : item.episodeId = id
      · rw [if_pos hid, if_pos hid]
        exact projected_frame rendered item
      · rw [if_neg hid, if_neg hid]

/-- **Episodes and outcomes over whole runs**: a finalize touches the shown part only, in any
state; the episodes stay valid and the outcomes shown exactly as long as every insert that
passes its checks has ranks that fit their columns and every finalize that passes its checks
keeps the chunks the outcomes of its episode are about. -/
theorem outcomes_shown_iff (isJsonObject : String → Bool) (ops : List Op) :
    (∀ pre, pre <+: ops → (run isJsonObject {} pre).FinalizeFrame isJsonObject) ∧
      ((∀ pre, pre <+: ops → (run isJsonObject {} pre).Good isJsonObject) ↔
        ∀ pre op, pre ++ [op] <+: ops → (run isJsonObject {} pre).Sound isJsonObject op) :=
  ⟨fun pre _ => finalize_frame (keys_empty.run pre), good_run ops⟩

/-- Two chunks of one tenant. -/
def sampleRows : Db where
  chunks := [0, 1].map fun c =>
    { chunkId := c, tenantId := "t", projectId := none, segmentId := 0, ordinal := c,
      chunkType := .other, status := .final, timestampCreated := 0, hash := "", sourceUri := none,
      lifecycle := {}, canonicalText := none, ingestionMode := .document }

/-- An episode of one served item. -/
def sampleEpisode : RetrievalEpisode where
  episodeId := 7
  tenantId := "t"
  projectId := none
  queryHash := "0123456789abcdef0123456789abcdef0123456789abcdef0123456789abcdef"
  queryMode := "hybrid"
  requestedK := 2
  fetchedK := 2
  renderedK := 2
  policyVersion := "v1"
  policyMode := .off
  taskId := none
  threadId := none
  createdAtMs := 0
  expiresAtMs := 100

/-- The chunk as shown at its own number. -/
def sampleItem (c : ChunkId) : RetrievalEpisodeItem where
  episodeId := 7
  chunkId := c
  originTenantId := "t"
  originProjectId := none
  originalRank := BitVec.ofNat 64 c
  originalScore := 0
  laneScoresJson := "\x7b\x7d"
  outcomeAdjustment := 0
  servedRank := some (BitVec.ofNat 64 c)
  shadowRank := none
  rendered := true
  sourceDedupGroup := none

/-- The user accepts an answer that used the first chunk. -/
def sampleOutcome : OutcomeEvent where
  eventId := 1
  episodeId := 7
  outcome := .accepted
  verifier := .user
  usedChunkIds := [0]
  harmfulChunkIds := []
  evidenceReference := none
  rankingEligible := true
  timestampMs := 10

/-- A search shows two chunks, an outcome credits the first, a reranker then shows only the
second. -/
def sampleRun : List Op :=
  [.other sampleRows, .insertEpisode sampleEpisode [sampleItem 0, sampleItem 1],
   .insertOutcome "t" sampleOutcome, .finalize "t" 7 [1]]

/-- The outcome stays stored and credits a chunk that the episode now says was not shown. -/
theorem outcome_not_shown_sampleRun :
    let s := run (· == "\x7b\x7d") {} sampleRun
    sampleOutcome ∈ s.events ∧ 0 ∈ sampleOutcome.usedChunkIds ∧ ¬ s.Shown 7 0 ∧
      ¬ s.OutcomesShown := by
  have hevent : sampleOutcome ∈ (run (· == "\x7b\x7d") {} sampleRun).events := by decide
  have hhidden : ¬ (run (· == "\x7b\x7d") {} sampleRun).Shown 7 0 := by decide
  refine ⟨hevent, by decide, hhidden, ?_⟩
  intro h
  exact hhidden ((h sampleOutcome hevent).1 0 (by decide))

end EpisodeDb
