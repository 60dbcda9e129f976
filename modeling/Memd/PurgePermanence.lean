/-
# Purges and the log

`run_purge` drops the rows of its candidates and may rewrite the segments, but it leaves
the log alone.  Where the Add record of a purged chunk is still behind the last
checkpoint, the next recovery finds no row for it, takes the record for one that was
never applied and stores the chunk again (`purged_chunk_returns`).  Where every purge
finds the log clean of its candidates, a purge is for good (`purged_chunks_stay_purged`).
-/
import Memd.Durability

open Store TenantStore PersistentStore Proc

/-! ## Purges that the log does not undo -/

/-- Does the record add the chunk? -/
def LogRecord.addsChunk (c : ChunkId) : LogRecord → Bool
  | .add p => p.chunkId == c
  | _ => false

/-- When rows are dropped, the records behind the last checkpoint add none of their
chunks. -/
def purgesOutOfReach : StoreStep → Store → Bool
  | .hardDeleteChunks ids, s => ids.all fun c => !s.recordsForRecovery.any (·.addsChunk c)
  | _, _ => true

theorem cleanPurges_outOfReach : CleanPurges fun l s => purgesOutOfReach l s = true := by
  intro ids s h c hc p hp hid
  have hno := List.all_eq_true.mp h c hc
  have hadds : s.recordsForRecovery.any (·.addsChunk c) = true :=
    List.any_eq_true.mpr ⟨.add p, hp, by simp [LogRecord.addsChunk, hid]⟩
  rw [hadds] at hno
  exact absurd hno (by decide)

/-! ## What the purges of a log promise -/

/-- A purge of the log has reported the chunk as hard-deleted. -/
def PurgeReported (log : List StoreEvent) (c : ChunkId) : Prop :=
  ∃ o now report, .returned (.purge o now) (.ok (.purged report)) ∈ log ∧ c ∈ report.candidateIds

/-- The ledger of the purges of a log. -/
def purgeLedger (log : List StoreEvent) : Ledger :=
  { Ledger.empty with erased := PurgeReported log }

/-- An event that is no returned purge reports nothing. -/
theorem purgeLedger_le {log : List StoreEvent} {ev : StoreEvent}
    (hev : ∀ o now report, ev ≠ .returned (.purge o now) (.ok (.purged report))) :
    (purgeLedger (log ++ [ev])).Le (purgeLedger log) := by
  refine ⟨fun _ h => h, fun _ h => h, ?_⟩
  rintro c ⟨o, now, report, hmem, hc⟩
  rcases List.mem_append.mp hmem with hmem | hmem
  · exact ⟨o, now, report, hmem, hc⟩
  · exact absurd (List.mem_singleton.mp hmem).symm (hev o now report)

theorem tracks_purgeLedger (ext : Externals) {A : StoreStep → Store → Prop} (hA : CleanPurges A)
    (allowed : StoreOp → Bool) : Tracks ext A allowed purgeLedger where
  live _ _ h := h.elim
  called _ _ := purgeLedger_le (by simp)
  booted _ := purgeLedger_le (by simp)
  crashed _ := purgeLedger_le (by simp)
  delete _ _ _ h := h.elim
  purge _ _ _ _ _ h := h
  returned log op r := by
    have hle := (purgeLedger log).le_after ext A op r
    refine ⟨fun _ h => h.elim, fun _ h => h.elim, ?_⟩
    rintro c ⟨o, now, report, hmem, hc⟩
    rcases List.mem_append.mp hmem with hmem | hmem
    · exact hle.erased c ⟨o, now, report, hmem, hc⟩
    · -- the purge that has just returned
      obtain ⟨rfl, rfl⟩ : .purge o now = op ∧ .ok (.purged report) = r := by
        simpa using List.mem_singleton.mp hmem
      exact .inr ⟨hA, hc⟩

/-! ## Permanence -/

/-- **Purges are permanent where the log allows it.**  In every serial run whose purges
find none of their candidates' Add records behind the last checkpoint: once a purge has
reported a chunk, no state has a row for it, and no step puts its payload into a segment
that did not already hold it. -/
theorem purged_chunks_stay_purged (ext : Externals) (T : TenantId)
    (c : Config StoreStep Store MemdError StoreOp StoreRes)
    (hrun : (session ext T fun _ => true).Reach (fun l s => purgesOutOfReach l s = true)
      (System.start {}) c) (id : ChunkId) (hpurged : PurgeReported c.log id) :
    (∀ r ∈ c.store.db.chunks, r.chunkId ≠ id) ∧
    ∀ ch c', System.Meets (fun l s => purgesOutOfReach l s = true) c ch →
      (session ext T fun _ => true).step c ch = some c' →
      ∀ d ∈ c'.store.segmentDirs, ∀ p ∈ d.payload, p.chunkId = id →
        ∃ e ∈ c.store.segmentDirs, e.id = d.id ∧ p ∈ e.payload := by
  have hserial := serial_session (T := T) ext
    (tracks_purgeLedger ext cleanPurges_outOfReach fun _ => true)
  have hstart : System.SerialInv (fun l s => purgesOutOfReach l s = true) Keeps
      (fun s log => Inv T (purgeLedger log) [] s) (fun s log => CrashInv T (purgeLedger log) s)
      (System.start {} : Config StoreStep Store MemdError StoreOp StoreRes) := by
    refine crashInv_empty T (fun _ h => h) (fun _ h => h) ?_
    rintro c ⟨_, _, _, h, _⟩
    exact List.not_mem_nil h
  have hinv := (System.reach_serial hserial hstart hrun).crashInv hserial
  have herased : Erased c.store id := Store.Inv.erased hinv id hpurged
  refine ⟨herased.rows, ?_⟩
  intro ch c' hA hstep d hd p hp hid
  exact herased.segments (System.step_serial hserial hstart hrun hA hstep) hd hp hid

/-- A purge that rewrites the segments, long after the deletion. -/
def samplePurge : StoreOp :=
  .purge ⟨none, 1, 100, false, some none, true, none⟩ 1000000000

/-- A chunk is added and deleted, and purged after the store was reopened. -/
def purgedRun (ok : StoreStep → Store → Bool) : Config StoreStep Store MemdError StoreOp StoreRes :=
  (session sampleExternals "t" fun _ => true).script ok
    [(.boot ⟨8, 2, 0, []⟩, 99), (.call (.add [sampleChunk "a"] none 0), 99),
     (.call (.delete 0), 99), (.crash, 0), (.boot ⟨8, 2, 0, []⟩, 99), (.call samplePurge, 99)]
    (System.start {})

theorem purged_chunks_stay_purged_purgedRun :
    PurgeReported (purgedRun purgesOutOfReach).log 0 ∧
    ∀ r ∈ (purgedRun purgesOutOfReach).store.db.chunks, r.chunkId ≠ 0 := by
  have hrun : (session sampleExternals "t" fun _ => true).Reach
      (fun l s => purgesOutOfReach l s = true) (System.start {}) (purgedRun purgesOutOfReach) :=
    System.Reach.script (fun _ _ h => h) _ .refl
  have hpurged : PurgeReported (purgedRun purgesOutOfReach).log 0 :=
    ⟨⟨none, 1, 100, false, some none, true, none⟩, 1000000000, ⟨[0], 1, true⟩, by decide +kernel,
      by decide⟩
  exact ⟨hpurged, (purged_chunks_stay_purged sampleExternals "t" _ hrun 0 hpurged).1⟩

/-! ## The log brings a purged chunk back -/

/-- A chunk is added, deleted and purged in one session. -/
def purgedAtOnceRun : Config StoreStep Store MemdError StoreOp StoreRes :=
  (session sampleExternals "t" fun _ => true).script (fun _ _ => true)
    [(.boot ⟨8, 2, 0, []⟩, 99), (.call (.add [sampleChunk "a"] none 0), 99),
     (.call (.delete 0), 99), (.call samplePurge, 99)] (System.start {})

/-- After a purge that reported the chunk and rewrote the segments no row and no segment
is left of it; a crash and a reopening later both are back. -/
theorem purged_chunk_returns :
    (session sampleExternals "t" fun _ => true).Reach (fun _ _ => True) (System.start {})
      purgedAtOnceRun ∧
    .returned samplePurge (.ok (.purged ⟨[0], 1, true⟩)) ∈ purgedAtOnceRun.log ∧
    purgedAtOnceRun.store.db.chunks = [] ∧ purgedAtOnceRun.store.segmentDirs = [] ∧
    ∃ c, (session sampleExternals "t" fun _ => true).Reach (fun _ _ => True) purgedAtOnceRun c ∧
      c.mode = .up [] ∧ (∃ r ∈ c.store.db.chunks, r.chunkId = 0) ∧
      ∃ d ∈ c.store.segmentDirs, d.finalized = true ∧ ∃ p ∈ d.payload, p.chunkId = 0 := by
  refine ⟨System.Reach.script (fun _ _ _ => trivial) _ .refl, by decide +kernel, by decide +kernel,
    by decide +kernel, ?_⟩
  refine ⟨(session sampleExternals "t" fun _ => true).script (fun _ _ => true)
    [(.crash, 0), (.boot ⟨8, 2, 0, []⟩, 99)] purgedAtOnceRun,
    System.Reach.script (fun _ _ _ => trivial) _ .refl, ?_, by decide +kernel, by decide +kernel⟩
  exact System.mode_eq_of_isIdle (by decide +kernel)
