/-
# Recovery restores the invariant

`recoverFromWal` started on whatever a crash left — a crash during an earlier recovery
included — keeps the crash invariant at every step, and when it has replayed the log
and truncated it every row that is not deleted is sealed and no record is left to
replay.  The induction is on the records still to be replayed, the list that the
invariant of the store carries.
-/
import Memd.WriteSafety

open Store TenantStore PersistentStore Proc

variable {T : TenantId} {K : Ledger}
  {A : StoreStep → Store → Prop} {s : Store}

/-- What a crash may find: every record behind the last checkpoint is still to be
replayed. -/
def CrashInv (T : TenantId) (K : Ledger) (s : Store) :
    Prop :=
  Inv T K s.recordsForRecovery s

theorem Store.Inv.crashInv {rest : List LogRecord} (h : Inv T K rest s)
    (hrest : ∀ r ∈ rest, r ∈ s.recordsForRecovery) : CrashInv T K s :=
  h.mono hrest

/-! ## Records that are done -/

/-- A replayed record is done when nothing waits for it any more: a row of an added
chunk is located without it, a deleted chunk has no row that is not deleted. -/
theorem Store.Inv.done {rest : List LogRecord} {x : LogRecord} (h : Inv T K (x :: rest) s)
    (hadd : ∀ p, x = .add p → ∀ r ∈ s.db.chunks, r.status ≠ .deleted → r.chunkId = p.chunkId →
      ∃ q, q.chunkId = r.chunkId ∧ Located rest s q r.segmentId r.ordinal)
    (hdel : ∀ c, x = .delete c → ∀ r ∈ s.db.chunks, r.chunkId = c → r.status = .deleted) :
    Inv T K rest s := by
  refine { h with located := ?_, buried := ?_ }
  · intro r hr hlive
    obtain ⟨p, hp, hloc⟩ := h.located r hr hlive
    rcases hloc with hloc | ⟨hrec, hloc | ⟨hstr, hmem⟩⟩
    · exact ⟨p, hp, .inl hloc⟩
    · exact ⟨p, hp, .inr ⟨hrec, .inl hloc⟩⟩
    · rcases List.mem_cons.mp hmem with hx | hmem
      · exact hadd p hx.symm r hr hlive hp.symm
      · exact ⟨p, hp, .inr ⟨hrec, .inr ⟨hstr, hmem⟩⟩⟩
  · intro c hc
    obtain ⟨h₁, h₂, h₃⟩ := h.buried c hc
    refine ⟨h₁, h₂, ?_⟩
    intro r hr hid hlive
    rcases List.mem_cons.mp (h₃ r hr hid hlive) with hx | hmem
    · exact absurd (hdel c hx.symm r hr hid) hlive
    · exact hmem

/-- What replaying a prefix of the log has achieved. -/
structure Replayed (T : TenantId) (K : Ledger)
    (records : List LogRecord) (adds : ℕ) (rest : List LogRecord) (s : Store) : Prop where
  inv : Inv T K rest s
  log : s.recordsForRecovery = records
  suffix : ∃ done, records = done ++ rest
  active : s.handle.activeSegment.isSome → 0 < adds

variable {records rest : List LogRecord} {adds : ℕ}

theorem Replayed.crashInv (h : Replayed T K records adds rest s) :
    CrashInv T K s := by
  apply h.inv.crashInv
  obtain ⟨done, hsplit⟩ := h.suffix
  intro r hr
  rw [h.log, hsplit]
  exact List.mem_append_right _ hr

theorem Replayed.suffix_tail {x : LogRecord} (h : ∃ done, records = done ++ x :: rest) :
    ∃ done, records = done ++ rest := by
  obtain ⟨done, hsplit⟩ := h
  exact ⟨done ++ [x], by simp [hsplit]⟩

/-! ## One record -/

/-- Every row that is not deleted holds the payload of its own chunk. -/
theorem Store.Inv.payload_eq (h : Inv T K rest s) {r : ChunkRow} (hr : r ∈ s.db.chunks)
    (hlive : r.status ≠ .deleted) {p : MemoryChunk} (hp : s.Sealed p r.segmentId r.ordinal) :
    p.chunkId = r.chunkId := by
  obtain ⟨q, hq, hloc⟩ := h.located r hr hlive
  obtain rfl := Located.unique h.layout (.inl hp) hloc
  exact hq

theorem safe_replayAdd (ext : Externals) {chunk : MemoryChunk}
    (h : Replayed T K records adds (.add chunk :: rest) s) :
    Safe A Keeps (CrashInv T K)
      (fun r s' => ∀ rewritten, r = .ok rewritten →
        Replayed T K records (if rewritten then adds + 1 else adds) rest s')
      (replayAdd ext chunk) s := by
  obtain ⟨done, hsplit⟩ := h.suffix
  have hrec : .add chunk ∈ s.recordsForRecovery := by
    rw [h.log, hsplit]
    simp
  have htenant : chunk.tenantId = T := h.inv.copyTenant chunk (.inl (add_mem_wal hrec))
  refine Safe.read_bind Keeps.refl fun _ => ?_
  refine Safe.read_bind Keeps.refl fun _ => ?_
  cases hread : (s.db.get chunk.tenantId chunk.chunkId).any fun m =>
      ((s.reader m.segmentId).bind (·.readChunk m.ordinal)).isSome with
  | true =>
    -- the row resolves in a loaded segment
    refine Safe.ret fun _ => ?_
    rintro rewritten hr
    obtain rfl : rewritten = false := by simpa using hr.symm
    refine ⟨?_, h.log, Replayed.suffix_tail h.suffix, h.active⟩
    apply h.inv.done
    · rintro p hp r hr' hlive hid
      obtain rfl : chunk = p := by simpa using hp
      cases hget : s.db.get chunk.tenantId chunk.chunkId with
      | none => simp [hget] at hread
      | some m =>
        obtain ⟨r₀, hr₀, _, hid₀, _, rfl⟩ := Db.exists_row_of_get hget
        obtain rfl := h.inv.keys.ids.eq hr' hr₀ (hid.trans hid₀.symm)
        rw [hget] at hread
        obtain ⟨q, hq⟩ := Option.isSome_iff_exists.mp (show Option.isSome _ = true from hread)
        have hsealed := h.inv.layout.sealed_of_reader hq
        exact ⟨q, h.inv.payload_eq hr' hlive hsealed, .inl hsealed⟩
    · simp
  | false =>
    -- the payload is written again and the row pointed at it
    have hI : ∀ s', SegStep s s' → CrashInv T K s' := by
      intro s' hs
      have h' : Replayed T K records 1 (.add chunk :: rest) s' :=
        ⟨h.inv.segStep hs, hs.recordsForRecovery.trans h.log, h.suffix, fun _ => Nat.one_pos⟩
      exact h'.crashInv
    refine Safe.bind (safe_storePayload h.inv.layout hI hrec _) ?_ ?_
    swap
    · rintro e s₁ _ ⟨_, _, hr, _⟩
      exact absurd hr (by simp)
    rintro ⟨segmentId, ordinal⟩ s₁ _ ⟨i, o, hr, hs, hloc⟩
    obtain ⟨rfl, rfl⟩ : segmentId = i ∧ ordinal = o := by simpa using hr
    have h₁ := h.inv.segStep hs
    -- the row is the chunk's own one or a new one
    have hrow : ∃ m : ChunkMetadata,
        replayedRow ext chunk (s.db.get chunk.tenantId chunk.chunkId) segmentId ordinal = m ∧
        m.chunkId = chunk.chunkId ∧ m.tenantId = T ∧ m.segmentId = segmentId ∧
        m.ordinal = ordinal ∧ (∀ q, K.keep q → q.chunkId = m.chunkId → m.status ≠ .deleted) ∧
        (K.gone m.chunkId → m.status ≠ .deleted → .delete m.chunkId ∈ .add chunk :: rest) := by
      cases hget : s.db.get chunk.tenantId chunk.chunkId with
      | some m =>
        obtain ⟨r₀, hr₀, ht₀, hid₀, hlive₀, rfl⟩ := Db.exists_row_of_get hget
        refine ⟨_, rfl, hid₀, ht₀.trans htenant, rfl, rfl, fun _ _ _ => hlive₀, ?_⟩
        intro hg _
        exact (h.inv.buried _ hg).2.2 r₀ hr₀ rfl hlive₀
      | none =>
        refine ⟨_, rfl, rfl, htenant, rfl, rfl, ?_, ?_⟩
        · intro q hq hid
          obtain ⟨r, hr', hid', hlive⟩ := (h.inv.kept q hq).1
          exact absurd (Db.get_eq_none_iff.mp hget r hr' ((h.inv.rowTenant r hr').trans htenant.symm)
            (hid'.trans hid)) hlive
        · intro hg _
          exact List.mem_cons_of_mem _
            ((h.inv.buried _ hg).2.1 done chunk rest (h.log.trans hsplit) rfl)
    obtain ⟨m, hm, hid, hmt, hseg, hord, hkeep, hgone⟩ := hrow
    dsimp only
    rw [hm]
    have hloc' : Located [] s₁ chunk m.segmentId m.ordinal := by
      rw [hseg, hord]
      exact hloc
    have h₂ : Inv T K (.add chunk :: rest) (withDb (·.insert m) s₁) := by
      have hlog : .add chunk ∈ s₁.recordsForRecovery := by
        rw [hs.recordsForRecovery]
        exact hrec
      exact h₁.insert hloc' hlog hid.symm hmt hkeep hgone
    have h₃ : Replayed T K records (adds + 1) rest (withDb (·.insert m) s₁) := by
      refine ⟨h₂.done ?_ (by simp), hs.recordsForRecovery.trans h.log,
        Replayed.suffix_tail h.suffix, fun _ => Nat.succ_pos adds⟩
      rintro p hp r hr' _ hpid
      obtain rfl : chunk = p := by simpa using hp
      obtain rfl := h₂.keys.ids.eq hr' (Db.mem_insert.mpr (.inr rfl)) (hpid.trans hid.symm)
      refine ⟨chunk, hid.symm, ?_⟩
      exact Located.mono (s := s₁) hloc' (by simp)
    refine Safe.modify_bind fun _ _ => ⟨h₁.keeps_insert hloc' hid.symm, h₃.crashInv, ?_⟩
    refine Safe.ret fun _ => ?_
    intro rewritten hr
    obtain rfl : rewritten = true := by simpa using hr.symm
    exact h₃

theorem safe_replayDelete {c : ChunkId}
    (h : Replayed T K records adds (.delete c :: rest) s) :
    Safe A Keeps (CrashInv T K)
      (fun r s' => r = .ok () → Replayed T K records adds rest s') (replayDelete T c) s := by
  obtain ⟨done, hsplit⟩ := h.suffix
  have hkeep : ∀ p, K.keep p → p.chunkId ≠ c := by
    rintro p hp rfl
    apply (h.inv.kept p hp).2.2
    rw [h.log, hsplit]
    simp
  refine Safe.read_bind Keeps.refl fun _ => ?_
  cases hget : s.db.get T c with
  | none =>
    refine Safe.ret fun _ _ => ⟨h.inv.done (by simp) ?_, h.log, Replayed.suffix_tail h.suffix, h.active⟩
    rintro d hd r hr hid
    obtain rfl : c = d := by simpa using hd
    exact Db.get_eq_none_iff.mp hget r hr (h.inv.rowTenant r hr) hid
  | some m =>
    obtain ⟨h₁, h₂⟩ := h.inv.deleteRow hget hkeep
    have hdone : ∀ r ∈ (withDb (·.markDeleted T c) s).db.chunks, r.chunkId = c →
        r.status = .deleted := fun r hr hid => h.inv.deleted_of_markDeleted hr hid
    have h₁' : Replayed T K records adds rest (withDb (·.markDeleted T c) s) := by
      refine ⟨h₁.done (by simp) ?_, h.log, Replayed.suffix_tail h.suffix, h.active⟩
      rintro d hd r hr hid
      obtain rfl : c = d := by simpa using hd
      exact hdone r hr hid
    obtain ⟨hdb, _, hwal⟩ := tombstone_frame m.segmentId m.ordinal (withDb (·.markDeleted T c) s)
    have h₂' : Replayed T K records adds rest
        (tombstone m.segmentId m.ordinal (withDb (·.markDeleted T c) s)) := by
      refine ⟨h₂.done (by simp) ?_, ?_, Replayed.suffix_tail h.suffix, ?_⟩
      · rw [hdb]
        rintro d hd r hr hid
        obtain rfl : c = d := by simpa using hd
        exact hdone r hr hid
      · rw [Store.recordsForRecovery, hwal]
        exact h.log
      · unfold tombstone
        split <;> exact h.active
    refine Safe.modify_bind fun _ _ => ⟨.markDeleted s T c, h₁'.crashInv, ?_⟩
    exact Safe.modify fun _ _ => ⟨.tombstone _ _ _, h₂'.crashInv, fun _ _ => h₂'⟩

theorem safe_replayRecord (ext : Externals) {x : LogRecord}
    (h : Replayed T K records adds (x :: rest) s) :
    Safe A Keeps (CrashInv T K)
      (fun r s' => ∀ adds', r = .ok adds' → Replayed T K records adds' rest s')
      (replayRecord ext T adds x) s := by
  cases x with
  | add chunk =>
    refine Safe.bind (safe_replayAdd ext h) ?_ ?_
    · intro rewritten s₁ _ h₁
      refine Safe.ret fun _ => ?_
      rintro adds' hr
      obtain rfl : (if rewritten then adds + 1 else adds) = adds' := by simpa using hr
      exact h₁ rewritten rfl
    · intro e s₁ _ _ adds' hr
      exact absurd hr (by simp)
  | delete c =>
    refine Safe.bind (safe_replayDelete h) ?_ ?_
    · intro _ s₁ _ h₁
      refine Safe.ret fun _ => ?_
      rintro adds' hr
      obtain rfl : adds = adds' := by simpa using hr
      exact h₁ rfl
    · intro e s₁ _ _ adds' hr
      exact absurd hr (by simp)
  | taskArtifact p =>
    -- a bundle writes overlay columns only
    have hdone : ∀ db', s.db.Overlay db' →
        Replayed T K records adds rest { s with db := db' } := fun db' ho =>
      ⟨(h.inv.overlay ho).done (by simp) (by simp), h.log, Replayed.suffix_tail h.suffix, h.active⟩
    refine Safe.bind (safe_insertTaskArtifactBundle (fun db' ho => (hdone db' ho).crashInv) p) ?_ ?_
    · rintro _ s₁ _ ⟨db', ho, rfl⟩
      refine Safe.ret fun _ => ?_
      rintro adds' hr
      obtain rfl : adds = adds' := by simpa using hr
      exact hdone db' ho
    · intro e s₁ _ _ adds' hr
      exact absurd hr (by simp)
  | checkpoint =>
    refine Safe.ret fun _ => ?_
    rintro adds' hr
    obtain rfl : adds = adds' := by simpa using hr
    exact ⟨h.inv.done (by simp) (by simp), h.log, Replayed.suffix_tail h.suffix, h.active⟩

/-! ## Recovery -/

/-- With every record replayed and no segment open the log can go. -/
theorem safe_truncateWal (h : Inv T K [] s) (ha : s.handle.activeSegment = none) :
    Safe A Keeps (CrashInv T K) (fun r s' => r = .ok () → Inv T K [] s')
      (.modify .walTruncate fun s => { s with wal := [] } : StoreProg Unit) s := by
  have h' : Inv T K [] { s with wal := [] } :=
    h.resetLog ha (by simp) (by simp) (by simp)
  exact Safe.modify fun _ _ => ⟨.of_eq rfl rfl, h'.crashInv (by simp), fun _ _ => h'⟩

/-- Recovery, from whatever a crash left: it keeps the crash invariant, and when it
ends no record is left to replay. -/
theorem safe_recoverFromWal (ext : Externals) (h : CrashInv T K s)
    (hactive : s.handle.activeSegment = none) :
    Safe A Keeps (CrashInv T K) (fun r s' => r = .ok () → Inv T K [] s')
      (recoverFromWal ext T) s := by
  refine Safe.read_bind Keeps.refl fun _ => ?_
  split
  · rename_i hnil
    refine Safe.ret fun _ _ => ?_
    rw [← hnil]
    exact h
  refine Safe.bind (Q := fun r s' => ∀ adds, r = .ok adds →
    Replayed T K s.recordsForRecovery adds [] s') ?_ ?_ ?_
  · refine Safe.foldlM (P := fun adds rest s' =>
      Replayed T K s.recordsForRecovery adds rest s') ?_ ?_ _ _ h ?_
    · intro adds x rest s₁ _ h₁
      refine (safe_replayRecord ext h₁).post ?_
      intro r s₂ _ h₂
      cases r with
      | ok adds' => exact h₂ adds' rfl
      | error e => exact fun adds' hr => absurd hr (by simp)
    · rintro adds s₁ _ h₁ adds' hr
      obtain rfl : adds = adds' := by simpa using hr
      exact h₁
    · exact ⟨h, rfl, ⟨[], rfl⟩, by simp [hactive]⟩
  · intro adds s₁ _ h₁
    have h₁ := h₁ adds rfl
    have hcrash : ∀ s', Inv T K [] s' → CrashInv T K s' :=
      fun s' h' => h'.crashInv (by simp)
    by_cases hadds : adds > 0
    · simp only [hadds, if_true]
      refine Safe.bind (safe_finalizeActiveSegment h₁.inv.layout
        (fun _ hs => hcrash _ (h₁.inv.segStep hs)) _) ?_ ?_
      · rintro _ s₂ _ ⟨_, hs, ha⟩
        exact safe_truncateWal (h₁.inv.segStep hs) ha
      · rintro e s₂ _ ⟨hr, _⟩
        exact absurd hr (by simp)
    · simp only [hadds, if_false]
      refine safe_truncateWal h₁.inv ?_
      cases ha : s₁.handle.activeSegment with
      | none => rfl
      | some a => exact absurd (h₁.active (by simp [ha])) hadds
  · intro e s₁ _ _ hr
    exact absurd hr (by simp)

/-- Opening the store. -/
theorem safe_openTenant (ext : Externals) (h : CrashInv T K s) {cfg : StoreConfig}
    (hcfg : cfg.finalizeFails = []) :
    Safe A Keeps (CrashInv T K) (fun r s' => r = .ok () → Inv T K [] s')
      (openTenant ext T cfg) s := by
  have h₁ : CrashInv T K (loadSegments cfg s) := h.loadSegments (fun _ hr => hr) hcfg
  refine Safe.modify_bind fun _ _ => ⟨.of_eq rfl rfl, h₁, ?_⟩
  refine Safe.bind (Q := fun r s' => CrashInv T K s' ∧
    (r = .ok (.ok ()) → Inv T K [] s')) ?_ ?_ ?_
  · refine Safe.attempt ((safe_recoverFromWal ext h₁ rfl).post ?_)
    intro r s₂ h₂ hr
    exact ⟨h₂, fun hok => hr (by simpa using hok)⟩
  · rintro outcome s₂ _ ⟨h₂, hok⟩
    cases outcome with
    | ok _ => exact Safe.ret fun _ _ => hok rfl
    | error e =>
      -- the handle is dropped, which may finalize what recovery had appended
      refine Safe.bind (Q := fun _ _ => True) (Safe.attempt
        ((safe_finalizeActiveSegmentIfAboveThreshold h₂.layout ?_).post fun _ _ _ _ => trivial)) ?_ ?_
      · intro s₃ hs
        have h₃ := h₂.segStep hs
        rw [← hs.recordsForRecovery] at h₃
        exact h₃
      · intro _ s₃ _ _
        exact Safe.fail fun _ hr => absurd hr (by simp)
      · intro e s₃ _ _ hr
        exact absurd hr (by simp)
  · intro e s₂ _ _ hr
    exact absurd hr (by simp)
