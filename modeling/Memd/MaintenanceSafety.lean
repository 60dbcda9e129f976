/-
# Reads and maintenance keep the invariant

The sweeps only touch overlay columns, a read may at most load the reader of a
finalized segment, and a purge deletes before it drops rows.  When no Add record of a
purged chunk is behind the last checkpoint, the purge erases the chunk for good.
-/
import Memd.SegmentRewrite
import Memd.Maintenance

namespace Db

/-- Marking a row as expired overwrites fields of one row. -/
theorem overlay_markExpiredIfFinal (db : Db) (t : TenantId) (c : ChunkId) (now : ℤ) :
    Overlay db (db.markExpiredIfFinal t c now) := by
  apply Overlay.updateChunks
  intro r hr
  have hfinal : r.status = .final := by
    simp only [Bool.and_eq_true, beq_iff_eq] at hr
    exact hr.1.2
  exact ⟨rfl, rfl, rfl, rfl, by simp [hfinal]⟩

/-- Promoting a row to the history overwrites fields of one row. -/
theorem overlay_promoteToHistoryIfStale (db : Db) (t : TenantId) (c : ChunkId)
    (olderThan now : ℤ) : Overlay db (db.promoteToHistoryIfStale t c olderThan now) := by
  apply Overlay.updateChunks
  intro r _
  exact ⟨rfl, rfl, rfl, rfl, Iff.rfl⟩

end Db

open Store TenantStore PersistentStore Proc

variable {T : TenantId} {K : Ledger} {A : StoreStep → Store → Prop} {I : Store → Prop} {s : Store}

/-! ## Sweeps -/

/-- A loop of statements on overlay columns. -/
theorem safe_overlayLoop {α : Type} {f : α → Db → Db} (hf : ∀ a (db : Db), db.Overlay (f a db))
    (h : Inv T K [] s) (l : List α) :
    Safe A Keeps (Inv T K []) (fun _ s' => ∃ db', s.db.Overlay db' ∧ s' = { s with db := db' })
      (l.forM fun a => (.modify .metadataWrite (withDb (f a)) : StoreProg Unit)) s := by
  refine Safe.forM (P := fun _ s' => ∃ db', s.db.Overlay db' ∧ s' = { s with db := db' }) ?_ ?_ l h
    ⟨s.db, .refl s.db, rfl⟩
  · rintro a rest s₁ h₁ ⟨db', ho, rfl⟩
    have h₂ := h₁.overlay (hf a db')
    exact Safe.modify fun _ _ => ⟨.overlay (hf a db'), h₂, fun _ =>
      ⟨f a db', ho.trans (hf a db'), rfl⟩⟩
  · exact fun s₁ _ h₁ => h₁

/-- **The expiry sweep** overwrites fields of rows only. -/
theorem safe_expirySweep (h : Inv T K [] s) (t : TenantId) (now : ℤ) :
    Safe A Keeps (Inv T K []) (fun _ s' => ∃ db', s.db.Overlay db' ∧ s' = { s with db := db' })
      (expirySweep t now) s := by
  refine Safe.read_bind Keeps.refl fun _ => ?_
  exact safe_overlayLoop (fun c db => db.overlay_markExpiredIfFinal t c now) h _

/-- **The promotion to history** overwrites fields of rows only. -/
theorem safe_historyPromotion (h : Inv T K [] s) (t : TenantId) (age now : ℤ) :
    Safe A Keeps (Inv T K []) (fun _ s' => ∃ db', s.db.Overlay db' ∧ s' = { s with db := db' })
      (historyPromotion t age now) s := by
  refine Safe.read_bind Keeps.refl fun _ => ?_
  exact safe_overlayLoop (fun c db => db.overlay_promoteToHistoryIfStale t c _ now) h _

/-- A job that is switched off does nothing. -/
theorem safe_whenEnabled (enabled : Bool) {job : StoreProg Unit}
    (hjob : Safe A Keeps I (fun _ s' => ∃ db', s.db.Overlay db' ∧ s' = { s with db := db' }) job s) :
    Safe A Keeps I (fun _ s' => ∃ db', s.db.Overlay db' ∧ s' = { s with db := db' })
      (whenEnabled enabled job) s := by
  cases enabled with
  | true => exact hjob
  | false => exact Safe.ret fun _ => ⟨s.db, .refl s.db, rfl⟩

/-- **Compaction** overwrites fields of rows only. -/
theorem safe_runCompaction (h : Inv T K [] s) (t : TenantId) (cfg : Option CompactionConfig)
    (now : ℤ) :
    Safe A Keeps (Inv T K []) (fun _ s' => ∃ db', s.db.Overlay db' ∧ s' = { s with db := db' })
      (runCompaction t cfg now) s := by
  cases cfg with
  | none => exact Safe.fail fun _ => ⟨s.db, .refl s.db, rfl⟩
  | some cfg =>
    refine Safe.bind (safe_whenEnabled _ (safe_expirySweep h t now)) ?_ fun _ _ _ h₁ => h₁
    rintro _ s₁ h₁ ⟨db', ho, rfl⟩
    refine (safe_whenEnabled _ (safe_historyPromotion h₁ t _ now)).post ?_
    rintro _ s₂ _ ⟨db'', ho', rfl⟩
    exact ⟨db'', ho.trans ho', rfl⟩

/-! ## Reads -/

/-- Opening a segment on demand is a step on the segments. -/
theorem segStep_openOnDemand (hl : s.Layout) (segmentId ordinal : ℕ) :
    SegStep s (openOnDemand segmentId ordinal s).2 := by
  unfold openOnDemand
  cases hd : (s.dir segmentId).filter (·.finalized) with
  | none => exact .refl hl
  | some d =>
    dsimp only
    split
    · exact .refl hl
    obtain ⟨hdir, hfin⟩ := Option.filter_eq_some_iff.mp hd
    obtain ⟨hmem, hid⟩ := dir_eq_some hdir
    refine ⟨rfl, rfl, rfl, ⟨hl.dirIds, hl.active, ?_, hl.fresh, hl.noFault⟩, fun _ h => h,
      fun _ _ _ _ h => h, fun a ha _ hp => .inl ⟨a, ha, hp⟩, fun d hd _ hp => .inl ⟨d, hd, rfl, hp⟩⟩
    intro id hid'
    rcases List.mem_append.mp hid' with hid' | hid'
    · exact hl.readers id hid'
    · obtain rfl := List.mem_singleton.mp hid'
      exact ⟨d, hmem, hid, hfin⟩

/-- **A read** of a chunk makes steps on the segments only. -/
theorem safe_getChunk (hl : s.Layout) (hI : ∀ s', SegStep s s' → I s') (t : TenantId)
    (c : ChunkId) : Safe A Keeps I (fun _ s' => SegStep s s') (getChunk t c) s := by
  refine Safe.read_bind Keeps.refl fun _ => ?_
  cases s.db.get t c with
  | none => exact Safe.ret fun _ => .refl hl
  | some m =>
    refine Safe.read_bind Keeps.refl fun _ => ?_
    cases s.readPayloadFallback m.segmentId m.ordinal with
    | some chunk => exact Safe.ret fun _ => .refl hl
    | none =>
      have hs := segStep_openOnDemand hl m.segmentId m.ordinal
      refine Safe.bind (Q := fun _ s' => SegStep s s')
        (Safe.perform fun _ _ => ⟨hs.keeps, hI _ hs, fun _ => hs⟩) ?_ fun _ _ _ h => h
      exact fun _ s₁ _ h₁ => Safe.ret fun _ => h₁

/-- **A retrieval** of a chunk makes steps on the segments only. -/
theorem safe_getChunkForRetrieval (hl : s.Layout) (hI : ∀ s', SegStep s s' → I s') (t : TenantId)
    (c : ChunkId) : Safe A Keeps I (fun _ s' => SegStep s s') (getChunkForRetrieval t c) s := by
  refine Safe.read_bind Keeps.refl fun _ => ?_
  cases s.db.get t c with
  | none => exact Safe.ret fun _ => .refl hl
  | some m =>
    dsimp only
    split
    · exact Safe.ret fun _ => .refl hl
    refine Safe.bind (Q := fun _ s' => SegStep s s') (Safe.attempt (safe_getChunk hl hI t c)) ?_
      fun _ _ _ h => h
    intro outcome s₁ _ h₁
    match outcome with
    | .ok chunk => exact Safe.ret fun _ => h₁
    | .error (.storageError _) => exact Safe.ret fun _ => h₁
    | .error (.validationError _) => exact Safe.fail fun _ => h₁
    | .error .walkCutOff => exact Safe.fail fun _ => h₁

/-- The directory found under an id is the one with the id. -/
theorem Store.Layout.dir_eq (h : s.Layout) {d : SegmentDir} (hd : d ∈ s.segmentDirs) :
    s.dir d.id = some d := by
  cases hdir : s.dir d.id with
  | none =>
    unfold Store.dir at hdir
    rw [List.find?_eq_none] at hdir
    exact absurd (hdir d hd) (by simp)
  | some e =>
    obtain ⟨he, hid⟩ := dir_eq_some hdir
    rw [h.dirIds.eq he hd hid]

/-- What `read_payload_fallback` finds is located where it was asked for. -/
theorem Store.Inv.located_of_readPayloadFallback (h : Inv T K [] s) {segmentId ordinal : ℕ}
    {q : MemoryChunk} (hq : s.readPayloadFallback segmentId ordinal = some q) :
    Located [] s q segmentId ordinal := by
  unfold readPayloadFallback at hq
  rcases Option.or_eq_some_iff.mp hq with hq | ⟨_, hq⟩
  · obtain ⟨a, ha, hq⟩ := Option.bind_eq_some_iff.mp hq
    split at hq
    · rename_i hid
      exact .inr ⟨h.activeLogged a ha q (List.mem_of_getElem? hq), .inl ⟨a, ha, hid, hq⟩⟩
    · exact absurd hq (by simp)
  · exact .inl (h.layout.sealed_of_reader hq)

/-- The location of a row yields its payload to `get_chunk`. -/
theorem Store.Inv.getChunk_located (h : Inv T K [] s) {r : ChunkRow} (hr : r ∈ s.db.chunks)
    (hlive : r.status ≠ .deleted) : ∃ p, p.chunkId = r.chunkId ∧ s.Copy p ∧
      ((getChunk T r.chunkId).run s).1 = .ok (some { p with status := r.status }) := by
  obtain ⟨p, hp, hloc⟩ := h.located r hr hlive
  refine ⟨p, hp, hloc.copy, ?_⟩
  have hget : s.db.get T r.chunkId = some r.toChunkMetadata := by
    cases hget : s.db.get T r.chunkId with
    | none => exact absurd (Db.get_eq_none_iff.mp hget r hr (h.rowTenant r hr) rfl) hlive
    | some m =>
      obtain ⟨r', hr', _, hid, _, rfl⟩ := Db.exists_row_of_get hget
      rw [h.keys.ids.eq hr' hr hid]
  unfold getChunk
  simp only [bind_eq, run_read_bind, hget]
  cases hcached : s.readPayloadFallback r.segmentId r.ordinal with
  | some q =>
    rw [Located.unique h.layout (h.located_of_readPayloadFallback hcached) hloc]
    rfl
  | none =>
    -- not in the active segment, so sealed in a segment that is opened on demand
    rcases hloc with ⟨d, hd, hid, hfin, hread⟩ | ⟨_, ⟨a, ha, haid, hget⟩ | ⟨_, hnil⟩⟩
    · have hopen : (openOnDemand r.segmentId r.ordinal s).1 = .ok (some p) := by
        unfold openOnDemand
        rw [← hid, h.layout.dir_eq hd, Option.filter_some, hfin]
        exact congrArg Except.ok hread
      rw [run_bind, run_perform]
      generalize openOnDemand r.segmentId r.ordinal s = out at hopen ⊢
      obtain ⟨_, s'⟩ := out
      obtain rfl := hopen
      rfl
    · simp [readPayloadFallback, ha, haid, hget] at hcached
    · exact absurd hnil (by simp)

/-- A kept payload is what `get_chunk` returns, under the status of its row. -/
theorem Store.Inv.getChunk_kept (h : Inv T K [] s) {p : MemoryChunk} (hp : K.keep p) :
    ∃ st, st ≠ .deleted ∧
      ((getChunk T p.chunkId).run s).1 = .ok (some { p with status := st }) := by
  obtain ⟨⟨r, hr, hid, hlive⟩, hcopy, _⟩ := h.kept p hp
  obtain ⟨q, hq, hcopyq, hget⟩ := h.getChunk_located hr hlive
  obtain rfl := hcopy q hcopyq (hq.trans hid)
  rw [hid] at hget
  exact ⟨r.status, hlive, hget⟩

/-- A deleted chunk is not found. -/
theorem Store.Inv.getChunk_gone (h : Inv T K [] s) {c : ChunkId} (hc : K.gone c) :
    ((getChunk T c).run s).1 = .ok none := by
  have hget : s.db.get T c = none := by
    rw [Db.get_eq_none_iff]
    intro r hr _ hid
    by_contra hlive
    exact absurd ((h.buried c hc).2.2 r hr hid hlive) (by simp)
  unfold getChunk
  simp only [bind_eq, run_read_bind, hget]
  rfl

/-! ## Purge -/

/-- Every row of the chunk is deleted. -/
def Dead (s : Store) (c : ChunkId) : Prop :=
  ∀ r ∈ s.db.chunks, r.chunkId = c → r.status = .deleted

/-- A step on the segments brings no dead chunk back. -/
theorem Dead.segStep {s s' : Store} {c : ChunkId} (h : Dead s c) (hs : SegStep s s') : Dead s' c := by
  rw [Dead, hs.db]
  exact h

/-- Overwriting fields of rows brings no dead chunk back. -/
theorem Dead.overlay {s : Store} {c : ChunkId} (h : Dead s c) {db' : Db} (ho : s.db.Overlay db') :
    Dead { s with db := db' } c := by
  intro x hx hid
  obtain ⟨r, hr, hrow⟩ := ho.mem hx
  exact hrow.deleted.mpr (h r hr (hrow.chunkId.symm.trans hid))

/-- Probing candidates only reads. -/
theorem safe_unreadableCandidates (h : Inv T K [] s) (t : TenantId) (o : PurgeOptions)
    (limit found : ℕ) :
    Safe A Keeps (Inv T K []) (fun r s' => SegStep s s' ∧ ∀ l, r = .ok l → ∀ m ∈ l,
        m.status ≠ .deleted ∧ m.chunkId < s.nextId) (unreadableCandidates t o limit found) s := by
  unfold unreadableCandidates
  split
  swap
  · exact Safe.ret fun _ => ⟨.refl h.layout, by rintro l hl; obtain rfl := Except.ok.inj hl; simp⟩
  refine Safe.read_bind Keeps.refl fun _ => ?_
  refine Safe.foldlM (P := fun found rest s' => SegStep s s' ∧
    (∀ m ∈ found, m.status ≠ .deleted ∧ m.chunkId < s.nextId) ∧
    ∀ m ∈ rest, m.status ≠ .deleted ∧ m.chunkId < s.nextId) ?_ ?_ _ _ h ⟨.refl h.layout, by simp, ?_⟩
  · rintro found m rest s₁ h₁ ⟨hs, hfound, hrest⟩
    have hrest' := fun m hm => hrest m (List.mem_cons_of_mem _ hm)
    unfold probeUnreadable
    split
    · exact Safe.ret fun _ => ⟨hs, hfound, hrest'⟩
    refine Safe.bind (safe_getChunkForRetrieval h₁.layout (fun _ hs' => h₁.segStep hs') t _) ?_ ?_
    · intro chunk s₂ _ hs'
      refine Safe.ret fun _ => ⟨hs.trans hs', ?_, hrest'⟩
      split
      · intro m' hm'
        rcases List.mem_append.mp hm' with hm' | hm'
        · exact hfound m' hm'
        · obtain rfl := List.mem_singleton.mp hm'
          exact hrest m' List.mem_cons_self
      · exact hfound
    · intro e s₂ _ hs'
      exact ⟨hs.trans hs', fun l hl => absurd hl (by simp)⟩
  · rintro found s₁ _ ⟨hs, hfound, _⟩
    refine ⟨hs, ?_⟩
    rintro l hl
    obtain rfl := Except.ok.inj hl
    exact hfound
  · intro m hm
    obtain ⟨r, hr, rfl⟩ := List.mem_map.mp hm
    obtain ⟨hr, hsel⟩ := List.mem_filter.mp (List.mem_mergeSort.mp hr)
    refine ⟨?_, h.rowIds r hr⟩
    simp only [Bool.and_eq_true, Bool.or_eq_true, beq_iff_eq] at hsel
    rcases hsel.1.2 with h | h <;> rw [h] <;> decide

/-- Building the archive reads only. -/
theorem safe_buildArchiveRecords (h : Inv T K [] s) (t : TenantId) (l : List ChunkMetadata) :
    Safe A Keeps (Inv T K []) (fun _ s' => SegStep s s') (l.forM (buildArchiveRecord t)) s := by
  refine Safe.forM (P := fun _ s' => SegStep s s') ?_ (fun _ _ hs => hs) l h (.refl h.layout)
  rintro m rest s₁ h₁ hs
  unfold buildArchiveRecord
  split
  · exact Safe.ret fun _ => hs
  refine Safe.bind (safe_getChunkForRetrieval h₁.layout (fun _ hs' => h₁.segStep hs') t _) ?_ ?_
  · exact fun _ s₂ _ hs' => Safe.ret fun _ => hs.trans hs'
  · exact fun _ s₂ _ hs' => hs.trans hs'

/-- What a delete call does to the rows. -/
theorem safe_deleteChunk_rows (t : TenantId) (c : ChunkId) :
    Safe A Keeps (fun _ => True) (fun r s' => r = .ok false ∧ s' = s ∧ s.db.get t c = none ∨
      r = .ok true ∧ s'.db = s.db.markDeleted t c ∧ s'.nextId = s.nextId) (deleteChunk t c) s := by
  refine Safe.read_bind Keeps.refl fun _ => ?_
  cases hget : s.db.get t c with
  | none => exact Safe.ret fun _ => .inl ⟨rfl, rfl, rfl⟩
  | some m =>
    refine Safe.modify_bind fun _ _ => ⟨.of_eq rfl rfl, trivial, ?_⟩
    refine Safe.modify_bind fun _ _ => ⟨.markDeleted _ t c, trivial, ?_⟩
    refine Safe.modify_bind fun _ _ => ⟨.tombstone _ _ _, trivial, ?_⟩
    refine Safe.ret fun _ => .inr ⟨rfl, ?_, ?_⟩
    · rw [(tombstone_frame _ _ _).1]
      rfl
    · rw [(tombstone_frame _ _ _).2.1]
      rfl

/-- Deleting one candidate: it is dead, and what was dead stays dead. -/
theorem safe_deleteCandidate (h : Inv T K [] s) (hkeep : ∀ p, ¬ K.keep p) {m : ChunkMetadata}
    (hdead : m.status = .deleted → Dead s m.chunkId) :
    Safe A Keeps (Inv T K [])
      (fun _ s' => s'.nextId = s.nextId ∧ Dead s' m.chunkId ∧ ∀ c, Dead s c → Dead s' c)
      (deleteCandidate T m) s := by
  unfold deleteCandidate
  split
  · rename_i hstatus
    exact Safe.ret fun _ => ⟨rfl, hdead hstatus, fun _ hc => hc⟩
  have hboth := ((safe_deleteChunk (A := A) (c := m.chunkId) h fun p hp => absurd hp (hkeep p)).and
    (safe_deleteChunk_rows T m.chunkId)).weaken ⟨h, trivial⟩ (fun _ hs => hs.1)
  have hdone : ∀ r s', (r = .ok false ∧ s' = s ∧ s.db.get T m.chunkId = none ∨
      r = (.ok true : Except MemdError Bool) ∧ s'.db = s.db.markDeleted T m.chunkId ∧
        s'.nextId = s.nextId) →
      s'.nextId = s.nextId ∧ Dead s' m.chunkId ∧ ∀ c, Dead s c → Dead s' c := by
    rintro r s' (⟨_, rfl, hget⟩ | ⟨_, hdb, hid⟩)
    · exact ⟨rfl, fun x hx hid => Db.get_eq_none_iff.mp hget x hx (h.rowTenant x hx) hid, fun _ hc => hc⟩
    · refine ⟨hid, ?_, ?_⟩
      · intro x hx hid
        rw [hdb] at hx
        exact h.deleted_of_markDeleted hx hid
      · intro c hc x hx hid
        rw [hdb] at hx
        obtain ⟨y, hy, hyid, _, _, _, hlive⟩ := mem_markDeleted hx
        by_contra hne
        obtain ⟨rfl, _⟩ := hlive hne
        exact hne (hc x hy hid)
  refine Safe.bind hboth ?_ ?_
  · exact fun _ s₁ _ h₁ => Safe.ret fun _ => hdone _ _ h₁.2
  · exact fun _ s₁ _ h₁ => hdone _ _ h₁.2

/-- **Purging the candidates** keeps what must be kept. -/
theorem safe_deleteCandidates (h : Inv T K [] s) (hkeep : ∀ p, ¬ K.keep p)
    {l : List ChunkMetadata} (hdead : ∀ m ∈ l, m.status = .deleted → Dead s m.chunkId) :
    Safe A Keeps (Inv T K [])
      (fun r s' => r = .ok ⟨⟩ → s'.nextId = s.nextId ∧ ∀ m ∈ l, Dead s' m.chunkId)
      (l.forM (deleteCandidate T)) s := by
  let P : List ChunkMetadata → Store → Prop := fun rest s' =>
    s'.nextId = s.nextId ∧ ∃ done, l = done ++ rest ∧ (∀ m ∈ done, Dead s' m.chunkId) ∧
      ∀ m ∈ rest, m.status = .deleted → Dead s' m.chunkId
  refine Safe.forM (P := P) ?_ ?_ l h ⟨rfl, [], rfl, by simp, hdead⟩
  · rintro m rest s₁ h₁ ⟨hid, done, hl, hdone, hrest⟩
    refine (safe_deleteCandidate h₁ hkeep (hrest m List.mem_cons_self)).post ?_
    rintro r s₂ _ ⟨hid', hm, hmono⟩
    cases r with
    | error e => exact fun hr => absurd hr (by simp)
    | ok _ =>
      refine ⟨hid'.trans hid, done ++ [m], by simp [hl], ?_, ?_⟩
      · intro m' hm'
        rcases List.mem_append.mp hm' with hm' | hm'
        · exact hmono _ (hdone m' hm')
        · obtain rfl := List.mem_singleton.mp hm'
          exact hm
      · exact fun m' hm' hstatus => hmono _ (hrest m' (List.mem_cons_of_mem _ hm') hstatus)
  · rintro s₁ _ ⟨hid, done, hl, hdone, _⟩ _
    refine ⟨hid, ?_⟩
    intro m hm
    rw [hl, List.append_nil] at hm
    exact hdone m hm

/-- Archiving the candidates changes nothing in the store. -/
theorem safe_archiveCandidates (o : PurgeOptions) (l : List ChunkMetadata) :
    Safe A Keeps I (fun _ s' => s' = s) (archiveCandidates o l) s := by
  unfold archiveCandidates
  split
  · exact Safe.ret fun _ => rfl
  · split
    · exact Safe.fail fun _ => rfl
    · exact Safe.fail fun _ => rfl
    · exact Safe.ret fun _ => rfl

/-- Dropping the rows of dead chunks whose Add records are out of reach erases them. -/
theorem Store.Inv.erase (h : Inv T K [] s) {ids : List ChunkId} (hdead : ∀ c ∈ ids, Dead s c)
    (hold : ∀ c ∈ ids, c < s.nextId) :
    Inv T (K.erasing fun c => c ∈ ids ∧ ∀ p, .add p ∈ s.recordsForRecovery → p.chunkId ≠ c) []
      (withDb (·.hardDeleteChunks T ids) s) := by
  have h' := h.hardDelete T ids
  refine { h' with erased := ?_ }
  intro c hc
  rcases hc with her | ⟨hmem, hlog⟩
  · exact h'.erased c her
  · refine ⟨hold c hmem, ?_, hlog, ?_⟩
    · intro r hr hid
      obtain ⟨hr, hno⟩ := Db.mem_hardDeleteChunks.mp hr
      exact hno ⟨h.rowTenant r hr, hid ▸ hmem, hdead c hmem r hr hid⟩
    · exact fun a ha p hp => hlog p (h.activeLogged a ha p hp)

/-- The rewrite after a purge keeps the invariant. -/
theorem safe_rewriteAfterPurge (h : Inv T K [] s) (o : PurgeOptions) (n : ℕ) :
    Safe A Keeps (Inv T K []) (fun _ s' => Inv T K [] s') (rewriteAfterPurge T o n) s := by
  unfold rewriteAfterPurge
  split
  · refine Safe.bind (Q := fun _ s' => Inv T K [] s')
      (Safe.attempt (safe_rewriteFinalizedSegments h)) ?_ fun _ _ h₁ _ => h₁
    exact fun _ s₁ _ h₁ => Safe.ret fun _ => h₁
  · exact Safe.ret fun _ => h

/-- The rows a purge selects. -/
theorem mem_listHardPurgeCandidates {db : Db} {t : TenantId} {project : Option String} {cutoff : ℤ}
    {limit : ℕ} {m : ChunkMetadata} (h : m ∈ db.listHardPurgeCandidates t project cutoff limit) :
    ∃ r ∈ db.chunks, r.toChunkMetadata = m := by
  obtain ⟨r, hr, rfl⟩ := List.mem_map.mp h
  exact ⟨r, (List.mem_filter.mp (List.mem_mergeSort.mp (List.mem_of_mem_take hr))).1, rfl⟩

/-- Whenever rows are dropped, no Add record of theirs is behind the last checkpoint. -/
def CleanPurges (A : StoreStep → Store → Prop) : Prop :=
  ∀ ids s, A (.hardDeleteChunks ids) s → ∀ c ∈ ids, ∀ p, .add p ∈ s.recordsForRecovery →
    p.chunkId ≠ c

/-- A purge: interrupted anywhere it leaves the invariant, and when it returns its
candidates are erased, provided none of their Add records was behind the last checkpoint. -/
theorem safe_runPurge (h : Inv T K [] s) (hkeep : ∀ p, ¬ K.keep p) (o : PurgeOptions) (now : ℤ) :
    Safe A Keeps (Inv T K []) (fun r s' => match r with
        | .ok report => Inv T (K.erasing fun c => CleanPurges A ∧ c ∈ report.candidateIds) [] s'
        | .error _ => Inv T K [] s') (runPurge T o now) s := by
  refine Safe.read_bind Keeps.refl fun _ => ?_
  generalize hhid : s.db.listHardPurgeCandidates T o.projectId _ _ = hidden
  have hrow : ∀ m ∈ hidden, ∃ r ∈ s.db.chunks, r.toChunkMetadata = m := by
    intro m hm
    rw [← hhid] at hm
    exact mem_listHardPurgeCandidates hm
  refine Safe.bind (safe_unreadableCandidates h T o _ _) ?_ fun e s₁ h₁ _ => h₁
  rintro unreadable s₁ h₁ ⟨hs₁, hgood⟩
  have hgood := hgood unreadable rfl
  refine Safe.bind (safe_buildArchiveRecords h₁ T _) ?_ fun e s₂ h₂ _ => h₂
  rintro _ s₂ h₂ hs₂
  have hs := hs₁.trans hs₂
  -- the candidates that were deleted when they were selected still are
  have hdead : ∀ m ∈ hidden ++ unreadable, m.status = .deleted → Dead s₂ m.chunkId := by
    intro m hm hstatus
    rcases List.mem_append.mp hm with hm | hm
    · obtain ⟨r, hr, rfl⟩ := hrow m hm
      refine Dead.segStep ?_ hs
      intro x hx hid
      rw [h.keys.ids.eq hx hr hid]
      exact hstatus
    · exact absurd hstatus (hgood m hm).1
  have hids : ∀ c ∈ (hidden ++ unreadable).map (·.chunkId), c < s.nextId := by
    intro c hc
    obtain ⟨m, hm, rfl⟩ := List.mem_map.mp hc
    rcases List.mem_append.mp hm with hm | hm
    · obtain ⟨r, hr, rfl⟩ := hrow m hm
      exact h.rowIds r hr
    · exact (hgood m hm).2
  refine Safe.bind (safe_archiveCandidates o _) ?_ ?_
  swap
  · rintro e s₃ h₃ rfl
    exact h₃
  rintro _ s₃ h₃ rfl
  refine Safe.bind (safe_deleteCandidates h₃ hkeep hdead) ?_ fun e s₄ h₄ _ => h₄
  rintro _ s₄ h₄ hdel
  obtain ⟨hid₄, hdead₄⟩ := hdel rfl
  refine Safe.bind (Q := fun _ s' => ∃ db', s₄.db.Overlay db' ∧ s' = { s₄ with db := db' })
    (Safe.attempt (safe_runCompaction h₄ T o.compaction now)) ?_ fun e s₅ h₅ _ => h₅
  rintro _ s₅ h₅ ⟨db', ho, rfl⟩
  have hold : ∀ c ∈ (hidden ++ unreadable).map (·.chunkId), c < s₄.nextId := by
    intro c hc
    rw [hid₄, hs.nextId]
    exact hids c hc
  have hdead₅ : ∀ c ∈ (hidden ++ unreadable).map (·.chunkId), Dead { s₄ with db := db' } c := by
    intro c hc
    obtain ⟨m, hm, rfl⟩ := List.mem_map.mp hc
    exact (hdead₄ m hm).overlay ho
  have h₆ := h₅.erase hdead₅ hold
  -- the erased chunks stay erased while the segments are rewritten
  refine Safe.perform_bind rfl fun _ hA => ⟨.hardDelete _ T _, h₆.weaken_erased fun _ => .inl, ?_⟩
  refine Safe.bind ((safe_rewriteAfterPurge h₆ o _).weaken h₆ fun _ h' =>
    h'.weaken_erased fun _ => .inl) ?_ fun e s₇ h₇ _ => h₇
  rintro rewritten s₇ _ h₇
  refine Safe.ret fun _ => h₇.weaken_erased ?_
  rintro c (hc | ⟨hclean, hc⟩)
  · exact .inl hc
  · exact .inr ⟨hc, hclean _ _ hA c hc⟩
