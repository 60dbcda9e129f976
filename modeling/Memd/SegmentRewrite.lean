/-
# Hard deletion and segment rewrites keep the invariant

`hardDeleteChunks` only drops rows that are already deleted, and
`rewriteFinalizedSegments` moves every row that is not deleted to a new segment before
the old one goes: a row always points at the payload of its own chunk, whatever crash
interrupts the rewrite.
-/
import Memd.RecoverySafety

/-! ## Relocating rows -/

namespace Db

open ChunkRow

/-- A loop in `Except` that succeeds has succeeded on every element. -/
theorem forall₂_of_mapM_eq_ok {α β ε : Type} {f : α → Except ε β} {l : List α} {out : List β}
    (h : l.mapM f = .ok out) : List.Forall₂ (fun a b => f a = .ok b) l out := by
  induction l generalizing out with
  | nil =>
    obtain rfl : [] = out := by simpa [pure, Except.pure] using h
    exact .nil
  | cons a l ih =>
    rw [List.mapM_cons] at h
    cases ha : f a with
    | error e => simp [ha, bind, Except.bind] at h
    | ok b =>
      cases hl : l.mapM f with
      | error e => simp [ha, hl, bind, Except.bind] at h
      | ok bs =>
        obtain rfl : b :: bs = out := by simpa [ha, hl, bind, Except.bind, pure, Except.pure] using h
        exact .cons ha (ih hl)

/-- What a list of relocations does to a row. -/
structure Relocated (t : TenantId) (relocations : List (ChunkId × ℕ × ℕ)) (r x : ChunkRow) :
    Prop where
  chunkId : x.chunkId = r.chunkId
  tenantId : x.tenantId = r.tenantId
  status : x.status = r.status
  moved : ∀ segmentId ordinal, r.tenantId = t → r.status ≠ .deleted →
    (r.chunkId, segmentId, ordinal) ∈ relocations → x.segmentId = segmentId ∧ x.ordinal = ordinal
  stays : r.chunkId ∉ relocations.map (·.1) → x = r

/-- One relocation: no other row has the location, so the keys stay unique. -/
theorem ChunkKeys.updateChunkLocation {db db' : Db} {t : TenantId} {c : ChunkId}
    {segmentId ordinal n : ℕ} (h : ChunkKeys db)
    (hr : db.updateChunkLocation t c segmentId ordinal = .ok (n, db')) : ChunkKeys db' := by
  unfold Db.updateChunkLocation at hr
  dsimp only at hr
  split at hr
  · exact absurd hr (by simp)
  rename_i hfree
  obtain ⟨_, rfl⟩ : _ = n ∧ _ = db' := by simpa using hr
  refine ⟨h.ids.updateWhere _ _ fun _ => rfl, ?_⟩
  rw [Table.Keyed, Db.updateChunks, Table.updateWhere, List.map_map]
  -- two rows that end up at one location are one row
  refine List.Nodup.map_on ?_ (List.Nodup.of_map _ h.ids)
  intro x hx y hy hxy
  have hother : ∀ r ∈ db.chunks, ∀ z ∈ db.chunks, (isRow t c r && isLive r) = true →
      (isRow t c z && isLive z) = false →
      ¬ (z.tenantId = r.tenantId ∧ z.segmentId = segmentId ∧ z.ordinal = ordinal) := by
    rintro r hr' z hz hmatch hno ⟨ht, hs, ho⟩
    have hr'' := hmatch
    rw [Bool.and_eq_true, isRow_iff] at hr''
    have hne : isRow t c z = false := by
      by_contra hrow
      have hrow := isRow_iff.mp (Bool.not_eq_false _ ▸ hrow)
      obtain rfl := h.ids.eq hz hr' (hrow.2.trans hr''.1.2.symm)
      exact absurd (hmatch.symm.trans hno) (by decide)
    refine hfree ⟨List.ne_nil_of_mem (List.mem_filter.mpr ⟨hr', hmatch⟩), ?_⟩
    refine List.any_eq_true.mpr ⟨z, hz, ?_⟩
    simp [isAt, hne, ht.trans hr''.1.1, hs, ho]
  cases hmx : isRow t c x && isLive x <;> cases hmy : isRow t c y && isLive y
  · simp only [Function.comp_apply, hmx, hmy] at hxy
    exact h.locations.eq hx hy hxy
  · simp only [Function.comp_apply, hmx, hmy, Prod.mk.injEq] at hxy
    exact absurd hxy (hother y hy x hx hmy hmx)
  · simp only [Function.comp_apply, hmx, hmy, Prod.mk.injEq] at hxy
    exact absurd ⟨hxy.1.symm, hxy.2.1.symm, hxy.2.2.symm⟩ (hother x hx y hy hmx hmy)
  · rw [Bool.and_eq_true, isRow_iff] at hmx hmy
    exact h.ids.eq hx hy (hmx.1.2.trans hmy.1.2.symm)

/-- The rows after `update_chunk_locations`. -/
theorem updateChunkLocations_spec {db db' : Db} {t : TenantId}
    {relocations : List (ChunkId × ℕ × ℕ)} (hkeys : ChunkKeys db)
    (hnodup : (relocations.map (·.1)).Nodup)
    (h : db.updateChunkLocations t relocations = .ok ((), db')) :
    ChunkKeys db' ∧ ∃ g, db'.chunks = db.chunks.map g ∧ ∀ r, Relocated t relocations r (g r) := by
  -- on the relocations still to come, from the tables the ones before left
  have hfold : ∀ (relocations : List (ChunkId × ℕ × ℕ)) (n m : ℕ) (db db' : Db), ChunkKeys db →
      (relocations.map (·.1)).Nodup →
      relocations.foldlM (fun (acc : ℕ × Db) r => do
        let moved ← acc.2.updateChunkLocation t r.1 r.2.1 r.2.2
        pure (acc.1 + moved.1, moved.2)) (n, db) = (.ok (m, db') : Except MemdError (ℕ × Db)) →
      ChunkKeys db' ∧ ∃ g, db'.chunks = db.chunks.map g ∧
        ∀ r, Relocated t relocations r (g r) := by
    intro relocations
    induction relocations with
    | nil =>
      intro n m db db' hkeys _ hr
      obtain ⟨_, rfl⟩ : n = m ∧ db = db' := by simpa [pure, Except.pure] using hr
      exact ⟨hkeys, id, (List.map_id _).symm, fun r => ⟨rfl, rfl, rfl, by simp, fun _ => rfl⟩⟩
    | cons x relocations ih =>
      intro n m db db' hkeys hnodup hr
      obtain ⟨c, segmentId, ordinal⟩ := x
      rw [List.foldlM_cons] at hr
      cases hstep : db.updateChunkLocation t c segmentId ordinal with
      | error e => simp [hstep, bind, Except.bind] at hr
      | ok out =>
        obtain ⟨k, db₁⟩ := out
        simp only [hstep, bind, Except.bind, pure, Except.pure] at hr
        obtain ⟨hnotin, hnodup'⟩ := List.nodup_cons.mp hnodup
        obtain ⟨hkeys', g, hg, hrel⟩ := ih _ _ db₁ db' (hkeys.updateChunkLocation hstep) hnodup' hr
        have hdb₁ : db₁.chunks = db.chunks.map fun r => if isRow t c r && isLive r then
            { r with segmentId := segmentId, ordinal := ordinal } else r := by
          -- the update that one relocation makes
          unfold Db.updateChunkLocation at hstep
          dsimp only at hstep
          split at hstep
          · exact absurd hstep (by simp)
          · obtain ⟨_, rfl⟩ : _ = k ∧ _ = db₁ := by simpa using hstep
            rfl
        refine ⟨hkeys', _, by rw [hg, hdb₁, List.map_map], ?_⟩
        intro r
        rw [Function.comp_apply]
        by_cases hm : (isRow t c r && isLive r) = true
        · -- the row matches: the remaining relocations are about other chunks
          rw [if_pos hm]
          rw [Bool.and_eq_true, isRow_iff, isLive_iff] at hm
          rw [← hm.1.2] at hnotin
          have hstay := (hrel { r with segmentId := segmentId, ordinal := ordinal }).stays hnotin
          rw [hstay]
          refine ⟨rfl, rfl, rfl, ?_, ?_⟩
          · intro seg ord _ _ hmem
            rcases List.mem_cons.mp hmem with heq | hmem
            · obtain ⟨_, rfl, rfl⟩ : r.chunkId = c ∧ seg = segmentId ∧ ord = ordinal := by
                simpa using heq
              exact ⟨rfl, rfl⟩
            · exact absurd (List.mem_map_of_mem hmem) hnotin
          · intro hno
            exact absurd (by simp [hm.1.2]) hno
        · rw [if_neg hm]
          refine ⟨(hrel r).chunkId, (hrel r).tenantId, (hrel r).status, ?_, ?_⟩
          -- the row does not match: it is moved by a later relocation or not at all
          · intro seg ord ht hlive hmem
            rcases List.mem_cons.mp hmem with heq | hmem
            · rw [Bool.and_eq_true, isRow_iff, isLive_iff] at hm
              exact absurd ⟨⟨ht, (Prod.mk.inj heq).1⟩, hlive⟩ hm
            · exact (hrel r).moved seg ord ht hlive hmem
          · intro hno
            apply (hrel r).stays
            intro hmem
            exact hno (List.mem_cons_of_mem _ hmem)
  unfold Db.updateChunkLocations at h
  simp only [bind, Except.bind] at h
  split at h
  · exact absurd h (by simp)
  · rename_i out hout
    split at h
    · exact absurd h (by simp [throw, throwThe, MonadExceptOf.throw])
    · obtain rfl : out.2 = db' := by simpa [pure, Except.pure] using h
      exact hfold relocations 0 out.1 db out.2 hkeys hnodup hout

/-- The rows after `hard_delete_chunks`. -/
theorem mem_hardDeleteChunks {db : Db} {t : TenantId} {ids : List ChunkId} {x : ChunkRow} :
    x ∈ (db.hardDeleteChunks t ids).chunks ↔
      x ∈ db.chunks ∧ ¬ (x.tenantId = t ∧ x.chunkId ∈ ids ∧ x.status = .deleted) := by
  unfold hardDeleteChunks
  induction ids generalizing db with
  | nil => simp
  | cons c ids ih =>
    rw [List.foldl_cons, ih, Table.mem_deleteWhere, Bool.and_eq_false_iff]
    simp only [List.mem_cons]
    by_cases hrow : isRow t c x = true
    · obtain ⟨ht, hc⟩ := isRow_iff.mp hrow
      simp only [hrow, ht, hc, true_or, true_and, beq_eq_false_iff_ne, ne_eq, Bool.true_eq_false,
        false_or]
      tauto
    · have hne : ¬ (x.tenantId = t ∧ x.chunkId = c) := fun h => hrow (isRow_iff.mpr h)
      simp only [Bool.not_eq_true] at hrow
      simp only [hrow, true_or, and_true]
      tauto

theorem ChunkKeys.hardDeleteChunks {db : Db} (h : ChunkKeys db) (t : TenantId)
    (ids : List ChunkId) : ChunkKeys (db.hardDeleteChunks t ids) := by
  unfold Db.hardDeleteChunks
  induction ids generalizing db with
  | nil => exact h
  | cons c ids ih =>
    apply ih
    exact ⟨h.ids.deleteWhere _, h.locations.deleteWhere _⟩

end Db

open Store TenantStore PersistentStore Proc

variable {T : TenantId} {K : Ledger}
  {A : StoreStep → Store → Prop} {s s' : Store}

/-! ## Hard deletion -/

/-- Dropping deleted rows. -/
theorem Store.Inv.hardDelete {rest : List LogRecord} (h : Inv T K rest s) (t : TenantId)
    (ids : List ChunkId) : Inv T K rest (withDb (·.hardDeleteChunks t ids) s) where
  layout := h.layout.congr rfl rfl
  keys := h.keys.hardDeleteChunks t ids
  rowTenant r hr := h.rowTenant r (Db.mem_hardDeleteChunks.mp hr).1
  rowIds r hr := h.rowIds r (Db.mem_hardDeleteChunks.mp hr).1
  copyTenant := h.copyTenant
  copyIds := h.copyIds
  copyEq := h.copyEq
  located r hr hlive := h.located r (Db.mem_hardDeleteChunks.mp hr).1 hlive
  deleteIds := h.deleteIds
  activeLogged := h.activeLogged
  kept p hp := by
    obtain ⟨⟨r, hr, hid, hlive⟩, hcopy⟩ := h.kept p hp
    exact ⟨⟨r, Db.mem_hardDeleteChunks.mpr ⟨hr, fun hdel => hlive hdel.2.2⟩, hid, hlive⟩, hcopy⟩
  buried c hc := by
    obtain ⟨h₁, h₂, h₃⟩ := h.buried c hc
    exact ⟨h₁, h₂, fun r hr => h₃ r (Db.mem_hardDeleteChunks.mp hr).1⟩
  erased c hc := by
    have he := h.erased c hc
    exact ⟨he.old, fun r hr => he.rows r (Db.mem_hardDeleteChunks.mp hr).1, he.log, he.active⟩

theorem Store.Keeps.hardDelete (s : Store) (t : TenantId) (ids : List ChunkId) :
    Keeps s (withDb (·.hardDeleteChunks t ids) s) := by
  refine Keeps.of_rows rfl ?_
  intro r hr hlive
  exact ⟨r, Db.mem_hardDeleteChunks.mpr ⟨hr, fun hdel => hlive hdel.2.2⟩, rfl⟩

/-! ## Rewriting a segment -/

/-- With no segment open for appending every row that is not deleted is sealed. -/
theorem Store.Inv.sealed (h : Inv T K [] s) (ha : s.handle.activeSegment = none)
    {r : ChunkRow} (hr : r ∈ s.db.chunks) (hlive : r.status ≠ .deleted) :
    ∃ p, p.chunkId = r.chunkId ∧ s.Sealed p r.segmentId r.ordinal := by
  obtain ⟨p, hp, hloc⟩ := h.located r hr hlive
  rcases hloc with hloc | ⟨_, ⟨a, ha', _⟩ | ⟨_, hnil⟩⟩
  · exact ⟨p, hp, hloc⟩
  · exact absurd (ha.symm.trans ha') (by simp)
  · exact absurd hnil (by simp)

/-- A step on directories and readers that keeps what the rows point at. -/
theorem Store.Inv.reseal (h : Inv T K [] s) (ha : s.handle.activeSegment = none)
    (hdb : s'.db = s.db) (hid : s'.nextId = s.nextId) (hwal : s'.wal = s.wal) (hl : s'.Layout)
    (ha' : s'.handle.activeSegment = none) (hcopy : ∀ p, s'.Copy p → s.Copy p)
    (hsealed : ∀ r ∈ s.db.chunks, r.status ≠ .deleted → ∀ p, s.Sealed p r.segmentId r.ordinal →
      s'.Sealed p r.segmentId r.ordinal) : Inv T K [] s' where
  layout := hl
  keys := hdb ▸ h.keys
  rowTenant := hdb ▸ h.rowTenant
  rowIds := by rw [hdb, hid]; exact h.rowIds
  copyTenant p hp := h.copyTenant p (hcopy p hp)
  copyIds p hp := by rw [hid]; exact h.copyIds p (hcopy p hp)
  copyEq p q hp hq := h.copyEq p q (hcopy p hp) (hcopy q hq)
  located := by
    rw [hdb]
    intro r hr hlive
    obtain ⟨p, hp, hloc⟩ := h.sealed ha hr hlive
    exact ⟨p, hp, .inl (hsealed r hr hlive p hloc)⟩
  deleteIds := by rw [hwal, hid]; exact h.deleteIds
  activeLogged a ha'' := absurd (ha'.symm.trans ha'') (by simp)
  kept p hp := by
    obtain ⟨hrow, heq, hdel⟩ := h.kept p hp
    refine ⟨by rw [hdb]; exact hrow, fun q hq => heq q (hcopy q hq), ?_⟩
    rw [recordsForRecovery, hwal]
    exact hdel
  buried c hc := by
    obtain ⟨h₁, h₂, h₃⟩ := h.buried c hc
    refine ⟨by rw [hid]; exact h₁, ?_, by rw [hdb]; exact h₃⟩
    rw [recordsForRecovery, hwal]
    exact h₂
  erased c hc := by
    have he := h.erased c hc
    refine ⟨by rw [hid]; exact he.old, by rw [hdb]; exact he.rows, ?_, ?_⟩
    · rw [recordsForRecovery, hwal]
      exact he.log
    · intro a ha''
      exact absurd (ha'.symm.trans ha'') (by simp)

/-- While segments are rewritten: nothing is active and `next` is above every segment. -/
structure Rewriting (T : TenantId) (K : Ledger) (next : ℕ)
    (s : Store) : Prop where
  inv : Inv T K [] s
  active : s.handle.activeSegment = none
  below : ∀ d ∈ s.segmentDirs, d.id < next

variable {next segmentId : ℕ}

theorem Rewriting.unload (h : Rewriting T K next s) (segmentId : ℕ) :
    Rewriting T K next (unload segmentId s) := by
  refine ⟨h.inv.reseal h.active rfl rfl rfl ?_ h.active (fun _ hp => hp)
    (fun _ _ _ _ hp => hp), h.active, h.below⟩
  refine ⟨h.inv.layout.dirIds, h.inv.layout.active, ?_, h.inv.layout.fresh, h.inv.layout.noFault⟩
  intro id hid
  exact h.inv.layout.readers id (List.mem_of_mem_filter hid)

theorem Rewriting.load (h : Rewriting T K next s) {d : SegmentDir}
    (hd : d ∈ s.segmentDirs) (hfin : d.finalized = true) :
    Rewriting T K next (s.load d.id) := by
  refine ⟨h.inv.reseal h.active rfl rfl rfl ?_ h.active (fun _ hp => hp)
    (fun _ _ _ _ hp => hp), h.active, h.below⟩
  refine ⟨h.inv.layout.dirIds, h.inv.layout.active, ?_, h.inv.layout.fresh, h.inv.layout.noFault⟩
  intro id hid
  rcases List.mem_append.mp hid with hid | hid
  · exact h.inv.layout.readers id hid
  · obtain rfl := List.mem_singleton.mp hid
    exact ⟨d, hd, rfl, hfin⟩

/-- Removing the directory of a segment that has no reader and no row that is not
deleted. -/
theorem Rewriting.removeDir (h : Rewriting T K next s) (segmentId : ℕ)
    (hreader : segmentId ∉ s.handle.segments)
    (hrows : ∀ r ∈ s.db.chunks, r.status ≠ .deleted → r.segmentId ≠ segmentId) :
    Rewriting T K next (removeDir segmentId s) := by
  unfold PersistentStore.removeDir
  split
  · exact h
  have hmem : ∀ d, d ∈ Table.deleteWhere (·.id == segmentId) s.segmentDirs ↔
      d ∈ s.segmentDirs ∧ d.id ≠ segmentId := by
    intro d
    rw [Table.mem_deleteWhere]
    simp
  refine ⟨h.inv.reseal h.active rfl rfl rfl ?_ h.active ?_ ?_, h.active, ?_⟩
  · refine ⟨h.inv.layout.dirIds.deleteWhere _, ?_, ?_, ?_, h.inv.layout.noFault⟩
    · intro a ha
      exact absurd (h.active.symm.trans ha) (by simp)
    · intro id hid
      obtain ⟨d, hd, hdid, hfin⟩ := h.inv.layout.readers id hid
      refine ⟨d, (hmem d).mpr ⟨hd, ?_⟩, hdid, hfin⟩
      rintro rfl
      rw [hdid] at hreader
      exact hreader hid
    · intro d hd
      exact h.inv.layout.fresh d ((hmem d).mp hd).1
  · rintro p (hp | ⟨d, hd, hfin, hp⟩ | hp)
    · exact .inl hp
    · exact .inr (.inl ⟨d, ((hmem d).mp hd).1, hfin, hp⟩)
    · exact .inr (.inr hp)
  · rintro r hr hlive p ⟨d, hd, hid, hfin, hread⟩
    refine ⟨d, (hmem d).mpr ⟨hd, ?_⟩, hid, hfin, hread⟩
    rw [hid]
    exact hrows r hr hlive
  · intro d hd
    exact h.below d ((hmem d).mp hd).1

/-- Creating the directory of the replacement segment. -/
theorem Rewriting.createDir (h : Rewriting T K next s) :
    Rewriting T K (next + 1) (createDir next s) := by
  refine ⟨h.inv.reseal h.active rfl rfl rfl ?_ h.active ?_ ?_, h.active, ?_⟩
  · refine ⟨?_, ?_, ?_, ?_, h.inv.layout.noFault⟩
    · show Table.Keyed (·.id) (s.segmentDirs ++ [{ id := next }])
      rw [Table.Keyed, List.map_append, List.nodup_append]
      refine ⟨h.inv.layout.dirIds, List.nodup_singleton _, ?_⟩
      intro x hx y hy hxy
      obtain ⟨d, hd, rfl⟩ := List.mem_map.mp hx
      obtain rfl : y = next := by simpa using hy
      exact absurd hxy (Nat.ne_of_lt (h.below d hd))
    · intro a ha
      exact absurd (h.active.symm.trans ha) (by simp)
    · intro id hid
      obtain ⟨d, hd, hd'⟩ := h.inv.layout.readers id hid
      exact ⟨d, List.mem_append_left _ hd, hd'⟩
    · intro d hd hfin
      rcases List.mem_append.mp hd with hd | hd
      · exact h.inv.layout.fresh d hd hfin
      · obtain rfl := List.mem_singleton.mp hd
        rfl
  · rintro p (hp | ⟨d, hd, hfin, hp⟩ | hp)
    · exact .inl hp
    · rcases List.mem_append.mp hd with hd | hd
      · exact .inr (.inl ⟨d, hd, hfin, hp⟩)
      · obtain rfl := List.mem_singleton.mp hd
        exact absurd hfin (by simp)
    · exact .inr (.inr hp)
  · rintro r _ _ p ⟨d, hd, hd'⟩
    exact ⟨d, List.mem_append_left _ hd, hd'⟩
  · intro d hd
    rcases List.mem_append.mp hd with hd | hd
    · exact Nat.lt_succ_of_lt (h.below d hd)
    · obtain rfl := List.mem_singleton.mp hd
      exact Nat.lt_succ_self next

/-- Filling the replacement segment with payloads the store already holds. -/
theorem Rewriting.finalizeDir (h : Rewriting T K (next + 1) s)
    (hrows : ∀ r ∈ s.db.chunks, r.status ≠ .deleted → r.segmentId ≠ next)
    (hreader : next ∉ s.handle.segments) (payload : List MemoryChunk)
    (hpayload : ∀ p ∈ payload, s.Copy p ∧ ∃ r ∈ s.db.chunks, r.chunkId = p.chunkId) {d : SegmentDir}
    (hd : d ∈ s.segmentDirs) (hid : d.id = next) :
    (finalizeDir next payload s).1 = .ok () ∧
      Rewriting T K (next + 1) (finalizeDir next payload s).2 ∧
      { d with payload := payload, finalized := true } ∈
        (finalizeDir next payload s).2.segmentDirs ∧
      Keeps s (finalizeDir next payload s).2 := by
  have heq : PersistentStore.finalizeDir next payload s =
      (.ok (), s.updateDir next fun d => { d with payload := payload, finalized := true }) := by
    unfold PersistentStore.finalizeDir
    rw [if_neg (by simp [h.inv.layout.noFault])]
  rw [heq]
  refine ⟨rfl, ⟨h.inv.reseal h.active rfl rfl rfl ?_ h.active ?_ ?_, h.active, ?_⟩,
    mem_updateDir_self hd hid, .of_db rfl ?_⟩
  -- the layout: the replacement is no open and no active segment
  · refine ⟨keyed_updateDir h.inv.layout.dirIds fun _ => rfl, ?_, ?_, ?_, h.inv.layout.noFault⟩
    · intro a ha
      exact absurd (h.active.symm.trans ha) (by simp)
    · intro id hid'
      obtain ⟨e, he, heid, hefin⟩ := h.inv.layout.readers id hid'
      refine ⟨e, mem_updateDir_of_ne he ?_, heid, hefin⟩
      rintro rfl
      rw [heid] at hreader
      exact hreader hid'
    · intro e he hfin
      obtain ⟨e', he', rfl⟩ := mem_updateDir.mp he
      by_cases hne : e'.id = next
      · rw [if_pos hne] at hfin
        exact absurd hfin (by simp)
      · rw [if_neg hne] at hfin ⊢
        exact h.inv.layout.fresh e' he' hfin
  -- a copy in the replacement is one the store holds already
  · rintro p (hp | ⟨e, he, hfin, hp⟩ | hp)
    · exact .inl hp
    · obtain ⟨e', he', rfl⟩ := mem_updateDir.mp he
      by_cases hne : e'.id = next
      · rw [if_pos hne] at hp
        exact (hpayload p hp).1
      · rw [if_neg hne] at hp hfin
        exact .inr (.inl ⟨e', he', hfin, hp⟩)
    · exact .inr (.inr hp)
  -- no row points into the replacement yet
  · rintro r hr hlive p ⟨e, he, heid, hfin, hread⟩
    refine ⟨e, mem_updateDir_of_ne he ?_, heid, hfin, hread⟩
    rw [heid]
    exact hrows r hr hlive
  · intro e he
    obtain ⟨e', he', rfl⟩ := mem_updateDir.mp he
    by_cases hne : e'.id = next
    · rw [if_pos hne]
      exact h.below e' he'
    · rw [if_neg hne]
      exact h.below e' he'
  -- what is filled in belongs to a row
  · intro e he p hp
    obtain ⟨e', he', rfl⟩ := mem_updateDir.mp he
    by_cases hne : e'.id = next
    · rw [if_pos hne] at hp
      exact .inr (.inr (hpayload p hp).2)
    · rw [if_neg hne] at hp ⊢
      exact .inl ⟨e', he', rfl, hp⟩

/-- Pointing the rows at their copies in the replacement segment. -/
theorem Rewriting.relocate (h : Rewriting T K next s) (db' : Db)
    {relocations : List (ChunkId × ℕ × ℕ)} (hnodup : (relocations.map (·.1)).Nodup)
    (hcopies : ∀ c i o, (c, i, o) ∈ relocations → ∃ p, p.chunkId = c ∧ s.Sealed p i o)
    (hr : s.db.updateChunkLocations T relocations = .ok ((), db')) :
    Rewriting T K next { s with db := db' } ∧
      (∀ x ∈ db'.chunks, x.status ≠ .deleted → ∃ r ∈ s.db.chunks, r.status ≠ .deleted ∧
        r.chunkId = x.chunkId ∧ (r.chunkId ∉ relocations.map (·.1) → x = r) ∧
        ∀ i o, (r.chunkId, i, o) ∈ relocations → x.segmentId = i ∧ x.ordinal = o) ∧
      Keeps s { s with db := db' } := by
  obtain ⟨hkeys, g, hg, hrel⟩ := Db.updateChunkLocations_spec h.inv.keys hnodup hr
  -- every row comes from one before, moved or not
  have hmem : ∀ x ∈ db'.chunks, ∃ r ∈ s.db.chunks, Db.Relocated T relocations r x := by
    intro x hx
    rw [hg] at hx
    obtain ⟨r, hr', rfl⟩ := List.mem_map.mp hx
    exact ⟨r, hr', hrel r⟩
  have hkeeps : Keeps s { s with db := db' } := by
    refine Keeps.of_rows rfl ?_
    intro r hr' _
    exact ⟨g r, hg ▸ List.mem_map_of_mem hr', (hrel r).chunkId⟩
  refine ⟨⟨?_, h.active, h.below⟩, ?_, hkeeps⟩
  · refine ⟨h.inv.layout.congr rfl rfl, hkeys, ?_, ?_, h.inv.copyTenant, h.inv.copyIds,
      h.inv.copyEq, ?_, h.inv.deleteIds, h.inv.activeLogged, ?_, ?_, ?_⟩
    · intro x hx
      obtain ⟨r, hr', hx'⟩ := hmem x hx
      rw [hx'.tenantId]
      exact h.inv.rowTenant r hr'
    · intro x hx
      obtain ⟨r, hr', hx'⟩ := hmem x hx
      rw [hx'.chunkId]
      exact h.inv.rowIds r hr'
    · intro x hx hlive
      obtain ⟨r, hr', hx'⟩ := hmem x hx
      rw [hx'.status] at hlive
      rw [hx'.chunkId]
      by_cases hin : r.chunkId ∈ relocations.map (·.1)
      · -- a moved row: its copy is sealed in the new segment
        obtain ⟨⟨c, i, o⟩, hin, hc⟩ := List.mem_map.mp hin
        obtain rfl : c = r.chunkId := hc
        obtain ⟨hi, ho⟩ := hx'.moved i o (h.inv.rowTenant r hr') hlive hin
        obtain ⟨p, hp, hsealed⟩ := hcopies _ i o hin
        refine ⟨p, hp, .inl ?_⟩
        rw [hi, ho]
        exact hsealed
      · rw [hx'.stays hin]
        exact h.inv.located r hr' hlive
    -- kept rows and payloads stay
    · intro p hp
      obtain ⟨⟨r, hr', hid, hlive⟩, hcopy⟩ := h.inv.kept p hp
      refine ⟨⟨g r, ?_, ?_, ?_⟩, hcopy⟩
      · rw [hg]
        exact List.mem_map_of_mem hr'
      · rw [(hrel r).chunkId]
        exact hid
      · rw [(hrel r).status]
        exact hlive
    · intro c hc
      obtain ⟨h₁, h₂, h₃⟩ := h.inv.buried c hc
      refine ⟨h₁, h₂, ?_⟩
      intro x hx hid hlive
      obtain ⟨r, hr', hx'⟩ := hmem x hx
      rw [hx'.status] at hlive
      exact h₃ r hr' (hx'.chunkId.symm.trans hid) hlive
    · intro c hc
      have he := h.inv.erased c hc
      refine ⟨he.old, ?_, he.log, he.active⟩
      intro x hx
      obtain ⟨r, hr', hx'⟩ := hmem x hx
      rw [hx'.chunkId]
      exact he.rows r hr'
  · intro x hx hlive
    obtain ⟨r, hr', hx'⟩ := hmem x hx
    rw [hx'.status] at hlive
    exact ⟨r, hr', hlive, hx'.chunkId.symm, hx'.stays,
      fun i o hin => hx'.moved i o (h.inv.rowTenant r hr') hlive hin⟩

/-! ## Rewrite plans -/

/-- The rows a rewrite moves: the ones of the segment that are not deleted. -/
theorem mem_liveRows {db : Db} {t : TenantId} {m : ChunkMetadata} :
    m ∈ (db.getBySegment t segmentId).filter (·.status ≠ .deleted) ↔
      ∃ r ∈ db.chunks, r.tenantId = t ∧ r.segmentId = segmentId ∧ r.status ≠ .deleted ∧
        r.toChunkMetadata = m := by
  simp only [List.mem_filter, Db.getBySegment, List.mem_map, List.mem_mergeSort, Bool.and_eq_true,
    beq_iff_eq, decide_eq_true_eq]
  constructor
  · rintro ⟨⟨r, ⟨hr, ht, hs⟩, rfl⟩, hlive⟩
    exact ⟨r, hr, ht, hs, hlive, rfl⟩
  · rintro ⟨r, hr, ht, hs, hlive, rfl⟩
    exact ⟨⟨r, ⟨hr, ht, hs⟩, rfl⟩, hlive⟩

theorem nodup_liveRows {db : Db} (h : db.ChunkKeys) (t : TenantId) (segmentId : ℕ) :
    (((db.getBySegment t segmentId).filter (·.status ≠ .deleted)).map (·.chunkId)).Nodup := by
  refine List.Nodup.sublist (List.filter_sublist.map _) ?_
  unfold Db.getBySegment
  rw [List.map_map]
  refine ((List.mergeSort_perm _ _).map _).nodup_iff.mpr ?_
  exact List.Nodup.sublist (List.filter_sublist.map _) h.ids

/-- A plan to move payloads: one per row, each read at the row's ordinal. -/
theorem planRewrite_eq_move {t : TenantId} {payloads : List (ChunkId × MemoryChunk)}
    (h : planRewrite t segmentId s = .ok (.move payloads)) :
    ∃ d, s.reader segmentId = some d ∧
      List.Forall₂ (fun (m : ChunkMetadata) x => m.chunkId = x.1 ∧ d.readChunk m.ordinal = some x.2)
        ((s.db.getBySegment t segmentId).filter (·.status ≠ .deleted)) payloads := by
  unfold planRewrite at h
  dsimp only at h
  split at h
  · exact absurd h (by simp)
  rename_i d hd
  split at h
  · exact absurd h (by simp)
  split at h
  · exact absurd h (by simp)
  refine ⟨d, hd, ?_⟩
  simp only [Bind.bind, Except.bind] at h
  split at h
  · exact absurd h (by simp)
  rename_i out hout
  obtain rfl : out = payloads := by simpa [pure, Except.pure] using h
  refine (Db.forall₂_of_mapM_eq_ok hout).imp ?_
  intro m x hx
  split at hx
  · rename_i p hp
    obtain rfl : (m.chunkId, p) = x := by simpa using hx
    exact ⟨rfl, hp⟩
  · exact absurd hx (by simp)

/-- A plan to drop the segment: it has no row that is not deleted. -/
theorem planRewrite_eq_drop {t : TenantId} (h : planRewrite t segmentId s = .ok .drop) :
    (s.db.getBySegment t segmentId).filter (·.status ≠ .deleted) = [] := by
  unfold planRewrite at h
  dsimp only at h
  split at h
  · exact absurd h (by simp)
  split at h
  · exact absurd h (by simp)
  split at h
  · assumption
  · simp only [Bind.bind, Except.bind] at h
    split at h
    · exact absurd h (by simp)
    · exact absurd h (by simp [pure, Except.pure])

/-! ## Whole rewrites -/

theorem exists_of_forall₂_getElem? {α β : Type} {R : α → β → Prop} {l : List α} {m : List β}
    (h : List.Forall₂ R l m) {i : ℕ} {b : β} (hb : m[i]? = some b) : ∃ a ∈ l, R a b := by
  induction h generalizing i with
  | nil => exact absurd hb (by simp)
  | @cons a b' l m hab _ ih =>
    cases i with
    | zero =>
      obtain rfl : b' = b := by simpa using hb
      exact ⟨a, List.mem_cons_self, hab⟩
    | succ i =>
      obtain ⟨a', ha', h'⟩ := ih (by simpa using hb)
      exact ⟨a', List.mem_cons_of_mem _ ha', h'⟩

theorem Rewriting.rows_below (h : Rewriting T K next s) {r : ChunkRow}
    (hr : r ∈ s.db.chunks) (hlive : r.status ≠ .deleted) : r.segmentId < next := by
  obtain ⟨p, _, d, hd, hid, _⟩ := h.inv.sealed h.active hr hlive
  rw [← hid]
  exact h.below d hd

theorem Rewriting.next_not_mem (h : Rewriting T K next s) : next ∉ s.handle.segments := by
  intro hmem
  obtain ⟨d, hd, hid, _⟩ := h.inv.layout.readers next hmem
  exact absurd hid (Nat.ne_of_lt (h.below d hd))

theorem finalizeDir_db (id : ℕ) (payload : List MemoryChunk) (s : Store) :
    (finalizeDir id payload s).2.db = s.db := by
  unfold finalizeDir
  split <;> rfl

theorem Store.Keeps.removeDir (id : ℕ) (s : Store) : Keeps s (removeDir id s) := by
  unfold PersistentStore.removeDir
  split
  · exact .refl s
  · exact .of_db rfl fun d hd _ hp => .inl ⟨d, List.mem_of_mem_filter hd, rfl, hp⟩

theorem Store.Keeps.createDir (id : ℕ) (s : Store) : Keeps s (createDir id s) := by
  refine Keeps.of_db rfl ?_
  intro d hd p hp
  rcases List.mem_append.mp hd with hd | hd
  · exact .inl ⟨d, hd, rfl, hp⟩
  · obtain rfl := List.mem_singleton.mp hd
    exact absurd hp (by simp)

theorem finalizeDir_segments (id : ℕ) (payload : List MemoryChunk) (s : Store) :
    (finalizeDir id payload s).2.handle.segments = s.handle.segments := by
  unfold finalizeDir
  split <;> rfl

/-- A step that may hit an I/O error, and what follows it. -/
theorem Safe.withFault_bind {α β : Type} {I : Store → Prop} {Q : Except MemdError β → Store → Prop}
    {fault : Option String} {p : StoreProg α} {g : α → StoreProg β}
    (hfail : ∀ e, I s → Q (.error e) s) (h : Safe A Keeps I Q (p.bind g) s) :
    Safe A Keeps I Q ((withFault fault p).bind g) s := by
  cases fault with
  | none => exact h
  | some e => exact Safe.fail (hfail _)

/-- Rewriting one segment, whatever steps of it fail. -/
theorem safe_rewriteSegmentWith (f : SegmentFaults) (h : Rewriting T K next s) (segmentId : ℕ) :
    Safe A Keeps (Inv T K [])
      (fun r s' => match r with
        | .ok next' => Rewriting T K next' s'
        | .error _ => Inv T K [] s')
      (rewriteSegmentWith f T next segmentId) s := by
  refine Safe.withFault_bind (fun _ h => h) ?_
  refine Safe.read_bind Keeps.refl fun _ => ?_
  cases hplan : planRewrite T segmentId s with
  | error e => exact Safe.fail fun h => h
  | ok plan =>
  cases plan with
  | keep => exact Safe.ret fun _ => h
  | drop =>
    have hrows : ∀ r ∈ s.db.chunks, r.status ≠ .deleted → r.segmentId ≠ segmentId := by
      intro r hr hlive hseg
      have hmem := mem_liveRows.mpr ⟨r, hr, h.inv.rowTenant r hr, hseg, hlive, rfl⟩
      rw [planRewrite_eq_drop hplan] at hmem
      exact absurd hmem (by simp)
    have h₁ := h.unload segmentId
    have h₂ := h₁.removeDir segmentId (by simp [unload]) hrows
    refine Safe.modify_bind fun _ _ => ⟨.of_eq rfl rfl, h₁.inv, ?_⟩
    refine Safe.modify_bind fun _ _ => ⟨.removeDir _ _, h₂.inv, ?_⟩
    exact Safe.ret fun _ => h₂
  | move payloads =>
    obtain ⟨d₀, hd₀, hpay⟩ := planRewrite_eq_move hplan
    obtain ⟨hmem₀, hid₀, hfin₀⟩ := h.inv.layout.reader_eq_some hd₀
    have hne : segmentId ≠ next := by
      rw [← hid₀]
      exact Nat.ne_of_lt (h.below d₀ hmem₀)
    -- what the plan says about the payload at each position
    have hat : ∀ (o : ℕ) (c : ChunkId) (p : MemoryChunk), payloads[o]? = some (c, p) →
        p.chunkId = c ∧ s.Copy p ∧ ∃ r ∈ s.db.chunks, r.chunkId = p.chunkId := by
      intro o c p ho
      obtain ⟨m, hm, hc, hread⟩ := exists_of_forall₂_getElem? hpay ho
      obtain ⟨r, hr, _, hseg, hlive, rfl⟩ := mem_liveRows.mp hm
      have hsealed : s.Sealed p r.segmentId r.ordinal :=
        ⟨d₀, hmem₀, hid₀.trans hseg.symm, hfin₀, hread⟩
      have hid := h.inv.payload_eq hr hlive hsealed
      exact ⟨hid.trans hc, hsealed.copy, r, hr, hid.symm⟩
    have hkeys : payloads.map (·.1) =
        ((s.db.getBySegment T segmentId).filter (·.status ≠ .deleted)).map (·.chunkId) :=
      List.forall₂_eq_eq_eq ▸ (List.forall₂_map_left_iff.mpr (List.forall₂_map_right_iff.mpr
        (hpay.flip.imp fun _ _ hx => hx.1.symm)))
    -- the replacement segment
    have h₁ := h.createDir
    obtain ⟨hr₂, h₂, hd₂, hkeeps⟩ := h₁.finalizeDir (d := { id := next })
      (fun r hr hlive => Nat.ne_of_lt (h.rows_below hr hlive)) h.next_not_mem (payloads.map (·.2))
      (by
        intro p hp
        obtain ⟨⟨c, q⟩, hq, rfl⟩ := List.mem_map.mp hp
        obtain ⟨o, ho⟩ := List.getElem?_of_mem hq
        refine ⟨?_, (hat o c q ho).2.2⟩
        rcases (hat o c q ho).2.1 with hcopy | ⟨d, hd, hd'⟩ | hcopy
        · exact .inl hcopy
        · exact .inr (.inl ⟨d, List.mem_append_left _ hd, hd'⟩)
        · exact .inr (.inr hcopy))
      (List.mem_append_right _ (List.mem_singleton_self _)) rfl
    refine Safe.withFault_bind (fun _ h => h) ?_
    refine Safe.modify_bind fun _ _ => ⟨.createDir _ _, h₁.inv, ?_⟩
    refine Safe.withFault_bind (fun _ h => h) ?_
    refine Safe.perform_bind hr₂ fun _ _ => ⟨hkeeps, h₂.inv, ?_⟩
    refine Safe.withFault_bind (fun _ h => h) ?_
    show Safe A Keeps (Inv T K []) _ ((withFault f.relocate _).attempt.bind _) _
    generalize hs₂ : (finalizeDir next (payloads.map (·.2)) (createDir next s)).2 = s₂ at h₂ hd₂ ⊢
    have hdb₂ : s₂.db = s.db := by
      rw [← hs₂]
      exact finalizeDir_db next _ _
    have hsegs₂ : s₂.handle.segments = s.handle.segments := by
      rw [← hs₂]
      exact finalizeDir_segments next _ _
    have hrelmem : ∀ (c : ChunkId) (i o : ℕ), (c, i, o) ∈ payloads.mapIdx
        (fun i p => (p.1, next, i)) ↔ i = next ∧ ∃ p, payloads[o]? = some (c, p) := by
      intro c i o
      rw [List.mem_mapIdx]
      constructor
      · rintro ⟨k, hk, heq⟩
        obtain ⟨rfl, rfl, rfl⟩ : payloads[k].1 = c ∧ next = i ∧ k = o := by simpa using heq
        exact ⟨rfl, payloads[k].2, by rw [List.getElem?_eq_getElem hk]⟩
      · rintro ⟨rfl, p, hp⟩
        obtain ⟨ho, hget⟩ := List.getElem?_eq_some_iff.mp hp
        exact ⟨o, ho, by rw [hget]⟩
    have hrelkeys : (payloads.mapIdx (fun i p => (p.1, next, i))).map (·.1) =
        ((s.db.getBySegment T segmentId).filter (·.status ≠ .deleted)).map (·.chunkId) := by
      rw [← hkeys]
      apply List.ext_getElem?
      intro i
      rw [List.getElem?_map, List.getElem?_mapIdx, List.getElem?_map, Option.map_map]
      rfl
    have hcopies : ∀ c i o, (c, i, o) ∈ payloads.mapIdx (fun i p => (p.1, next, i)) →
        ∃ p, p.chunkId = c ∧ s₂.Sealed p i o := by
      intro c i o hmem
      obtain ⟨rfl, p, hp⟩ := (hrelmem c i o).mp hmem
      refine ⟨p, (hat o c p hp).1, _, hd₂, rfl, rfl, ?_⟩
      rw [SegmentDir.readChunk_eq_some]
      exact ⟨by simp, by simp [hp]⟩
    have hfree : ∀ r ∈ s₂.db.chunks, r.status ≠ .deleted → r.segmentId ≠ next := by
      rw [hdb₂]
      exact fun r hr hlive => Nat.ne_of_lt (h.rows_below hr hlive)
    have hmoved := fun db' => h₂.relocate db' (hrelkeys ▸ nodup_liveRows h.inv.keys T segmentId)
      hcopies
    -- the relocation commits, or it fails and the replacement goes
    refine Safe.bind (Q := fun r s' => (∃ e, r = .ok (.error e) ∧ s' = s₂) ∨ ∃ db',
      r = .ok (.ok ()) ∧ s' = { s₂ with db := db' } ∧ s₂.db.updateChunkLocations T
        (payloads.mapIdx fun i p => (p.1, next, i)) = .ok ((), db')) ?_ ?_ ?_
    · cases f.relocate with
      | some e => exact Safe.ret fun _ => .inl ⟨_, rfl, rfl⟩
      | none =>
        refine Safe.attempt ?_
        rw [withFault_none]
        refine (safe_transactDb (fun db' hup =>
          ⟨(hmoved db' hup).2.2, (hmoved db' hup).1.inv⟩) _).post ?_
        rintro r s₃ _ (⟨e, rfl, rfl⟩ | ⟨db', rfl, hup, rfl⟩)
        · exact .inl ⟨e, rfl, rfl⟩
        · exact .inr ⟨db', rfl, rfl, hup⟩
    · rintro _ s₃ _ (⟨e, hr, rfl⟩ | ⟨db', hr, rfl, hup⟩)
      · obtain rfl := Except.ok.inj hr
        have h₃ := h₂.removeDir next (by rw [hsegs₂]; exact h.next_not_mem) hfree
        refine Safe.modify_bind fun _ _ => ⟨.removeDir _ _, h₃.inv, ?_⟩
        exact Safe.fail fun h => h
      · obtain rfl := Except.ok.inj hr
        obtain ⟨h₃, hrows, _⟩ := hmoved db' hup
        have h₄ := (h₃.unload segmentId).load hd₂ rfl
        have h₅ := h₄.removeDir segmentId
          (by simp [Store.load, unload, hne]) (by
            intro x hx hlive hseg
            obtain ⟨r, hr, hlive', _, hstays, hmoves⟩ := hrows x hx hlive
            by_cases hin : r.chunkId ∈ (payloads.mapIdx (fun i p => (p.1, next, i))).map (·.1)
            · -- the row has moved away
              obtain ⟨⟨c, i, o⟩, hin, hc⟩ := List.mem_map.mp hin
              obtain rfl : c = r.chunkId := hc
              rw [(hmoves i o hin).1, ((hrelmem _ i o).mp hin).1] at hseg
              exact hne hseg.symm
            · obtain rfl := hstays hin
              rw [hdb₂] at hr
              rw [hrelkeys] at hin
              exact hin (List.mem_map.mpr ⟨_, mem_liveRows.mpr
                ⟨x, hr, h.inv.rowTenant x hr, hseg, hlive, rfl⟩, rfl⟩))
        refine Safe.modify_bind fun _ _ => ⟨.of_eq rfl rfl, h₄.inv, ?_⟩
        refine Safe.modify_bind fun _ _ => ⟨.removeDir _ _, h₅.inv, ?_⟩
        exact Safe.ret fun _ => h₅
    · rintro e s₃ _ (⟨_, hr, _⟩ | ⟨_, hr, _⟩) <;> exact absurd hr (by simp)

/-- The segments of a rewrite, one after the other. -/
theorem safe_rewriteSegments (f : ℕ → SegmentFaults) (ids : List ℕ) (h : Rewriting T K next s) :
    Safe A Keeps (Inv T K []) (fun _ s' => Inv T K [] s')
      (ids.foldlM (fun next id => rewriteSegmentWith (f id) T next id) next) s := by
  refine Safe.foldlM (P := fun next _ s' => Rewriting T K next s') ?_ ?_ _ _ h.inv h
  · intro next segmentId rest s₂ _ h₂
    refine (safe_rewriteSegmentWith (f segmentId) h₂ segmentId).post ?_
    intro r s₃ _ h₃
    cases r with
    | ok next' => exact h₃
    | error e => exact h₃
  · exact fun _ s₂ _ h₂ => h₂.inv

/-- A whole rewrite. -/
theorem safe_rewriteFinalizedSegments (h : Inv T K [] s) :
    Safe A Keeps (Inv T K []) (fun _ s' => Inv T K [] s')
      (rewriteFinalizedSegments T) s := by
  refine Safe.bind (safe_finalizeActiveSegment h.layout (fun _ hs => h.segStep hs) _) ?_ ?_
  · rintro _ s₁ h₁ ⟨_, _, hactive⟩
    refine Safe.read_bind Keeps.refl fun _ => ?_
    refine Safe.read_bind Keeps.refl fun _ => ?_
    refine Safe.bind (safe_rewriteSegments (fun _ => {}) _
      ⟨h₁, hactive, fun d hd => lt_nextSegmentId hd⟩) ?_ ?_
    · exact fun _ s₂ _ _ => Safe.ret fun h₂ => h₂
    · exact fun _ s₂ h₂ _ => h₂
  · rintro e s₁ _ ⟨hr, _⟩
    exact absurd hr (by simp)
