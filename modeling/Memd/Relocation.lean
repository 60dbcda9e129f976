/-
# When rows can be relocated

`update_chunk_locations` moves the live rows of a segment to the places 0, 1, 2, … of a new one,
in one transaction.

* `updateChunkLocations_ok_iff` — it commits exactly when none of these places is taken, and only
  a deleted row can have taken one;
* `movedRows_of_updateChunkLocations` — it changes the location of rows that are not deleted and
  nothing else.
-/
import Memd.SegmentRewrite

namespace Db

open ChunkRow
open Proc (except_bind_eq_ok)

/-- The relocations of chunks to a segment, from the place `k` on. -/
def relocationsTo (next k : ℕ) (cs : List ChunkId) : List (ChunkId × ℕ × ℕ) :=
  cs.mapIdx fun i c => (c, next, k + i)

theorem relocationsTo_cons (next k : ℕ) (c : ChunkId) (cs : List ChunkId) :
    relocationsTo next k (c :: cs) = (c, next, k) :: relocationsTo next (k + 1) cs := by
  rw [relocationsTo, relocationsTo, List.mapIdx_cons]
  refine congrArg₂ _ rfl ?_
  congr 1
  funext i c
  rw [Nat.add_assoc, Nat.add_comm 1 i]

theorem relocationsTo_ids (next k : ℕ) (cs : List ChunkId) :
    (relocationsTo next k cs).map (·.1) = cs := by
  induction cs generalizing k with
  | nil => rfl
  | cons c cs ih => rw [relocationsTo_cons, List.map_cons, ih]

/-- One relocation, counted. -/
def relocateNext (t : TenantId) (acc : ℕ × Db) (r : ChunkId × ℕ × ℕ) : Except MemdError (ℕ × Db) := do
  let (n, db') ← acc.2.updateChunkLocation t r.1 r.2.1 r.2.2
  pure (acc.1 + n, db')

/-- The transaction commits when every relocation has found its row. -/
theorem updateChunkLocations_eq_ok {db db' : Db} {t : TenantId}
    {relocations : List (ChunkId × ℕ × ℕ)} :
    db.updateChunkLocations t relocations = .ok ((), db') ↔
      relocations.foldlM (relocateNext t) (0, db) = .ok (relocations.length, db') := by
  have heq : db.updateChunkLocations t relocations = (do
      let (updated, db') ← relocations.foldlM (relocateNext t) (0, db)
      if updated ≠ relocations.length then
        throw (.storageError
          s!"segment rewrite location update matched {updated} of {relocations.length} rows")
      pure ((), db')) := rfl
  rw [heq]
  cases relocations.foldlM (relocateNext t) (0, db) with
  | error e => simp [bind, Except.bind]
  | ok out =>
    obtain ⟨n, db''⟩ := out
    by_cases hn : n = relocations.length
    · simp [bind, Except.bind, pure, Except.pure, hn]
    · simp [bind, Except.bind, hn, throw, throwThe, MonadExceptOf.throw]

variable {db : Db} {t : TenantId} {next : ℕ}

/-- The place is free. -/
def FreeAt (db : Db) (t : TenantId) (segmentId ordinal : ℕ) : Prop :=
  ∀ r ∈ db.chunks, r.tenantId = t → r.segmentId = segmentId → r.ordinal ≠ ordinal

/-- The row of a chunk that is not deleted and not in the segment. -/
def HasRowElsewhere (db : Db) (t : TenantId) (segmentId : ℕ) (c : ChunkId) : Prop :=
  ∃ r ∈ db.chunks, r.tenantId = t ∧ r.chunkId = c ∧ r.status ≠ .deleted ∧ r.segmentId ≠ segmentId

/-- What one relocation of such a row does: it needs the place. -/
theorem updateChunkLocation_iff (hids : Table.Keyed (·.chunkId) db.chunks) {c : ChunkId}
    (hrow : HasRowElsewhere db t next c) (k n : ℕ) (db' : Db) :
    db.updateChunkLocation t c next k = .ok (n, db') ↔
      FreeAt db t next k ∧ n = 1 ∧ db' = db.updateChunks (fun r => isRow t c r && isLive r)
        fun r => { r with segmentId := next, ordinal := k } := by
  obtain ⟨r, hr, ht, hc, hlive, hseg⟩ := hrow
  have hmatch : (isRow t c r && isLive r) = true := by
    rw [Bool.and_eq_true, isRow_iff, isLive_iff]
    exact ⟨⟨ht, hc⟩, hlive⟩
  have honly : ∀ x ∈ db.chunks, isRow t c x = true → x = r := fun x hx hxrow =>
    hids.eq hx hr ((isRow_iff.mp hxrow).2.trans hc.symm)
  have hmatched : db.chunks.filter (fun r => isRow t c r && isLive r) = [r] := by
    have hnodup : (db.chunks.filter fun r => isRow t c r && isLive r).Nodup :=
      (List.Nodup.of_map _ hids).filter _
    refine List.perm_singleton.mp ((List.perm_ext_iff_of_nodup hnodup (List.nodup_singleton r)).mpr ?_)
    intro x
    rw [List.mem_filter, List.mem_singleton]
    constructor
    · rintro ⟨hx, hxm⟩
      exact honly x hx (Bool.and_eq_true_iff.mp hxm).1
    · rintro rfl
      exact ⟨hr, hmatch⟩
  have htaken : (db.chunks.any fun x => isAt t next k x && !isRow t c x) = true ↔
      ¬ FreeAt db t next k := by
    rw [List.any_eq_true, FreeAt]
    push Not
    constructor
    · rintro ⟨x, hx, hat⟩
      simp only [isAt, Bool.and_eq_true, beq_iff_eq] at hat
      exact ⟨x, hx, hat.1.1.1, hat.1.1.2, hat.1.2⟩
    · rintro ⟨x, hx, hxt, hxs, hxo⟩
      refine ⟨x, hx, ?_⟩
      have hother : isRow t c x = false := by
        by_contra hrow
        obtain rfl := honly x hx (Bool.not_eq_false _ ▸ hrow)
        exact hseg hxs
      simp [isAt, hxt, hxs, hxo, hother]
  unfold updateChunkLocation
  dsimp only
  rw [hmatched]
  split
  · rename_i h
    simp only [reduceCtorEq, false_iff]
    rintro ⟨hfree, _⟩
    exact htaken.mp h.2 hfree
  · rename_i h
    have hfree : FreeAt db t next k := by
      by_contra hno
      exact h ⟨by simp, htaken.mpr hno⟩
    simp only [Except.ok.injEq, Prod.mk.injEq, List.length_singleton]
    constructor
    · rintro ⟨rfl, rfl⟩
      exact ⟨hfree, rfl, rfl⟩
    · rintro ⟨_, rfl, rfl⟩
      exact ⟨rfl, rfl⟩

/-- The places from `k` on are free for `n` rows. -/
def FreeFrom (db : Db) (t : TenantId) (segmentId k n : ℕ) : Prop :=
  ∀ r ∈ db.chunks, r.tenantId = t → r.segmentId = segmentId → r.ordinal < k ∨ k + n ≤ r.ordinal

/-- A row has moved to the place `k`: the places behind it are as free as they were. -/
theorem freeFrom_relocate (hids : Table.Keyed (·.chunkId) db.chunks) {c : ChunkId}
    (hrow : HasRowElsewhere db t next c) {k n : ℕ} (hfree : FreeAt db t next k) :
    FreeFrom (db.updateChunks (fun r => isRow t c r && isLive r)
      fun r => { r with segmentId := next, ordinal := k }) t next (k + 1) n ↔
    FreeFrom db t next k (n + 1) := by
  obtain ⟨r, hr, ht, hc, hlive, hseg⟩ := hrow
  constructor
  · intro h x hx hxt hxs
    have hne : ¬ (isRow t c x && isLive x) = true := by
      rw [Bool.and_eq_true, isRow_iff]
      rintro ⟨⟨_, hxc⟩, _⟩
      obtain rfl := hids.eq hx hr (hxc.trans hc.symm)
      exact hseg hxs
    have hx' := h x (mem_updateChunks.mpr ⟨x, hx, by rw [if_neg hne]⟩) hxt hxs
    have := hfree x hx hxt hxs
    omega
  · intro h x hx hxt hxs
    obtain ⟨y, hy, rfl⟩ := mem_updateChunks.mp hx
    by_cases hm : (isRow t c y && isLive y) = true
    · rw [if_pos hm]
      exact Or.inl (Nat.lt_succ_self k)
    · rw [if_neg hm] at hxt hxs ⊢
      have := h y hy hxt hxs
      have := hfree y hy hxt hxs
      omega

/-- The loop of `update_chunk_locations`. -/
theorem relocateNext_foldlM_iff (cs : List ChunkId) (hnodup : cs.Nodup) (k n : ℕ)
    (hids : Table.Keyed (·.chunkId) db.chunks) (hrows : ∀ c ∈ cs, HasRowElsewhere db t next c) :
    (∃ db', (relocationsTo next k cs).foldlM (relocateNext t) (n, db) = .ok (n + cs.length, db')) ↔
      FreeFrom db t next k cs.length := by
  induction cs generalizing k n db with
  | nil =>
    refine ⟨fun _ r _ _ _ => ?_, fun _ => ⟨db, rfl⟩⟩
    exact Nat.lt_or_ge r.ordinal k
  | cons c cs ih =>
    obtain ⟨hnotin, hnodup'⟩ := List.nodup_cons.mp hnodup
    have hrow := hrows c List.mem_cons_self
    rw [relocationsTo_cons, List.foldlM_cons]
    -- the place of the first chunk has to be free
    by_cases hfree : FreeAt db t next k
    · have hstep := (updateChunkLocation_iff hids hrow k 1 _).mpr ⟨hfree, rfl, rfl⟩
      have hnext : relocateNext t (n, db) (c, next, k) = .ok (n + 1, db.updateChunks
          (fun r => isRow t c r && isLive r) fun r => { r with segmentId := next, ordinal := k }) := by
        simp only [relocateNext, hstep, bind, Except.bind, pure, Except.pure]
      have hids' : Table.Keyed (·.chunkId) (db.updateChunks (fun r => isRow t c r && isLive r)
          fun r => { r with segmentId := next, ordinal := k }).chunks :=
        Table.Keyed.updateWhere hids _ _ fun _ => rfl
      have hrows' : ∀ d ∈ cs, HasRowElsewhere (db.updateChunks
          (fun r => isRow t c r && isLive r) fun r => { r with segmentId := next, ordinal := k })
          t next d := by
        intro d hd
        obtain ⟨x, hx, hxt, hxd, hxlive, hxs⟩ := hrows d (List.mem_cons_of_mem _ hd)
        refine ⟨x, mem_updateChunks.mpr ⟨x, hx, ?_⟩, hxt, hxd, hxlive, hxs⟩
        rw [if_neg]
        rw [Bool.and_eq_true, isRow_iff]
        rintro ⟨⟨_, hxc⟩, _⟩
        exact hnotin (hxc.symm.trans hxd ▸ hd)
      have ih' := ih hnodup' (k + 1) (n + 1) hids' hrows'
      rw [freeFrom_relocate hids hrow hfree] at ih'
      rw [hnext, List.length_cons, ← ih']
      simp only [bind, Except.bind]
      rw [show n + 1 + cs.length = n + (cs.length + 1) by omega]
    · have hno : ∀ out, relocateNext t (n, db) (c, next, k) ≠ .ok out := by
        intro out hout
        simp only [relocateNext] at hout
        obtain ⟨x, hx, _⟩ := except_bind_eq_ok.mp hout
        exact hfree ((updateChunkLocation_iff hids hrow k x.1 x.2).mp hx).1
      constructor
      · rintro ⟨db', h⟩
        obtain ⟨out, hout, _⟩ := except_bind_eq_ok.mp h
        exact absurd hout (hno out)
      · intro h
        refine absurd (fun r hr hrt hrs hro => ?_) hfree
        rcases h r hr hrt hrs with hlt | hge
        · exact absurd hro (Nat.ne_of_lt hlt)
        · rw [List.length_cons] at hge
          omega

/-- **The transaction commits exactly when the places are free.** -/
theorem updateChunkLocations_ok_iff {cs : List ChunkId} (hnodup : cs.Nodup)
    (hids : Table.Keyed (·.chunkId) db.chunks) (hrows : ∀ c ∈ cs, HasRowElsewhere db t next c) :
    (∃ db', db.updateChunkLocations t (relocationsTo next 0 cs) = .ok ((), db')) ↔
      ∀ r ∈ db.chunks, r.tenantId = t → r.segmentId = next → cs.length ≤ r.ordinal := by
  have hfree : FreeFrom db t next 0 cs.length ↔
      ∀ r ∈ db.chunks, r.tenantId = t → r.segmentId = next → cs.length ≤ r.ordinal := by
    simp [FreeFrom]
  have hlen : (relocationsTo next 0 cs).length = cs.length := by simp [relocationsTo]
  rw [← hfree, ← relocateNext_foldlM_iff cs hnodup 0 0 hids hrows, Nat.zero_add]
  simp only [updateChunkLocations_eq_ok, hlen]

/-! ## What a relocation leaves alone -/

/-- The row `x` is `r`, perhaps at another place, which only a row that is not deleted can be. -/
structure MovedRow (r x : ChunkRow) : Prop where
  columns : x = { r with segmentId := x.segmentId, ordinal := x.ordinal }
  deleted : r.status = .deleted → x = r

theorem MovedRow.refl (r : ChunkRow) : MovedRow r r :=
  ⟨rfl, fun _ => rfl⟩

theorem MovedRow.chunkId {r x : ChunkRow} (h : MovedRow r x) : x.chunkId = r.chunkId := by
  rw [h.columns]

theorem MovedRow.status {r x : ChunkRow} (h : MovedRow r x) : x.status = r.status := by
  rw [h.columns]

theorem MovedRow.trans {r x y : ChunkRow} (h : MovedRow r x) (h' : MovedRow x y) : MovedRow r y where
  columns := by
    rw [h'.columns, h.columns]
  deleted hdel := by
    rw [h'.deleted (h.status.trans hdel), h.deleted hdel]

/-- `db'` is `db` with rows moved. -/
def MovedRows (db db' : Db) : Prop :=
  db' = { db with chunks := db'.chunks } ∧
    ∃ g : ChunkRow → ChunkRow, db'.chunks = db.chunks.map g ∧ ∀ r, MovedRow r (g r)

theorem MovedRows.refl (db : Db) : MovedRows db db :=
  ⟨rfl, id, (List.map_id _).symm, .refl⟩

theorem MovedRows.trans {db₁ db₂ db₃ : Db} (h : MovedRows db₁ db₂) (h' : MovedRows db₂ db₃) :
    MovedRows db₁ db₃ := by
  obtain ⟨e, g, hg, hrow⟩ := h
  obtain ⟨e', g', hg', hrow'⟩ := h'
  refine ⟨by rw [e', e], g' ∘ g, by rw [hg', hg, List.map_map], ?_⟩
  exact fun r => (hrow r).trans (hrow' (g r))

/-- One relocation. -/
theorem movedRows_updateChunkLocation {c : ChunkId} {segmentId ordinal n : ℕ} {db' : Db}
    (h : db.updateChunkLocation t c segmentId ordinal = .ok (n, db')) : MovedRows db db' := by
  unfold updateChunkLocation at h
  dsimp only at h
  split at h
  · exact absurd h (by simp)
  obtain ⟨_, rfl⟩ : _ = n ∧ _ = db' := by simpa using h
  refine ⟨rfl, _, rfl, fun r => ?_⟩
  dsimp only
  split
  · rename_i hm
    rw [Bool.and_eq_true, isLive_iff] at hm
    exact ⟨rfl, fun hdel => absurd hdel hm.2⟩
  · exact .refl r

/-- All of them. -/
theorem movedRows_of_updateChunkLocations {relocations : List (ChunkId × ℕ × ℕ)} {db' : Db}
    (h : db.updateChunkLocations t relocations = .ok ((), db')) : MovedRows db db' := by
  have hfold : ∀ (relocations : List (ChunkId × ℕ × ℕ)) (acc out : ℕ × Db),
      relocations.foldlM (relocateNext t) acc = .ok out → MovedRows acc.2 out.2 := by
    intro relocations
    induction relocations with
    | nil =>
      intro acc out hr
      obtain rfl : acc = out := by simpa [pure, Except.pure] using hr
      exact .refl _
    | cons x relocations ih =>
      intro acc out hr
      rw [List.foldlM_cons] at hr
      obtain ⟨acc', hstep, hrest⟩ := except_bind_eq_ok.mp hr
      obtain ⟨y, hy, hacc⟩ := except_bind_eq_ok.mp hstep
      obtain rfl : (acc.1 + y.1, y.2) = acc' := by simpa [pure, Except.pure] using hacc
      exact (movedRows_updateChunkLocation hy).trans (ih (acc.1 + y.1, y.2) out hrest)
  exact hfold relocations _ _ (updateChunkLocations_eq_ok.mp h)

end Db
