/-
# The invariant of a tenant's store

`Inv` ties the rows of the `chunks` table, the log, the segment directories and the
handle together: every row that is not deleted is located at a payload of its own
chunk id, all copies of a chunk's payload agree, every chunk promised to be kept has
such a row and every deleted one has none, except while recovery has its Delete record still
to replay.  `rest` lists the records recovery has still to replay: it is empty while
the store serves calls, and the whole log behind the last checkpoint after a crash.

One lemma per kind of step says that the step keeps the invariant.
-/
import Memd.Location

namespace Store

/-! ## The invariant -/

/-- A deleted chunk cannot come back: every Add record recovery would replay is
followed by a Delete record, and a live row is waiting for its Delete record. -/
def Buried (rest : List LogRecord) (s : Store) (c : ChunkId) : Prop :=
  c < s.nextId ∧
    (∀ pre p post, s.recordsForRecovery = pre ++ .add p :: post → p.chunkId = c →
      .delete c ∈ post) ∧
    ∀ r ∈ s.db.chunks, r.chunkId = c → r.status ≠ .deleted → .delete c ∈ rest

/-- A chunk that must survive: it has a row that is not deleted, all its copies agree
and recovery will not delete it. -/
def Kept (s : Store) (p : MemoryChunk) : Prop :=
  (∃ r ∈ s.db.chunks, r.chunkId = p.chunkId ∧ r.status ≠ .deleted) ∧
    (∀ q, s.Copy q → q.chunkId = p.chunkId → q = p) ∧
    .delete p.chunkId ∉ s.recordsForRecovery

/-- A purged chunk: nothing recovery or a rewrite would work from mentions it. -/
structure Erased (s : Store) (c : ChunkId) : Prop where
  old : c < s.nextId
  rows : ∀ r ∈ s.db.chunks, r.chunkId ≠ c
  log : ∀ p, .add p ∈ s.recordsForRecovery → p.chunkId ≠ c
  active : ∀ a, s.handle.activeSegment = some a → ∀ p ∈ a.chunks, p.chunkId ≠ c

/-- A pending payload is not of an erased chunk. -/
theorem Erased.pending {s : Store} {c : ChunkId} (h : Erased s c) {p : MemoryChunk} (hp : s.Pending p) :
    p.chunkId ≠ c := by
  rcases hp with ⟨a, ha, hp⟩ | hp
  · exact h.active a ha p hp
  · exact h.log p hp

/-- What the callers have been promised: the payloads that are stored, the chunks that
are deleted and the chunks that are purged. -/
structure Ledger where
  keep : MemoryChunk → Prop
  gone : ChunkId → Prop
  erased : ChunkId → Prop

/-- More payloads are promised. -/
def Ledger.keeping (K : Ledger) (new : MemoryChunk → Prop) : Ledger :=
  { K with keep := fun p => K.keep p ∨ new p }

/-- More chunks are deleted. -/
def Ledger.burying (K : Ledger) (new : ChunkId → Prop) : Ledger :=
  { K with gone := fun c => K.gone c ∨ new c }

/-- More chunks are purged. -/
def Ledger.erasing (K : Ledger) (new : ChunkId → Prop) : Ledger :=
  { K with erased := fun c => K.erased c ∨ new c }

/-- **The invariant** of a tenant's store, for a ledger of what must be kept, gone and erased and
for the log records still to be replayed. -/
structure Inv (T : TenantId) (K : Ledger) (rest : List LogRecord) (s : Store) : Prop where
  layout : s.Layout
  keys : s.db.ChunkKeys
  rowTenant : ∀ r ∈ s.db.chunks, r.tenantId = T
  rowIds : ∀ r ∈ s.db.chunks, r.chunkId < s.nextId
  copyTenant : ∀ p, s.Copy p → p.tenantId = T
  copyIds : ∀ p, s.Copy p → p.chunkId < s.nextId
  copyEq : ∀ p q, s.Copy p → s.Copy q → p.chunkId = q.chunkId → p = q
  located : ∀ r ∈ s.db.chunks, r.status ≠ .deleted →
    ∃ p, p.chunkId = r.chunkId ∧ Located rest s p r.segmentId r.ordinal
  deleteIds : ∀ c, .delete c ∈ s.wal → c < s.nextId
  activeLogged : ∀ a, s.handle.activeSegment = some a → ∀ p ∈ a.chunks, .add p ∈ s.recordsForRecovery
  kept : ∀ p, K.keep p → s.Kept p
  buried : ∀ c, K.gone c → Buried rest s c
  erased : ∀ c, K.erased c → Erased s c

variable {T : TenantId} {K : Ledger}
  {rest rest' : List LogRecord} {s s' : Store}

/-- The invariant for more records still to be replayed. -/
theorem Inv.mono (h : Inv T K rest s) (hr : ∀ r ∈ rest, r ∈ rest') :
    Inv T K rest' s :=
  { h with
    located := fun r hr' hlive =>
      let ⟨p, hp, hloc⟩ := h.located r hr' hlive
      ⟨p, hp, hloc.mono hr⟩
    buried := fun c hc =>
      let ⟨h₁, h₂, h₃⟩ := h.buried c hc
      ⟨h₁, h₂, fun r hr' hid hlive => hr _ (h₃ r hr' hid hlive)⟩ }

/-- The invariant for less to be kept. -/
theorem Inv.weaken_keep (h : Inv T K rest s) {keep : MemoryChunk → Prop}
    (hk : ∀ p, keep p → K.keep p) : Inv T { K with keep := keep } rest s :=
  { h with kept := fun p hp => h.kept p (hk p hp) }

/-- The invariant for less to be gone. -/
theorem Inv.weaken_gone (h : Inv T K rest s) {gone : ChunkId → Prop}
    (hg : ∀ c, gone c → K.gone c) : Inv T { K with gone := gone } rest s :=
  { h with buried := fun c hc => h.buried c (hg c hc) }

/-- The invariant for less to be erased. -/
theorem Inv.weaken_erased (h : Inv T K rest s) {erased : ChunkId → Prop}
    (he : ∀ c, erased c → K.erased c) : Inv T { K with erased := erased } rest s :=
  { h with erased := fun c hc => h.erased c (he c hc) }

/-! ## Steps on segments and ids -/

/-- A step on the segments keeps the invariant. -/
theorem Inv.segStep (h : Inv T K rest s) (hs : SegStep s s') :
    Inv T K rest s' where
  layout := hs.layout
  keys := by rw [hs.db]; exact h.keys
  rowTenant := by rw [hs.db]; exact h.rowTenant
  rowIds := by rw [hs.db, hs.nextId]; exact h.rowIds
  copyTenant p hp := h.copyTenant p (hs.copies p hp)
  copyIds p hp := by rw [hs.nextId]; exact h.copyIds p (hs.copies p hp)
  copyEq p q hp hq := h.copyEq p q (hs.copies p hp) (hs.copies q hq)
  located := by
    rw [hs.db]
    intro r hr hlive
    obtain ⟨p, hp, hloc⟩ := h.located r hr hlive
    exact ⟨p, hp, hs.located _ _ _ _ hloc⟩
  deleteIds := by rw [hs.wal, hs.nextId]; exact h.deleteIds
  activeLogged a ha p hp := by
    rw [hs.recordsForRecovery]
    rcases hs.active a ha p hp with ⟨b, hb, hp⟩ | hp
    · exact h.activeLogged b hb p hp
    · exact hp
  kept := by
    intro p hp
    obtain ⟨h₁, h₂, h₃⟩ := h.kept p hp
    rw [Kept, hs.db, hs.recordsForRecovery]
    exact ⟨h₁, fun q hq => h₂ q (hs.copies q hq), h₃⟩
  buried := by
    intro c hc
    rw [Buried, hs.db, hs.nextId, hs.recordsForRecovery]
    exact h.buried c hc
  erased c hc := by
    have he := h.erased c hc
    exact ⟨by rw [hs.nextId]; exact he.old, by rw [hs.db]; exact he.rows,
      by rw [hs.recordsForRecovery]; exact he.log,
      fun a ha p hp => he.pending (hs.active a ha p hp)⟩

/-- Handing out a chunk id. -/
theorem Inv.newId (h : Inv T K rest s) (n : ℕ) (hn : s.nextId ≤ n) :
    Inv T K rest { s with nextId := n } :=
  { h with
    layout := h.layout.congr rfl rfl
    rowIds := fun r hr => Nat.lt_of_lt_of_le (h.rowIds r hr) hn
    copyIds := fun p hp => Nat.lt_of_lt_of_le (h.copyIds p hp) hn
    deleteIds := fun c hc => Nat.lt_of_lt_of_le (h.deleteIds c hc) hn
    buried := fun c hc => ⟨Nat.lt_of_lt_of_le (h.buried c hc).1 hn, (h.buried c hc).2⟩
    erased := fun c hc =>
      let he := h.erased c hc
      ⟨Nat.lt_of_lt_of_le he.old hn, he.rows, he.log, he.active⟩ }

/-! ## Steps on the database -/

/-- A statement that only touches the overlay columns. -/
theorem Inv.overlay (h : Inv T K rest s) {db' : Db} (ho : Db.Overlay s.db db') :
    Inv T K rest { s with db := db' } where
  layout := h.layout.congr rfl rfl
  keys := h.keys.overlay ho
  rowTenant x hx := by
    obtain ⟨r, hr, ho⟩ := ho.mem hx
    rw [ho.tenantId]
    exact h.rowTenant r hr
  rowIds x hx := by
    obtain ⟨r, hr, ho⟩ := ho.mem hx
    rw [ho.chunkId]
    exact h.rowIds r hr
  copyTenant := h.copyTenant
  copyIds := h.copyIds
  copyEq := h.copyEq
  located x hx hlive := by
    obtain ⟨r, hr, ho⟩ := ho.mem hx
    rw [ho.chunkId, ho.segmentId, ho.ordinal]
    exact h.located r hr fun hdel => hlive (ho.deleted.mpr hdel)
  deleteIds := h.deleteIds
  activeLogged := h.activeLogged
  kept p hp := by
    obtain ⟨⟨r, hr, hid, hlive⟩, hcopy⟩ := h.kept p hp
    obtain ⟨x, hx, ho⟩ := ho.mem_of_mem hr
    exact ⟨⟨x, hx, ho.chunkId.trans hid, fun hdel => hlive (ho.deleted.mp hdel)⟩, hcopy⟩
  buried c hc := by
    refine ⟨(h.buried c hc).1, (h.buried c hc).2.1, ?_⟩
    intro x hx hid hlive
    obtain ⟨r, hr, ho⟩ := ho.mem hx
    exact (h.buried c hc).2.2 r hr (ho.chunkId ▸ hid) fun hdel => hlive (ho.deleted.mpr hdel)
  erased c hc := by
    have he := h.erased c hc
    refine ⟨he.old, ?_, he.log, he.active⟩
    intro x hx
    obtain ⟨r, hr, ho⟩ := ho.mem hx
    rw [ho.chunkId]
    exact he.rows r hr

/-- Inserting a row at a location that holds the payload of its own chunk evicts no
row of another chunk that is not deleted. -/
theorem Inv.insert (h : Inv T K rest s) {m : ChunkMetadata} {p : MemoryChunk}
    (hloc : Located [] s p m.segmentId m.ordinal) (hlog : .add p ∈ s.recordsForRecovery)
    (hid : p.chunkId = m.chunkId) (htenant : m.tenantId = T)
    (hkeep : ∀ q, K.keep q → q.chunkId = m.chunkId → m.status ≠ .deleted)
    (hgone : K.gone m.chunkId → m.status ≠ .deleted → .delete m.chunkId ∈ rest) :
    Inv T K rest (withDb (·.insert m) s) where
  layout := h.layout.congr rfl rfl
  keys := h.keys.insert m
  rowTenant x hx := by
    rcases Db.mem_insert.mp hx with ⟨hx, _⟩ | rfl
    · exact h.rowTenant x hx
    · exact htenant
  rowIds x hx := by
    rcases Db.mem_insert.mp hx with ⟨hx, _⟩ | rfl
    · exact h.rowIds x hx
    · show m.chunkId < s.nextId
      rw [← hid]
      exact h.copyIds p hloc.copy
  copyTenant := h.copyTenant
  copyIds := h.copyIds
  copyEq := h.copyEq
  located x hx hlive := by
    rcases Db.mem_insert.mp hx with ⟨hx, _⟩ | rfl
    · exact h.located x hx hlive
    · exact ⟨p, hid, hloc.mono (by simp)⟩
  deleteIds := h.deleteIds
  activeLogged := h.activeLogged
  kept q hq := by
    obtain ⟨⟨r, hr, hrid, hlive⟩, hcopy⟩ := h.kept q hq
    refine ⟨?_, hcopy⟩
    by_cases hsame : r.chunkId = m.chunkId
    · -- the chunk's own row is replaced
      exact ⟨_, Db.mem_insert.mpr (.inr rfl), hsame.symm.trans hrid,
        hkeep q hq (hrid.symm.trans hsame)⟩
    · refine ⟨r, Db.mem_insert.mpr (.inl ⟨hr, hsame, ?_⟩), hrid, hlive⟩
      rintro ⟨_, hseg, hord⟩
      obtain ⟨p', hp', hloc'⟩ := h.located r hr hlive
      rw [hseg, hord] at hloc'
      obtain rfl := hloc.unique h.layout hloc'
      exact hsame (hp'.symm.trans hid)
  buried c hc := by
    refine ⟨(h.buried c hc).1, (h.buried c hc).2.1, ?_⟩
    intro x hx hxid hlive
    rcases Db.mem_insert.mp hx with ⟨hx, _⟩ | rfl
    · exact (h.buried c hc).2.2 x hx hxid hlive
    · obtain rfl : m.chunkId = c := hxid
      exact hgone hc hlive
  erased c hc := by
    have he := h.erased c hc
    refine ⟨he.old, ?_, he.log, he.active⟩
    intro x hx
    rcases Db.mem_insert.mp hx with ⟨hx, _⟩ | rfl
    · exact he.rows x hx
    · rw [← hid]
      exact he.log p hlog

/-- The row after `mark_deleted`. -/
theorem mem_markDeleted {db : Db} {t : TenantId} {c : ChunkId} {x : ChunkRow}
    (hx : x ∈ (db.markDeleted t c).chunks) :
    ∃ r ∈ db.chunks, x.chunkId = r.chunkId ∧ x.tenantId = r.tenantId ∧
      x.segmentId = r.segmentId ∧ x.ordinal = r.ordinal ∧
      (x.status ≠ .deleted → x = r ∧ ¬ (r.tenantId = t ∧ r.chunkId = c)) := by
  obtain ⟨r, hr, rfl⟩ := Db.mem_updateChunks.mp hx
  refine ⟨r, hr, ?_⟩
  by_cases hp : (ChunkRow.isRow t c r && ChunkRow.isLive r) = true
  · simp [hp]
  · simp only [hp, Bool.false_eq_true, if_false, true_and]
    intro hlive
    rintro ⟨ht, hc⟩
    rw [Bool.and_eq_true, Db.isRow_iff, Db.isLive_iff] at hp
    exact hp ⟨⟨ht, hc⟩, hlive⟩

/-- Deleting a chunk that need not be kept keeps the invariant. -/
theorem Inv.markDeleted (h : Inv T K rest s) {c : ChunkId}
    (hkeep : ∀ p, K.keep p → p.chunkId ≠ c) :
    Inv T K rest (withDb (·.markDeleted T c) s) where
  layout := h.layout.congr rfl rfl
  keys := by
    constructor
    · apply h.keys.ids.updateWhere
      intro r
      rfl
    · apply h.keys.locations.updateWhere
      intro r
      rfl
  rowTenant x hx := by
    obtain ⟨r, hr, _, ht, _⟩ := mem_markDeleted hx
    rw [ht]
    exact h.rowTenant r hr
  rowIds x hx := by
    obtain ⟨r, hr, hid, _⟩ := mem_markDeleted hx
    rw [hid]
    exact h.rowIds r hr
  copyTenant := h.copyTenant
  copyIds := h.copyIds
  copyEq := h.copyEq
  located x hx hlive := by
    obtain ⟨r, hr, _, _, _, _, hlive'⟩ := mem_markDeleted hx
    obtain ⟨rfl, _⟩ := hlive' hlive
    exact h.located x hr hlive
  deleteIds := h.deleteIds
  activeLogged := h.activeLogged
  kept p hp := by
    obtain ⟨⟨r, hr, hid, hlive⟩, hcopy⟩ := h.kept p hp
    refine ⟨⟨r, Db.mem_updateChunks.mpr ⟨r, hr, ?_⟩, hid, hlive⟩, hcopy⟩
    have hne : ¬ (ChunkRow.isRow T c r && ChunkRow.isLive r) = true := by
      rw [Bool.and_eq_true, Db.isRow_iff]
      rintro ⟨⟨_, hc⟩, _⟩
      exact hkeep p hp (hid.symm.trans hc)
    rw [if_neg hne]
  buried d hd := by
    refine ⟨(h.buried d hd).1, (h.buried d hd).2.1, ?_⟩
    intro x hx hid hlive
    obtain ⟨r, hr, _, _, _, _, hlive'⟩ := mem_markDeleted hx
    obtain ⟨rfl, _⟩ := hlive' hlive
    exact (h.buried d hd).2.2 x hr hid hlive
  erased d hd := by
    have he := h.erased d hd
    refine ⟨he.old, ?_, he.log, he.active⟩
    intro x hx
    obtain ⟨r, hr, hid, _⟩ := mem_markDeleted hx
    rw [hid]
    exact he.rows r hr

/-- After `mark_deleted` the chunk has no row that is not deleted. -/
theorem Inv.deleted_of_markDeleted (h : Inv T K rest s) {c : ChunkId} {x : ChunkRow}
    (hx : x ∈ (withDb (·.markDeleted T c) s).db.chunks) (hid : x.chunkId = c) :
    x.status = .deleted := by
  by_contra hlive
  obtain ⟨r, hr, _, _, _, _, hlive'⟩ := mem_markDeleted hx
  obtain ⟨rfl, hne⟩ := hlive' hlive
  exact hne ⟨h.rowTenant x hr, hid⟩

/-! ## Steps on the log -/

/-- Appending records other than checkpoints appends them to what is replayed. -/
theorem recordsForRecovery_logAppend {records : List LogRecord}
    (hr : ∀ r ∈ records, r.isCheckpoint = false) (s : Store) :
    (logAppend records s).recordsForRecovery = s.recordsForRecovery ++ records :=
  LogSuffix.afterLast_append _ hr

/-- Appending records of new chunks, of deletes or of task artifacts. -/
theorem Inv.logAppend (h : Inv T K rest s) {records : List LogRecord}
    (hrec : ∀ r ∈ records, r.isCheckpoint = false)
    (hadd : ∀ p, .add p ∈ records → p.tenantId = T ∧ p.chunkId < s.nextId ∧
      (∀ q, s.Copy q → q.chunkId ≠ p.chunkId) ∧ ¬ K.gone p.chunkId ∧ ¬ K.erased p.chunkId)
    (hinj : ∀ p q, .add p ∈ records → .add q ∈ records → p.chunkId = q.chunkId → p = q)
    (hdel : ∀ c, .delete c ∈ records → c < s.nextId ∧ ∀ p, K.keep p → p.chunkId ≠ c) :
    Inv T K rest (logAppend records s) := by
  have hrecov := recordsForRecovery_logAppend hrec s
  -- a copy is an old one or a new record
  have hcopy : ∀ p, (Store.logAppend records s).Copy p → s.Copy p ∨ .add p ∈ records := by
    rintro p (hp | hp)
    · rcases List.mem_append.mp hp with hp | hp
      · exact .inl (.inl hp)
      · exact .inr hp
    · exact .inl (.inr hp)
  refine ⟨h.layout.congr rfl rfl, h.keys, h.rowTenant, h.rowIds, ?_, ?_, ?_, ?_, ?_, ?_, ?_, ?_, ?_⟩
  · intro p hp
    rcases hcopy p hp with hp | hp
    · exact h.copyTenant p hp
    · exact (hadd p hp).1
  · intro p hp
    rcases hcopy p hp with hp | hp
    · exact h.copyIds p hp
    · exact (hadd p hp).2.1
  · intro p q hp hq hid
    rcases hcopy p hp with hp | hp <;> rcases hcopy q hq with hq | hq
    · exact h.copyEq p q hp hq hid
    · exact absurd hid ((hadd q hq).2.2.1 p hp)
    · exact absurd hid.symm ((hadd p hp).2.2.1 q hq)
    · exact hinj p q hp hq hid
  · intro r hr hlive
    obtain ⟨p, hp, hloc⟩ := h.located r hr hlive
    refine ⟨p, hp, ?_⟩
    rcases hloc with hloc | ⟨hrec', hloc⟩
    · exact .inl hloc
    · exact .inr ⟨by rw [hrecov]; exact List.mem_append_left _ hrec', hloc⟩
  · intro c hc
    rcases List.mem_append.mp hc with hc | hc
    · exact h.deleteIds c hc
    · exact (hdel c hc).1
  · intro a ha p hp
    rw [hrecov]
    exact List.mem_append_left _ (h.activeLogged a ha p hp)
  · intro p hp
    obtain ⟨⟨r, hr, hid, hlive⟩, hc, hnot⟩ := h.kept p hp
    refine ⟨⟨r, hr, hid, hlive⟩, ?_, ?_⟩
    · intro q hq hqid
      rcases hcopy q hq with hq | hq
      · exact hc q hq hqid
      · obtain ⟨p', hp', hloc⟩ := h.located r hr hlive
        exact absurd ((hp'.trans hid).trans hqid.symm) ((hadd q hq).2.2.1 p' hloc.copy)
    · rw [hrecov, List.mem_append]
      rintro (hmem | hmem)
      · exact hnot hmem
      · exact (hdel _ hmem).2 p hp rfl
  · intro c hc
    obtain ⟨h₁, h₂, h₃⟩ := h.buried c hc
    refine ⟨h₁, ?_, h₃⟩
    intro pre p post hsplit hpid
    rw [hrecov] at hsplit
    rcases List.append_eq_append_iff.mp hsplit with ⟨mid, rfl, hmid⟩ | ⟨mid, hmid, hpost⟩
    · -- the Add record is a new one
      have : .add p ∈ records := by rw [hmid]; simp
      exact absurd (hpid ▸ hc) (hadd p this).2.2.2.1
    · cases mid with
      | nil =>
        have : .add p ∈ records := by
          rw [List.nil_append] at hpost
          rw [← hpost]
          simp
        exact absurd (hpid ▸ hc) (hadd p this).2.2.2.1
      | cons x mid =>
        obtain ⟨rfl, rfl⟩ : .add p = x ∧ post = mid ++ records := by simpa using hpost
        exact List.mem_append_left _ (h₂ pre p mid hmid hpid)
  · intro c hc
    have he := h.erased c hc
    refine ⟨he.old, he.rows, ?_, he.active⟩
    intro p hp hpid
    rw [hrecov] at hp
    rcases List.mem_append.mp hp with hp | hp
    · exact he.log p hp hpid
    · exact (hadd p hp).2.2.2.2 (hpid ▸ hc)

/-- With no segment open for appending every row is sealed, and the log may be cut. -/
theorem Inv.resetLog (h : Inv T K [] s) (hactive : s.handle.activeSegment = none)
    {wal : List LogRecord} (hsub : ∀ p, .add p ∈ wal → .add p ∈ s.wal)
    (hsub' : ∀ c, .delete c ∈ wal → .delete c ∈ s.wal)
    (hcut : LogSuffix.afterLast LogRecord.isCheckpoint wal = []) :
    Inv T K [] { s with wal := wal } := by
  have hcopy : ∀ p, ({ s with wal := wal } : Store).Copy p → s.Copy p := by
    rintro p (hp | hp)
    · exact .inl (hsub p hp)
    · exact .inr hp
  refine ⟨h.layout.congr rfl rfl, h.keys, h.rowTenant, h.rowIds, fun p hp => h.copyTenant p (hcopy p hp),
    fun p hp => h.copyIds p (hcopy p hp),
    fun p q hp hq => h.copyEq p q (hcopy p hp) (hcopy q hq), ?_,
    fun c hc => h.deleteIds c (hsub' c hc), ?_, ?_, ?_, ?_⟩
  · intro r hr hlive
    obtain ⟨p, hp, hloc⟩ := h.located r hr hlive
    rcases hloc with hloc | ⟨_, ⟨a, ha, _⟩ | ⟨_, hnil⟩⟩
    · exact ⟨p, hp, .inl hloc⟩
    · exact absurd (hactive.symm.trans ha) (by simp)
    · exact absurd hnil (by simp)
  · intro a ha
    exact absurd (hactive.symm.trans ha) (by simp)
  · intro p hp
    refine ⟨(h.kept p hp).1, fun q hq => (h.kept p hp).2.1 q (hcopy q hq), ?_⟩
    show LogRecord.delete p.chunkId ∉ LogSuffix.afterLast LogRecord.isCheckpoint wal
    simp [hcut]
  · intro c hc
    refine ⟨(h.buried c hc).1, ?_, (h.buried c hc).2.2⟩
    intro pre p post hsplit
    have hnil : ([] : List LogRecord) = pre ++ .add p :: post := hcut.symm.trans hsplit
    exact absurd hnil.symm (by simp)
  · intro c hc
    have he := h.erased c hc
    refine ⟨he.old, he.rows, ?_, he.active⟩
    intro p hp
    rw [Store.recordsForRecovery, hcut] at hp
    exact absurd hp (by simp)

/-- A Delete record behind all Add records of its chunk buries the chunk. -/
theorem delete_mem_of_append_delete {l pre post : List LogRecord} {c : ChunkId} {p : MemoryChunk}
    (h : l ++ [.delete c] = pre ++ .add p :: post) : .delete c ∈ post := by
  have hlast : (pre ++ LogRecord.add p :: post).getLast? = some (.delete c) := by
    rw [← h]
    simp
  cases post with
  | nil => simp at hlast
  | cons x post =>
    rw [List.getLast?_append_cons, List.getLast?_cons_cons] at hlast
    exact List.mem_of_getLast? hlast

/-! ## Tombstones -/

/-- A tombstone where no row that is not deleted points at. -/
theorem Inv.tombstone (h : Inv T K rest s) {segmentId ordinal : ℕ}
    (hfree : ∀ r ∈ s.db.chunks, r.status ≠ .deleted →
      ¬ (r.segmentId = segmentId ∧ r.ordinal = ordinal)) :
    Inv T K rest (tombstone segmentId ordinal s) := by
  unfold Store.tombstone
  by_cases hload : s.handle.segments.contains segmentId
  -- a segment that is not open takes no tombstone
  swap
  · rw [if_neg hload]
    exact h
  rw [if_pos hload]
  let f : SegmentDir → SegmentDir := fun d => { d with tombstones := ordinal :: d.tombstones }
  obtain ⟨d₀, hd₀, hid₀, hfin₀⟩ := h.layout.readers segmentId (by simpa using hload)
  have hkeep : ∀ d ∈ s.segmentDirs, ∃ e ∈ (s.updateDir segmentId f).segmentDirs,
      e.id = d.id ∧ e.finalized = d.finalized := by
    intro d hd
    by_cases hid : d.id = segmentId
    · exact ⟨f d, mem_updateDir_self hd hid, rfl, rfl⟩
    · exact ⟨d, mem_updateDir_of_ne hd hid, rfl, rfl⟩
  -- a copy is one of the state before: only tombstones change
  have hcopy : ∀ p, (s.updateDir segmentId f).Copy p → s.Copy p := by
    rintro p (hp | ⟨d, hd, hfin, hp⟩ | hp)
    · exact .inl hp
    · obtain ⟨e, he, rfl⟩ := mem_updateDir.mp hd
      refine .inr (.inl ⟨e, he, ?_, ?_⟩)
      · by_cases hid : e.id = segmentId
        · simpa [hid, f] using hfin
        · simpa [hid] using hfin
      · by_cases hid : e.id = segmentId
        · simpa [hid, f] using hp
        · simpa [hid] using hp
    · exact .inr (.inr hp)
  refine ⟨⟨keyed_updateDir h.layout.dirIds fun _ => rfl, ?_, ?_, ?_, h.layout.noFault⟩, h.keys,
    h.rowTenant, h.rowIds, fun p hp => h.copyTenant p (hcopy p hp),
    fun p hp => h.copyIds p (hcopy p hp),
    fun p q hp hq => h.copyEq p q (hcopy p hp) (hcopy q hq), ?_, h.deleteIds,
    h.activeLogged, ?_, h.buried, ?_⟩
  · intro a ha
    obtain ⟨d, hd, hid, hfin⟩ := h.layout.active a ha
    obtain ⟨e, he, heid, hefin⟩ := hkeep d hd
    exact ⟨e, he, heid.trans hid, hefin.trans hfin⟩
  · intro id hid
    obtain ⟨d, hd, hdid, hfin⟩ := h.layout.readers id hid
    obtain ⟨e, he, heid, hefin⟩ := hkeep d hd
    exact ⟨e, he, heid.trans hdid, hefin.trans hfin⟩
  · intro d hd hfin
    obtain ⟨e, he, rfl⟩ := mem_updateDir.mp hd
    by_cases hid : e.id = segmentId
    · -- the tombstoned segment is finalized
      obtain rfl := h.layout.dirIds.eq he hd₀ (hid.trans hid₀.symm)
      rw [if_pos hid] at hfin
      exact absurd (hfin₀.symm.trans hfin) (by decide)
    · rw [if_neg hid] at hfin ⊢
      exact h.layout.fresh e he hfin
  -- a row that is not deleted is not where the tombstone is
  · intro r hr hlive
    obtain ⟨p, hp, hloc⟩ := h.located r hr hlive
    refine ⟨p, hp, ?_⟩
    rcases hloc with ⟨d, hd, hid, hfin, hread⟩ | ⟨hadd, hloc | ⟨⟨⟨d, hd, hid, hfin⟩, hne⟩, hrest⟩⟩
    · by_cases hseg : d.id = segmentId
      · refine .inl ⟨f d, mem_updateDir_self hd hseg, hid, hfin, ?_⟩
        rw [SegmentDir.readChunk_eq_some] at hread ⊢
        refine ⟨?_, hread.2⟩
        intro hmem
        rcases List.mem_cons.mp hmem with hord | hmem
        · exact hfree r hr hlive ⟨hid.symm.trans hseg, hord⟩
        · exact hread.1 hmem
      · exact .inl ⟨d, mem_updateDir_of_ne hd hseg, hid, hfin, hread⟩
    · exact .inr ⟨hadd, .inl hloc⟩
    · obtain ⟨e, he, heid, hefin⟩ := hkeep d hd
      exact .inr ⟨hadd, .inr ⟨⟨⟨e, he, heid.trans hid, hefin.trans hfin⟩, hne⟩, hrest⟩⟩
  · intro p hp
    exact ⟨(h.kept p hp).1, fun q hq => (h.kept p hp).2.1 q (hcopy q hq), (h.kept p hp).2.2⟩
  · intro c hc
    have he := h.erased c hc
    exact ⟨he.old, he.rows, he.log, he.active⟩

/-! ## Losing and reopening the handle -/

/-- A handle without an active segment: what was active is stranded, but logged. -/
theorem Inv.newHandle (h : Inv T K rest s) (hrest : ∀ r ∈ rest, r ∈ s.recordsForRecovery)
    {hd : Handle} (hactive : hd.activeSegment = none)
    (hreaders : ∀ id ∈ hd.segments, ∃ d ∈ s.segmentDirs, d.id = id ∧ d.finalized = true)
    (hfault : hd.config.finalizeFails = []) :
    Inv T K s.recordsForRecovery { s with handle := hd } := by
  have hcopy : ∀ p, ({ s with handle := hd } : Store).Copy p → s.Copy p := by
    rintro p (hp | hp | ⟨a, ha, _⟩)
    · exact .inl hp
    · exact .inr (.inl hp)
    · exact absurd (hactive.symm.trans ha) (by simp)
  have hnone : ∀ (P : ActiveSegment → Prop) (a : ActiveSegment), hd.activeSegment = some a → P a := by
    intro P a ha
    exact absurd (hactive.symm.trans ha) (by simp)
  refine ⟨⟨h.layout.dirIds, hnone _, hreaders, h.layout.fresh, hfault⟩, h.keys, h.rowTenant,
    h.rowIds, fun p hp => h.copyTenant p (hcopy p hp), fun p hp => h.copyIds p (hcopy p hp),
    fun p q hp hq => h.copyEq p q (hcopy p hp) (hcopy q hq), ?_, h.deleteIds, hnone _, ?_, ?_, ?_⟩
  · intro r hr hlive
    obtain ⟨p, hp, hloc⟩ := h.located r hr hlive
    refine ⟨p, hp, ?_⟩
    rcases hloc with hloc | ⟨hadd, ⟨a, ha, haid, _⟩ | ⟨⟨hdir, _⟩, _⟩⟩
    · exact .inl hloc
    · obtain ⟨d, hd', hid, hfin⟩ := h.layout.active a ha
      exact .inr ⟨hadd, .inr ⟨⟨⟨d, hd', hid.trans haid, hfin⟩, hnone _⟩, hadd⟩⟩
    · exact .inr ⟨hadd, .inr ⟨⟨hdir, hnone _⟩, hadd⟩⟩
  · intro p hp
    exact ⟨(h.kept p hp).1, fun q hq => (h.kept p hp).2.1 q (hcopy q hq), (h.kept p hp).2.2⟩
  · intro c hc
    obtain ⟨h₁, h₂, h₃⟩ := h.buried c hc
    exact ⟨h₁, h₂, fun r hr hid hlive => hrest _ (h₃ r hr hid hlive)⟩
  · intro c hc
    have he := h.erased c hc
    exact ⟨he.old, he.rows, he.log, hnone _⟩

/-- A crash keeps the invariant, with the log to be replayed. -/
theorem Inv.crash (h : Inv T K rest s) (hrest : ∀ r ∈ rest, r ∈ s.recordsForRecovery) :
    Inv T K s.recordsForRecovery s.crash :=
  h.newHandle hrest rfl (by simp) rfl

/-- Opening the segments keeps the invariant. -/
theorem Inv.loadSegments (h : Inv T K rest s)
    (hrest : ∀ r ∈ rest, r ∈ s.recordsForRecovery) {cfg : StoreConfig}
    (hcfg : cfg.finalizeFails = []) :
    Inv T K s.recordsForRecovery (TenantStore.loadSegments cfg s) := by
  apply h.newHandle hrest rfl _ hcfg
  intro id hid
  obtain ⟨d, hd, rfl⟩ := List.mem_map.mp hid
  obtain ⟨hd, hfin⟩ := List.mem_filter.mp hd
  exact ⟨d, hd, rfl, hfin⟩

/-! ## What every step keeps -/

/-- Every row that is not deleted is still there, perhaps as a deleted one, and every
payload in a segment was there before, or was on its way, or belongs to a row. -/
structure Keeps (s s' : Store) : Prop where
  rows : ∀ r ∈ s.db.chunks, r.status ≠ .deleted → ∃ r' ∈ s'.db.chunks, r'.chunkId = r.chunkId
  segments : ∀ d ∈ s'.segmentDirs, ∀ p ∈ d.payload,
    (∃ e ∈ s.segmentDirs, e.id = d.id ∧ p ∈ e.payload) ∨ s.Pending p ∨
      ∃ r ∈ s.db.chunks, r.chunkId = p.chunkId

/-- A step that leaves the segments alone. -/
theorem Keeps.of_rows {s s' : Store} (hdirs : s'.segmentDirs = s.segmentDirs)
    (hrows : ∀ r ∈ s.db.chunks, r.status ≠ .deleted → ∃ r' ∈ s'.db.chunks, r'.chunkId = r.chunkId) :
    Keeps s s' :=
  ⟨hrows, fun d hd _ hp => .inl ⟨d, hdirs ▸ hd, rfl, hp⟩⟩

/-- A step that leaves the rows alone. -/
theorem Keeps.of_db {s s' : Store} (hdb : s'.db = s.db)
    (hdirs : ∀ d ∈ s'.segmentDirs, ∀ p ∈ d.payload,
      (∃ e ∈ s.segmentDirs, e.id = d.id ∧ p ∈ e.payload) ∨ s.Pending p ∨
        ∃ r ∈ s.db.chunks, r.chunkId = p.chunkId) : Keeps s s' :=
  ⟨fun r hr _ => ⟨r, hdb ▸ hr, rfl⟩, hdirs⟩

/-- A step that changes neither. -/
theorem Keeps.of_eq {s s' : Store} (hdb : s'.db = s.db) (hdirs : s'.segmentDirs = s.segmentDirs) :
    Keeps s s' :=
  .of_db hdb fun d hd _ hp => .inl ⟨d, hdirs ▸ hd, rfl, hp⟩

/-- Doing nothing keeps rows and payloads. -/
theorem Keeps.refl (s : Store) : Keeps s s :=
  .of_eq rfl rfl

/-- A step on the segments keeps rows and payloads. -/
theorem SegStep.keeps {s s' : Store} (h : SegStep s s') : Keeps s s' :=
  .of_db h.db fun d hd p hp => (h.dirs d hd p hp).imp_right .inl

/-- Overwriting fields of rows keeps rows and payloads. -/
theorem Keeps.overlay {s : Store} {db' : Db} (ho : s.db.Overlay db') :
    Keeps s { s with db := db' } := by
  refine Keeps.of_rows rfl ?_
  intro r hr _
  obtain ⟨x, hx, hrow⟩ := ho.mem_of_mem hr
  exact ⟨x, hx, hrow.chunkId⟩

/-- Deleting a row keeps it, as a deleted one, and the payloads. -/
theorem Keeps.markDeleted (s : Store) (t : TenantId) (c : ChunkId) :
    Keeps s (withDb (·.markDeleted t c) s) := by
  refine Keeps.of_rows rfl ?_
  intro r hr _
  refine ⟨_, Db.mem_updateChunks.mpr ⟨r, hr, rfl⟩, ?_⟩
  split <;> rfl

/-- A tombstone keeps rows and payloads. -/
theorem Keeps.tombstone (s : Store) (segmentId ordinal : ℕ) :
    Keeps s (tombstone segmentId ordinal s) := by
  unfold Store.tombstone
  split
  swap
  · exact .refl s
  refine Keeps.of_db rfl ?_
  intro d hd p hp
  obtain ⟨e, he, rfl⟩ := mem_updateDir.mp hd
  by_cases hid : e.id = segmentId
  · rw [if_pos hid] at hp ⊢
    exact .inl ⟨e, he, rfl, hp⟩
  · rw [if_neg hid] at hp ⊢
    exact .inl ⟨e, he, rfl, hp⟩

/-- A segment written from an erased chunk's store holds the chunk only if it did
before. -/
theorem Erased.segments {s s' : Store} {c : ChunkId} (h : Erased s c) (hs : Keeps s s')
    {d : SegmentDir} (hd : d ∈ s'.segmentDirs) {p : MemoryChunk} (hp : p ∈ d.payload)
    (hid : p.chunkId = c) : ∃ e ∈ s.segmentDirs, e.id = d.id ∧ p ∈ e.payload := by
  rcases hs.segments d hd p hp with he | hp | ⟨r, hr, hrid⟩
  · exact he
  · exact absurd hid (h.pending hp)
  · exact absurd (hrid.trans hid) (h.rows r hr)

/-- A row that points at a payload of its own chunk. -/
def PointsHome (rest : List LogRecord) (s : Store) (r : ChunkRow) : Prop :=
  ∃ p, p.chunkId = r.chunkId ∧ Located rest s p r.segmentId r.ordinal

/-- Inserting a row at the location of its own payload evicts no other row that points
at its own. -/
theorem Layout.pointsHome_insert (hl : s.Layout) {m : ChunkMetadata} {p : MemoryChunk}
    (hloc : Located [] s p m.segmentId m.ordinal) (hid : p.chunkId = m.chunkId) {r : ChunkRow}
    (hr : r ∈ s.db.chunks) (hhome : PointsHome rest s r) :
    ∃ r' ∈ (withDb (·.insert m) s).db.chunks, r'.chunkId = r.chunkId ∧ PointsHome rest s r' := by
  by_cases hsame : r.chunkId = m.chunkId
  · exact ⟨_, Db.mem_insert.mpr (.inr rfl), hsame.symm, p, hid, hloc.mono (by simp)⟩
  · refine ⟨r, Db.mem_insert.mpr (.inl ⟨hr, hsame, ?_⟩), rfl, hhome⟩
    rintro ⟨_, hseg, hord⟩
    obtain ⟨q, hq, hloc'⟩ := hhome
    rw [hseg, hord] at hloc'
    obtain rfl := hloc.unique hl hloc'
    exact hsame (hq.symm.trans hid)

/-- Inserting a row of a located payload keeps rows and payloads. -/
theorem Inv.keeps_insert (h : Inv T K rest s) {m : ChunkMetadata} {p : MemoryChunk}
    (hloc : Located [] s p m.segmentId m.ordinal) (hid : p.chunkId = m.chunkId) :
    Keeps s (withDb (·.insert m) s) := by
  refine Keeps.of_rows rfl ?_
  intro r hr hlive
  obtain ⟨r', hr', hid', _⟩ := h.layout.pointsHome_insert hloc hid hr (h.located r hr hlive)
  exact ⟨r', hr', hid'⟩

end Store
