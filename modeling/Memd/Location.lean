/-
# Where a payload can be read back from

A row of the `chunks` table points at a location, a segment and an ordinal.  This file
says what it means that a payload can be read back from a location — it is sealed in a
finalized segment, or it sits in the active segment, or it is stranded in a segment
that a crash left without `meta` and waits in the log to be replayed — and shows that
every step on segments keeps every located payload located (`SegStep`).
-/
import Memd.PersistentStore

/-- A tombstone or the end of the payload hide a chunk, nothing else. -/
theorem SegmentDir.readChunk_eq_some {d : SegmentDir} {ordinal : ℕ} {p : MemoryChunk} :
    d.readChunk ordinal = some p ↔ ordinal ∉ d.tombstones ∧ d.payload[ordinal]? = some p := by
  by_cases h : ordinal ∈ d.tombstones <;> simp [SegmentDir.readChunk, h]

namespace Store

/-! ## Located payloads -/

/-- A payload the store holds a readable copy of. -/
def Copy (s : Store) (p : MemoryChunk) : Prop :=
  .add p ∈ s.wal ∨ (∃ d ∈ s.segmentDirs, d.finalized = true ∧ p ∈ d.payload) ∨
    ∃ a, s.handle.activeSegment = some a ∧ p ∈ a.chunks

/-- The payload is readable from a finalized segment. -/
def Sealed (s : Store) (p : MemoryChunk) (segmentId ordinal : ℕ) : Prop :=
  ∃ d ∈ s.segmentDirs, d.id = segmentId ∧ d.finalized = true ∧ d.readChunk ordinal = some p

/-- The payload is in the segment open for appending. -/
def InActive (s : Store) (p : MemoryChunk) (segmentId ordinal : ℕ) : Prop :=
  ∃ a, s.handle.activeSegment = some a ∧ a.id = segmentId ∧ a.chunks[ordinal]? = some p

/-- A segment without `meta` that is not the active one. -/
def Stranded (s : Store) (segmentId : ℕ) : Prop :=
  (∃ d ∈ s.segmentDirs, d.id = segmentId ∧ d.finalized = false) ∧
    ∀ a, s.handle.activeSegment = some a → a.id ≠ segmentId

/-- The location yields the payload, where `rest` lists the records that recovery has
still to replay: a payload outside the finalized segments has its Add record behind
the last checkpoint, and one that is not in the active segment either is in `rest`. -/
def Located (rest : List LogRecord) (s : Store) (p : MemoryChunk) (segmentId ordinal : ℕ) :
    Prop :=
  s.Sealed p segmentId ordinal ∨
    .add p ∈ s.recordsForRecovery ∧
      (s.InActive p segmentId ordinal ∨ s.Stranded segmentId ∧ .add p ∈ rest)

theorem Located.mono {rest rest' : List LogRecord} {s : Store} {p : MemoryChunk}
    {segmentId ordinal : ℕ} (h : Located rest s p segmentId ordinal)
    (hr : ∀ r ∈ rest, r ∈ rest') : Located rest' s p segmentId ordinal := by
  rcases h with h | ⟨hadd, h | ⟨hs, hp⟩⟩
  · exact .inl h
  · exact .inr ⟨hadd, .inl h⟩
  · exact .inr ⟨hadd, .inr ⟨hs, hr _ hp⟩⟩

theorem Sealed.copy {s : Store} {p : MemoryChunk} {segmentId ordinal : ℕ}
    (h : s.Sealed p segmentId ordinal) : s.Copy p := by
  obtain ⟨d, hd, _, hfin, hread⟩ := h
  exact .inr (.inl ⟨d, hd, hfin,
    List.mem_of_getElem? (SegmentDir.readChunk_eq_some.mp hread).2⟩)

theorem add_mem_wal {s : Store} {p : MemoryChunk} (h : .add p ∈ s.recordsForRecovery) :
    .add p ∈ s.wal :=
  LogSuffix.mem_of_mem_afterLast _ h

/-- What is located has a copy. -/
theorem Located.copy {rest : List LogRecord} {s : Store} {p : MemoryChunk} {segmentId ordinal : ℕ}
    (h : Located rest s p segmentId ordinal) : s.Copy p := by
  rcases h with h | ⟨h, _⟩
  · exact h.copy
  · exact .inl (add_mem_wal h)

/-! ## The layout of the segments -/

/-- The location has been handed out: its segment exists and, where the segment is still
open, is filled beyond it. -/
def Issued (s : Store) (l : ℕ × ℕ) : Prop :=
  (∃ d ∈ s.segmentDirs, d.id = l.1) ∧
    ∀ a, s.handle.activeSegment = some a → a.id = l.1 → l.2 < a.chunks.length

/-- The active segment has a directory. -/
def ActiveDir (s : Store) : Prop :=
  ∀ a, s.handle.activeSegment = some a → ∃ d ∈ s.segmentDirs, d.id = a.id

/-- How the directories and the handle fit together. -/
structure Layout (s : Store) : Prop where
  dirIds : Table.Keyed (·.id) s.segmentDirs
  active : ∀ a, s.handle.activeSegment = some a →
    ∃ d ∈ s.segmentDirs, d.id = a.id ∧ d.finalized = false
  readers : ∀ id ∈ s.handle.segments, ∃ d ∈ s.segmentDirs, d.id = id ∧ d.finalized = true
  fresh : ∀ d ∈ s.segmentDirs, d.finalized = false → d.tombstones = []
  noFault : s.handle.config.finalizeFails = []

/-- The layout does not see database and log. -/
theorem Layout.congr {s s' : Store} (h : s.Layout) (hd : s'.segmentDirs = s.segmentDirs)
    (hh : s'.handle = s.handle) : s'.Layout where
  dirIds := hd ▸ h.dirIds
  active := by rw [hd, hh]; exact h.active
  readers := by rw [hd, hh]; exact h.readers
  fresh := hd ▸ h.fresh
  noFault := hh ▸ h.noFault

/-- The directory of the active segment has no `meta`. -/
theorem Layout.ne_active {s : Store} (h : s.Layout) {a : ActiveSegment}
    (ha : s.handle.activeSegment = some a) {d : SegmentDir} (hd : d ∈ s.segmentDirs)
    (hfin : d.finalized = true) : d.id ≠ a.id := by
  intro hid
  obtain ⟨e, he, heid, hefin⟩ := h.active a ha
  obtain rfl := h.dirIds.eq hd he (hid.trans heid.symm)
  exact absurd (hfin.symm.trans hefin) (by decide)

theorem dir_eq_some {s : Store} {id : ℕ} {d : SegmentDir} (h : s.dir id = some d) :
    d ∈ s.segmentDirs ∧ d.id = id :=
  ⟨List.mem_of_find?_eq_some h, by simpa using List.find?_some h⟩

/-- A reader belongs to a finalized directory. -/
theorem Layout.reader_eq_some {s : Store} (h : s.Layout) {id : ℕ} {d : SegmentDir}
    (hr : s.reader id = some d) : d ∈ s.segmentDirs ∧ d.id = id ∧ d.finalized = true := by
  unfold reader at hr
  split at hr
  · rename_i hload
    obtain ⟨hd, hid⟩ := dir_eq_some hr
    obtain ⟨e, he, heid, hefin⟩ := h.readers id (by simpa using hload)
    obtain rfl := h.dirIds.eq hd he (hid.trans heid.symm)
    exact ⟨hd, hid, hefin⟩
  · exact absurd hr (by simp)

/-- What a reader returns is sealed. -/
theorem Layout.sealed_of_reader {s : Store} (h : s.Layout) {segmentId ordinal : ℕ} {p : MemoryChunk}
    (hr : (s.reader segmentId).bind (·.readChunk ordinal) = some p) :
    s.Sealed p segmentId ordinal := by
  obtain ⟨d, hd, hread⟩ := Option.bind_eq_some_iff.mp hr
  obtain ⟨hmem, hid, hfin⟩ := h.reader_eq_some hd
  exact ⟨d, hmem, hid, hfin, hread⟩

/-- A location that is sealed or active yields one payload. -/
theorem Located.unique {rest : List LogRecord} {s : Store} {p q : MemoryChunk}
    {segmentId ordinal : ℕ} (hl : s.Layout) (hp : Located [] s p segmentId ordinal)
    (hq : Located rest s q segmentId ordinal) : p = q := by
  rcases hp with ⟨d, hd, hid, hfin, hread⟩ | ⟨_, ⟨a, ha, haid, hget⟩ | ⟨_, hnil⟩⟩
  · -- sealed: the directory of the id is unique
    rcases hq with ⟨e, he, heid, _, hread'⟩ | ⟨_, ⟨a, ha, haid, _⟩ | ⟨⟨⟨e, he, heid, hefin⟩, _⟩, _⟩⟩
    · obtain rfl := hl.dirIds.eq hd he (hid.trans heid.symm)
      exact Option.some.inj (hread.symm.trans hread')
    · exact absurd (hid.trans haid.symm) (hl.ne_active ha hd hfin)
    · obtain rfl := hl.dirIds.eq hd he (hid.trans heid.symm)
      exact absurd (hfin.symm.trans hefin) (by decide)
  · rcases hq with ⟨e, he, heid, hefin, _⟩ | ⟨_, ⟨b, hb, _, hget'⟩ | ⟨⟨_, hne⟩, _⟩⟩
    · exact absurd (heid.trans haid.symm) (hl.ne_active ha he hefin)
    · obtain rfl : a = b := Option.some.inj (ha.symm.trans hb)
      exact Option.some.inj (hget.symm.trans hget')
    · exact absurd haid (hne a ha)
  · exact absurd hnil (by simp)

/-- A payload on its way into a segment: it has been appended, or its Add record is to be
replayed. -/
def Pending (s : Store) (p : MemoryChunk) : Prop :=
  (∃ a, s.handle.activeSegment = some a ∧ p ∈ a.chunks) ∨ .add p ∈ s.recordsForRecovery

/-- A segment step: it leaves database and log alone, invents no payload and keeps
every located payload located. -/
structure SegStep (s s' : Store) : Prop where
  db : s'.db = s.db
  nextId : s'.nextId = s.nextId
  wal : s'.wal = s.wal
  layout : s'.Layout
  copies : ∀ p, s'.Copy p → s.Copy p
  located : ∀ rest p segmentId ordinal, Located rest s p segmentId ordinal →
    Located rest s' p segmentId ordinal
  active : ∀ a, s'.handle.activeSegment = some a → ∀ p ∈ a.chunks, s.Pending p
  dirs : ∀ d ∈ s'.segmentDirs, ∀ p ∈ d.payload,
    (∃ e ∈ s.segmentDirs, e.id = d.id ∧ p ∈ e.payload) ∨ s.Pending p

theorem SegStep.refl {s : Store} (h : s.Layout) : SegStep s s :=
  ⟨rfl, rfl, rfl, h, fun _ h => h, fun _ _ _ _ h => h, fun a ha _ hp => .inl ⟨a, ha, hp⟩,
    fun d hd _ hp => .inl ⟨d, hd, rfl, hp⟩⟩

/-- What is on its way after a segment step was so before. -/
theorem SegStep.pending {s s' : Store} (h : SegStep s s') {p : MemoryChunk} (hp : s'.Pending p) :
    s.Pending p := by
  rcases hp with ⟨a, ha, hp⟩ | hp
  · exact h.active a ha p hp
  · right
    rw [recordsForRecovery, ← h.wal]
    exact hp

theorem SegStep.trans {s₁ s₂ s₃ : Store} (h₁ : SegStep s₁ s₂) (h₂ : SegStep s₂ s₃) :
    SegStep s₁ s₃ where
  db := h₂.db.trans h₁.db
  nextId := h₂.nextId.trans h₁.nextId
  wal := h₂.wal.trans h₁.wal
  layout := h₂.layout
  copies p h := h₁.copies p (h₂.copies p h)
  located rest p i o h := h₂.located rest p i o (h₁.located rest p i o h)
  active a ha p hp := h₁.pending (h₂.active a ha p hp)
  dirs d hd p hp := by
    rcases h₂.dirs d hd p hp with ⟨e, he, hid, hp⟩ | hp
    · rcases h₁.dirs e he p hp with ⟨e', he', hid', hp⟩ | hp
      · exact .inl ⟨e', he', hid'.trans hid, hp⟩
      · exact .inr hp
    · exact .inr (h₁.pending hp)

theorem SegStep.recordsForRecovery {s s' : Store} (h : SegStep s s') :
    s'.recordsForRecovery = s.recordsForRecovery := by
  rw [Store.recordsForRecovery, Store.recordsForRecovery, h.wal]

/-! ## The steps -/

/-- The next segment id lies above every directory and every reader. -/
theorem lt_nextSegmentId_of_mem {s : Store} {id : ℕ}
    (h : id ∈ (s.segmentDirs.map (·.id)) ++ s.handle.segments) : id < s.nextSegmentId := by
  have hle : ∀ (l : List ℕ) (m : ℕ), m ≤ l.foldl max m ∧ ∀ x ∈ l, x ≤ l.foldl max m := by
    intro l
    induction l with
    | nil => simp
    | cons y l ih =>
      intro m
      obtain ⟨h₁, h₂⟩ := ih (max m y)
      refine ⟨Nat.le_trans (Nat.le_max_left m y) h₁, ?_⟩
      intro x hx
      rcases List.mem_cons.mp hx with rfl | hx
      · exact Nat.le_trans (Nat.le_max_right m x) h₁
      · exact h₂ x hx
  exact Nat.lt_succ_of_le ((hle _ 0).2 id h)

/-- More directories and readers, a higher next id. -/
theorem nextSegmentId_le {s s' : Store}
    (h : ∀ id ∈ (s.segmentDirs.map (·.id)) ++ s.handle.segments,
      id ∈ (s'.segmentDirs.map (·.id)) ++ s'.handle.segments) :
    s.nextSegmentId ≤ s'.nextSegmentId := by
  have hle : ∀ (l : List ℕ) (m n : ℕ), m ≤ n → (∀ x ∈ l, x ≤ n) → l.foldl max m ≤ n := by
    intro l
    induction l with
    | nil => exact fun m n hm _ => hm
    | cons y l ih =>
      intro m n hm hl
      refine ih (max m y) n (Nat.max_le.mpr ⟨hm, hl y List.mem_cons_self⟩) ?_
      exact fun x hx => hl x (List.mem_cons_of_mem y hx)
  refine Nat.succ_le_succ (hle _ 0 _ (Nat.zero_le _) ?_)
  intro id hid
  exact Nat.le_of_lt_succ (lt_nextSegmentId_of_mem (h id hid))

theorem lt_nextSegmentId {s : Store} {d : SegmentDir} (hd : d ∈ s.segmentDirs) :
    d.id < s.nextSegmentId :=
  lt_nextSegmentId_of_mem (List.mem_append_left _ (List.mem_map_of_mem hd))

/-- The directories after one of them is rewritten. -/
theorem mem_updateDir {s : Store} {id : ℕ} {f : SegmentDir → SegmentDir} {d : SegmentDir} :
    d ∈ (s.updateDir id f).segmentDirs ↔ ∃ e ∈ s.segmentDirs, d = if e.id = id then f e else e := by
  rw [updateDir, Table.mem_updateWhere]
  simp

/-- A directory other than the rewritten one stays. -/
theorem mem_updateDir_of_ne {s : Store} {id : ℕ} {f : SegmentDir → SegmentDir} {d : SegmentDir}
    (hd : d ∈ s.segmentDirs) (hne : d.id ≠ id) : d ∈ (s.updateDir id f).segmentDirs :=
  mem_updateDir.mpr ⟨d, hd, by rw [if_neg hne]⟩

theorem mem_updateDir_self {s : Store} {id : ℕ} {f : SegmentDir → SegmentDir} {d : SegmentDir}
    (hd : d ∈ s.segmentDirs) (hid : d.id = id) : f d ∈ (s.updateDir id f).segmentDirs :=
  mem_updateDir.mpr ⟨d, hd, by rw [if_pos hid]⟩

theorem keyed_updateDir {s : Store} {id : ℕ} {f : SegmentDir → SegmentDir}
    (h : Table.Keyed (·.id) s.segmentDirs) (hf : ∀ d, (f d).id = d.id) :
    Table.Keyed (·.id) (s.updateDir id f).segmentDirs :=
  h.updateWhere _ f hf

/-- Sealing the active segment moves its payloads into a finalized directory. -/
theorem segStep_sealActive {s : Store} {a : ActiveSegment} (hl : s.Layout)
    (ha : s.handle.activeSegment = some a) :
    (s.sealActive a).1 = .ok () ∧ SegStep s (s.sealActive a).2 ∧
      (s.sealActive a).2.handle.activeSegment = none := by
  obtain ⟨d₀, hd₀, hid₀, hfin₀⟩ := hl.active a ha
  let f : SegmentDir → SegmentDir := fun d => { d with payload := a.chunks, finalized := true }
  have heq : s.sealActive a = (.ok (), ((s.setActive none).updateDir a.id f).load a.id) := by
    simp [sealActive, hl.noFault, f]
  rw [heq]
  have hdirs : (((s.setActive none).updateDir a.id f).load a.id).segmentDirs =
      (s.updateDir a.id f).segmentDirs := rfl
  have hother : ∀ d ∈ s.segmentDirs, d.finalized = true → d.id ≠ a.id :=
    fun d hd hfin => hl.ne_active ha hd hfin
  refine ⟨rfl, ⟨rfl, rfl, rfl, ⟨?_, ?_, ?_, ?_, hl.noFault⟩, ?_, ?_, ?_, ?_⟩, rfl⟩
  · exact keyed_updateDir hl.dirIds fun _ => rfl
  · intro b hb
    exact absurd hb (by simp [load, updateDir, setActive])
  · intro id hid
    rcases List.mem_append.mp hid with hid | hid
    · obtain ⟨d, hd, hdid, hfin⟩ := hl.readers id hid
      exact ⟨d, mem_updateDir_of_ne hd (hother d hd hfin), hdid, hfin⟩
    · obtain rfl := List.mem_singleton.mp hid
      exact ⟨f d₀, mem_updateDir_self hd₀ hid₀, hid₀, rfl⟩
  · intro d hd hfin
    obtain ⟨e, he, rfl⟩ := mem_updateDir.mp hd
    by_cases hid : e.id = a.id
    · rw [if_pos hid] at hfin
      exact absurd hfin (by simp [f])
    · rw [if_neg hid] at hfin ⊢
      exact hl.fresh e he hfin
  · rintro p (hp | ⟨d, hd, hfin, hp⟩ | ⟨b, hb, _⟩)
    · exact .inl hp
    · obtain ⟨e, he, rfl⟩ := mem_updateDir.mp hd
      by_cases hid : e.id = a.id
      · rw [if_pos hid] at hp
        exact .inr (.inr ⟨a, ha, hp⟩)
      · rw [if_neg hid] at hp hfin
        exact .inr (.inl ⟨e, he, hfin, hp⟩)
    · exact absurd hb (by simp [load, updateDir, setActive])
  · rintro rest p i o (⟨d, hd, hid, hfin, hread⟩ | ⟨hadd, ⟨b, hb, hbid, hget⟩ | ⟨⟨⟨d, hd, hid, hfin⟩, hne⟩, hrest⟩⟩)
    · exact .inl ⟨d, mem_updateDir_of_ne hd (hother d hd hfin), hid, hfin, hread⟩
    · obtain rfl : a = b := Option.some.inj (ha.symm.trans hb)
      refine .inl ⟨f d₀, mem_updateDir_self hd₀ hid₀, hid₀.trans hbid, rfl, ?_⟩
      rw [SegmentDir.readChunk_eq_some]
      exact ⟨by simp [f, hl.fresh d₀ hd₀ hfin₀], hget⟩
    · refine .inr ⟨hadd, .inr ⟨⟨⟨d, mem_updateDir_of_ne hd ?_, hid, hfin⟩, ?_⟩, hrest⟩⟩
      · rw [hid]
        exact (hne a ha).symm
      · intro b hb
        exact absurd hb (by simp [load, updateDir, setActive])
  · intro b hb
    exact absurd hb (by simp [load, updateDir, setActive])
  · intro d hd p hp
    obtain ⟨e, he, rfl⟩ := mem_updateDir.mp hd
    by_cases hid : e.id = a.id
    · rw [if_pos hid] at hp
      exact .inr (.inl ⟨a, ha, hp⟩)
    · rw [if_neg hid] at hp ⊢
      exact .inl ⟨e, he, rfl, hp⟩

theorem segStep_rotateIfFull {s : Store} (hl : s.Layout) (maxChunks : ℕ) :
    (rotateIfFull maxChunks s).1 = .ok () ∧ SegStep s (rotateIfFull maxChunks s).2 := by
  unfold rotateIfFull
  cases ha : s.handle.activeSegment with
  | none => exact ⟨rfl, .refl hl⟩
  | some a =>
    by_cases hfull : a.chunks.length < maxChunks
    · simp only [hfull, if_true]
      exact ⟨trivial, .refl hl⟩
    · simp only [hfull, if_false]
      obtain ⟨h₁, h₂, _⟩ := segStep_sealActive hl ha
      exact ⟨h₁, h₂⟩

/-- A new segment gets an id of its own. -/
theorem segStep_createIfNone {s : Store} (hl : s.Layout) :
    SegStep s s.createIfNone ∧ ∃ a, s.createIfNone.handle.activeSegment = some a := by
  unfold createIfNone
  cases ha : s.handle.activeSegment with
  | some a => exact ⟨.refl hl, a, ha⟩
  | none =>
    refine ⟨⟨rfl, rfl, rfl, ⟨?_, ?_, ?_, ?_, hl.noFault⟩, ?_, ?_, ?_, ?_⟩, _, rfl⟩
    · show Table.Keyed (·.id) (s.segmentDirs ++ [{ id := s.nextSegmentId }])
      rw [Table.Keyed, List.map_append, List.nodup_append]
      refine ⟨hl.dirIds, List.nodup_singleton _, ?_⟩
      intro x hx y hy hxy
      obtain ⟨d, hd, rfl⟩ := List.mem_map.mp hx
      obtain rfl : y = s.nextSegmentId := by simpa using hy
      exact absurd hxy (Nat.ne_of_lt (lt_nextSegmentId hd))
    · intro b hb
      obtain rfl : ({ id := s.nextSegmentId } : ActiveSegment) = b := Option.some.inj hb
      exact ⟨_, List.mem_append_right _ (List.mem_singleton_self _), rfl, rfl⟩
    · intro id hid
      obtain ⟨d, hd, h⟩ := hl.readers id hid
      exact ⟨d, List.mem_append_left _ hd, h⟩
    · intro d hd hfin
      rcases List.mem_append.mp hd with hd | hd
      · exact hl.fresh d hd hfin
      · obtain rfl := List.mem_singleton.mp hd
        rfl
    · rintro p (hp | ⟨d, hd, hfin, hp⟩ | ⟨b, hb, hp⟩)
      · exact .inl hp
      · rcases List.mem_append.mp hd with hd | hd
        · exact .inr (.inl ⟨d, hd, hfin, hp⟩)
        · obtain rfl := List.mem_singleton.mp hd
          exact absurd hfin (by simp)
      · obtain rfl : ({ id := s.nextSegmentId } : ActiveSegment) = b := Option.some.inj hb
        exact absurd hp (by simp)
    · rintro rest p i o (⟨d, hd, h⟩ | ⟨hadd, ⟨b, hb, _⟩ | ⟨⟨⟨d, hd, hid, hfin⟩, _⟩, hrest⟩⟩)
      · exact .inl ⟨d, List.mem_append_left _ hd, h⟩
      · exact absurd (ha.symm.trans hb) (by simp)
      · refine .inr ⟨hadd, .inr ⟨⟨⟨d, List.mem_append_left _ hd, hid, hfin⟩, ?_⟩, hrest⟩⟩
        intro b hb
        obtain rfl : ({ id := s.nextSegmentId } : ActiveSegment) = b := Option.some.inj hb
        rw [← hid]
        exact (Nat.ne_of_lt (lt_nextSegmentId hd)).symm
    · intro b hb p hp
      obtain rfl : ({ id := s.nextSegmentId } : ActiveSegment) = b := Option.some.inj hb
      exact absurd hp (by simp)
    · intro d hd p hp
      rcases List.mem_append.mp hd with hd | hd
      · exact .inl ⟨d, hd, rfl, hp⟩
      · obtain rfl := List.mem_singleton.mp hd
        exact absurd hp (by simp)

/-- Appending a logged payload: it can be read back from the location returned. -/
theorem segStep_appendToActive {s : Store} {a : ActiveSegment} {chunk : MemoryChunk} (hl : s.Layout)
    (ha : s.handle.activeSegment = some a) (hlog : .add chunk ∈ s.recordsForRecovery)
    (msg : String) :
    (appendToActive msg chunk s).1 = .ok (a.id, a.chunks.length) ∧
      SegStep s (appendToActive msg chunk s).2 ∧
      (appendToActive msg chunk s).2.InActive chunk a.id a.chunks.length := by
  have heq : appendToActive msg chunk s = (.ok (a.id, a.chunks.length),
      s.setActive (some { a with chunks := a.chunks ++ [chunk] })) := by
    simp [appendToActive, ha]
  rw [heq]
  refine ⟨rfl, ⟨rfl, rfl, rfl, ⟨hl.dirIds, ?_, hl.readers, hl.fresh, hl.noFault⟩, ?_, ?_, ?_,
    fun d hd _ hp => .inl ⟨d, hd, rfl, hp⟩⟩, { a with chunks := a.chunks ++ [chunk] }, rfl, rfl,
    by simp⟩
  · intro b hb
    obtain rfl : { a with chunks := a.chunks ++ [chunk] } = b := Option.some.inj hb
    exact hl.active a ha
  · rintro p (hp | hp | ⟨b, hb, hp⟩)
    · exact .inl hp
    · exact .inr (.inl hp)
    · obtain rfl : { a with chunks := a.chunks ++ [chunk] } = b := Option.some.inj hb
      rcases List.mem_append.mp hp with hp | hp
      · exact .inr (.inr ⟨a, ha, hp⟩)
      · obtain rfl := List.mem_singleton.mp hp
        exact .inl (add_mem_wal hlog)
  · rintro rest p i o (h | ⟨hadd, ⟨b, hb, hbid, hget⟩ | ⟨⟨hdir, hne⟩, hrest⟩⟩)
    · exact .inl h
    · obtain rfl : a = b := Option.some.inj (ha.symm.trans hb)
      refine .inr ⟨hadd, .inl ⟨_, rfl, hbid, ?_⟩⟩
      have hlt := (List.getElem?_eq_some_iff.mp hget).1
      show (a.chunks ++ [chunk])[o]? = some p
      rw [List.getElem?_append_left hlt]
      exact hget
    · refine .inr ⟨hadd, .inr ⟨⟨hdir, ?_⟩, hrest⟩⟩
      intro b hb
      obtain rfl : { a with chunks := a.chunks ++ [chunk] } = b := Option.some.inj hb
      exact hne a ha
  · intro b hb p hp
    obtain rfl : { a with chunks := a.chunks ++ [chunk] } = b := Option.some.inj hb
    rcases List.mem_append.mp hp with hp | hp
    · exact .inl ⟨a, ha, hp⟩
    · obtain rfl := List.mem_singleton.mp hp
      exact .inr hlog

/-- Flushing writes payload bytes of a segment that has no `meta` yet. -/
theorem segStep_flushActive {s : Store} (hl : s.Layout) : SegStep s s.flushActive := by
  unfold flushActive
  cases ha : s.handle.activeSegment with
  | none => exact .refl hl
  | some a =>
    obtain ⟨d₀, hd₀, hid₀, hfin₀⟩ := hl.active a ha
    let f : SegmentDir → SegmentDir := fun d => { d with payload := a.chunks }
    have hother : ∀ d ∈ s.segmentDirs, d.finalized = true → d.id ≠ a.id :=
      fun d hd hfin => hl.ne_active ha hd hfin
    have hkeep : ∀ d ∈ s.segmentDirs, ∃ e ∈ (s.updateDir a.id f).segmentDirs,
        e.id = d.id ∧ e.finalized = d.finalized := by
      intro d hd
      by_cases hid : d.id = a.id
      · exact ⟨f d, mem_updateDir_self hd hid, rfl, rfl⟩
      · exact ⟨d, mem_updateDir_of_ne hd hid, rfl, rfl⟩
    refine ⟨rfl, rfl, rfl, ⟨keyed_updateDir hl.dirIds fun _ => rfl, ?_, ?_, ?_, hl.noFault⟩, ?_, ?_,
      fun b hb _ hp => .inl ⟨b, hb, hp⟩, ?_⟩
    · intro b hb
      obtain ⟨d, hd, hid, hfin⟩ := hl.active b hb
      obtain ⟨e, he, heid, hefin⟩ := hkeep d hd
      exact ⟨e, he, heid.trans hid, hefin.trans hfin⟩
    · intro id hid
      obtain ⟨d, hd, hdid, hfin⟩ := hl.readers id hid
      exact ⟨d, mem_updateDir_of_ne hd (hother d hd hfin), hdid, hfin⟩
    · intro d hd hfin
      obtain ⟨e, he, rfl⟩ := mem_updateDir.mp hd
      by_cases hid : e.id = a.id
      · rw [if_pos hid] at hfin ⊢
        exact hl.fresh e he hfin
      · rw [if_neg hid] at hfin ⊢
        exact hl.fresh e he hfin
    · rintro p (hp | ⟨d, hd, hfin, hp⟩ | hp)
      · exact .inl hp
      · obtain ⟨e, he, rfl⟩ := mem_updateDir.mp hd
        by_cases hid : e.id = a.id
        · rw [if_pos hid] at hp
          exact .inr (.inr ⟨a, ha, hp⟩)
        · rw [if_neg hid] at hp hfin
          exact .inr (.inl ⟨e, he, hfin, hp⟩)
      · exact .inr (.inr hp)
    · rintro rest p i o (⟨d, hd, hid, hfin, hread⟩ | ⟨hadd, h | ⟨⟨⟨d, hd, hid, hfin⟩, hne⟩, hrest⟩⟩)
      · exact .inl ⟨d, mem_updateDir_of_ne hd (hother d hd hfin), hid, hfin, hread⟩
      · exact .inr ⟨hadd, .inl h⟩
      · obtain ⟨e, he, heid, hefin⟩ := hkeep d hd
        exact .inr ⟨hadd, .inr ⟨⟨⟨e, he, heid.trans hid, hefin.trans hfin⟩, hne⟩, hrest⟩⟩
    · intro d hd p hp
      obtain ⟨e, he, rfl⟩ := mem_updateDir.mp hd
      by_cases hid : e.id = a.id
      · rw [if_pos hid] at hp
        exact .inr (.inl ⟨a, ha, hp⟩)
      · rw [if_neg hid] at hp ⊢
        exact .inl ⟨e, he, rfl, hp⟩

/-- After finalizing, no segment is open for appending. -/
theorem segStep_finalizeActive {s : Store} (hl : s.Layout) :
    s.finalizeActive.1 = .ok () ∧ SegStep s s.finalizeActive.2 ∧
      s.finalizeActive.2.handle.activeSegment = none := by
  unfold finalizeActive
  cases ha : s.handle.activeSegment with
  | none => exact ⟨rfl, .refl hl, ha⟩
  | some a =>
    by_cases hempty : a.chunks.length > 0
    · simp only [hempty, if_true]
      exact segStep_sealActive hl ha
    · simp only [hempty, if_false]
      have hnil : a.chunks = [] := List.length_eq_zero_iff.mp (by omega)
      refine ⟨trivial, ⟨rfl, rfl, rfl, ⟨hl.dirIds, ?_, hl.readers, hl.fresh, hl.noFault⟩, ?_, ?_, ?_,
        fun d hd _ hp => .inl ⟨d, hd, rfl, hp⟩⟩, rfl⟩
      · intro b hb
        exact absurd hb (by simp [setActive])
      · rintro p (hp | hp | ⟨b, hb, _⟩)
        · exact .inl hp
        · exact .inr (.inl hp)
        · exact absurd hb (by simp [setActive])
      · rintro rest p i o (h | ⟨hadd, ⟨b, hb, _, hget⟩ | ⟨⟨hdir, _⟩, hrest⟩⟩)
        · exact .inl h
        · obtain rfl : a = b := Option.some.inj (ha.symm.trans hb)
          exact absurd hget (by simp [hnil])
        · refine .inr ⟨hadd, .inr ⟨⟨hdir, ?_⟩, hrest⟩⟩
          intro b hb
          exact absurd hb (by simp [setActive])
      · intro b hb
        exact absurd hb (by simp [setActive])

end Store
