/-
# A segment gives back what was appended to it

The writer and the reader of a segment against the abstract segment: the list of the
payloads appended so far, and the set of ordinals marked as deleted.

* `Holds` — the writer's file, buffer and index lay out a list of payloads; every
  operation of the writer keeps it and answers as the list does (`Holds.runs`);
* `Serves` — the files and the open reader of a finalized segment hold a list of payloads
  and a set of marked ordinals; marking and reopening keep it (`Serves.runs`);
* `segment_round_trip_iff` — the whole round trip, and exactly when the count of active
  chunks is right along it.
-/
import Mathlib.Data.Finset.Sort
import Mathlib.Data.List.Induction
import Memd.SegmentFile

open ByteCodec

/-! ## Runs -/

/-- An operation on a writer.  Ordinals are `u32`. -/
inductive WriterOp
  | appendChunk (data : List UInt8)
  | flushPayload
  | readChunk (ordinal : UInt32)
  deriving DecidableEq, Repr

/-- What an operation on a writer returns. -/
inductive WriterOut
  | ordinal (n : ℕ)
  | flushed
  | chunk (payload : Option (List UInt8))
  deriving DecidableEq, Repr

/-- An operation on a finalized segment. -/
inductive ReaderOp
  | markDeleted (ordinal : UInt32)
  | reopen
  deriving DecidableEq, Repr

/-- The payloads a sequence of operations appends. -/
def appended : List WriterOp → List (List UInt8)
  | [] => []
  | .appendChunk data :: ops => data :: appended ops
  | _ :: ops => appended ops

/-- The ordinals a sequence of operations marks. -/
def marked : List ReaderOp → Finset ℕ
  | [] => ∅
  | .markDeleted ordinal :: ops => insert ordinal.toNat (marked ops)
  | .reopen :: ops => marked ops

section Runs

variable (C : SegmentCodec)

/-- One operation on a writer. -/
def WriterOp.run (w : SegmentWriter) : WriterOp → Except SegmentError WriterOut × SegmentWriter
  | .appendChunk data => let r := w.appendChunk C data; (.ok (.ordinal r.1), r.2)
  | .flushPayload => (.ok .flushed, w.flushPayload)
  | .readChunk ordinal => let r := w.readChunk C ordinal.toNat; (r.1.map .chunk, r.2)

/-- A sequence of operations on a writer: the answers, and the writer behind them. -/
def runWriter (w : SegmentWriter) :
    List WriterOp → List (Except SegmentError WriterOut) × SegmentWriter
  | [] => ([], w)
  | op :: ops =>
    let r := op.run C w
    let rest := runWriter r.2 ops
    (r.1 :: rest.1, rest.2)

/-- One operation on a finalized segment: its files and the open reader. -/
def ReaderOp.run (id : ℕ) (s : SegmentFiles × SegmentReader) :
    ReaderOp → Except SegmentError (SegmentFiles × SegmentReader)
  | .markDeleted ordinal => .ok (s.2.markDeleted C s.1 ordinal.toNat)
  | .reopen => (SegmentReader.openSegment C id s.1).map fun r => (s.1, r)

/-- Open the segment and run a sequence of operations on it. -/
def runReader (id : ℕ) (files : SegmentFiles) (ops : List ReaderOp) :
    Except SegmentError (SegmentFiles × SegmentReader) := do
  let r ← SegmentReader.openSegment C id files
  ops.foldlM (ReaderOp.run C id) (files, r)

end Runs

/-! ## The abstract segment -/

/-- What a list of payloads answers to an operation. -/
def WriterOp.answer (ps : List (List UInt8)) : WriterOp → WriterOut
  | .appendChunk _ => .ordinal ps.length
  | .flushPayload => .flushed
  | .readChunk ordinal => .chunk ps[ordinal.toNat]?

/-- The answers of a segment that holds `ps` already. -/
def answers (ps : List (List UInt8)) : List WriterOp → List WriterOut
  | [] => []
  | op :: ops => op.answer ps :: answers (ps ++ appended [op]) ops

/-- The sizes the format admits: every payload has a `u32` length, the ordinals are `u32`s
and the offsets `u64`s. -/
structure Admits (ps : List (List UInt8)) : Prop where
  lengths : ∀ p ∈ ps, p.length < 2 ^ 32
  count : ps.length < 2 ^ 32
  total : ps.flatten.length < 2 ^ 64

/-- The open reader answers as the payloads without the marked ones. -/
structure Agrees (C : SegmentCodec) (ps : List (List UInt8)) (T : Finset ℕ) (r : SegmentReader) :
    Prop where
  reads : ∀ ordinal : UInt32, r.readChunk C ordinal.toNat =
    .ok (if ordinal.toNat ∈ T then none else ps[ordinal.toNat]?)
  active : r.activeCount = some ((Finset.range ps.length).filter (· ∉ T)).card

/-- The round trip of a segment: the writer answers as the list of payloads, and after
finalizing, the segment opens and agrees with the payloads without the marked ones after
every operation on it. -/
def RoundTrips (C : SegmentCodec) (id : ℕ) (now : ℤ) (wops : List WriterOp)
    (rops : List ReaderOp) : Prop :=
  (runWriter C (.create id now) wops).1 = (answers [] wops).map .ok ∧
  ∀ pre, pre <+: rops →
    ∃ files r, runReader C id (runWriter C (.create id now) wops).2.finalize pre = .ok (files, r) ∧
      Agrees C (appended wops) (marked pre) r

/-! ## The layout of the payloads -/

section Layout

variable (C : SegmentCodec)

/-- The index of a segment that holds `ps`. -/
def layout (ps : List (List UInt8)) : List PayloadIndexRecord :=
  ps.mapIdx fun i p => ⟨(ps.take i).flatten.length, p.length, C.crc32 p⟩

/-- One more payload is laid out behind the others. -/
theorem layout_concat (ps : List (List UInt8)) (p : List UInt8) :
    layout C (ps ++ [p]) = layout C ps ++ [⟨ps.flatten.length, p.length, C.crc32 p⟩] := by
  rw [layout, layout, List.mapIdx_concat, List.take_left]
  congr 1
  apply List.mapIdx_eq_mapIdx_iff.mpr
  intro i hi
  rw [List.take_append_of_le_length (Nat.le_of_lt hi)]

/-- Every payload has an entry. -/
theorem length_layout (ps : List (List UInt8)) : (layout C ps).length = ps.length := by
  rw [layout, List.length_mapIdx]

/-- The entry of a payload: where it starts, its length and its checksum. -/
theorem getElem?_layout (ps : List (List UInt8)) (i : ℕ) :
    (layout C ps)[i]? = ps[i]?.map fun p => ⟨(ps.take i).flatten.length, p.length, C.crc32 p⟩ := by
  rw [layout, List.getElem?_mapIdx]

/-- Every payload lies where its index record says. -/
theorem slice_flatten {ps : List (List UInt8)} {i : ℕ} {p : List UInt8} (h : ps[i]? = some p) :
    (ps.take i).flatten.length + p.length ≤ ps.flatten.length ∧
      (ps.flatten.drop (ps.take i).flatten.length).take p.length = p := by
  obtain ⟨hi, rfl⟩ := List.getElem?_eq_some_iff.mp h
  have hsplit : ps.flatten = (ps.take i).flatten ++ (ps[i] ++ (ps.drop (i + 1)).flatten) := by
    rw [← List.flatten_cons, ← List.flatten_append, ← List.drop_eq_getElem_cons hi,
      List.take_append_drop]
  constructor
  · rw [hsplit, List.length_append, List.length_append]
    omega
  · rw [hsplit, List.drop_left, List.take_left]

/-- The index of admitted payloads has fields of the width of their types. -/
theorem fits_layout {ps : List (List UInt8)} (h : Admits ps) : ∀ r ∈ layout C ps, r.Fits := by
  intro r hr
  obtain ⟨i, hi⟩ := List.mem_iff_getElem?.mp hr
  rw [getElem?_layout, Option.map_eq_some_iff] at hi
  obtain ⟨p, hp, rfl⟩ := hi
  refine ⟨?_, h.lengths p (List.mem_of_getElem? hp)⟩
  have hle := (slice_flatten hp).1
  have htotal := h.total
  show (ps.take i).flatten.length < 2 ^ 64
  omega

end Layout

/-- A beginning of what a segment can take it can take. -/
theorem Admits.left {ps qs : List (List UInt8)} (h : Admits (ps ++ qs)) : Admits ps := by
  refine ⟨fun p hp => h.lengths p (List.mem_append_left qs hp), ?_, ?_⟩
  · have := h.count
    rw [List.length_append] at this
    omega
  · have := h.total
    rw [List.flatten_append, List.length_append] at this
    omega

/-! ## The writer -/

section Writer

variable {C : SegmentCodec} {w : SegmentWriter} {ps : List (List UInt8)}

/-- The writer holds the payloads: its file and buffer are their bytes in a row, its index
is their layout. -/
structure Holds (C : SegmentCodec) (w : SegmentWriter) (ps : List (List UInt8)) : Prop where
  written : w.payloadWriter.written = ps.flatten
  payloadLen : w.payloadLen = ps.flatten.length
  indexRecords : w.indexRecords = layout C ps

/-- A new writer holds nothing. -/
theorem holds_create (C : SegmentCodec) (id : ℕ) (now : ℤ) : Holds C (.create id now) [] :=
  ⟨rfl, rfl, rfl⟩

/-- A flush changes nothing of what is held. -/
theorem Holds.flushPayload (h : Holds C w ps) : Holds C w.flushPayload ps :=
  ⟨by rw [SegmentWriter.flushPayload, BufWriter.written_flush, h.written], h.payloadLen,
    h.indexRecords⟩

/-- **An append** holds one more payload. -/
theorem Holds.appendChunk (h : Holds C w ps) {data : List UInt8} (hdata : data.length < 2 ^ 32)
    (hcount : ps.length < 2 ^ 32) :
    (w.appendChunk C data).1 = ps.length ∧ Holds C (w.appendChunk C data).2 (ps ++ [data]) := by
  have hlen : data.length % 2 ^ 32 = data.length := Nat.mod_eq_of_lt hdata
  refine ⟨?_, ?_, ?_, ?_⟩
  · show ((w.indexRecords ++ [_]).length - 1) % 2 ^ 32 = ps.length
    rw [List.length_append, h.indexRecords, length_layout]
    simpa using Nat.mod_eq_of_lt hcount
  · show (w.payloadWriter.writeAll data).written = (ps ++ [data]).flatten
    rw [BufWriter.written_writeAll, h.written, List.flatten_append, List.flatten_singleton]
  · show w.payloadLen + data.length % 2 ^ 32 = (ps ++ [data]).flatten.length
    rw [hlen, h.payloadLen]
    simp
  · show w.indexRecords ++ [_] = layout C (ps ++ [data])
    rw [h.indexRecords, layout_concat, hlen, h.payloadLen]

/-- A read answers as the list, and only flushes. -/
theorem Holds.readChunk (h : Holds C w ps) (ordinal : ℕ) :
    (w.readChunk C ordinal).1 = .ok ps[ordinal]? ∧ Holds C (w.readChunk C ordinal).2 ps := by
  unfold SegmentWriter.readChunk
  rw [h.indexRecords, getElem?_layout]
  cases hp : ps[ordinal]? with
  | none => exact ⟨rfl, h⟩
  | some p =>
    obtain ⟨hle, hslice⟩ := slice_flatten hp
    have hfile : w.flushPayload.payloadWriter.file = ps.flatten := h.written
    simp only [Option.map_some, hfile, Nat.not_lt.mpr hle, if_false, hslice, ne_eq,
      not_true_eq_false]
    exact ⟨trivial, h.flushPayload⟩

/-- One operation of the writer refines the operation of the list of payloads. -/
theorem Holds.run (h : Holds C w ps) (op : WriterOp) (hadm : Admits (ps ++ appended [op])) :
    (op.run C w).1 = .ok (op.answer ps) ∧ Holds C (op.run C w).2 (ps ++ appended [op]) := by
  cases op with
  | appendChunk data =>
    have hdata : data.length < 2 ^ 32 := hadm.lengths data (by simp [appended])
    obtain ⟨hord, hholds⟩ := h.appendChunk hdata hadm.left.count
    exact ⟨by rw [WriterOp.run, hord]; rfl, hholds⟩
  | flushPayload =>
    refine ⟨rfl, ?_⟩
    show Holds C w.flushPayload (ps ++ [])
    rw [List.append_nil]
    exact h.flushPayload
  | readChunk ordinal =>
    obtain ⟨hread, hholds⟩ := h.readChunk ordinal.toNat
    refine ⟨by rw [WriterOp.run, hread]; rfl, ?_⟩
    show Holds C (w.readChunk C ordinal.toNat).2 (ps ++ [])
    rw [List.append_nil]
    exact hholds

/-- What a list of operations appends, one at a time. -/
theorem appended_cons (op : WriterOp) (ops : List WriterOp) :
    appended (op :: ops) = appended [op] ++ appended ops := by
  cases op <;> rfl

/-- A sequence of operations of the writer, by induction over it: the answers are those of
the list of payloads, and the writer holds what was appended. -/
theorem Holds.runs (h : Holds C w ps) (ops : List WriterOp)
    (hadm : Admits (ps ++ appended ops)) :
    (runWriter C w ops).1 = (answers ps ops).map .ok ∧
      Holds C (runWriter C w ops).2 (ps ++ appended ops) := by
  induction ops generalizing w ps with
  | nil =>
    refine ⟨rfl, ?_⟩
    rw [runWriter, appended, List.append_nil]
    exact h
  | cons op ops ih =>
    rw [appended_cons, ← List.append_assoc] at hadm ⊢
    obtain ⟨hop, hnext⟩ := h.run op hadm.left
    obtain ⟨hrest, hholds⟩ := ih hnext hadm
    exact ⟨by rw [runWriter, answers, List.map_cons, hop, hrest], hholds⟩

end Writer

/-! ## The reader -/

section Reader

variable {C : SegmentCodec} {id : ℕ} {files : SegmentFiles} {r : SegmentReader}
  {ps : List (List UInt8)} {T : Finset ℕ}

/-- The files of a finalized segment hold the payloads and the marked ordinals. -/
structure Stores (C : SegmentCodec) (ps : List (List UInt8)) (T : Finset ℕ)
    (files : SegmentFiles) : Prop where
  payloadBin : files.payloadBin = ps.flatten
  payloadIdx : files.payloadIdx =
    segmentMagic ++ (layout C ps).flatMap PayloadIndexRecord.toBytes
  tombstones : SegmentReader.loadOrCreate C files.tombstoneBin = .ok T
  ordinals : ∀ n ∈ T, n < 2 ^ 32

/-- The open reader has the payloads and the marked ordinals in memory. -/
def Serves (C : SegmentCodec) (id : ℕ) (ps : List (List UInt8)) (T : Finset ℕ)
    (r : SegmentReader) : Prop :=
  r = ⟨id, ps.flatten, layout C ps, T⟩

/-- What a writer holds is what a closed segment stores. -/
theorem Holds.stores {w : SegmentWriter} (h : Holds C w ps) : Stores C ps ∅ w.finalize where
  payloadBin := h.written
  payloadIdx := by rw [SegmentWriter.finalize, h.indexRecords]
  tombstones := rfl
  ordinals := by simp

/-- Opening the files puts into memory what they hold. -/
theorem Stores.openSegment (h : Stores C ps T files) (hadm : Admits ps) (id : ℕ) :
    ∃ r, SegmentReader.openSegment C id files = .ok r ∧ Serves C id ps T r := by
  have hindex : SegmentReader.loadIndex files.payloadIdx = .ok (layout C ps) := by
    rw [h.payloadIdx, SegmentReader.loadIndex, if_neg (by simp), List.take_left, if_neg (by simp),
      List.drop_left]
    exact PayloadIndexRecord.parseAll_flatMap (fits_layout C hadm)
  refine ⟨⟨id, ps.flatten, layout C ps, T⟩, ?_, rfl⟩
  rw [SegmentReader.openSegment, hindex, h.tombstones, h.payloadBin]
  rfl

/-- **A mark** adds one ordinal to those marked. -/
theorem Stores.markDeleted (h : Stores C ps T files) (hr : Serves C id ps T r)
    (ordinal : UInt32) :
    Stores C ps (insert ordinal.toNat T) (r.markDeleted C files ordinal.toNat).1 ∧
      Serves C id ps (insert ordinal.toNat T) (r.markDeleted C files ordinal.toNat).2 := by
  subst hr
  have hsmall : ∀ n ∈ insert ordinal.toNat T, n < 2 ^ 32 := by
    intro n hn
    rcases Finset.mem_insert.mp hn with rfl | hn
    · exact ordinal.toNat_lt
    · exact h.ordinals n hn
  refine ⟨⟨h.payloadBin, h.payloadIdx, ?_, hsmall⟩, rfl⟩
  show SegmentReader.loadOrCreate C (some (C.serializeInto (insert ordinal.toNat T))) = _
  rw [SegmentReader.loadOrCreate, C.deserialize_serialize _ hsmall]

/-- One operation on the finalized segment. -/
theorem Stores.run (h : Stores C ps T files) (hr : Serves C id ps T r) (hadm : Admits ps)
    (op : ReaderOp) :
    ∃ files' r', op.run C id (files, r) = .ok (files', r') ∧
      Stores C ps (T ∪ marked [op]) files' ∧ Serves C id ps (T ∪ marked [op]) r' := by
  cases op with
  | markDeleted ordinal =>
    have hT : T ∪ marked [.markDeleted ordinal] = insert ordinal.toNat T := by
      rw [marked, marked]
      ext n
      simp [or_comm]
    rw [hT]
    obtain ⟨hfiles, hreader⟩ := h.markDeleted hr ordinal
    exact ⟨_, _, rfl, hfiles, hreader⟩
  | reopen =>
    have hT : T ∪ marked [.reopen] = T := by simp [marked]
    rw [hT]
    obtain ⟨r', hopen, hserves⟩ := h.openSegment hadm id
    exact ⟨files, r', by rw [ReaderOp.run, hopen]; rfl, h, hserves⟩

/-- What a list of operations marks, one at a time. -/
theorem marked_cons (op : ReaderOp) (ops : List ReaderOp) :
    marked (op :: ops) = marked [op] ∪ marked ops := by
  cases op with
  | markDeleted ordinal => simp [marked]
  | reopen => simp [marked]

/-- A sequence of operations on the finalized segment. -/
theorem Serves.runs (h : Stores C ps T files) (hr : Serves C id ps T r) (hadm : Admits ps)
    (ops : List ReaderOp) :
    ∃ files' r', ops.foldlM (ReaderOp.run C id) (files, r) = .ok (files', r') ∧
      Serves C id ps (T ∪ marked ops) r' := by
  induction ops generalizing files r T with
  | nil => exact ⟨files, r, rfl, by simpa [marked] using hr⟩
  | cons op ops ih =>
    obtain ⟨files₁, r₁, hop, hfiles, hserves⟩ := h.run hr hadm op
    obtain ⟨files₂, r₂, hrest, hserves₂⟩ := ih hfiles hserves
    refine ⟨files₂, r₂, ?_, ?_⟩
    · rw [List.foldlM_cons, hop]
      exact hrest
    · rw [marked_cons, ← Finset.union_assoc]
      exact hserves₂

/-- Reads answer as the payloads without the marked ones. -/
theorem Serves.readChunk (hr : Serves C id ps T r) (ordinal : ℕ) :
    r.readChunk C ordinal = .ok (if ordinal ∈ T then none else ps[ordinal]?) := by
  subst hr
  unfold SegmentReader.readChunk
  simp only [getElem?_layout]
  cases hp : ps[ordinal]? with
  | none => simp
  | some p =>
    obtain ⟨hle, hslice⟩ := slice_flatten hp
    by_cases hT : ordinal ∈ T
    · simp [hT]
    · simp only [Option.map_some, hT, if_false, Nat.not_lt.mpr hle, hslice, ne_eq,
        not_true_eq_false]

/-- The number of payloads without the marked ones, when every mark is of a payload. -/
theorem card_active (hT : ∀ n ∈ T, n < ps.length) :
    ((Finset.range ps.length).filter (· ∉ T)).card = ps.length - T.card := by
  have hsub : T ⊆ Finset.range ps.length := fun n hn => Finset.mem_range.mpr (hT n hn)
  rw [Finset.filter_not, Finset.card_sdiff_of_subset (Finset.filter_subset _ _),
    Finset.filter_mem_eq_inter, Finset.inter_eq_right.mpr hsub, Finset.card_range]

/-- The count is right while every mark is of a payload. -/
theorem Serves.activeCount (hr : Serves C id ps T r) (hadm : Admits ps)
    (hT : ∀ n ∈ T, n < ps.length) :
    r.activeCount = some ((Finset.range ps.length).filter (· ∉ T)).card := by
  subst hr
  have hcount : (layout C ps).length % 2 ^ 32 = ps.length := by
    rw [length_layout, Nat.mod_eq_of_lt hadm.count]
  have hcard : T.card ≤ ps.length := by
    have hsub : T ⊆ Finset.range ps.length := fun n hn => Finset.mem_range.mpr (hT n hn)
    simpa using Finset.card_le_card hsub
  have hmod : T.card % 2 ^ 32 = T.card := Nat.mod_eq_of_lt (Nat.lt_of_le_of_lt hcard hadm.count)
  rw [SegmentReader.activeCount, SegmentReader.chunkCount, hcount, hmod, if_pos hcard,
    card_active hT]

/-- The first mark beyond the payloads makes the count wrong. -/
theorem Serves.activeCount_ne (hadm : Admits ps) (hT : ∀ n ∈ T, n < ps.length) {n : ℕ}
    (hn : ps.length ≤ n) (hr : Serves C id ps (insert n T) r) :
    r.activeCount ≠ some ((Finset.range ps.length).filter (· ∉ insert n T)).card := by
  subst hr
  have hcount : (layout C ps).length % 2 ^ 32 = ps.length := by
    rw [length_layout, Nat.mod_eq_of_lt hadm.count]
  have hnot : n ∉ T := fun h => absurd (hT n h) (Nat.not_lt.mpr hn)
  have hfilter : (Finset.range ps.length).filter (· ∉ insert n T) =
      (Finset.range ps.length).filter (· ∉ T) := by
    apply Finset.filter_congr
    intro k hk
    have hkn : k ≠ n := Nat.ne_of_lt (Nat.lt_of_lt_of_le (Finset.mem_range.mp hk) hn)
    simp [hkn]
  have hcard : T.card ≤ ps.length := by
    have hsub : T ⊆ Finset.range ps.length := fun n hn => Finset.mem_range.mpr (hT n hn)
    simpa using Finset.card_le_card hsub
  have hlt := hadm.count
  rw [SegmentReader.activeCount, SegmentReader.chunkCount, hcount, hfilter, card_active hT,
    Finset.card_insert_of_notMem hnot]
  -- a set as large as `u32` wraps to zero, any smaller one counts one too many
  by_cases hwrap : T.card + 1 = 2 ^ 32
  · rw [hwrap, Nat.mod_self, if_pos (Nat.zero_le _), Ne, Option.some.injEq]
    omega
  · rw [Nat.mod_eq_of_lt (by omega)]
    by_cases hle : T.card + 1 ≤ ps.length
    · rw [if_pos hle, Ne, Option.some.injEq]
      omega
    · rw [if_neg hle]
      simp

end Reader

/-! ## The round trip -/

/-- What two lists of operations mark. -/
theorem marked_append (ops ops' : List ReaderOp) : marked (ops ++ ops') = marked ops ∪ marked ops' := by
  induction ops with
  | nil => simp [marked]
  | cons op ops ih => rw [List.cons_append, marked_cons, ih, marked_cons op ops, Finset.union_assoc]

/-- An ordinal is marked by an operation. -/
theorem mem_marked {ops : List ReaderOp} {n : ℕ} :
    n ∈ marked ops ↔ ∃ ordinal : UInt32, .markDeleted ordinal ∈ ops ∧ ordinal.toNat = n := by
  induction ops with
  | nil => simp [marked]
  | cons op ops ih =>
    cases op with
    | markDeleted ordinal =>
      rw [marked, Finset.mem_insert, ih]
      constructor
      · rintro (rfl | ⟨o, ho, rfl⟩)
        · exact ⟨ordinal, List.mem_cons_self, rfl⟩
        · exact ⟨o, List.mem_cons_of_mem _ ho, rfl⟩
      · rintro ⟨o, ho, rfl⟩
        rcases List.mem_cons.mp ho with ho | ho
        · obtain rfl : o = ordinal := by simpa using ho
          exact .inl rfl
        · exact .inr ⟨o, ho, rfl⟩
    | reopen =>
      rw [marked, ih]
      simp

/-- **A segment round trip**, for every interleaving of operations on the writer and every
sequence of marks and reopenings: reads and ordinals are always right, and the count of
active chunks is right in every state exactly when no mark is beyond the payloads. -/
theorem segment_round_trip_iff (C : SegmentCodec) (id : ℕ) (now : ℤ) (wops : List WriterOp)
    (rops : List ReaderOp) (hadm : Admits (appended wops)) :
    RoundTrips C id now wops rops ↔
      ∀ ordinal, .markDeleted ordinal ∈ rops → ordinal.toNat < (appended wops).length := by
  obtain ⟨hanswers, hholds⟩ := (holds_create C id now).runs wops (by simpa using hadm)
  rw [List.nil_append] at hholds
  have hserves : ∀ ops, ∃ files r,
      runReader C id (runWriter C (.create id now) wops).2.finalize ops = .ok (files, r) ∧
        Serves C id (appended wops) (marked ops) r := by
    intro ops
    obtain ⟨r₀, hopen, hr₀⟩ := hholds.stores.openSegment hadm id
    obtain ⟨files, r, hrun, hr⟩ := Serves.runs hholds.stores hr₀ hadm ops
    rw [Finset.empty_union] at hr
    refine ⟨files, r, ?_, hr⟩
    rw [runReader, hopen]
    exact hrun
  constructor
  · rintro ⟨_, hagrees⟩
    -- the marks of every prefix are in range, by induction over the prefix
    have hrange : ∀ pre, pre <+: rops → ∀ n ∈ marked pre, n < (appended wops).length := by
      intro pre
      induction pre using List.reverseRecOn with
      | nil => simp [marked]
      | append_singleton pre op ih =>
        intro hpre
        have hbefore := ih ((List.prefix_append pre [op]).trans hpre)
        obtain ⟨files, r, hrun, hagree⟩ := hagrees _ hpre
        obtain ⟨files', r', hrun', hr⟩ := hserves (pre ++ [op])
        obtain rfl : r = r' := by
          rw [hrun] at hrun'
          exact congrArg Prod.snd (Except.ok.inj hrun')
        cases op with
        | reopen => simpa [marked_append, marked] using hbefore
        | markDeleted ordinal =>
          have hT : marked (pre ++ [.markDeleted ordinal]) =
              insert ordinal.toNat (marked pre) := by
            rw [marked_append, marked, marked, Finset.union_comm]
            rfl
          rw [hT] at hr hagree ⊢
          have hin : ordinal.toNat < (appended wops).length := by
            by_contra hout
            exact Serves.activeCount_ne hadm hbefore (Nat.not_lt.mp hout) hr hagree.active
          intro n hn
          rcases Finset.mem_insert.mp hn with rfl | hn
          · exact hin
          · exact hbefore n hn
    intro ordinal hmark
    exact hrange rops List.prefix_rfl _ (mem_marked.mpr ⟨ordinal, hmark, rfl⟩)
  · intro hmarks
    refine ⟨hanswers, ?_⟩
    intro pre hpre
    obtain ⟨files, r, hrun, hr⟩ := hserves pre
    have hT : ∀ n ∈ marked pre, n < (appended wops).length := by
      intro n hn
      obtain ⟨ordinal, hmark, rfl⟩ := mem_marked.mp hn
      exact hmarks ordinal (hpre.subset hmark)
    exact ⟨files, r, hrun, fun ordinal => hr.readChunk ordinal.toNat, hr.activeCount hadm hT⟩

/-! ### A sample segment -/

/-- Split bytes into 16-bit words. -/
def words₂ : List UInt8 → List ℕ
  | a :: b :: rest => ofLeBytes [a, b] :: words₂ rest
  | _ => []

/-- Split bytes into 32-bit words. -/
def words₄ : List UInt8 → List ℕ
  | a :: b :: c :: d :: rest => ofLeBytes [a, b, c, d] :: words₄ rest
  | _ => []

/-- Numbers of two bytes are read back. -/
theorem words₂_flatMap {l : List ℕ} (h : ∀ n ∈ l, n < 2 ^ 16) : words₂ (l.flatMap (leBytes 2)) = l := by
  induction l with
  | nil => rfl
  | cons n l ih =>
    have hn : ofLeBytes (leBytes 2 n) = n :=
      ofLeBytes_leBytes_of_lt (by have := h n List.mem_cons_self; omega)
    show ofLeBytes (leBytes 2 n) :: words₂ (l.flatMap (leBytes 2)) = n :: l
    rw [hn, ih fun m hm => h m (List.mem_cons_of_mem n hm)]

/-- Numbers of four bytes are read back. -/
theorem words₄_flatMap {l : List ℕ} (h : ∀ n ∈ l, n < 2 ^ 32) : words₄ (l.flatMap (leBytes 4)) = l := by
  induction l with
  | nil => rfl
  | cons n l ih =>
    have hn : ofLeBytes (leBytes 4 n) = n :=
      ofLeBytes_leBytes_of_lt (by have := h n List.mem_cons_self; omega)
    show ofLeBytes (leBytes 4 n) :: words₄ (l.flatMap (leBytes 4)) = n :: l
    rw [hn, ih fun m hm => h m (List.mem_cons_of_mem n hm)]

/-- The bitmap fits into one array container. -/
def oneContainer (bitmap : Finset ℕ) : Bool :=
  decide (bitmap.card ≤ 4096) && decide (∀ n ∈ bitmap, n < 2 ^ 16)

/-- The portable layout of a bitmap of one array container: the cookie, the number of
containers, the container's key, cardinality and offset, its values.  Bitmaps that need more
containers get a plain layout of their own. -/
def roaringBytes (bitmap : Finset ℕ) : List UInt8 :=
  if bitmap = ∅ then leBytes 4 12346 ++ leBytes 4 0
  else if oneContainer bitmap then
    leBytes 4 12346 ++ leBytes 4 1 ++ leBytes 2 0 ++ leBytes 2 (bitmap.card - 1) ++ leBytes 4 16
      ++ (bitmap.sort (· ≤ ·)).flatMap (leBytes 2)
  else 0xFF :: (bitmap.sort (· ≤ ·)).flatMap (leBytes 4)

/-- Reads a serialized set. -/
def ofRoaringBytes (bytes : List UInt8) : Except String (Finset ℕ) :=
  if bytes.head? = some 0xFF then .ok (words₄ (bytes.drop 1)).toFinset
  else if bytes.take 4 = leBytes 4 12346 then .ok (words₂ (bytes.drop 16)).toFinset
  else .error "unknown cookie value"

/-- **A serialized set** is read back. -/
theorem ofRoaringBytes_roaringBytes {bitmap : Finset ℕ} (h : ∀ n ∈ bitmap, n < 2 ^ 32) :
    ofRoaringBytes (roaringBytes bitmap) = .ok bitmap := by
  unfold roaringBytes
  split
  · next hempty =>
    subst hempty
    rfl
  split
  · next hone =>
    rw [oneContainer, Bool.and_eq_true, decide_eq_true_iff, decide_eq_true_iff] at hone
    have hwords : words₂ ((bitmap.sort (· ≤ ·)).flatMap (leBytes 2)) = bitmap.sort (· ≤ ·) :=
      words₂_flatMap fun n hn => hone.2 n ((Finset.mem_sort _).mp hn)
    show Except.ok (words₂ ((bitmap.sort (· ≤ ·)).flatMap (leBytes 2))).toFinset = _
    rw [hwords, Finset.sort_toFinset]
  · have hwords : words₄ ((bitmap.sort (· ≤ ·)).flatMap (leBytes 4)) = bitmap.sort (· ≤ ·) :=
      words₄_flatMap fun n hn => h n ((Finset.mem_sort _).mp hn)
    show Except.ok (words₄ ((bitmap.sort (· ≤ ·)).flatMap (leBytes 4))).toFinset = _
    rw [hwords, Finset.sort_toFinset]

/-- The checksum and the bitmap layout of a small segment. -/
def sampleCodec : SegmentCodec where
  crc32 := ByteCodec.crc32
  serializeInto := roaringBytes
  deserializeFrom := ofRoaringBytes
  deserialize_serialize _ h := ofRoaringBytes_roaringBytes h

/-- Two payloads, read back before and after a flush; the second is marked and the segment
reopened. -/
theorem segment_round_trip_twoPayloads :
    RoundTrips sampleCodec 1 0
      [.appendChunk [0x68, 0x69], .readChunk 0, .appendChunk [], .flushPayload, .readChunk 1,
        .readChunk 2]
      [.markDeleted 1, .reopen] := by
  refine (segment_round_trip_iff sampleCodec 1 0 _ _ ⟨?_, ?_, ?_⟩).mpr ?_
  · decide
  · decide
  · decide
  · intro ordinal hmark
    obtain rfl : ordinal = 1 := by simpa using hmark
    decide

/-- The segment of one payload. -/
def onePayload : List WriterOp := [.appendChunk [0x68, 0x69]]

/-- A mark beyond the only payload: the count says that no chunk is active although the
payload is, and with a second one the subtraction underflows. -/
theorem mark_beyond_end_miscounts :
    (runReader sampleCodec 1 (runWriter sampleCodec (.create 1 0) onePayload).2.finalize
      [.markDeleted 5]).map (fun s => (s.2.activeCount, (s.2.readChunk sampleCodec 0).toOption)) =
        .ok (some 0, some (some [0x68, 0x69])) ∧
    (runReader sampleCodec 1 (runWriter sampleCodec (.create 1 0) onePayload).2.finalize
      [.markDeleted 5, .markDeleted 6]).map (fun s => s.2.activeCount) = .ok none ∧
    ¬ RoundTrips sampleCodec 1 0 onePayload [.markDeleted 5] := by
  have hcount : (runReader sampleCodec 1
      (runWriter sampleCodec (.create 1 0) onePayload).2.finalize [.markDeleted 5]).map
      (fun s => (s.2.activeCount, (s.2.readChunk sampleCodec 0).toOption)) =
        .ok (some 0, some (some [0x68, 0x69])) := by
    decide +kernel
  refine ⟨hcount, by decide, ?_⟩
  rintro ⟨_, hagrees⟩
  obtain ⟨files, r, hrun, hagree⟩ := hagrees _ List.prefix_rfl
  rw [hrun] at hcount
  have hzero : r.activeCount = some 0 := congrArg Prod.fst (Except.ok.inj hcount)
  rw [hagree.active] at hzero
  exact absurd hzero (by decide)
