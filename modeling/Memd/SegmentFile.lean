/-
# Segment files

Model of `store/segment` and `store/tombstone.rs` on the bytes of the files: the 16-byte
index record and its parser, the append-only `SegmentWriter` behind its buffered file,
and the `SegmentReader` of a finalized segment with its tombstone bitmap.

The checksum and the serializer of the bitmap belong to other crates and are the fields
of `SegmentCodec`; the one thing relied on is that a bitmap of `u32`s reads back.
-/
import Mathlib.Data.Finset.Card
import Mathlib.Data.Finset.Range
import Mathlib.Data.List.Basic
import Memd.ByteCodec

open ByteCodec

/-! ## Errors and outside code -/

/-- `std::io::ErrorKind`, the ones that occur. -/
inductive ErrorKind
  | unexpectedEof | invalidData | other
  deriving DecidableEq, Repr

/-- `io::Error` of the reader and the parser, `MemdError::StorageError` of the writer. -/
inductive SegmentError
  | io (kind : ErrorKind) (msg : String)
  | storageError (msg : String)
  deriving DecidableEq, Repr

/-- The number in hexadecimal, padded to eight digits. -/
def hex8 (n : ℕ) : String :=
  let digits := String.ofList (Nat.toDigits 16 n)
  String.ofList (List.replicate (8 - digits.length) '0') ++ digits

/-- The checksum and the bitmap format of the libraries. -/
structure SegmentCodec where
  /-- `crc32fast::hash` -/
  crc32 : List UInt8 → UInt32
  /-- `RoaringBitmap::serialize_into` -/
  serializeInto : Finset ℕ → List UInt8
  /-- `RoaringBitmap::deserialize_from`, with the text of its error -/
  deserializeFrom : List UInt8 → Except String (Finset ℕ)
  deserialize_serialize : ∀ bitmap : Finset ℕ, (∀ n ∈ bitmap, n < 2 ^ 32) →
    deserializeFrom (serializeInto bitmap) = .ok bitmap

/-! ## Index records -/

/-- Magic bytes at the start of an index file: "MSEG". -/
def segmentMagic : List UInt8 := [0x4D, 0x53, 0x45, 0x47]

/-- Index record for a single payload in a segment. -/
structure PayloadIndexRecord where
  offset : ℕ
  length : ℕ
  crc32 : UInt32
  deriving DecidableEq, Repr

namespace PayloadIndexRecord

/-- Size of a serialized record in bytes. -/
def size : ℕ := 16

/-- The fields have the width of their types. -/
structure Fits (r : PayloadIndexRecord) : Prop where
  offset : r.offset < 2 ^ 64
  length : r.length < 2 ^ 32

/-- Serialize the record to bytes. -/
def toBytes (r : PayloadIndexRecord) : List UInt8 :=
  leBytes 8 r.offset ++ leBytes 4 r.length ++ leBytes 4 r.crc32.toNat

/-- Deserialize a record from bytes. -/
def fromBytes (bytes : List UInt8) : Except SegmentError PayloadIndexRecord :=
  if bytes.length < size then
    .error (.io .unexpectedEof "not enough bytes for PayloadIndexRecord")
  else
    .ok ⟨ofLeBytes (bytes.take 8), ofLeBytes ((bytes.drop 8).take 4),
      UInt32.ofNat (ofLeBytes ((bytes.drop 12).take 4))⟩

/-- Parse all index records from the bytes behind the magic. -/
def parseAll (bytes : List UInt8) : Except SegmentError (List PayloadIndexRecord) :=
  if bytes.length % size ≠ 0 then
    .error (.io .invalidData "invalid index size: not a multiple of record size")
  else
    (List.range (bytes.length / size)).mapM fun i => fromBytes ((bytes.drop (i * size)).take size)

@[simp] theorem length_toBytes (r : PayloadIndexRecord) : r.toBytes.length = size := by
  simp [toBytes, size]

theorem fromBytes_toBytes {r : PayloadIndexRecord} (h : r.Fits) : fromBytes r.toBytes = .ok r := by
  have hoffset : ofLeBytes (r.toBytes.take 8) = r.offset := by
    rw [toBytes, List.append_assoc, List.take_append_of_le_length (by simp),
      List.take_of_length_le (by simp)]
    exact ofLeBytes_leBytes_of_lt (by have := h.offset; omega)
  have hdrop₈ : r.toBytes.drop 8 = leBytes 4 r.length ++ leBytes 4 r.crc32.toNat := by
    rw [toBytes, List.append_assoc, List.drop_left' (by simp)]
  have hdrop₁₂ : r.toBytes.drop 12 = leBytes 4 r.crc32.toNat := by
    rw [toBytes, List.drop_left' (by simp)]
  have hlength : ofLeBytes ((r.toBytes.drop 8).take 4) = r.length := by
    rw [hdrop₈, List.take_left' (by simp)]
    exact ofLeBytes_leBytes_of_lt (by have := h.length; omega)
  have hcrc : ofLeBytes ((r.toBytes.drop 12).take 4) = r.crc32.toNat := by
    rw [hdrop₁₂, List.take_of_length_le (by simp)]
    exact ofLeBytes_leBytes_of_lt r.crc32.toNat_lt
  rw [fromBytes, if_neg (by simp), hoffset, hlength, hcrc, UInt32.ofNat_toNat]

theorem length_flatMap_toBytes (rs : List PayloadIndexRecord) :
    (rs.flatMap toBytes).length = rs.length * size := by
  induction rs with
  | nil => rfl
  | cons r rs ih =>
    rw [List.flatMap_cons, List.length_append, ih, length_toBytes, List.length_cons, Nat.succ_mul,
      Nat.add_comm]

/-- The record at a position of a serialized index. -/
theorem take_drop_flatMap {rs : List PayloadIndexRecord} {i : ℕ} (hi : i < rs.length) :
    ((rs.flatMap toBytes).drop (i * size)).take size = rs[i].toBytes := by
  induction rs generalizing i with
  | nil => exact absurd hi (by simp)
  | cons r rs ih =>
    cases i with
    | zero => simp
    | succ i =>
      have hskip : (i + 1) * size = r.toBytes.length + i * size := by
        rw [length_toBytes, Nat.succ_mul, Nat.add_comm]
      rw [List.flatMap_cons, hskip, ← List.drop_drop, List.drop_left]
      exact ih (by simpa using hi)

theorem mapM_range_eq_ok {α ε : Type} {f : ℕ → Except ε α} {rs : List α}
    (h : ∀ i, (hi : i < rs.length) → f i = .ok rs[i]) :
    (List.range rs.length).mapM f = .ok rs := by
  induction rs generalizing f with
  | nil => rfl
  | cons r rs ih =>
    have hrest : (List.range rs.length).mapM (f ∘ Nat.succ) = .ok rs := by
      apply ih
      intro i hi
      exact h (i + 1) (by simpa using hi)
    have h₀ : f 0 = .ok r := h 0 (by simp)
    rw [List.length_cons, List.range_succ_eq_map, List.mapM_cons, List.mapM_map, hrest, h₀]
    rfl

/-- What the writer serializes, the reader parses. -/
theorem parseAll_flatMap {rs : List PayloadIndexRecord} (h : ∀ r ∈ rs, r.Fits) :
    parseAll (rs.flatMap toBytes) = .ok rs := by
  have hcount : (rs.flatMap toBytes).length / size = rs.length := by
    rw [length_flatMap_toBytes]
    exact Nat.mul_div_cancel _ (by decide)
  have hparse : ∀ i, (hi : i < rs.length) →
      fromBytes (((rs.flatMap toBytes).drop (i * size)).take size) = .ok rs[i] := by
    intro i hi
    rw [take_drop_flatMap hi]
    exact fromBytes_toBytes (h _ (List.getElem_mem hi))
  rw [parseAll, if_neg (by rw [length_flatMap_toBytes]; simp), hcount]
  exact mapM_range_eq_ok hparse

end PayloadIndexRecord

/-! ## The writer -/

/-- `BufWriter<File>`: what is in the file and what is still in the buffer. -/
structure BufWriter where
  file : List UInt8 := []
  buf : List UInt8 := []
  deriving DecidableEq, Repr

namespace BufWriter

/-- The default capacity of the buffer. -/
def capacity : ℕ := 8192

/-- `flush`. -/
def flush (w : BufWriter) : BufWriter :=
  { file := w.file ++ w.buf, buf := [] }

/-- `write_all`: what does not fit into the buffer flushes it first, and what is as long as
the buffer goes to the file directly. -/
def writeAll (w : BufWriter) (data : List UInt8) : BufWriter :=
  if data.length < capacity - w.buf.length then { w with buf := w.buf ++ data }
  else
    let w := if data.length > capacity - w.buf.length then w.flush else w
    if data.length ≥ capacity then { w with file := w.file ++ data }
    else { w with buf := w.buf ++ data }

/-- Everything written so far. -/
def written (w : BufWriter) : List UInt8 :=
  w.file ++ w.buf

@[simp] theorem written_flush (w : BufWriter) : w.flush.written = w.written := by
  simp [flush, written]

@[simp] theorem file_flush (w : BufWriter) : w.flush.file = w.written := rfl

theorem written_writeAll (w : BufWriter) (data : List UInt8) :
    (w.writeAll data).written = w.written ++ data := by
  unfold writeAll
  split
  · simp [written]
  · next hfull =>
    by_cases hgt : data.length > capacity - w.buf.length
    · simp only [hgt, if_true]
      split <;> simp [flush, written]
    · simp only [hgt, if_false]
      split
      · -- the data exactly fills the buffer, so the buffer is empty
        next hbig =>
        have hbuf : w.buf = [] := by
          rw [← List.length_eq_zero_iff]
          have : capacity = 8192 := rfl
          omega
        simp [written, hbuf]
      · simp [written]

end BufWriter

/-- Metadata for a segment. -/
structure SegmentMeta where
  id : ℕ
  chunkCount : ℕ := 0
  createdTs : ℤ
  finalized : Bool := false
  deriving DecidableEq, Repr

/-- The files of a segment directory. -/
structure SegmentFiles where
  payloadBin : List UInt8
  payloadIdx : List UInt8
  metaFile : SegmentMeta
  tombstoneBin : Option (List UInt8) := none
  deriving DecidableEq, Repr

/-- `SegmentWriter`. -/
structure SegmentWriter where
  payloadWriter : BufWriter := {}
  payloadLen : ℕ := 0
  indexRecords : List PayloadIndexRecord := []
  segmentMeta : SegmentMeta
  deriving DecidableEq, Repr

namespace SegmentWriter

variable (C : SegmentCodec)

/-- `SegmentWriter::create`. -/
def create (id : ℕ) (now : ℤ) : SegmentWriter :=
  { segmentMeta := { id := id, createdTs := now } }

/-- Append a chunk payload; the ordinal of the written chunk. -/
def appendChunk (w : SegmentWriter) (data : List UInt8) : ℕ × SegmentWriter :=
  let length := data.length % 2 ^ 32
  let records := w.indexRecords ++ [⟨w.payloadLen, length, C.crc32 data⟩]
  ((records.length - 1) % 2 ^ 32,
    { w with
      payloadWriter := w.payloadWriter.writeAll data
      payloadLen := w.payloadLen + length
      indexRecords := records })

/-- Flush buffered writes to the file. -/
def flushPayload (w : SegmentWriter) : SegmentWriter :=
  { w with payloadWriter := w.payloadWriter.flush }

/-- Read a chunk by ordinal from the active segment. -/
def readChunk (w : SegmentWriter) (ordinal : ℕ) :
    Except SegmentError (Option (List UInt8)) × SegmentWriter :=
  match w.indexRecords[ordinal]? with
  | none => (.ok none, w)
  | some record =>
    let w := w.flushPayload
    let payloadData := w.payloadWriter.file
    let stop := record.offset + record.length
    if stop > payloadData.length then
      (.error (.storageError
        s!"chunk {ordinal} offset out of bounds: {stop} > {payloadData.length}"), w)
    else
      let data := (payloadData.drop record.offset).take record.length
      let computed := C.crc32 data
      if computed ≠ record.crc32 then
        (.error (.storageError s!"chunk {ordinal} CRC mismatch: expected {hex8 record.crc32.toNat}, got {hex8 computed.toNat}"), w)
      else (.ok (some data), w)

/-- Finalize the segment: the payload, the index behind its magic, the metadata last. -/
def finalize (w : SegmentWriter) : SegmentFiles where
  payloadBin := w.payloadWriter.flush.file
  payloadIdx := segmentMagic ++ w.indexRecords.flatMap PayloadIndexRecord.toBytes
  metaFile := { w.segmentMeta with
    chunkCount := w.indexRecords.length % 2 ^ 32
    finalized := true }

end SegmentWriter

/-! ## The reader -/

/-- An open reader: the mapped payload, the parsed index and the tombstones in memory. -/
structure SegmentReader where
  id : ℕ
  payloadMmap : List UInt8
  index : List PayloadIndexRecord
  tombstones : Finset ℕ

namespace SegmentReader

variable (C : SegmentCodec)

/-- `load_index`. -/
def loadIndex (bytes : List UInt8) : Except SegmentError (List PayloadIndexRecord) :=
  if bytes.length < segmentMagic.length then .error (.io .invalidData "index file too small")
  else if bytes.take segmentMagic.length ≠ segmentMagic then
    .error (.io .invalidData "invalid index magic")
  else PayloadIndexRecord.parseAll (bytes.drop segmentMagic.length)

/-- `TombstoneSet::load_or_create`. -/
def loadOrCreate (tombstoneBin : Option (List UInt8)) : Except SegmentError (Finset ℕ) :=
  match tombstoneBin with
  | none => .ok ∅
  | some bytes =>
    match C.deserializeFrom bytes with
    | .ok bitmap => .ok bitmap
    | .error e => .error (.io .other s!"storage error: tombstone deserialize: {e}")

/-- Open a finalized segment for reading; `id` is read off the name of its directory. -/
def openSegment (id : ℕ) (files : SegmentFiles) : Except SegmentError SegmentReader := do
  let index ← loadIndex files.payloadIdx
  let tombstones ← loadOrCreate C files.tombstoneBin
  pure ⟨id, files.payloadBin, index, tombstones⟩

/-- Number of chunks in this segment, tombstoned ones included. -/
def chunkCount (r : SegmentReader) : ℕ :=
  r.index.length % 2 ^ 32

/-- Number of active chunks; `none` where the subtraction underflows. -/
def activeCount (r : SegmentReader) : Option ℕ :=
  let deleted := r.tombstones.card % 2 ^ 32
  if deleted ≤ r.chunkCount then some (r.chunkCount - deleted) else none

/-- Read chunk by ordinal: nothing if tombstoned or out of bounds. -/
def readChunk (r : SegmentReader) (ordinal : ℕ) :
    Except SegmentError (Option (List UInt8)) :=
  match r.index[ordinal]? with
  | none => .ok none
  | some record =>
    if ordinal ∈ r.tombstones then .ok none
    else
      let stop := record.offset + record.length
      if stop > r.payloadMmap.length then
        .error (.io .invalidData s!"segment {r.id} ordinal {ordinal} offset out of bounds")
      else
        let data := (r.payloadMmap.drop record.offset).take record.length
        let computed := C.crc32 data
        if computed ≠ record.crc32 then
          .error (.io .invalidData s!"segment {r.id} ordinal {ordinal} CRC mismatch: expected {hex8 record.crc32.toNat}, got {hex8 computed.toNat}")
        else .ok (some data)

/-- Mark an ordinal as deleted, in memory and in the tombstone file. -/
def markDeleted (files : SegmentFiles) (r : SegmentReader) (ordinal : ℕ) :
    SegmentFiles × SegmentReader :=
  let tombstones := insert ordinal r.tombstones
  ({ files with tombstoneBin := some (C.serializeInto tombstones) },
    { r with tombstones := tombstones })

end SegmentReader
