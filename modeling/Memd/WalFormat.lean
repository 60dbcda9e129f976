/-
# The write-ahead log record format

Model of `store/wal/format.rs`: the record type, the framing of a record as
`Magic(4B) | Type(1B) | Length(4B) | CRC32(4B) | Payload`, and the decoder with
all of its error paths.

The body of a record is serialized by a third-party crate and its checksum is
computed by another, so both are a parameter (`BodyCodec`) of the development.
The one thing the format relies on is that a body decodes back to the record it
came from; `bincodeStandard` shows that the documented layout of the serializer
and the CRC-32 in use are such a codec.
-/
import Mathlib.Data.List.GetD
import Memd.ByteCodec
import Memd.FramedLog

open ByteCodec

/-! ## Records -/

/-- WAL record types. -/
inductive WalRecordType
  | add
  | delete
  | checkpoint
  | taskArtifact
  deriving DecidableEq, Repr

namespace WalRecordType

/-- The discriminant written in the header. -/
def toU8 : WalRecordType → UInt8
  | add => 1
  | delete => 2
  | checkpoint => 3
  | taskArtifact => 4

/-- Convert from `u8`; `none` for invalid values. -/
def fromU8 (value : UInt8) : Option WalRecordType :=
  if value = 1 then some add
  else if value = 2 then some delete
  else if value = 3 then some checkpoint
  else if value = 4 then some taskArtifact
  else none

@[simp] theorem fromU8_toU8 (t : WalRecordType) : fromU8 t.toU8 = some t := by
  cases t <;> rfl

end WalRecordType

/-- A WAL record.  `payload` is the serialized chunk of an `add`, the serialized
bundle of a `taskArtifact`, and empty otherwise. -/
structure WalRecord where
  recordType : WalRecordType
  tenantId : String
  chunkId : String
  timestamp : Int64
  payload : List UInt8
  deriving DecidableEq

/-- The serializer of record bodies and the checksum over them. -/
structure BodyCodec where
  encode : WalRecord → List UInt8
  /-- Decode a body; bytes behind it are ignored. -/
  decode : List UInt8 → Option WalRecord
  crc : List UInt8 → UInt32
  decode_encode : ∀ r, (encode r).length < 2 ^ 32 → decode (encode r) = some r

/-! ## Encoding -/

/-- Magic bytes identifying a WAL record: "MWAL". -/
def walMagic : List UInt8 := [0x4D, 0x57, 0x41, 0x4C]

/-- Header size in bytes: magic(4) + type(1) + length(4) + crc(4). -/
def walHeaderSize : ℕ := 13

namespace WalRecord

variable (C : BodyCodec)

/-- The bytes in front of a body.  The length is cast to `u32`. -/
def header (r : WalRecord) : List UInt8 :=
  walMagic ++ [r.recordType.toU8] ++ leBytes 4 (C.encode r).length
    ++ leBytes 4 (C.crc (C.encode r)).toNat

/-- Encode a record to bytes. -/
def encodeToBytes (r : WalRecord) : List UInt8 := r.header C ++ C.encode r

@[simp] theorem length_header (r : WalRecord) : (r.header C).length = walHeaderSize := by
  simp [header, walMagic, walHeaderSize]

theorem length_encodeToBytes (r : WalRecord) :
    (r.encodeToBytes C).length = walHeaderSize + (C.encode r).length := by
  rw [encodeToBytes, List.length_append, length_header]

/-! ## Decoding -/

/-- The ways decoding fails. -/
inductive DecodeError
  | headerEof
  | invalidMagic (got : List UInt8)
  | invalidRecordType (typeByte : UInt8)
  | truncated (expected have_ : ℕ)
  | crcMismatch (expected computed : UInt32)
  | deserialize
  | typeMismatch
  deriving DecidableEq, Repr

/-- The two `io::ErrorKind`s the decoder reports. -/
inductive ErrorKind
  | unexpectedEof
  | invalidData
  deriving DecidableEq, Repr

namespace DecodeError

/-- The kind of I/O error that a decode error becomes. -/
def kind : DecodeError → ErrorKind
  | headerEof => .unexpectedEof
  | truncated _ _ => .unexpectedEof
  | _ => .invalidData

/-- Eight upper-case hexadecimal digits. -/
def hex8 (c : UInt32) : String :=
  let digits := (Nat.toDigits 16 c.toNat).map Char.toUpper
  String.ofList (List.replicate (8 - digits.length) '0' ++ digits)

/-- The text of the error; the detail of a serializer error is the serializer's. -/
def message : DecodeError → String
  | headerEof => "not enough bytes for WAL header"
  | invalidMagic got => "invalid WAL magic: expected " ++ toString (walMagic.map UInt8.toNat)
      ++ ", got " ++ toString (got.map UInt8.toNat)
  | invalidRecordType b => "invalid WAL record type: " ++ toString b.toNat
  | truncated expected have_ => "truncated WAL record: expected " ++ toString expected
      ++ " bytes, have " ++ toString have_
  | crcMismatch expected computed => "WAL CRC mismatch: expected " ++ hex8 expected
      ++ ", computed " ++ hex8 computed
  | deserialize => "failed to deserialize WAL record"
  | typeMismatch => "WAL record type mismatch between header and payload"

end DecodeError

/-- The length field of a header. -/
def lengthField (bytes : List UInt8) : ℕ := ofLeBytes ((bytes.drop 5).take 4)

/-- The checksum field of a header. -/
def crcField (bytes : List UInt8) : UInt32 := UInt32.ofNat (ofLeBytes ((bytes.drop 9).take 4))

/-- The body announced by a header. -/
def bodyField (bytes : List UInt8) : List UInt8 :=
  (bytes.drop walHeaderSize).take (lengthField bytes)

/-- Decode a record from bytes: the record and the number of bytes consumed. -/
def decodeFromBytes (bytes : List UInt8) : Except DecodeError (WalRecord × ℕ) :=
  if bytes.length < walHeaderSize then .error .headerEof
  else if bytes.take 4 ≠ walMagic then .error (.invalidMagic (bytes.take 4))
  else
    let typeByte := bytes.getD 4 0
    match WalRecordType.fromU8 typeByte with
    | none => .error (.invalidRecordType typeByte)
    | some recordType =>
      let totalSize := walHeaderSize + lengthField bytes
      if bytes.length < totalSize then .error (.truncated totalSize bytes.length)
      else if C.crc (bodyField bytes) ≠ crcField bytes then
        .error (.crcMismatch (crcField bytes) (C.crc (bodyField bytes)))
      else
        match C.decode (bodyField bytes) with
        | none => .error .deserialize
        | some record =>
          if record.recordType ≠ recordType then .error .typeMismatch
          else .ok (record, totalSize)

/-- What a successful decode has checked. -/
structure Decodes (bytes : List UInt8) (r : WalRecord) (n : ℕ) : Prop where
  header_le : walHeaderSize ≤ bytes.length
  magic : bytes.take 4 = walMagic
  type_eq : WalRecordType.fromU8 (bytes.getD 4 0) = some r.recordType
  size_eq : n = walHeaderSize + lengthField bytes
  size_le : n ≤ bytes.length
  crc_eq : C.crc (bodyField bytes) = crcField bytes
  body_eq : C.decode (bodyField bytes) = some r

theorem decodeFromBytes_eq_ok_iff {bytes : List UInt8} {r : WalRecord} {n : ℕ} :
    decodeFromBytes C bytes = .ok (r, n) ↔ Decodes C bytes r n := by
  constructor
  · intro h
    unfold decodeFromBytes at h
    by_cases hlen : bytes.length < walHeaderSize
    · simp [hlen] at h
    by_cases hmagic : bytes.take 4 = walMagic
    swap
    · simp [hlen, hmagic] at h
    rw [if_neg hlen, if_neg (by simp [hmagic])] at h
    cases hty : WalRecordType.fromU8 (bytes.getD 4 0) with
    | none =>
      simp only [hty] at h
      cases h
    | some t =>
      simp only [hty] at h
      by_cases hsize : bytes.length < walHeaderSize + lengthField bytes
      · simp [hsize] at h
      by_cases hcrc : C.crc (bodyField bytes) = crcField bytes
      swap
      · simp [hsize, hcrc] at h
      rw [if_neg hsize, if_neg (by simp [hcrc])] at h
      cases hbody : C.decode (bodyField bytes) with
      | none => simp [hbody] at h
      | some r' =>
        by_cases hrt : r'.recordType = t
        swap
        · simp [hbody, hrt] at h
        simp only [hbody, hrt, ne_eq, not_true_eq_false, if_false, Except.ok.injEq,
          Prod.mk.injEq] at h
        obtain ⟨rfl, rfl⟩ := h
        exact ⟨by omega, hmagic, by rw [hty, hrt], rfl, by omega, hcrc, hbody⟩
  · rintro ⟨hlen, hmagic, hty, rfl, hsize, hcrc, hbody⟩
    unfold decodeFromBytes
    rw [if_neg (by omega), if_neg (by simp [hmagic])]
    simp only [hty]
    rw [if_neg (by omega), if_neg (by simp [hcrc])]
    simp [hbody]

/-! ## The decoder reads its own record only -/

section Append

variable {C}
variable {bytes : List UInt8} (y : List UInt8) (h : walHeaderSize ≤ bytes.length)
include h

theorem lengthField_append : lengthField (bytes ++ y) = lengthField bytes := by
  have h13 : walHeaderSize = 13 := rfl
  rw [lengthField, List.drop_append_of_le_length (by omega),
    List.take_append_of_le_length (by rw [List.length_drop]; omega), ← lengthField]

theorem crcField_append : crcField (bytes ++ y) = crcField bytes := by
  have h13 : walHeaderSize = 13 := rfl
  rw [crcField, List.drop_append_of_le_length (by omega),
    List.take_append_of_le_length (by rw [List.length_drop]; omega), ← crcField]

theorem bodyField_append (hsize : walHeaderSize + lengthField bytes ≤ bytes.length) :
    bodyField (bytes ++ y) = bodyField bytes := by
  rw [bodyField, lengthField_append y h, List.drop_append_of_le_length h,
    List.take_append_of_le_length (by rw [List.length_drop]; omega), ← bodyField]

end Append

theorem Decodes.append {C : BodyCodec} {bytes : List UInt8} {r : WalRecord} {n : ℕ}
    (h : Decodes C bytes r n) (y : List UInt8) : Decodes C (bytes ++ y) r n := by
  have h13 : walHeaderSize = 13 := rfl
  have hlen := h.header_le
  have hsize : walHeaderSize + lengthField bytes ≤ bytes.length := h.size_eq ▸ h.size_le
  refine ⟨?_, ?_, ?_, ?_, ?_, ?_, ?_⟩
  · rw [List.length_append]
    omega
  · rw [List.take_append_of_le_length (by omega), h.magic]
  · rw [List.getD_append _ _ _ _ (by omega), h.type_eq]
  · rw [lengthField_append y hlen, h.size_eq]
  · rw [List.length_append]
    have := h.size_le
    omega
  · rw [bodyField_append y hlen hsize, crcField_append y hlen, h.crc_eq]
  · rw [bodyField_append y hlen hsize, h.body_eq]

/-- The record decoder as a frame decoder: `none` for every error. -/
def frame : FrameDecoder UInt8 WalRecord where
  header := walHeaderSize
  decode := fun bytes => (decodeFromBytes C bytes).toOption
  header_pos := by decide
  decode_size := by
    intro d r n h
    have h' : decodeFromBytes C d = .ok (r, n) := by
      cases hd : decodeFromBytes C d with
      | error e => simp [hd, Except.toOption] at h
      | ok p => simpa [hd, Except.toOption] using h
    have hdec := (decodeFromBytes_eq_ok_iff C).mp h'
    exact ⟨by rw [hdec.size_eq]; omega, hdec.size_le⟩
  decode_append := by
    intro d r n y h
    have h' : decodeFromBytes C d = .ok (r, n) := by
      cases hd : decodeFromBytes C d with
      | error e => simp [hd, Except.toOption] at h
      | ok p => simpa [hd, Except.toOption] using h
    have hdec := ((decodeFromBytes_eq_ok_iff C).mp h').append y
    rw [(decodeFromBytes_eq_ok_iff C).mpr hdec]
    rfl

/-! ## Round trip -/

/-- The header announces the length of the body. -/
theorem lengthField_header (r : WalRecord) (h : (C.encode r).length < 2 ^ 32) :
    lengthField (r.header C) = (C.encode r).length := by
  rw [lengthField, header]
  simp only [walMagic, List.cons_append, List.nil_append, List.drop_succ_cons, List.drop_zero]
  rw [List.take_append_of_le_length (by simp), List.take_of_length_le (by simp),
    ofLeBytes_leBytes_of_lt (by omega)]

/-- The header carries the checksum of the body. -/
theorem crcField_header (r : WalRecord) : crcField (r.header C) = C.crc (C.encode r) := by
  have hdrop : (r.header C).drop 9 = leBytes 4 (C.crc (C.encode r)).toNat := by
    rw [header]
    exact List.drop_left' (by simp [walMagic])
  rw [crcField, hdrop, List.take_of_length_le (by simp),
    ofLeBytes_leBytes_of_lt (by have := (C.crc (C.encode r)).toNat_lt; omega)]
  simp

/-- The header of a record in front of as many bytes as it announces. -/
theorem fields_header_append (r : WalRecord) (h : (C.encode r).length < 2 ^ 32)
    {body : List UInt8} (hbody : body.length = (C.encode r).length) (y : List UInt8) :
    lengthField (r.header C ++ (body ++ y)) = (C.encode r).length ∧
      crcField (r.header C ++ (body ++ y)) = C.crc (C.encode r) ∧
      bodyField (r.header C ++ (body ++ y)) = body := by
  have hlen : walHeaderSize ≤ (r.header C).length := by rw [length_header]
  have hlenF : lengthField (r.header C ++ (body ++ y)) = (C.encode r).length := by
    rw [lengthField_append _ hlen, lengthField_header C r h]
  refine ⟨hlenF, ?_, ?_⟩
  · rw [crcField_append _ hlen, crcField_header]
  · rw [bodyField, hlenF, List.drop_left' (length_header C r), ← hbody]
    exact List.take_left

/-- A record whose body is shorter than `2 ^ 32` bytes decodes to itself. -/
theorem decodeFromBytes_encodeToBytes (r : WalRecord) (h : (C.encode r).length < 2 ^ 32) :
    decodeFromBytes C (r.encodeToBytes C) = .ok (r, (r.encodeToBytes C).length) := by
  obtain ⟨hlenF, hcrcF, hbodyF⟩ := fields_header_append C r h rfl []
  rw [List.append_nil, ← encodeToBytes] at hlenF hcrcF hbodyF
  have hlen := length_encodeToBytes C r
  rw [decodeFromBytes_eq_ok_iff]
  refine ⟨by omega, ?_, ?_, by rw [hlenF, hlen], Nat.le_refl _, by rw [hbodyF, hcrcF],
    by rw [hbodyF, C.decode_encode r h]⟩
  · rw [encodeToBytes, header]
    simp only [List.append_assoc]
    exact List.take_left' (by rfl)
  · rw [encodeToBytes, header]
    simp [walMagic]

/-- The same round trip, read by the frame decoder. -/
theorem frame_decode_encodeToBytes (r : WalRecord) (h : (C.encode r).length < 2 ^ 32) :
    (frame C).decode (r.encodeToBytes C) = some (r, (r.encodeToBytes C).length) := by
  show (decodeFromBytes C (r.encodeToBytes C)).toOption = _
  rw [decodeFromBytes_encodeToBytes C r h]
  rfl

end WalRecord

/-! ## The serializer and the checksum in use -/

namespace WalRecordType

/-- The variant index that the serializer writes for a unit variant. -/
def variantIndex : WalRecordType → ℕ
  | add => 0
  | delete => 1
  | checkpoint => 2
  | taskArtifact => 3

/-- The record type behind a variant index. -/
def ofVariantIndex : ℕ → Option WalRecordType
  | 0 => some add
  | 1 => some delete
  | 2 => some checkpoint
  | 3 => some taskArtifact
  | _ => none

@[simp] theorem ofVariantIndex_variantIndex (t : WalRecordType) :
    ofVariantIndex t.variantIndex = some t := by
  cases t <;> rfl

end WalRecordType

/-- The UTF-8 bytes of a string. -/
def utf8Bytes (s : String) : List UInt8 := s.toByteArray.data.toList

/-- The string of a list of bytes, when they are valid UTF-8. -/
def ofUtf8Bytes (b : List UInt8) : Option String := String.fromUTF8? ⟨b.toArray⟩

@[simp] theorem ofUtf8Bytes_utf8Bytes (s : String) : ofUtf8Bytes (utf8Bytes s) = some s := by
  rw [ofUtf8Bytes, utf8Bytes, Array.toArray_toList, String.fromUTF8?, dif_pos s.isValidUTF8]
  rfl

namespace WalRecord

/-- A record body in the serializer's standard configuration: fields in order,
strings and byte vectors behind their lengths, the timestamp in zigzag. -/
def encodeBody (r : WalRecord) : List UInt8 :=
  varint r.recordType.variantIndex ++ (block (utf8Bytes r.tenantId)
    ++ (block (utf8Bytes r.chunkId) ++ (varint (zigzag r.timestamp.toInt) ++ block r.payload)))

/-- Reads the body of a record. -/
def decodeBody (d : List UInt8) : Option WalRecord := do
  let (variant, d) ← readVarint d
  let recordType ← WalRecordType.ofVariantIndex variant
  let (tenant, d) ← readBlock d
  let tenantId ← ofUtf8Bytes tenant
  let (chunk, d) ← readBlock d
  let chunkId ← ofUtf8Bytes chunk
  let (ts, d) ← readVarint d
  let (payload, _) ← readBlock d
  some ⟨recordType, tenantId, chunkId, Int64.ofInt (unzigzag ts), payload⟩

theorem decodeBody_encodeBody (r : WalRecord) (h : (encodeBody r).length < 2 ^ 32) :
    decodeBody (encodeBody r) = some r := by
  have hlen : (utf8Bytes r.tenantId).length < 2 ^ 64 ∧ (utf8Bytes r.chunkId).length < 2 ^ 64
      ∧ r.payload.length < 2 ^ 64 := by
    simp only [encodeBody, block, List.length_append] at h
    omega
  have hvar : r.recordType.variantIndex < 2 ^ 64 := by
    cases r.recordType <;> decide
  have hts : zigzag r.timestamp.toInt < 2 ^ 64 :=
    zigzag_lt r.timestamp.le_toInt r.timestamp.toInt_lt
  have hpay := readBlock_append hlen.2.2 []
  rw [List.append_nil] at hpay
  unfold decodeBody encodeBody
  simp [readVarint_append hvar, readBlock_append hlen.1, readBlock_append hlen.2.1,
    readVarint_append hts, hpay, unzigzag_zigzag]

end WalRecord

/-- The documented layout of the serializer with the CRC-32 checksum. -/
def bincodeStandard : BodyCodec where
  encode := WalRecord.encodeBody
  decode := WalRecord.decodeBody
  crc := crc32
  decode_encode := WalRecord.decodeBody_encodeBody
