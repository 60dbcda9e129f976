/-
# The record format read back

What the framing of `store/wal/format.rs` guarantees to its readers, for every
record list and every cut point:

* a log of complete records followed by a torn one reads back as exactly the
  complete records;
* the streaming reader `readFrom` and the buffer decoder `decodeFromBytes` accept
  the same bytes, return the same record and consume the same length;
* a changed byte in a body is reported, unless the checksum collides.

`wal_record_format` puts the four together.
-/
import Memd.WalLog

namespace WalRecord

variable (C : BodyCodec)

/-! ## The streaming reader -/

/-- The ways `read_from` fails: the reader ends early (`read_exact`), the magic is
wrong, or the bytes read do not decode. -/
inductive ReadError
  | unexpectedEof
  | invalidMagic
  | decode (e : DecodeError)
  deriving DecidableEq, Repr

namespace ReadError

/-- The kind of I/O error that a read error is. -/
def kind : ReadError → ErrorKind
  | unexpectedEof => .unexpectedEof
  | invalidMagic => .invalidData
  | decode e => e.kind

/-- The text of a read error. -/
def message : ReadError → String
  | unexpectedEof => "failed to fill whole buffer"
  | invalidMagic => "invalid WAL magic"
  | decode e => e.message

end ReadError

/-- `Read::read_exact` on a reader over bytes: the bytes asked for and what is left. -/
def readExact (n : ℕ) (reader : List UInt8) : Except ReadError (List UInt8 × List UInt8) :=
  if reader.length < n then .error .unexpectedEof else .ok (reader.take n, reader.drop n)

/-- Read a record from a reader: the record and what is left to read. -/
def readFrom (reader : List UInt8) : Except ReadError (WalRecord × List UInt8) :=
  match readExact walHeaderSize reader with
  | .error e => .error e
  | .ok (head, reader) =>
    if head.take 4 ≠ walMagic then .error .invalidMagic
    else
      match readExact (lengthField head) reader with
      | .error e => .error e
      | .ok (body, reader) =>
        match decodeFromBytes C (head ++ body) with
        | .error e => .error (.decode e)
        | .ok (record, _) => .ok (record, reader)

theorem readExact_eq_ok_iff {n : ℕ} {reader taken rest : List UInt8} :
    readExact n reader = .ok (taken, rest) ↔
      n ≤ reader.length ∧ taken = reader.take n ∧ rest = reader.drop n := by
  unfold readExact
  by_cases h : reader.length < n
  · rw [if_pos h]
    exact ⟨fun h' => absurd h' (by simp), fun h' => absurd h'.1 (by omega)⟩
  · rw [if_neg h, Except.ok.injEq, Prod.mk.injEq]
    exact ⟨fun ⟨h₁, h₂⟩ => ⟨by omega, h₁.symm, h₂.symm⟩, fun ⟨_, h₁, h₂⟩ => ⟨h₁.symm, h₂.symm⟩⟩

/-- The length field lies in the header. -/
theorem lengthField_take {bytes : List UInt8} (h : walHeaderSize ≤ bytes.length) :
    lengthField (bytes.take walHeaderSize) = lengthField bytes := by
  have hlen : walHeaderSize ≤ (bytes.take walHeaderSize).length := by
    rw [List.length_take]
    omega
  have := lengthField_append (bytes.drop walHeaderSize) hlen
  rw [List.take_append_drop] at this
  exact this.symm

/-- Decoding the bytes of a record and nothing else. -/
theorem Decodes.take {C : BodyCodec} {bytes : List UInt8} {r : WalRecord} {n : ℕ}
    (h : Decodes C bytes r n) : Decodes C (bytes.take n) r n := by
  have h13 : walHeaderSize = 13 := rfl
  have hlen : (bytes.take n).length = n := by
    rw [List.length_take]
    have := h.size_le
    omega
  have hhead : walHeaderSize ≤ (bytes.take n).length := by
    rw [hlen, h.size_eq]
    omega
  have hsplit : bytes.take n ++ bytes.drop n = bytes := List.take_append_drop n bytes
  have hfield : lengthField (bytes.take n) = lengthField bytes := by
    rw [← lengthField_append (bytes.drop n) hhead, hsplit]
  have hsize : walHeaderSize + lengthField (bytes.take n) ≤ (bytes.take n).length := by
    rw [hfield, hlen, h.size_eq]
  have hbody : bodyField (bytes.take n) = bodyField bytes := by
    rw [← bodyField_append (bytes.drop n) hhead hsize, hsplit]
  have hcrc : crcField (bytes.take n) = crcField bytes := by
    rw [← crcField_append (bytes.drop n) hhead, hsplit]
  refine ⟨hhead, ?_, ?_, by rw [hfield, h.size_eq], by rw [hlen], ?_, ?_⟩
  · rw [List.take_take, min_eq_left (by omega), h.magic]
  · rw [← h.type_eq]
    conv_rhs => rw [← hsplit]
    rw [List.getD_append _ _ _ _ (by omega)]
  · rw [hbody, hcrc, h.crc_eq]
  · rw [hbody, h.body_eq]

/-- **The two decoders agree.**  One accepts exactly when the other does, with the
same record, and what the reader has left is what the buffer decoder did not consume. -/
theorem readFrom_eq_ok_iff {bytes rest : List UInt8} {r : WalRecord} :
    readFrom C bytes = .ok (r, rest) ↔
      ∃ n, decodeFromBytes C bytes = .ok (r, n) ∧ rest = bytes.drop n := by
  constructor
  · intro h
    unfold readFrom at h
    cases hhead : readExact walHeaderSize bytes with
    | error e => simp [hhead] at h
    | ok p =>
      obtain ⟨head, reader⟩ := p
      obtain ⟨hlen, rfl, rfl⟩ := readExact_eq_ok_iff.mp hhead
      simp only [hhead] at h
      by_cases hmagic : (bytes.take walHeaderSize).take 4 = walMagic
      swap
      · simp [hmagic] at h
      rw [if_neg (by simp [hmagic])] at h
      cases hbody : readExact (lengthField (bytes.take walHeaderSize))
        (bytes.drop walHeaderSize) with
      | error e => simp [hbody] at h
      | ok p =>
        obtain ⟨body, reader⟩ := p
        obtain ⟨hfit, rfl, rfl⟩ := readExact_eq_ok_iff.mp hbody
        simp only [hbody] at h
        rw [lengthField_take hlen] at h hfit
        -- header and body together are a front part of the bytes
        have hfront : bytes.take walHeaderSize ++ (bytes.drop walHeaderSize).take (lengthField bytes)
            = bytes.take (walHeaderSize + lengthField bytes) := List.take_add.symm
        rw [hfront] at h
        cases hdec : decodeFromBytes C (bytes.take (walHeaderSize + lengthField bytes)) with
        | error e => simp [hdec] at h
        | ok p =>
          obtain ⟨r', n⟩ := p
          simp only [hdec, Except.ok.injEq, Prod.mk.injEq] at h
          obtain ⟨rfl, rfl⟩ := h
          have hd := (decodeFromBytes_eq_ok_iff C).mp hdec
          have hd' := hd.append (bytes.drop (walHeaderSize + lengthField bytes))
          rw [List.take_append_drop] at hd'
          refine ⟨n, (decodeFromBytes_eq_ok_iff C).mpr hd', ?_⟩
          rw [hd'.size_eq, List.drop_drop]
  · rintro ⟨n, hdec, rfl⟩
    have hd := (decodeFromBytes_eq_ok_iff C).mp hdec
    have h13 : walHeaderSize = 13 := rfl
    have hlen := hd.header_le
    have hfit : lengthField bytes ≤ (bytes.drop walHeaderSize).length := by
      rw [List.length_drop]
      have := hd.size_le
      rw [hd.size_eq] at this
      omega
    have hfront : bytes.take walHeaderSize ++ (bytes.drop walHeaderSize).take (lengthField bytes)
        = bytes.take n := by
      rw [hd.size_eq]
      exact List.take_add.symm
    have hmagic : (bytes.take walHeaderSize).take 4 = walMagic := by
      rw [List.take_take, min_eq_left (by omega), hd.magic]
    unfold readFrom
    rw [readExact_eq_ok_iff.mpr ⟨hlen, rfl, rfl⟩]
    simp only
    rw [if_neg (by simp [hmagic]), lengthField_take hlen,
      readExact_eq_ok_iff.mpr ⟨hfit, rfl, rfl⟩]
    simp only
    rw [hfront, (decodeFromBytes_eq_ok_iff C).mpr hd.take]
    simp only [Except.ok.injEq, Prod.mk.injEq, true_and]
    rw [List.drop_drop, hd.size_eq]

/-! ## Torn and corrupted records -/

/-- A torn record does not decode: its header is incomplete or announces more bytes than
are there. -/
theorem frame_decode_strict_prefix (r : WalRecord) (h : (C.encode r).length < 2 ^ 32)
    {torn : List UInt8} (hpre : torn <+: r.encodeToBytes C) (hne : torn ≠ r.encodeToBytes C) :
    (frame C).decode torn = none := by
  show (decodeFromBytes C torn).toOption = none
  cases hdec : decodeFromBytes C torn with
  | error e => rfl
  | ok p =>
    obtain ⟨r', n⟩ := p
    have hd := (decodeFromBytes_eq_ok_iff C).mp hdec
    obtain ⟨y, hy⟩ := hpre
    have hfield : lengthField torn = (C.encode r).length := by
      rw [← lengthField_append y hd.header_le, hy]
      have := (fields_header_append C r h rfl []).1
      rwa [List.append_nil, ← encodeToBytes] at this
    have hfull : (r.encodeToBytes C).length ≤ torn.length := by
      rw [length_encodeToBytes, ← hfield, ← hd.size_eq]
      exact hd.size_le
    have hyl : y = [] := by
      have := congrArg List.length hy
      rw [List.length_append] at this
      exact List.length_eq_zero_iff.mp (by omega)
    rw [hyl, List.append_nil] at hy
    exact absurd hy hne

/-- A torn record at the end of a log yields nothing. -/
theorem scan_strict_prefix (r : WalRecord) (h : (C.encode r).length < 2 ^ 32)
    {torn : List UInt8} (hpre : torn <+: r.encodeToBytes C) (hne : torn ≠ r.encodeToBytes C) :
    (frame C).scan torn = ([], 0) :=
  (FrameDecoder.Scans.stop fun _ => frame_decode_strict_prefix C r h hpre hne).scan_eq

/-- A changed byte of the body is reported as a checksum mismatch. -/
theorem decodeFromBytes_corrupt (r : WalRecord) (h : (C.encode r).length < 2 ^ 32) (i : ℕ)
    (b : UInt8) (hcrc : C.crc ((C.encode r).set i b) ≠ C.crc (C.encode r)) (y : List UInt8) :
    decodeFromBytes C (r.header C ++ ((C.encode r).set i b ++ y)) =
      .error (.crcMismatch (C.crc (C.encode r)) (C.crc ((C.encode r).set i b))) := by
  have hset : ((C.encode r).set i b).length = (C.encode r).length := by simp
  obtain ⟨hlenF, hcrcF, hbodyF⟩ := fields_header_append C r h hset y
  have hlen : (r.header C ++ ((C.encode r).set i b ++ y)).length =
      walHeaderSize + (C.encode r).length + y.length := by
    simp only [List.length_append, length_header, List.length_set]
    omega
  have hmagic : (r.header C ++ ((C.encode r).set i b ++ y)).take 4 = walMagic := by
    rw [header]
    simp only [List.append_assoc]
    exact List.take_left' (by rfl)
  have htype : WalRecordType.fromU8 ((r.header C ++ ((C.encode r).set i b ++ y)).getD 4 0)
      = some r.recordType := by
    rw [header]
    simp [walMagic]
  unfold decodeFromBytes
  rw [if_neg (by omega), if_neg (by simp [hmagic])]
  simp only [htype]
  rw [if_neg (by rw [hlenF, hlen]; omega), if_pos (by rw [hbodyF, hcrcF]; exact hcrc), hbodyF,
    hcrcF]

/-! ## The format -/

/-- **The record format.**  For every serializer whose bodies round-trip and every checksum:
complete records followed by a torn one read back as the complete records; a record is
decoded out of any continuation and consumes exactly its own bytes; the streaming reader
and the buffer decoder accept the same bytes with the same record and length; and a single
changed byte in a body is reported when the checksum tells the two bodies apart. -/
theorem wal_record_format :
    (∀ (rs : List WalRecord) (t : List UInt8), (∀ r ∈ rs, (C.encode r).length < 2 ^ 32) →
      (t = [] ∨ ∃ r, (C.encode r).length < 2 ^ 32 ∧ t <+: encodeToBytes C r ∧
        t ≠ encodeToBytes C r) →
      WalReader.readAllRecords C (rs.flatMap (encodeToBytes C) ++ t) =
        (rs, (rs.flatMap (encodeToBytes C)).length)) ∧
    (∀ (r : WalRecord) (y : List UInt8), (C.encode r).length < 2 ^ 32 →
      decodeFromBytes C (encodeToBytes C r ++ y) = .ok (r, (encodeToBytes C r).length)) ∧
    (∀ (bytes : List UInt8) (r : WalRecord) (n : ℕ), decodeFromBytes C bytes = .ok (r, n) ↔
      ∃ rest, readFrom C bytes = .ok (r, rest) ∧ n + rest.length = bytes.length) ∧
    (∀ (r : WalRecord) (i : ℕ) (b : UInt8) (y : List UInt8), (C.encode r).length < 2 ^ 32 →
      i < (C.encode r).length → (C.encode r)[i]? ≠ some b →
      C.crc ((C.encode r).set i b) ≠ C.crc (C.encode r) →
      ∃ e, decodeFromBytes C ((encodeToBytes C r).set (walHeaderSize + i) b ++ y) = .error e) := by
  refine ⟨?_, ?_, ?_, ?_⟩
  · intro rs t hrs ht
    have hscan := (frame C).scan_flatMap_append (encodeToBytes C) rs
      (fun r hr => frame_decode_encodeToBytes C r (hrs r hr)) t
    have htail : (frame C).scan t = ([], 0) := by
      rcases ht with rfl | ⟨r, hr, hpre, hne⟩
      · rfl
      · exact scan_strict_prefix C r hr hpre hne
    rw [htail, List.append_nil, Nat.add_zero] at hscan
    exact hscan
  · intro r y hr
    have hd := (decodeFromBytes_eq_ok_iff C).mp (decodeFromBytes_encodeToBytes C r hr)
    exact (decodeFromBytes_eq_ok_iff C).mpr (hd.append y)
  · intro bytes r n
    constructor
    · intro hdec
      have hsize := ((decodeFromBytes_eq_ok_iff C).mp hdec).size_le
      refine ⟨bytes.drop n, (readFrom_eq_ok_iff C).mpr ⟨n, hdec, rfl⟩, ?_⟩
      rw [List.length_drop]
      omega
    · rintro ⟨rest, hread, hlen⟩
      obtain ⟨m, hdec, rfl⟩ := (readFrom_eq_ok_iff C).mp hread
      have hsize := ((decodeFromBytes_eq_ok_iff C).mp hdec).size_le
      rw [List.length_drop] at hlen
      obtain rfl : n = m := by omega
      exact hdec
  · intro r i b y hr hi hne hcrc
    have hset : (encodeToBytes C r).set (walHeaderSize + i) b =
        r.header C ++ (C.encode r).set i b := by
      rw [encodeToBytes, List.set_append_right _ _ (by rw [length_header]; omega), length_header,
        Nat.add_sub_cancel_left]
    rw [hset, List.append_assoc]
    exact ⟨_, decodeFromBytes_corrupt C r hr i b hcrc y⟩

/-- Two records of the serializer in use and a torn third: the reader returns the two, and a
flipped byte in the second body is reported. -/
theorem wal_record_format_tornThird :
    WalReader.readAllRecords bincodeStandard
        ([WalState.sampleAdd "a", WalState.sampleAdd "b"].flatMap (encodeToBytes bincodeStandard)
          ++ (encodeToBytes bincodeStandard (WalState.sampleAdd "c")).take 15) =
      ([WalState.sampleAdd "a", WalState.sampleAdd "b"],
        ([WalState.sampleAdd "a", WalState.sampleAdd "b"].flatMap
          (encodeToBytes bincodeStandard)).length) ∧
    ∃ e, decodeFromBytes bincodeStandard
      ((encodeToBytes bincodeStandard (WalState.sampleAdd "b")).set (walHeaderSize + 2) 0 ++ [])
        = .error e := by
  obtain ⟨hread, -, -, hcorrupt⟩ := wal_record_format bincodeStandard
  refine ⟨hread _ _ (by decide) (.inr ⟨WalState.sampleAdd "c", by decide,
    List.take_prefix _ _, by decide +kernel⟩), ?_⟩
  exact hcorrupt (WalState.sampleAdd "b") 2 0 [] (by decide) (by decide)
    (by decide +kernel) (by decide +kernel)

end WalRecord
