/-
# The handle behind the write-ahead log

`WalWriter` of `store/wal/writer.rs` with the position its file handle writes at.  `open` opens
the file in append mode, where a write goes to the end of the file.  `create` opens it for
writing: such a handle keeps a position of its own, and `truncate` empties the file without
moving it.

* `Tracked` — what the history of a handle says about the file: a run of zero bytes, then the
  records appended since the last truncate;
* `wal_holds_records_iff` — the file is the concatenation of these records, and the reader
  returns them, exactly if the history leaves no hole.

After a truncate the first append through a created handle that has written before leaves as
many zero bytes in front of its record as the handle had written (`truncated_log_is_unreadable`).
-/
import Memd.WalLog
import Memd.WalRoundTrip

/-! ## Handles -/

/-- `OpenOptions::write` keeps a position, `OpenOptions::append` writes at the end. -/
inductive OpenMode
  | write | append
  deriving DecidableEq, Repr

/-- The file of the log and the handle that writes it. -/
structure OpenWal where
  file : List UInt8
  mode : OpenMode
  /-- where the next write of a `write` handle starts -/
  position : ℕ
  recordsWritten : ℕ
  deriving DecidableEq

/-- How opening a log can fail. -/
inductive WalIoError
  | alreadyExists | notFound
  deriving DecidableEq, Repr

/-- The three ways to a handle. -/
inductive Opening
  | create | open | openOrCreate
  deriving DecidableEq, Repr

namespace OpenWal

/-- `WalWriter::create`. -/
def createWal : Option (List UInt8) → Except WalIoError OpenWal
  | some _ => .error .alreadyExists
  | none => .ok { file := [], mode := .write, position := 0, recordsWritten := 0 }

/-- `WalWriter::open`. -/
def openWal : Option (List UInt8) → Except WalIoError OpenWal
  | none => .error .notFound
  | some file => .ok { file := file, mode := .append, position := 0, recordsWritten := 0 }

/-- `WalWriter::open_or_create`. -/
def openOrCreate (disk : Option (List UInt8)) : Except WalIoError OpenWal :=
  if disk.isSome then openWal disk else createWal disk

/-- A handle to what is on disk. -/
def obtain : Opening → Option (List UInt8) → Except WalIoError OpenWal
  | .create => createWal
  | .open => openWal
  | .openOrCreate => openOrCreate

/-- `write_all` of at least one byte: a position behind the end leaves zero bytes. -/
def writeAll (w : OpenWal) (bytes : List UInt8) : OpenWal :=
  match w.mode with
  | .append => { w with file := w.file ++ bytes }
  | .write =>
    { w with
      file := w.file.take w.position ++ List.replicate (w.position - w.file.length) 0 ++ bytes
        ++ w.file.drop (w.position + bytes.length)
      position := w.position + bytes.length }

variable (C : BodyCodec)

/-- `WalWriter::append`. -/
def append (w : OpenWal) (r : WalRecord) : OpenWal :=
  let w := w.writeAll (r.encodeToBytes C)
  { w with recordsWritten := w.recordsWritten + 1 }

/-- `WalWriter::append_batch`. -/
def appendBatch (w : OpenWal) (records : List WalRecord) : OpenWal :=
  if records.isEmpty then w
  else
    let w := records.foldl (fun w r => w.writeAll (r.encodeToBytes C)) w
    { w with recordsWritten := w.recordsWritten + records.length }

/-- `WalWriter::append_checkpoint`. -/
def appendCheckpoint (w : OpenWal) (tenantId : String) (timestamp : Int64) : OpenWal :=
  w.append C ⟨.checkpoint, tenantId, "", timestamp, []⟩

/-- `WalWriter::truncate`: the length of the file changes, the position does not. -/
def truncate (w : OpenWal) : OpenWal :=
  { w with file := [], recordsWritten := 0 }

end OpenWal

/-! ## Runs -/

/-- The operations on an open log. -/
inductive WalOp
  | append (r : WalRecord)
  | appendBatch (records : List WalRecord)
  | appendCheckpoint (tenantId : String) (timestamp : Int64)
  | truncate
  /-- the handle is dropped for a new one; one that cannot be had leaves the old -/
  | reopen (how : Opening)

variable (C : BodyCodec)

/-- The log after one operation. -/
def OpenWal.step (w : OpenWal) : WalOp → OpenWal
  | .append r => w.append C r
  | .appendBatch records => w.appendBatch C records
  | .appendCheckpoint tenantId timestamp => w.appendCheckpoint C tenantId timestamp
  | .truncate => w.truncate
  | .reopen how => (OpenWal.obtain how (some w.file)).toOption.getD w

/-- The log after a list of operations. -/
def OpenWal.run (w : OpenWal) (ops : List WalOp) : OpenWal := ops.foldl (OpenWal.step C) w

/-- The records an operation appends. -/
def WalOp.appended : WalOp → List WalRecord
  | .append r => [r]
  | .appendBatch records => records
  | .appendCheckpoint tenantId timestamp => [⟨.checkpoint, tenantId, "", timestamp, []⟩]
  | .truncate => []
  | .reopen _ => []

/-- The records appended since the last truncate. -/
def WalOp.since (rs : List WalRecord) : WalOp → List WalRecord
  | .truncate => []
  | op => rs ++ op.appended

/-! ## What the history of a handle says -/

/-- What of the operations so far matters for the next write. -/
structure HandleHistory where
  /-- the handle comes from `create` and has not been replaced -/
  created : Bool
  /-- it has written a record -/
  moved : Bool
  /-- the file was emptied after that, and nothing was written since -/
  emptied : Bool
  /-- the first record since the last truncate was written in this situation -/
  hole : Bool
  deriving DecidableEq, Repr

namespace HandleHistory

/-- A handle made by `create` on a fresh path, or one that was opened. -/
def first (created : Bool) : HandleHistory where
  created := created
  moved := false
  emptied := false
  hole := false

/-- After a record. -/
def wrote (h : HandleHistory) : HandleHistory :=
  { h with moved := true, emptied := false, hole := h.hole || h.emptied }

/-- The history after one operation. -/
def next (h : HandleHistory) : WalOp → HandleHistory
  | .truncate => { h with emptied := h.created && h.moved, hole := false }
  | .reopen .create => h
  | .reopen _ => { first false with hole := h.hole }
  | op => if op.appended.isEmpty then h else h.wrote

/-- The history after a list of operations. -/
def after (h : HandleHistory) (ops : List WalOp) : HandleHistory := ops.foldl next h

end HandleHistory

/-- What the writer promises: the file holds the records appended since the last truncate, and
the reader returns them.  The format has four bytes for the length of a body. -/
def OpenWal.Holds (w : OpenWal) (rs : List WalRecord) : Prop :=
  w.file = rs.flatMap (WalRecord.encodeToBytes C) ∧
    ((∀ r ∈ rs, (C.encode r).length < 2 ^ 32) →
      WalReader.readAllRecords C w.file = (rs, w.file.length))

/-- The file is `zeros` zero bytes and the records, and the position is what the history says. -/
structure OpenWal.Tracked (w : OpenWal) (h : HandleHistory) (rs : List WalRecord) (zeros : ℕ) :
    Prop where
  file : w.file = List.replicate zeros 0 ++ rs.flatMap (WalRecord.encodeToBytes C)
  mode : w.mode = .write ↔ h.created = true
  hole : h.hole = true ↔ 0 < zeros
  moved : h.created = true → (h.moved = true ↔ 0 < w.position)
  emptied : h.emptied = true → h.created = true ∧ h.moved = true ∧ w.file = []
  position : h.created = true → h.emptied = false → w.position = w.file.length

namespace OpenWal

variable {C}
variable {w : OpenWal} {h : HandleHistory} {rs : List WalRecord} {zeros : ℕ}

theorem encodeToBytes_ne_nil (r : WalRecord) : r.encodeToBytes C ≠ [] := by
  intro hnil
  have hlen := WalRecord.length_encodeToBytes C r
  rw [hnil, List.length_nil, walHeaderSize] at hlen
  omega

/-- A write at the end of the file. -/
theorem writeAll_at_end (hend : w.mode = .write → w.position = w.file.length)
    (bytes : List UInt8) : (w.writeAll bytes).file = w.file ++ bytes := by
  unfold writeAll
  cases hmode : w.mode with
  | append => rfl
  | write =>
    have hpos := hend hmode
    show w.file.take w.position ++ List.replicate (w.position - w.file.length) 0 ++ bytes
        ++ w.file.drop (w.position + bytes.length) = w.file ++ bytes
    rw [hpos, List.take_length, Nat.sub_self, List.replicate_zero, List.append_nil,
      List.drop_eq_nil_of_le (by omega), List.append_nil]

/-- A write behind the end of an empty file. -/
theorem writeAll_behind_end (hmode : w.mode = .write) (hfile : w.file = [])
    (bytes : List UInt8) :
    (w.writeAll bytes).file = List.replicate w.position 0 ++ bytes := by
  unfold writeAll
  rw [hmode]
  simp [hfile]

theorem writeAll_mode (w : OpenWal) (bytes : List UInt8) : (w.writeAll bytes).mode = w.mode := by
  unfold writeAll
  cases w.mode with
  | append => rfl
  | write => rfl

theorem writeAll_position (hmode : w.mode = .write) (bytes : List UInt8) :
    (w.writeAll bytes).position = w.position + bytes.length := by
  unfold writeAll
  rw [hmode]

/-- One record: it goes to the end of the file, unless the handle stands behind it. -/
theorem Tracked.write (ht : w.Tracked C h rs zeros) (r : WalRecord) :
    ∃ zeros', (w.writeAll (r.encodeToBytes C)).Tracked C h.wrote (rs ++ [r]) zeros' := by
  have hpos : 0 < (r.encodeToBytes C).length :=
    List.length_pos_iff.mpr (encodeToBytes_ne_nil r)
  have hmove : h.created = true → (h.wrote.moved = true ↔
      0 < (w.writeAll (r.encodeToBytes C)).position) := by
    intro hcreated
    rw [writeAll_position (ht.mode.mpr hcreated)]
    exact ⟨fun _ => by omega, fun _ => rfl⟩
  cases hemptied : h.emptied with
  | true =>
    obtain ⟨hcreated, hmoved, hfile⟩ := ht.emptied hemptied
    have hnil := ht.file
    rw [hfile] at hnil
    have hrs : rs = [] := by
      cases rs with
      | nil => rfl
      | cons r' rs' =>
        have := congrArg List.length hnil
        have hr' := List.length_pos_iff.mpr (encodeToBytes_ne_nil (C := C) r')
        simp at this
        omega
    have hnew := writeAll_behind_end (ht.mode.mpr hcreated) hfile (r.encodeToBytes C)
    refine ⟨w.position, ?_, ?_, ?_, hmove, fun hf => absurd hf (by simp [HandleHistory.wrote]), ?_⟩
    · rw [hnew, hrs]
      simp
    · rw [writeAll_mode]
      exact ht.mode
    · simp only [HandleHistory.wrote, hemptied, Bool.or_true, true_iff]
      exact (ht.moved hcreated).mp hmoved
    · intro _ _
      rw [hnew, writeAll_position (ht.mode.mpr hcreated)]
      simp
  | false =>
    have hend : w.mode = .write → w.position = w.file.length :=
      fun hmode => ht.position (ht.mode.mp hmode) hemptied
    have hnew := writeAll_at_end hend (r.encodeToBytes C)
    refine ⟨zeros, ?_, ?_, ?_, hmove, fun hf => absurd hf (by simp [HandleHistory.wrote]), ?_⟩
    · rw [hnew, ht.file, List.flatMap_append, List.append_assoc, List.flatMap_singleton]
    · rw [writeAll_mode]
      exact ht.mode
    · rw [HandleHistory.wrote, hemptied, Bool.or_false]
      exact ht.hole
    · intro hcreated _
      rw [hnew, writeAll_position (ht.mode.mpr hcreated), ht.position hcreated hemptied,
        List.length_append]

theorem wrote_wrote (h : HandleHistory) : h.wrote.wrote = h.wrote := by
  simp [HandleHistory.wrote]

theorem Tracked.writes (records : List WalRecord) :
    ∀ {w : OpenWal} {h : HandleHistory} {rs : List WalRecord} {zeros : ℕ},
      w.Tracked C h rs zeros → records ≠ [] →
      ∃ zeros', (records.foldl (fun w r => w.writeAll (r.encodeToBytes C)) w).Tracked C h.wrote
        (rs ++ records) zeros' := by
  induction records with
  | nil => exact fun _ hne => absurd rfl hne
  | cons r records ih =>
    intro w h rs zeros ht _
    obtain ⟨zeros₁, h₁⟩ := ht.write r
    by_cases hnil : records = []
    · subst hnil
      exact ⟨zeros₁, h₁⟩
    · obtain ⟨zeros₂, h₂⟩ := ih h₁ hnil
      rw [wrote_wrote, List.append_assoc] at h₂
      exact ⟨zeros₂, h₂⟩

theorem Tracked.count (ht : w.Tracked C h rs zeros) (n : ℕ) :
    { w with recordsWritten := n }.Tracked C h rs zeros :=
  ⟨ht.file, ht.mode, ht.hole, ht.moved, ht.emptied, ht.position⟩

theorem Tracked.truncate (ht : w.Tracked C h rs zeros) :
    w.truncate.Tracked C (h.next .truncate) [] 0 where
  file := rfl
  mode := ht.mode
  hole := by simp [HandleHistory.next]
  moved := ht.moved
  emptied := by
    intro he
    simp only [HandleHistory.next, Bool.and_eq_true] at he
    exact ⟨he.1, he.2, rfl⟩
  position := by
    intro hcreated he
    have hcreated' : h.created = true := hcreated
    simp only [HandleHistory.next, hcreated', Bool.true_and] at he
    have hzero := mt (ht.moved hcreated').mpr (by simp [he])
    show w.position = 0
    omega

/-- A handle to an existing file writes at its end. -/
theorem Tracked.opened (ht : w.Tracked C h rs zeros) :
    OpenWal.Tracked C { file := w.file, mode := .append, position := 0, recordsWritten := 0 }
      { HandleHistory.first false with hole := h.hole } rs zeros where
  file := ht.file
  mode := by simp [HandleHistory.first]
  hole := ht.hole
  moved := by simp [HandleHistory.first]
  emptied := by simp [HandleHistory.first]
  position := by simp [HandleHistory.first]

/-- **One operation.** -/
theorem Tracked.step (ht : w.Tracked C h rs zeros) (op : WalOp) :
    ∃ zeros', (w.step C op).Tracked C (h.next op) (op.since rs) zeros' := by
  cases op with
  | append r =>
    obtain ⟨zeros', h'⟩ := ht.write r
    exact ⟨zeros', h'.count _⟩
  | appendCheckpoint tenantId timestamp =>
    obtain ⟨zeros', h'⟩ := ht.write ⟨.checkpoint, tenantId, "", timestamp, []⟩
    exact ⟨zeros', h'.count _⟩
  | appendBatch records =>
    cases records with
    | nil =>
      refine ⟨zeros, ?_⟩
      show w.Tracked C h (rs ++ []) zeros
      rw [List.append_nil]
      exact ht
    | cons r records =>
      obtain ⟨zeros', h'⟩ := ht.writes (r :: records) (List.cons_ne_nil _ _)
      exact ⟨zeros', h'.count _⟩
  | truncate => exact ⟨0, ht.truncate⟩
  | reopen how =>
    refine ⟨zeros, ?_⟩
    show OpenWal.Tracked C _ _ (rs ++ []) zeros
    rw [List.append_nil]
    cases how with
    | create => exact ht
    | «open» => exact ht.opened
    | openOrCreate => exact ht.opened

theorem Tracked.run (ops : List WalOp) :
    ∀ {w : OpenWal} {h : HandleHistory} {rs : List WalRecord} {zeros : ℕ},
      w.Tracked C h rs zeros →
      ∃ zeros', (w.run C ops).Tracked C (h.after ops) (ops.foldl WalOp.since rs) zeros' := by
  induction ops with
  | nil => exact fun ht => ⟨_, ht⟩
  | cons op ops ih =>
    intro w h rs zeros ht
    obtain ⟨zeros', h'⟩ := ht.step op
    exact ih h'

/-- Without zero bytes in front the file is what was promised. -/
theorem Tracked.holds_iff (ht : w.Tracked C h rs zeros) : w.Holds C rs ↔ h.hole = false := by
  constructor
  · intro hw
    have hlen := congrArg List.length (ht.file.symm.trans hw.1)
    rw [List.length_append, List.length_replicate] at hlen
    rw [← Bool.not_eq_true, ht.hole]
    omega
  · intro hhole
    have hzero : zeros = 0 := by
      have := mt ht.hole.mpr (by simp [hhole])
      omega
    have hfile : w.file = rs.flatMap (WalRecord.encodeToBytes C) := by
      rw [ht.file, hzero]
      rfl
    refine ⟨hfile, fun hsize => ?_⟩
    rw [hfile]
    exact (WalRecord.frame C).scan_flatMap (WalRecord.encodeToBytes C) rs
      fun r hr => WalRecord.frame_decode_encodeToBytes C r (hsize r hr)

end OpenWal

/-! ## The law -/

/-- A log on disk before the first handle: absent, or the encodings of its records. -/
def walOnDisk : Option (List WalRecord) → Option (List UInt8) :=
  Option.map fun rs => rs.flatMap (WalRecord.encodeToBytes C)

/-- **The handle law.**  From every handle and after every list of operations, the file holds the
records appended since the last truncate exactly if the history of the handle leaves no hole. -/
theorem wal_holds_records_iff (existing : Option (List WalRecord)) (first : Opening) (w : OpenWal)
    (hopen : OpenWal.obtain first (walOnDisk C existing) = .ok w) (ops : List WalOp) :
    (w.run C ops).Holds C (ops.foldl WalOp.since (existing.getD [])) ↔
      ((HandleHistory.first (existing.isNone)).after ops).hole = false := by
  have hfirst : w.Tracked C (HandleHistory.first existing.isNone) (existing.getD []) 0 := by
    cases existing with
    | none =>
      have hw : w = { file := [], mode := .write, position := 0, recordsWritten := 0 } := by
        cases first with
        | create => exact (Except.ok.inj hopen).symm
        | «open» => exact absurd hopen (by simp [OpenWal.obtain, OpenWal.openWal, walOnDisk])
        | openOrCreate => exact (Except.ok.inj hopen).symm
      rw [hw]
      refine ⟨rfl, ?_, ?_, ?_, ?_, ?_⟩ <;> simp [HandleHistory.first]
    | some rs =>
      have hw : w = { file := rs.flatMap (WalRecord.encodeToBytes C), mode := .append,
                      position := 0, recordsWritten := 0 } := by
        cases first with
        | create => exact absurd hopen (by simp [OpenWal.obtain, OpenWal.createWal, walOnDisk])
        | «open» => exact (Except.ok.inj hopen).symm
        | openOrCreate => exact (Except.ok.inj hopen).symm
      rw [hw]
      refine ⟨rfl, ?_, ?_, ?_, ?_, ?_⟩ <;> simp [HandleHistory.first]
  obtain ⟨zeros, ht⟩ := hfirst.run ops
  exact ht.holds_iff

/-- A handle on a fresh path, dropped after the truncate for one that appends. -/
theorem wal_holds_records_iff_reopened :
    (OpenWal.run bincodeStandard { file := [], mode := .write, position := 0, recordsWritten := 0 }
        [.append (WalState.sampleAdd "a"), .truncate, .reopen .openOrCreate,
          .append (WalState.sampleAdd "b")]).Holds bincodeStandard [WalState.sampleAdd "b"] ↔
      ((HandleHistory.first true).after
        [.append (WalState.sampleAdd "a"), .truncate, .reopen .openOrCreate,
          .append (WalState.sampleAdd "b")]).hole = false :=
  wal_holds_records_iff bincodeStandard none .create _ rfl
    [.append (WalState.sampleAdd "a"), .truncate, .reopen .openOrCreate,
      .append (WalState.sampleAdd "b")]

/-- **A created handle that truncates its log.**  The next record lands behind a run of zero
bytes, and the reader finds nothing. -/
theorem truncated_log_is_unreadable :
    OpenWal.obtain .create none =
        .ok { file := [], mode := .write, position := 0, recordsWritten := 0 } ∧
      ¬ (OpenWal.run bincodeStandard
          { file := [], mode := .write, position := 0, recordsWritten := 0 }
          [.append (WalState.sampleAdd "a"), .truncate, .append (WalState.sampleAdd "b")]).Holds
        bincodeStandard [WalState.sampleAdd "b"] ∧
      WalReader.readAllRecords bincodeStandard
        (OpenWal.run bincodeStandard
          { file := [], mode := .write, position := 0, recordsWritten := 0 }
          [.append (WalState.sampleAdd "a"), .truncate, .append (WalState.sampleAdd "b")]).file =
        ([], 0) := by
  refine ⟨rfl, fun hholds => ?_, by decide⟩
  exact absurd hholds.1 (by decide)
