/-
# The write-ahead log across sessions

Model of `store/wal/reader.rs`, `store/wal/writer.rs` and of the part of
`recover_from_wal` that decides whether the log is truncated.  The log file is a
list of bytes.  A session opens it, may truncate it, appends batches that are
acknowledged, and may end in a crash that leaves a prefix of one more batch.

The writer appends at the end of the file while the reader stops at the first
record that does not decode, so an acknowledged record is readable exactly as
long as no torn bytes lie in front of it.  Recovery removes torn bytes only when
it has a record to replay:

* `acked_readable_of_tailSafe` : acknowledged records stay readable through every
  run in which each appending session opens on a log without torn bytes or with
  a record to replay;
* `torn_first_append_hides_acked` : the first append ever, torn by a crash, hides
  what the next session acknowledges.
-/
import Memd.LogSuffix
import Memd.WalFormat

open LogSuffix

variable (C : BodyCodec)

/-! ## Reader -/

namespace WalReader

/-- Read all valid records: the records and the number of bytes read.  Stops at
the first corrupted record. -/
def readAllRecords (data : List UInt8) : List WalRecord × ℕ := (WalRecord.frame C).scan data

/-- Get the records after the last checkpoint. -/
def recordsForRecovery (data : List UInt8) : List WalRecord :=
  afterLast (fun r => r.recordType = .checkpoint) (readAllRecords C data).1

end WalReader

/-! ## Writer -/

namespace WalWriter

/-- Append a batch of records with one fsync at the end.  Appending one record
writes the same bytes as a batch of one. -/
def appendBatch (file : List UInt8) (records : List WalRecord) : List UInt8 :=
  file ++ records.flatMap (WalRecord.encodeToBytes C)

/-- A crash inside an append: only the first `n` bytes of the batch reach the file. -/
def tornAppend (file : List UInt8) (records : List WalRecord) (n : ℕ) : List UInt8 :=
  file ++ (records.flatMap (WalRecord.encodeToBytes C)).take n

/-- Truncate the log to zero. -/
def truncate (_file : List UInt8) : List UInt8 := []

end WalWriter

/-! ## Sessions -/

/-- How recovery leaves the log when the store is opened. -/
inductive RecoveryOutcome
  /-- Nothing to replay: the log is left as it is. -/
  | untouched
  /-- The records were replayed and the log truncated. -/
  | truncated
  /-- Replaying failed: the store does not open. -/
  | failed
  deriving DecidableEq, Repr

/-- The control flow of `recover_from_wal` around the replay loop.  `replaysOk`
says whether replaying the records succeeds. -/
def recoverFromWal (replaysOk : Bool) (data : List UInt8) : RecoveryOutcome :=
  if data.isEmpty then .untouched
  else if (WalReader.recordsForRecovery C data).isEmpty then .untouched
  else if replaysOk then .truncated
  else .failed

/-- One session of the store on its log. -/
structure WalSession where
  /-- Whether the replay at open succeeds, when there is something to replay. -/
  replaysOk : Bool
  /-- The `append` and `append_batch` calls that return `Ok`. -/
  appends : List (List WalRecord)
  /-- A crash inside one further append: its batch and how many bytes got written. -/
  torn : Option (List WalRecord × ℕ)

/-- The log file, and the records acknowledged since recovery last consumed and
truncated it. -/
structure WalState where
  file : List UInt8
  acked : List WalRecord

namespace WalState

/-- A log without records. -/
def empty : WalState := ⟨[], []⟩

/-- The log after a batch was appended and acknowledged. -/
def append (w : WalState) (batch : List WalRecord) : WalState :=
  ⟨WalWriter.appendBatch C w.file batch, w.acked ++ batch⟩

/-- The writes of a session whose store is open. -/
def write (w : WalState) (σ : WalSession) : WalState :=
  let w := σ.appends.foldl (append C) w
  match σ.torn with
  | none => w
  | some (batch, n) => { w with file := WalWriter.tornAppend C w.file batch n }

/-- A whole session: open, recover, write. -/
def session (w : WalState) (σ : WalSession) : WalState :=
  match recoverFromWal C σ.replaysOk w.file with
  | .failed => w
  | .untouched => w.write C σ
  | .truncated => (WalState.mk (WalWriter.truncate w.file) []).write C σ

/-- The state that a run of sessions leaves. -/
def run (w : WalState) (σs : List WalSession) : WalState := σs.foldl (session C) w

/-- Every acknowledged record is returned by the reader. -/
def AckedReadable (w : WalState) : Prop :=
  ∀ r ∈ w.acked, r ∈ (WalReader.readAllRecords C w.file).1

instance (w : WalState) : Decidable (w.AckedReadable C) := by
  unfold AckedReadable
  infer_instance

/-! ## When acknowledged records stay readable -/

/-- The log ends behind a complete record. -/
def Untorn (file : List UInt8) : Prop := (WalReader.readAllRecords C file).2 = file.length

instance (file : List UInt8) : Decidable (Untorn C file) := by
  unfold Untorn
  infer_instance

/-- What a session must find when it opens the log: unless it appends nothing,
there are no torn bytes or there is a record to replay.  The length field of a
record has 32 bits, so its body must be shorter than that. -/
def TailSafe (file : List UInt8) (σ : WalSession) : Prop :=
  (∀ r ∈ σ.appends.flatten, (C.encode r).length < 2 ^ 32) ∧
    (σ.appends.flatten = [] ∨ Untorn C file ∨ WalReader.recordsForRecovery C file ≠ [])

instance (file : List UInt8) (σ : WalSession) : Decidable (TailSafe C file σ) := by
  unfold TailSafe
  infer_instance

/-- Every session of a run opens on a log that is safe for it. -/
def RunTailSafe (w : WalState) : List WalSession → Prop
  | [] => True
  | σ :: σs => TailSafe C w.file σ ∧ RunTailSafe (w.session C σ) σs

instance decidableRunTailSafe (w : WalState) :
    (σs : List WalSession) → Decidable (w.RunTailSafe C σs)
  | [] => inferInstanceAs (Decidable True)
  | σ :: σs =>
    have := decidableRunTailSafe (w.session C σ) σs
    inferInstanceAs (Decidable (_ ∧ _))

/-- Appending complete records to an untorn log: all of them are read, and the
log is untorn again. -/
theorem readAllRecords_append_of_untorn {file : List UInt8} (hfile : Untorn C file)
    {rs : List WalRecord} (hrs : ∀ r ∈ rs, (C.encode r).length < 2 ^ 32) :
    (WalReader.readAllRecords C (WalWriter.appendBatch C file rs)).1
        = (WalReader.readAllRecords C file).1 ++ rs
      ∧ Untorn C (WalWriter.appendBatch C file rs) := by
  have hscan := (WalRecord.frame C).scan_flatMap (WalRecord.encodeToBytes C) rs
    fun r hr => WalRecord.frame_decode_encodeToBytes C r (hrs r hr)
  have happ := (WalRecord.frame C).scan_append_of_consumed file
    (rs.flatMap (WalRecord.encodeToBytes C)) hfile
  rw [hscan] at happ
  constructor
  · rw [WalReader.readAllRecords, WalWriter.appendBatch, happ]
    rfl
  · rw [Untorn, WalReader.readAllRecords, WalWriter.appendBatch, happ, List.length_append]

/-- Bytes written behind a log hide none of its records. -/
theorem AckedReadable.append_file {w : WalState} (h : w.AckedReadable C) (y : List UInt8) :
    AckedReadable C { w with file := w.file ++ y } := by
  intro r hr
  exact ((WalRecord.frame C).scan_append_left w.file y).subset (h r hr)

/-- One acknowledged batch on an untorn log. -/
theorem AckedReadable.append {w : WalState} (h : w.AckedReadable C) (hw : Untorn C w.file)
    {batch : List WalRecord} (hb : ∀ r ∈ batch, (C.encode r).length < 2 ^ 32) :
    (w.append C batch).AckedReadable C ∧ Untorn C (w.append C batch).file := by
  obtain ⟨hread, hunt⟩ := readAllRecords_append_of_untorn C hw hb
  refine ⟨?_, hunt⟩
  intro r hr
  rw [WalState.append, hread]
  rcases List.mem_append.mp hr with hr | hr
  · exact List.mem_append_left _ (h r hr)
  · exact List.mem_append_right _ hr

/-- All acknowledged batches of a session that opened on an untorn log. -/
theorem AckedReadable.appends {w : WalState} (h : w.AckedReadable C) (hw : Untorn C w.file)
    (batches : List (List WalRecord))
    (hb : ∀ r ∈ batches.flatten, (C.encode r).length < 2 ^ 32) :
    (batches.foldl (WalState.append C) w).AckedReadable C := by
  induction batches generalizing w with
  | nil => exact h
  | cons batch batches ih =>
    rw [List.flatten_cons] at hb
    obtain ⟨h', hw'⟩ := h.append C hw fun r hr => hb r (List.mem_append_left _ hr)
    exact ih h' hw' fun r hr => hb r (List.mem_append_right _ hr)

/-- A session without acknowledged records writes only batches of none. -/
theorem foldl_append_of_flatten_nil (w : WalState) (batches : List (List WalRecord))
    (hb : batches.flatten = []) : batches.foldl (WalState.append C) w = w := by
  induction batches generalizing w with
  | nil => rfl
  | cons batch batches ih =>
    rw [List.flatten_cons, List.append_eq_nil_iff] at hb
    have : w.append C batch = w := by
      rw [WalState.append, hb.1, WalWriter.appendBatch]
      simp
    rw [List.foldl_cons, this, ih w hb.2]

/-- The writes of a session keep acknowledged records readable, if the log they
go to is untorn or nothing is acknowledged. -/
theorem AckedReadable.write {w : WalState} (h : w.AckedReadable C) (σ : WalSession)
    (hσ : ∀ r ∈ σ.appends.flatten, (C.encode r).length < 2 ^ 32)
    (hw : σ.appends.flatten = [] ∨ Untorn C w.file) : (w.write C σ).AckedReadable C := by
  have happ : (σ.appends.foldl (WalState.append C) w).AckedReadable C := by
    rcases hw with hnil | hw
    · rw [foldl_append_of_flatten_nil C w σ.appends hnil]
      exact h
    · exact h.appends C hw σ.appends hσ
  unfold WalState.write
  cases σ.torn with
  | none => exact happ
  | some p => exact happ.append_file C _

theorem untorn_nil : Untorn C [] := rfl

/-- One session on a log that is safe for it. -/
theorem AckedReadable.session {w : WalState} (h : w.AckedReadable C) {σ : WalSession}
    (hσ : TailSafe C w.file σ) : (w.session C σ).AckedReadable C := by
  obtain ⟨hbody, htail⟩ := hσ
  unfold WalState.session
  cases hrec : recoverFromWal C σ.replaysOk w.file with
  | failed => exact h
  | truncated => exact AckedReadable.write C (by simp [AckedReadable]) σ hbody (.inr (untorn_nil C))
  | untouched =>
    refine h.write C σ hbody ?_
    rcases htail with hnil | hunt | hrecs
    · exact .inl hnil
    · exact .inr hunt
    · -- Recovery had a record to replay, so it left the log alone only if it was empty.
      unfold recoverFromWal at hrec
      split_ifs at hrec with h1 h2
      · rw [List.isEmpty_iff.mp h1]
        exact .inr (untorn_nil C)
      · exact absurd (List.isEmpty_iff.mp h2) hrecs

/-- **Log durability across torn tails.**  In every run whose sessions all open on
a log that is safe for them, every record acknowledged since the log was last
truncated is read back at the next open. -/
theorem acked_readable_of_tailSafe (σs : List WalSession)
    (h : RunTailSafe C empty σs) : (empty.run C σs).AckedReadable C := by
  suffices hgen : ∀ (σs : List WalSession) (w : WalState), w.AckedReadable C →
      RunTailSafe C w σs → (w.run C σs).AckedReadable C from
    hgen σs empty (by simp [AckedReadable, empty]) h
  intro σs
  induction σs with
  | nil =>
    intro w hw _
    exact hw
  | cons σ σs ih =>
    rintro w hw ⟨hσ, hσs⟩
    exact ih _ (hw.session C hσ) hσs

/-! ## A torn first append -/

/-- An `Add` record of a small chunk. -/
def sampleAdd (chunkId : String) : WalRecord := ⟨.add, "t", chunkId, 0, [0x7B, 0x7D]⟩

/-- The process dies after one byte of its first append; the next session, which
finds nothing to replay, acknowledges another record. -/
def tornFirstAppend : List WalSession :=
  [⟨true, [], some ([sampleAdd "a"], 1)⟩, ⟨true, [[sampleAdd "b"]], none⟩]

/-- **A torn record hides records acknowledged later.**  Not every run keeps its
acknowledged records readable. -/
theorem torn_first_append_hides_acked :
    ¬ ∀ σs : List WalSession, (empty.run bincodeStandard σs).AckedReadable bincodeStandard := by
  intro h
  have hrun := h tornFirstAppend
  revert hrun
  decide

/-- A crash that tears a batch behind a complete record: the next session replays
that record, so its own acknowledged record is readable. -/
def tornSecondAppend : List WalSession :=
  [⟨true, [[sampleAdd "a"]], some ([sampleAdd "b"], 20)⟩, ⟨true, [[sampleAdd "c"]], none⟩]

theorem acked_readable_tornSecondAppend :
    RunTailSafe bincodeStandard empty tornSecondAppend ∧
      (empty.run bincodeStandard tornSecondAppend).AckedReadable bincodeStandard := by
  have hsafe : RunTailSafe bincodeStandard empty tornSecondAppend := by decide +kernel
  exact ⟨hsafe, acked_readable_of_tailSafe bincodeStandard tornSecondAppend hsafe⟩

end WalState
