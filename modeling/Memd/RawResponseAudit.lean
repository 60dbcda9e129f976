/-
# The audit of a model response

`consolidate/service.rs`: `write_raw_response_audit` stores the response a consolidation came
from beside its hash, cut where the file would grow too large, and `validate_raw_response_audit`
checks the file of a run.

* `shrink` — the loop that cuts; it ends since an empty response always fits;
* `writeRawResponseAudit` and `validateRawResponseAudit` on a data directory;
* `rawResponseAudit_law` — the writer never cuts inside a character, and the validator takes
  what it wrote.

SHA-256 is any function into 256 bits.  The reader of JSON documents is a parameter that is to
read back what the writer's side prints (`ReadsRecords`); objects are printed with their keys in
order.  Of the file system only a file that is already there makes the writer fail.
-/
import Mathlib.Logic.Function.Basic
import Memd.JsonText
import Memd.OmfDocument
import Memd.WalFormat

namespace RawResponseAudit

open Utf8Text JsonText

/-! ## Texts, hashes and ids -/

/-- The most bytes a string has, `isize::MAX`. -/
def isizeMax : ℕ := 2 ^ 63 - 1

/-- A `&str`: its characters take no more bytes than an allocation may have. -/
structure Str where
  chars : List Char
  byteLen_le : byteLen chars ≤ isizeMax

/-- The last `k` hexadecimal digits of a number. -/
def hexDigits : ℕ → ℕ → List Char
  | 0, _ => []
  | k + 1, n => Nat.digitChar (n / 16 ^ k % 16) :: hexDigits k n

/-- `hexDigits` gives exactly as many digits as asked. -/
theorem length_hexDigits (k n : ℕ) : (hexDigits k n).length = k := by
  induction k with
  | zero => rfl
  | succ k ih => rw [hexDigits, List.length_cons, ih]

/-- Digits, the letters up to `f`, and the hyphen of an id. -/
def IsIdChar (c : Char) : Prop :=
  c ∈ "0123456789abcdef-".toList

/-- The hexadecimal digits are among the characters of an id. -/
theorem isIdChar_digitChar : ∀ n < 16, IsIdChar (Nat.digitChar n) := by
  unfold IsIdChar
  decide

/-- A printed hexadecimal number has only id characters. -/
theorem isIdChar_of_mem_hexDigits {k n : ℕ} {c : Char} (h : c ∈ hexDigits k n) : IsIdChar c := by
  induction k with
  | zero => exact absurd h List.not_mem_nil
  | succ k ih =>
    rcases List.mem_cons.mp h with rfl | h
    · exact isIdChar_digitChar _ (Nat.mod_lt _ (by decide))
    · exact ih h

/-- An id takes a byte a character, and nothing of it is escaped. -/
theorem IsIdChar.plain {c : Char} (h : IsIdChar c) : Plain c ∧ c.utf8Size = 1 ∧ c ≠ '/' := by
  have hall : "0123456789abcdef-".toList.all fun c =>
      (c ≠ '"' ∧ c ≠ '\\' ∧ 0x20 ≤ c.toNat) ∧ c.utf8Size = 1 ∧ c ≠ '/' := by decide
  have hc : (c ≠ '"' ∧ c ≠ '\\' ∧ 0x20 ≤ c.toNat) ∧ c.utf8Size = 1 ∧ c ≠ '/' :=
    of_decide_eq_true (List.all_eq_true.mp hall c h)
  exact hc

/-- `ConsolidationRunId`, a UUID. -/
structure RunId where
  uuid : BitVec 128
  deriving DecidableEq, Repr

/-- `ConsolidationRunId::to_string`: five groups of digits. -/
def RunId.display (id : RunId) : List Char :=
  let digits := hexDigits 32 id.uuid.toNat
  digits.take 8 ++ '-' :: (digits.drop 8).take 4 ++ '-' :: (digits.drop 12).take 4 ++
    '-' :: (digits.drop 16).take 4 ++ '-' :: digits.drop 20

/-- A printed run id has only id characters. -/
theorem RunId.isIdChar {id : RunId} {c : Char} (h : c ∈ id.display) : IsIdChar c := by
  have hhyphen : IsIdChar '-' := by
    unfold IsIdChar
    decide
  have htake : ∀ {m n}, c ∈ ((hexDigits 32 id.uuid.toNat).drop m).take n → IsIdChar c := fun h =>
    isIdChar_of_mem_hexDigits (List.mem_of_mem_drop (List.mem_of_mem_take h))
  simp only [display, List.append_assoc, List.mem_append, List.mem_cons, List.cons_append] at h
  rcases h with h | rfl | h | rfl | h | rfl | h | rfl | h
  · exact isIdChar_of_mem_hexDigits (List.mem_of_mem_take h)
  · exact hhyphen
  · exact htake h
  · exact hhyphen
  · exact htake h
  · exact hhyphen
  · exact htake h
  · exact hhyphen
  · exact isIdChar_of_mem_hexDigits (List.mem_of_mem_drop h)

/-- A printed run id is 36 characters long. -/
theorem RunId.length_display (id : RunId) : id.display.length = 36 := by
  simp [display, length_hexDigits]

/-- The bytes of a text in a file. -/
def textBytes (l : List Char) : List UInt8 :=
  utf8Bytes (String.ofList l)

/-- The encoding of a text has as many bytes as the text counts. -/
theorem length_textBytes (l : List Char) : (textBytes l).length = byteLen l := by
  rw [textBytes, utf8Bytes, String.toByteArray_ofList]
  induction l with
  | nil => rfl
  | cons c l ih =>
    rw [List.utf8Encode_cons, byteLen_cons, ← ih]
    simp [List.utf8Encode_singleton]

/-- `sha256_hex`. -/
def sha256Hex (sha256 : List UInt8 → BitVec 256) (bytes : List UInt8) : List Char :=
  hexDigits 64 (sha256 bytes).toNat

/-! ## The writer -/

/-- `RAW_RESPONSE_AUDIT_MAX_BYTES`. -/
def rawResponseAuditMaxBytes : ℕ := 256 * 1024

/-- The document of a response of which `stored` is kept, the keys in order. -/
def auditFields (sha256 : List UInt8 → BitVec 256) (runId : RunId) (response : Str)
    (stored : List Char) : List (List Char × Scalar) :=
  [("original_bytes".toList, .number (byteLen response.chars)),
   ("raw_response".toList, .text stored),
   ("response_sha256".toList, .text (sha256Hex sha256 (textBytes response.chars))),
   ("run_id".toList, .text runId.display),
   ("schema_version".toList, .number 1),
   ("stored_bytes".toList, .number (byteLen stored)),
   ("stored_response_sha256".toList, .text (sha256Hex sha256 (textBytes stored))),
   ("truncated".toList, .bool (byteLen stored != byteLen response.chars))]

/-- `serde_json::to_vec_pretty` of that document. -/
def encodeAudit (sha256 : List UInt8 → BitVec 256) (runId : RunId) (response : Str)
    (stored : List Char) : List UInt8 :=
  textBytes (renderRecord (auditFields sha256 runId response stored))

/-! ### An empty response fits -/

/-- Id characters are printed as they are. -/
theorem byteLen_escaped_id {l : List Char} (h : ∀ c ∈ l, IsIdChar c) :
    byteLen (escape l) = l.length := by
  rw [escape_eq_self fun c hc => (h c hc).plain.1]
  exact byteLen_eq_length fun c hc => (h c hc).plain.2.1

/-- A digest takes 64 digits and two quotes in the record. -/
theorem byteLen_quote_sha256Hex (sha256 : List UInt8 → BitVec 256) (bytes : List UInt8) :
    byteLen (quote (sha256Hex sha256 bytes)) = 66 := by
  have hid : ∀ c ∈ sha256Hex sha256 bytes, IsIdChar c := fun c hc => isIdChar_of_mem_hexDigits hc
  rw [byteLen_quote, byteLen_escaped_id hid, sha256Hex, length_hexDigits]

/-- A run id takes 36 characters and two quotes in the record. -/
theorem byteLen_quote_display (id : RunId) : byteLen (quote id.display) = 38 := by
  rw [byteLen_quote, byteLen_escaped_id fun c hc => id.isIdChar hc, id.length_display]

/-- The length of the file, up to what the response decides. -/
theorem length_encodeAudit (sha256 : List UInt8 → BitVec 256) (runId : RunId) (response : Str)
    (stored : List Char) :
    (encodeAudit sha256 runId response stored).length =
      byteLen (Scalar.render (.number (byteLen response.chars))) + byteLen (quote stored) +
        byteLen (Scalar.render (.number (byteLen stored))) +
        byteLen (Scalar.render (.bool (byteLen stored != byteLen response.chars))) + 341 := by
  have hkeys : byteLen (quote "original_bytes".toList) = 16 ∧ byteLen (quote "raw_response".toList) = 14 ∧
      byteLen (quote "response_sha256".toList) = 17 ∧ byteLen (quote "run_id".toList) = 8 ∧
      byteLen (quote "schema_version".toList) = 16 ∧ byteLen (quote "stored_bytes".toList) = 14 ∧
      byteLen (quote "stored_response_sha256".toList) = 24 ∧ byteLen (quote "truncated".toList) = 11 := by
    decide
  obtain ⟨k1, k2, k3, k4, k5, k6, k7, k8⟩ := hkeys
  have hone : byteLen (Scalar.render (.number 1)) = 1 := by decide
  rw [encodeAudit, length_textBytes, byteLen_renderRecord]
  simp only [auditFields, List.map_cons, List.map_nil, List.sum_cons, List.sum_nil, k1, k2, k3, k4, k5,
    k6, k7, k8, hone, Scalar.render_text, byteLen_quote_sha256Hex, byteLen_quote_display]
  have hsum : ∀ original kept size flag : ℕ,
      16 + original + 6 + (14 + kept + 6 + (17 + 66 + 6 + (8 + 38 + 6 + (16 + 1 + 6 +
        (14 + size + 6 + (24 + 66 + 6 + (11 + flag + 6 + 0))))))) + 2 =
      original + kept + size + flag + 341 := by
    omega
  exact hsum _ _ _ _

/-- With nothing kept the file has its fields, three ids and the length of the response. -/
theorem length_encodeAudit_nil (sha256 : List UInt8 → BitVec 256) (runId : RunId) (response : Str) :
    (encodeAudit sha256 runId response []).length ≤ rawResponseAuditMaxBytes := by
  have hdigits : byteLen (Scalar.render (.number (byteLen response.chars))) ≤ 19 :=
    byteLen_render_number_le (by decide) (Nat.lt_of_le_of_lt response.byteLen_le (by decide))
  have hbool : ∀ b, byteLen (Scalar.render (.bool b)) ≤ 5 := by decide
  have hflag := hbool (byteLen [] != byteLen response.chars)
  have hempty : byteLen (quote []) = 2 ∧ byteLen (Scalar.render (.number (byteLen []))) = 1 := by decide
  rw [length_encodeAudit, hempty.1, hempty.2]
  unfold rawResponseAuditMaxBytes
  omega

/-! ### The loop -/

/-- Walking back to a character boundary ends behind the longest prefix that fits. -/
theorem floorBoundary_zero (l : List Char) (n : ℕ) :
    floorBoundary l 0 n = byteLen (takeFitting n l) := by
  have hwalk := floorBoundary_append [] l n
  simpa using hwalk

/-- The boundary found is not above the place it was sought from. -/
theorem floorBoundary_le (l : List Char) (n : ℕ) : floorBoundary l 0 n ≤ n := by
  rw [floorBoundary_zero]
  exact byteLen_takeFitting_le n l

/-- The search ends at a boundary. -/
theorem isCharBoundary_floorBoundary (l : List Char) (n : ℕ) :
    isCharBoundary l (floorBoundary l 0 n) = true := by
  obtain ⟨rest, hrest⟩ := prefix_takeFitting n l
  exact isCharBoundary_iff.mpr ⟨takeFitting n l, rest, hrest.symm, (floorBoundary_zero l n).symm⟩

/-- The loop that shortens what is kept until the file fits; `none` where `&raw_response[..end]`
would cut inside a character.  Each round keeps less, and with nothing kept the file fits. -/
def shrink (sha256 : List UInt8 → BitVec 256) (runId : RunId) (response : Str) (stop : ℕ) :
    Option (List UInt8) :=
  match _hcut : splitAtByte response.chars stop with
  | none => none
  | some (stored, _) =>
    let encoded := encodeAudit sha256 runId response stored
    if _hfits : encoded.length ≤ rawResponseAuditMaxBytes then some encoded
    else
      let shrinkBy := encoded.length - rawResponseAuditMaxBytes + 128
      shrink sha256 runId response (floorBoundary response.chars 0 (stop - shrinkBy))
termination_by stop
decreasing_by
  have hpos : stop ≠ 0 := by
    rintro rfl
    have hnil : splitAtByte response.chars 0 = some ([], response.chars) :=
      splitAtByte_append [] response.chars
    obtain ⟨rfl, -⟩ := Prod.mk.inj (Option.some.inj (hnil.symm.trans _hcut))
    exact _hfits (length_encodeAudit_nil sha256 runId response)
  refine Nat.lt_of_le_of_lt (floorBoundary_le response.chars _) ?_
  omega

/-! ### Files -/

/-- `std::path::Component` of a Unix path. -/
inductive Component
  | rootDir
  | curDir
  | parentDir
  | normal (name : List Char)
  deriving DecidableEq, Repr

/-- A component that names an entry, as against `.`, `..` or a root. -/
def Component.isNormal : Component → Bool
  | .normal _ => true
  | _ => false

/-- The component of one part between slashes; nothing for an empty part or a dot. -/
def componentOf (part : List Char) : Option Component :=
  if part = [] ∨ part = ['.'] then none
  else if part = ['.', '.'] then some .parentDir
  else some (.normal part)

/-- `Path::is_absolute` on Unix. -/
def isAbsolute (path : List Char) : Bool :=
  path.head? = some '/'

/-- `Path::components`; a dot counts at the start of a relative path only. -/
def components (path : List Char) : List Component :=
  let parts := path.splitOn '/'
  (if isAbsolute path then [.rootDir] else if parts.head? = some ['.'] then [.curDir] else []) ++
    parts.filterMap componentOf

/-- The files below the data directory, by their paths from there. -/
abbrev DataDir := List Component → Option (List UInt8)

/-- How writing or checking an audit record can fail. -/
inductive AuditError
  | alreadyExists
  | notFound
  | validationError (msg : String)
  deriving DecidableEq, Repr

/-- The file name of a run's audit record. -/
def fileName (runId : RunId) : List Char :=
  runId.display ++ ".json".toList

/-- The directory of the audit records, below the data directory. -/
def auditDir : List Char := "consolidation-audit".toList

/-- `audit_dir.join(file_name)`. -/
def auditPath (runId : RunId) : List Component :=
  [.normal auditDir, .normal (fileName runId)]

/-- `write_raw_response_audit`: the path in the journal and the directory afterwards; `none` for
a panic. -/
def writeRawResponseAudit (sha256 : List UInt8 → BitVec 256) (runId : RunId) (response : Str)
    (dir : DataDir) : Option (Except AuditError (List Char × DataDir)) :=
  let stop := floorBoundary response.chars 0 (min (byteLen response.chars) rawResponseAuditMaxBytes)
  (shrink sha256 runId response stop).map fun artifact =>
    -- `create_new` takes no file that is there
    if (dir (auditPath runId)).isSome then .error .alreadyExists
    else .ok (auditDir ++ '/' :: fileName runId,
      Function.update dir (auditPath runId) (some artifact))

/-! ## The validator -/

/-- What the check reads of a run. -/
structure AuditedRun where
  responseHash : Option (List Char)
  auditArtifactPath : Option (List Char)
  deriving DecidableEq, Repr

/-- `value.get(key).and_then(Value::as_str)`, or the message. -/
def stringField (artifact : Json) (key msg : String) : Except AuditError String :=
  match (artifact.get key).bind Json.asStr with
  | some s => .ok s
  | none => .error (.validationError msg)

/-- `Value::as_bool`. -/
def asBool : Json → Option Bool
  | .bool b => some b
  | _ => none

/-- A condition that must hold, or the message. -/
def require (p : Prop) [Decidable p] (msg : String) : Except AuditError Unit :=
  if p then .ok () else .error (.validationError msg)

/-- A computation that succeeds goes on with its value. -/
theorem bind_ok {ε α β : Type} (a : α) (f : α → Except ε β) : (Except.ok a >>= f) = f a :=
  rfl

/-- A text field that is there is read. -/
theorem stringField_of {artifact : Json} {key s msg : String}
    (h : artifact.get key = some (.string s)) : stringField artifact key msg = .ok s := by
  rw [stringField, h]
  rfl

/-- A requirement that is met lets the check go on. -/
theorem require_bind {p : Prop} [Decidable p] (h : p) (msg : String)
    (f : Unit → Except AuditError Unit) : (require p msg >>= f) = f () := by
  rw [require, if_pos h]
  rfl

/-- The checks of `validate_raw_response_audit` on the document. -/
def checkArtifact (sha256 : List UInt8 → BitVec 256) (run : AuditedRun) (artifact : Json) :
    Except AuditError Unit := do
  let artifactHash ← stringField artifact "response_sha256"
    "consolidation audit artifact has no response hash"
  require (run.responseHash = some artifactHash.toList)
    "consolidation audit response hash does not match its journal"
  let storedResponse ← stringField artifact "raw_response"
    "consolidation audit artifact has no stored response"
  let storedHash ← stringField artifact "stored_response_sha256"
    "consolidation audit artifact has no stored-response hash"
  require (sha256Hex sha256 (textBytes storedResponse.toList) = storedHash.toList)
    "consolidation audit stored-response hash does not match its body"
  require (¬ ((artifact.get "truncated").bind asBool = some false ∧ artifactHash ≠ storedHash))
    "untruncated consolidation audit body does not match the journal response hash"

/-- `validate_raw_response_audit`. -/
def validateRawResponseAudit (sha256 : List UInt8 → BitVec 256)
    (fromSlice : List UInt8 → Except String Json) (dir : DataDir) (run : AuditedRun) :
    Except AuditError Unit :=
  match run.auditArtifactPath with
  | none => .error (.validationError "consolidation run has no raw-response audit artifact")
  | some relative =>
    if isAbsolute relative || (components relative).any fun c => !c.isNormal then
      .error (.validationError "consolidation audit artifact path is not a safe relative path")
    else match dir (components relative) with
      | none => .error .notFound
      | some bytes =>
        if rawResponseAuditMaxBytes < bytes.length then
          .error (.validationError "consolidation audit artifact exceeds its bounded size")
        else match fromSlice bytes with
          | .error e => .error
            (.validationError s!"consolidation audit artifact is not valid JSON: {e}")
          | .ok artifact => checkArtifact sha256 run artifact

/-! ## What is written is accepted -/

section Audit

variable (sha256 : List UInt8 → BitVec 256) (runId : RunId) (response : Str)

/-- **The loop ends** behind a prefix of the response whose file fits. -/
theorem shrink_of_boundary {stop : ℕ} (h : isCharBoundary response.chars stop = true) :
    ∃ stored, stored <+: response.chars ∧
      (encodeAudit sha256 runId response stored).length ≤ rawResponseAuditMaxBytes ∧
      shrink sha256 runId response stop = some (encodeAudit sha256 runId response stored) := by
  fun_induction shrink sha256 runId response stop with
  | case1 stop hcut => exact absurd h (by rw [isCharBoundary, hcut]; exact Bool.false_ne_true)
  | case2 stop stored rest hcut encoded hfits =>
    obtain ⟨heq, -⟩ := splitAtByte_eq_some hcut
    exact ⟨stored, ⟨rest, heq.symm⟩, hfits, rfl⟩
  | case3 stop stored rest hcut encoded hlarge shrinkBy ih =>
    exact ih (isCharBoundary_floorBoundary response.chars _)

/-- The stored path is the directory and the file name, two normal components. -/
theorem components_auditPath :
    components (auditDir ++ '/' :: fileName runId) = auditPath runId ∧
      isAbsolute (auditDir ++ '/' :: fileName runId) = false := by
  have hdir : '/' ∉ auditDir := by decide
  have hname : '/' ∉ fileName runId := by
    intro h
    rcases List.mem_append.mp h with h | h
    · exact (runId.isIdChar h).plain.2.2 rfl
    · exact absurd h (by decide)
  have hparts : (auditDir ++ '/' :: fileName runId).splitOn '/' = [auditDir, fileName runId] := by
    have hno : ∀ part ∈ [auditDir, fileName runId], '/' ∉ part := by simp [hdir, hname]
    have hjoin := List.splitOn_intercalate '/' hno (List.cons_ne_nil _ _)
    simpa [List.intercalate] using hjoin
  have hlen : 5 < (fileName runId).length := by
    rw [fileName, List.length_append, RunId.length_display]
    omega
  have hnormal : componentOf (fileName runId) = some (.normal (fileName runId)) := by
    have hne : ∀ l : List Char, l.length ≤ 5 → fileName runId ≠ l := by
      rintro l hl heq
      rw [heq] at hlen
      omega
    rw [componentOf, if_neg (by simp [hne [] (by decide), hne ['.'] (by decide)]),
      if_neg (hne _ (by decide))]
  have habs : isAbsolute (auditDir ++ '/' :: fileName runId) = false := rfl
  refine ⟨?_, habs⟩
  have hdirNormal : componentOf auditDir = some (.normal auditDir) := by decide
  have hdot : auditDir ≠ ['.'] := by decide
  rw [components, habs, hparts]
  simp [hdot, hdirNormal, hnormal, auditPath]

end Audit

/-! ### Reading the file -/

/-- The value of a scalar. -/
def toJson : Scalar → Json
  | .bool b => .bool b
  | .number n => .number (.posInt n)
  | .text s => .string (String.ofList s)

/-- The numbers a reader takes as whole numbers. -/
def Fits : Scalar → Prop
  | .number n => n < 2 ^ 64
  | _ => True

/-- The reader of documents gives back the fields of an object that was printed, its keys in
order. -/
def ReadsRecords (fromSlice : List UInt8 → Except String Json) : Prop :=
  ∀ fields : List (List Char × Scalar), (fields.map Prod.fst).Pairwise (· < ·) →
    (∀ f ∈ fields, Fits f.2) → fromSlice (textBytes (renderRecord fields)) =
      .ok (.object (fields.map fun f => (String.ofList f.1, toJson f.2)))

section Read

variable {sha256 : List UInt8 → BitVec 256} {fromSlice : List UInt8 → Except String Json}
  {runId : RunId} {response : Str} {stored : List Char}

/-- What is stored of a response is not longer than the response. -/
theorem byteLen_stored_le (h : stored <+: response.chars) :
    byteLen stored ≤ byteLen response.chars := by
  obtain ⟨rest, hrest⟩ := h
  rw [← hrest, byteLen_append]
  omega

/-- The file of a prefix, read back. -/
theorem fromSlice_encodeAudit (hread : ReadsRecords fromSlice) (h : stored <+: response.chars) :
    fromSlice (encodeAudit sha256 runId response stored) =
      .ok (.object ((auditFields sha256 runId response stored).map fun f =>
        (String.ofList f.1, toJson f.2))) := by
  have hsize : byteLen response.chars < 2 ^ 64 :=
    Nat.lt_of_le_of_lt response.byteLen_le (by decide)
  have hstored : byteLen stored < 2 ^ 64 := Nat.lt_of_le_of_lt (byteLen_stored_le h) hsize
  have hone : 1 < 2 ^ 64 := by decide
  refine hread _ ?_ ?_
  · show List.Pairwise _ ["original_bytes".toList, "raw_response".toList, "response_sha256".toList,
      "run_id".toList, "schema_version".toList, "stored_bytes".toList,
      "stored_response_sha256".toList, "truncated".toList]
    decide
  · intro f hf
    simp only [auditFields, List.mem_cons, List.not_mem_nil, or_false] at hf
    rcases hf with rfl | rfl | rfl | rfl | rfl | rfl | rfl | rfl
    · exact hsize
    · trivial
    · trivial
    · trivial
    · exact hone
    · exact hstored
    · trivial
    · trivial

/-- The fields of the document of a prefix. -/
theorem get_auditFields (sha256 : List UInt8 → BitVec 256) (runId : RunId) (response : Str)
    (stored : List Char) :
    let doc := Json.object ((auditFields sha256 runId response stored).map fun f =>
      (String.ofList f.1, toJson f.2))
    doc.get "raw_response" = some (.string (String.ofList stored)) ∧
      doc.get "response_sha256" =
        some (.string (String.ofList (sha256Hex sha256 (textBytes response.chars)))) ∧
      doc.get "stored_response_sha256" =
        some (.string (String.ofList (sha256Hex sha256 (textBytes stored)))) ∧
      doc.get "truncated" = some (.bool (byteLen stored != byteLen response.chars)) :=
  ⟨rfl, rfl, rfl, rfl⟩

/-- A prefix is the whole text when it is as long. -/
theorem eq_of_prefix_of_byteLen {l l' : List Char} (h : l <+: l') (hlen : byteLen l = byteLen l') :
    l = l' := by
  obtain ⟨rest, rfl⟩ := h
  rw [byteLen_append] at hlen
  have hnil : rest = [] := byteLen_eq_zero.mp (by omega)
  rw [hnil, List.append_nil]

/-- The `truncated` flag says whether anything was cut off. -/
theorem truncated_iff (h : stored <+: response.chars) :
    (byteLen stored != byteLen response.chars) = decide (stored ≠ response.chars) := by
  by_cases heq : stored = response.chars
  · simp [heq]
  · have hne : byteLen stored ≠ byteLen response.chars := fun hlen =>
      heq (eq_of_prefix_of_byteLen h hlen)
    simp [heq, hne]

/-- The document of a prefix passes its checks. -/
theorem checkArtifact_auditFields (h : stored <+: response.chars) {run : AuditedRun}
    (hrun : run.responseHash = some (sha256Hex sha256 (textBytes response.chars))) :
    checkArtifact sha256 run (.object ((auditFields sha256 runId response stored).map fun f =>
      (String.ofList f.1, toJson f.2))) = .ok () := by
  obtain ⟨hraw, hhash, hstoredHash, hflag⟩ := get_auditFields sha256 runId response stored
  have hsame : ¬ (some (byteLen stored != byteLen response.chars) = some false ∧
      String.ofList (sha256Hex sha256 (textBytes response.chars)) ≠
        String.ofList (sha256Hex sha256 (textBytes stored))) := by
    rintro ⟨hflag, hne⟩
    rw [truncated_iff h] at hflag
    exact hne (by rw [show stored = response.chars by simpa using hflag])
  simp only [checkArtifact, stringField_of hhash, stringField_of hraw, stringField_of hstoredHash,
    bind_ok, hrun, String.toList_ofList, require_bind]
  rw [hflag]
  exact if_pos hsame

/-- **The validator takes the file of a prefix**, at the path the journal has. -/
theorem validate_encodeAudit (hread : ReadsRecords fromSlice) (h : stored <+: response.chars)
    (hfits : (encodeAudit sha256 runId response stored).length ≤ rawResponseAuditMaxBytes)
    {dir : DataDir} (hdir : dir (auditPath runId) = some (encodeAudit sha256 runId response stored))
    {run : AuditedRun} (hpath : run.auditArtifactPath = some (auditDir ++ '/' :: fileName runId))
    (hrun : run.responseHash = some (sha256Hex sha256 (textBytes response.chars))) :
    validateRawResponseAudit sha256 fromSlice dir run = .ok () := by
  obtain ⟨hcomponents, habs⟩ := components_auditPath runId
  have hsafe : (isAbsolute (auditDir ++ '/' :: fileName runId) ||
      (auditPath runId).any fun c => !c.isNormal) = false := by
    rw [habs]
    rfl
  simp only [validateRawResponseAudit, hpath, hcomponents, hsafe, hdir, fromSlice_encodeAudit hread h,
    if_neg (Nat.not_lt.mpr hfits), checkArtifact_auditFields h hrun, Bool.false_eq_true, if_false]

end Read

/-- What the writer leaves behind: one new file of bounded size that holds a prefix of the
response, flagged when something is missing, and that the validator takes for a run with the hash
of the whole response. -/
structure Audited (sha256 : List UInt8 → BitVec 256) (fromSlice : List UInt8 → Except String Json)
    (runId : RunId) (response : Str) (dir : DataDir) (path : List Char) (dir' : DataDir) : Prop where
  frame : ∀ p, p ≠ auditPath runId → dir' p = dir p
  file : ∃ bytes doc stored, dir' (auditPath runId) = some bytes ∧
    bytes.length ≤ rawResponseAuditMaxBytes ∧ fromSlice bytes = .ok doc ∧
    doc.get "raw_response" = some (.string (String.ofList stored)) ∧ stored <+: response.chars ∧
    doc.get "truncated" = some (.bool (decide (stored ≠ response.chars)))
  accepted : ∀ run : AuditedRun, run.auditArtifactPath = some path →
    run.responseHash = some (sha256Hex sha256 (textBytes response.chars)) →
    validateRawResponseAudit sha256 fromSlice dir' run = .ok ()

/-- **The writer and the validator agree**, for every response: the writer returns, fails only on
a file that is there, and otherwise leaves a file the validator takes. -/
theorem rawResponseAudit_law (sha256 : List UInt8 → BitVec 256)
    {fromSlice : List UInt8 → Except String Json} (hread : ReadsRecords fromSlice) (runId : RunId)
    (response : Str) (dir : DataDir) :
    (dir (auditPath runId) ≠ none ∧
        writeRawResponseAudit sha256 runId response dir = some (.error .alreadyExists)) ∨
      ∃ path dir', writeRawResponseAudit sha256 runId response dir = some (.ok (path, dir')) ∧
        Audited sha256 fromSlice runId response dir path dir' := by
  obtain ⟨stored, hprefix, hfits, hshrink⟩ := shrink_of_boundary sha256 runId response
    (isCharBoundary_floorBoundary response.chars
      (min (byteLen response.chars) rawResponseAuditMaxBytes))
  cases hdir : dir (auditPath runId) with
  | some old =>
    refine Or.inl ⟨Option.some_ne_none old, ?_⟩
    simp only [writeRawResponseAudit, hshrink, hdir, Option.map_some, Option.isSome_some, if_true]
  | none =>
    refine Or.inr ⟨auditDir ++ '/' :: fileName runId, Function.update dir (auditPath runId)
      (some (encodeAudit sha256 runId response stored)), ?_, ?_, ?_, ?_⟩
    · simp [writeRawResponseAudit, hshrink, hdir]
    · exact fun p hp => Function.update_of_ne hp _ _
    · obtain ⟨hraw, -, -, hflag⟩ := get_auditFields sha256 runId response stored
      exact ⟨_, _, stored, Function.update_self _ _ _, hfits, fromSlice_encodeAudit hread hprefix, hraw,
        hprefix, hflag.trans (by rw [truncated_iff hprefix])⟩
    · exact fun run hpath hrun =>
        validate_encodeAudit hread hprefix hfits (Function.update_self _ _ _) hpath hrun

/-- A reader of flat documents. -/
def readFlat (bytes : List UInt8) : Except String Json :=
  match (ofUtf8Bytes bytes).bind fun s => readRecord s.toList with
  | some fields => .ok (.object (fields.map fun f => (String.ofList f.1, toJson f.2)))
  | none => .error "not a flat object"

/-- The flat reader reads what the printer prints. -/
theorem readsRecords_readFlat : ReadsRecords readFlat := by
  intro fields _ _
  rw [readFlat, textBytes, ofUtf8Bytes_utf8Bytes, Option.bind_some, String.toList_ofList,
    readRecord_renderRecord]

/-- The size of a text of two letters and `k` characters of three bytes. -/
theorem byteLen_wide {k n : ℕ} (hn : 2 + 3 * k = n) :
    byteLen (['a', 'a'] ++ List.replicate k '中') = n := by
  have hwide : '中'.utf8Size = 3 ∧ 'a'.utf8Size = 1 := by decide
  simp only [byteLen_append, byteLen_cons, Utf8Text.byteLen_nil, byteLen_replicate, hwide.1, hwide.2]
  omega

/-- A response that is longer than the file may be, of characters of three bytes behind the
first two. -/
def wideResponse : Str where
  chars := ['a', 'a'] ++ List.replicate 90000 '中'
  byteLen_le := (byteLen_wide (show 2 + 3 * 90000 = 270002 by decide)).trans_le (by decide)

/-- The beginning of that response, `k` of its wide characters behind the first two. -/
theorem wideResponse_split {k : ℕ} (hk : k ≤ 90000) :
    wideResponse.chars =
      (['a', 'a'] ++ List.replicate k '中') ++ List.replicate (90000 - k) '中' := by
  rw [List.append_assoc, List.replicate_append_replicate, Nat.add_sub_cancel' hk]
  rfl

/-- One or two bytes behind such a beginning no character starts. -/
theorem not_boundary_wide {k n : ℕ} (hk : k < 90000) (hn : 2 + 3 * k + 1 = n ∨ 2 + 3 * k + 2 = n) :
    isCharBoundary wideResponse.chars n = false := by
  obtain ⟨m, hm⟩ : ∃ m, 90000 - k = m + 1 := ⟨90000 - k - 1, by omega⟩
  have hlen := byteLen_wide (show 2 + 3 * k = 2 + 3 * k from rfl)
  rw [wideResponse_split (Nat.le_of_lt hk), hm, List.replicate_succ]
  rcases hn with rfl | rfl <;> rw [← hlen, isCharBoundary_append] <;> rfl

/-- Walking back from there ends in front of the character. -/
theorem floorBoundary_wide {k n : ℕ} (hk : k < 90000) (hn : 2 + 3 * k = n) :
    floorBoundary wideResponse.chars 0 (n + 2) = n := by
  obtain ⟨m, hm⟩ : ∃ m, 90000 - k = m + 1 := ⟨90000 - k - 1, by omega⟩
  have hle : byteLen (['a', 'a'] ++ List.replicate k '中') ≤ n + 2 := by
    rw [byteLen_wide hn]
    omega
  have hnil : takeFitting 2 (List.replicate (m + 1) '中') = [] := by
    rw [List.replicate_succ]
    rfl
  rw [floorBoundary_zero, wideResponse_split (Nat.le_of_lt hk), takeFitting_append hle, byteLen_wide hn,
    Nat.add_sub_cancel_left, hm, hnil, List.append_nil, byteLen_wide hn]

/-- The first round of the loop keeps 87380 wide characters, which make the file too long; the next
round starts inside a character again. -/
theorem shrink_wide (sha256 : List UInt8 → BitVec 256) (runId : RunId) :
    shrink sha256 runId wideResponse 262142 =
      shrink sha256 runId wideResponse (floorBoundary wideResponse.chars 0 261657) := by
  have hkept : byteLen (['a', 'a'] ++ List.replicate 87380 '中') = 262142 := byteLen_wide (by decide)
  have hcut : splitAtByte wideResponse.chars 262142 =
      some (['a', 'a'] ++ List.replicate 87380 '中', List.replicate (90000 - 87380) '中') := by
    rw [wideResponse_split (show 87380 ≤ 90000 by decide), ← hkept]
    exact splitAtByte_append _ _
  have hquote : byteLen (quote (['a', 'a'] ++ List.replicate 87380 '中')) = 262142 + 2 := by
    have hplain : Plain 'a' ∧ Plain '中' := by decide
    rw [byteLen_quote, escape_eq_self, hkept]
    intro c hc
    rcases List.mem_append.mp hc with hc | hc
    · obtain rfl : c = 'a' := by simpa using hc
      exact hplain.1
    · exact List.eq_of_mem_replicate hc ▸ hplain.2
  have hlen : (encodeAudit sha256 runId wideResponse
      (['a', 'a'] ++ List.replicate 87380 '中')).length = 262501 := by
    have hdigits : byteLen (Scalar.render (.number 270002)) = 6 ∧
        byteLen (Scalar.render (.number 262142)) = 6 ∧
        byteLen (Scalar.render (.bool (262142 != 270002))) = 4 := by decide
    have hresponse : byteLen wideResponse.chars = 270002 := byteLen_wide (by decide)
    rw [length_encodeAudit, hquote, hresponse, hkept, hdigits.1, hdigits.2.1, hdigits.2.2]
  have hnext : 262142 - (262501 - rawResponseAuditMaxBytes + 128) = 261657 := by decide
  rw [shrink]
  split
  · next hnone => exact absurd (hnone.symm.trans hcut) (Option.some_ne_none _).symm
  · next stored rest hsome =>
    obtain ⟨rfl, -⟩ := Prod.mk.inj (Option.some.inj (hsome.symm.trans hcut))
    rw [dif_neg (by rw [hlen]; decide), hlen]
    dsimp only
    rw [hnext]

/-- For that response the writer starts inside a character, shortens once and is inside a
character again. -/
theorem rawResponseAudit_law_wide :
    isCharBoundary wideResponse.chars rawResponseAuditMaxBytes = false ∧
      isCharBoundary wideResponse.chars 261657 = false ∧
      shrink (fun bytes => BitVec.ofNat 256 bytes.length) ⟨7⟩ wideResponse
          (floorBoundary wideResponse.chars 0 rawResponseAuditMaxBytes) =
        shrink (fun bytes => BitVec.ofNat 256 bytes.length) ⟨7⟩ wideResponse
          (floorBoundary wideResponse.chars 0 261657) ∧
      ∃ path dir', writeRawResponseAudit (fun bytes => BitVec.ofNat 256 bytes.length) ⟨7⟩
          wideResponse (fun _ => none) = some (.ok (path, dir')) ∧
        Audited (fun bytes => BitVec.ofNat 256 bytes.length) readFlat ⟨7⟩ wideResponse
          (fun _ => none) path dir' := by
  have hmax : rawResponseAuditMaxBytes = 262142 + 2 := by decide
  have hfirst : isCharBoundary wideResponse.chars rawResponseAuditMaxBytes = false :=
    not_boundary_wide (show 87380 < 90000 by decide) (.inr (by decide))
  have hsecond : isCharBoundary wideResponse.chars 261657 = false :=
    not_boundary_wide (show 87218 < 90000 by decide) (.inl (by decide))
  have hstart : floorBoundary wideResponse.chars 0 rawResponseAuditMaxBytes = 262142 := by
    rw [hmax]
    exact floorBoundary_wide (show 87380 < 90000 by decide) (by decide)
  refine ⟨hfirst, hsecond, by rw [hstart, shrink_wide], ?_⟩
  rcases rawResponseAudit_law (fun bytes => BitVec.ofNat 256 bytes.length) readsRecords_readFlat ⟨7⟩
    wideResponse (fun _ => none) with ⟨hnone, -⟩ | hok
  · exact absurd rfl hnone
  · exact hok

end RawResponseAudit
