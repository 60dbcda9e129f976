/-
# Flat JSON documents

The text of an object whose values are truth values, natural numbers and texts, in the pretty
form (two spaces, one field a line), and a reader of it.

* `readString_escape` — a quoted text is read back, whatever its characters;
* `readRecord_renderRecord` — so is the text of an object;
* `escape_eq_self` — a text without quotes, backslashes and control characters stands as it is;
* `byteLen_renderRecord` — how long the text of an object is.
-/
import Mathlib.Algebra.Group.Nat.Defs
import Memd.Utf8Text

namespace JsonText

open Utf8Text (byteLen byteLen_append byteLen_cons)

/-- The values an audit record holds. -/
inductive Scalar
  | bool (b : Bool)
  | number (n : ℕ)
  | text (s : List Char)
  deriving DecidableEq, Repr

/-! ## Strings -/

/-- A character inside a string: quote, backslash and the control characters are escaped. -/
def escapeChar (c : Char) : List Char :=
  if c = '"' then ['\\', '"']
  else if c = '\\' then ['\\', '\\']
  else if c = '\x08' then ['\\', 'b']
  else if c = '\x0c' then ['\\', 'f']
  else if c = '\n' then ['\\', 'n']
  else if c = '\r' then ['\\', 'r']
  else if c = '\t' then ['\\', 't']
  else if c.toNat < 0x20 then
    ['\\', 'u', '0', '0', Nat.digitChar (c.toNat / 16), Nat.digitChar (c.toNat % 16)]
  else [c]

/-- A text with its characters escaped as in a JSON string. -/
def escape (s : List Char) : List Char :=
  s.flatMap escapeChar

/-- A text as a JSON string. -/
def quote (s : List Char) : List Char :=
  '"' :: escape s ++ ['"']

/-- The value of a hexadecimal digit. -/
def hexValue (c : Char) : Option ℕ :=
  if '0' ≤ c ∧ c ≤ '9' then some (c.toNat - '0'.toNat)
  else if 'a' ≤ c ∧ c ≤ 'f' then some (c.toNat - 'a'.toNat + 10)
  else if 'A' ≤ c ∧ c ≤ 'F' then some (c.toNat - 'A'.toNat + 10)
  else none

/-- The character of an escape with four digits. -/
def readHex4 (a b c d : Char) : Option Char := do
  let a ← hexValue a
  let b ← hexValue b
  let c ← hexValue c
  let d ← hexValue d
  let n := ((a * 16 + b) * 16 + c) * 16 + d
  if n.isValidChar then some (Char.ofNat n) else none

/-- The character of an escape with one letter. -/
def readEscape (c : Char) : Option Char :=
  if c = '"' ∨ c = '\\' ∨ c = '/' then some c
  else if c = 'b' then some '\x08'
  else if c = 'f' then some '\x0c'
  else if c = 'n' then some '\n'
  else if c = 'r' then some '\r'
  else if c = 't' then some '\t'
  else none

/-- The rest of a string, behind its opening quote. -/
def readString : List Char → Option (List Char × List Char)
  | [] => none
  | '"' :: rest => some ([], rest)
  | '\\' :: 'u' :: a :: b :: c :: d :: rest => do
    let ch ← readHex4 a b c d
    let (s, rest) ← readString rest
    some (ch :: s, rest)
  | '\\' :: e :: rest => do
    let ch ← readEscape e
    let (s, rest) ← readString rest
    some (ch :: s, rest)
  | c :: rest =>
    if c.toNat < 0x20 then none
    else do
      let (s, rest) ← readString rest
      some (c :: s, rest)

/-- A hexadecimal digit is read back. -/
theorem hexValue_digitChar : ∀ n < 16, hexValue (Nat.digitChar n) = some n := by
  decide

/-- The code of a control character is read back. -/
theorem readHex4_control {c : Char} (h : c.toNat < 0x20) :
    readHex4 '0' '0' (Nat.digitChar (c.toNat / 16)) (Nat.digitChar (c.toNat % 16)) = some c := by
  have hzero : hexValue '0' = some 0 := by decide
  have hn : ((0 * 16 + 0) * 16 + c.toNat / 16) * 16 + c.toNat % 16 = c.toNat := by omega
  have hvalid : c.toNat.isValidChar := Or.inl (by omega)
  simp only [readHex4, hzero, hexValue_digitChar _ (show c.toNat / 16 < 16 by omega),
    hexValue_digitChar _ (show c.toNat % 16 < 16 by omega), Option.bind_eq_bind,
    Option.bind_some, hn, if_pos hvalid, Char.ofNat_toNat]

/-- The reader takes one escaped character at a time. -/
theorem readString_escapeChar (c : Char) (rest : List Char) :
    readString (escapeChar c ++ rest) = (readString rest).map fun p => (c :: p.1, p.2) := by
  have hbind : ∀ c : Char, (do let (s, r) ← readString rest; some (c :: s, r)) =
      (readString rest).map fun p => (c :: p.1, p.2) := fun c => by
    cases readString rest <;> rfl
  unfold escapeChar
  split_ifs with h1 h2 h3 h4 h5 h6 h7 h8
  · subst h1
    exact hbind _
  · subst h2
    exact hbind _
  · subst h3
    exact hbind _
  · subst h4
    exact hbind _
  · subst h5
    exact hbind _
  · subst h6
    exact hbind _
  · subst h7
    exact hbind _
  · show readString ('\\' :: 'u' :: '0' :: '0' :: _ :: _ :: rest) = _
    rw [readString, readHex4_control h8]
    exact hbind _
  · show readString (c :: rest) = _
    rw [readString, if_neg h8]
    · exact hbind _
    all_goals simp_all

/-- **A quoted text is read back.** -/
theorem readString_escape (s rest : List Char) :
    readString (escape s ++ '"' :: rest) = some (s, rest) := by
  induction s with
  | nil => rfl
  | cons c s ih =>
    rw [escape, List.flatMap_cons, List.append_assoc, readString_escapeChar]
    rw [escape] at ih
    rw [ih]
    rfl

/-- The characters that stand for themselves. -/
def Plain (c : Char) : Prop :=
  c ≠ '"' ∧ c ≠ '\\' ∧ 0x20 ≤ c.toNat

instance : DecidablePred Plain :=
  fun c => inferInstanceAs (Decidable (c ≠ '"' ∧ c ≠ '\\' ∧ 0x20 ≤ c.toNat))

/-- A plain character is printed as it is. -/
theorem escapeChar_of_plain {c : Char} (h : Plain c) : escapeChar c = [c] := by
  obtain ⟨hq, hb, hlow⟩ := h
  have hne : ∀ d : Char, d.toNat < 0x20 → c ≠ d := by
    rintro d hd rfl
    omega
  rw [escapeChar, if_neg hq, if_neg hb, if_neg (hne _ (by decide)), if_neg (hne _ (by decide)),
    if_neg (hne _ (by decide)), if_neg (hne _ (by decide)), if_neg (hne _ (by decide)),
    if_neg (by omega)]

/-- A plain text is printed as it is. -/
theorem escape_eq_self {s : List Char} (h : ∀ c ∈ s, Plain c) : escape s = s := by
  induction s with
  | nil => rfl
  | cons c s ih =>
    have hrest := ih fun d hd => h d (List.mem_cons_of_mem _ hd)
    rw [escape] at hrest ⊢
    rw [List.flatMap_cons, hrest, escapeChar_of_plain (h c List.mem_cons_self)]
    rfl

/-- A JSON string takes two quotes more than the escaped text. -/
theorem byteLen_quote (s : List Char) : byteLen (quote s) = byteLen (escape s) + 2 := by
  have hq : '"'.utf8Size = 1 := by decide
  rw [quote, List.cons_append, byteLen_cons, byteLen_append, byteLen_cons, Utf8Text.byteLen_nil, hq]
  omega

/-! ## Values -/

/-- A value as JSON. -/
def Scalar.render : Scalar → List Char
  | .bool true => "true".toList
  | .bool false => "false".toList
  | .number n => Nat.toDigits 10 n
  | .text s => quote s

/-- A decimal number, and what follows it. -/
def readNumber (l : List Char) : Option (ℕ × List Char) :=
  let digits := l.takeWhile Char.isDigit
  if digits = [] then none else some (Nat.ofDigitChars 10 digits 0, l.dropWhile Char.isDigit)

/-- Reads a value. -/
def readScalar : List Char → Option (Scalar × List Char)
  | 't' :: 'r' :: 'u' :: 'e' :: rest => some (.bool true, rest)
  | 'f' :: 'a' :: 'l' :: 's' :: 'e' :: rest => some (.bool false, rest)
  | '"' :: rest => (readString rest).map fun p => (.text p.1, p.2)
  | l => (readNumber l).map fun p => (.number p.1, p.2)

/-- A printed number is read back. -/
theorem readNumber_toDigits (n : ℕ) {rest : List Char} (h : ∀ c ∈ rest.head?, c.isDigit = false) :
    readNumber (Nat.toDigits 10 n ++ rest) = some (n, rest) := by
  have hdigits : ∀ c ∈ Nat.toDigits 10 n, c.isDigit = true := fun c hc =>
    Nat.isDigit_of_mem_toDigits (by decide) (by decide) hc
  have hstop : rest.takeWhile Char.isDigit = [] ∧ rest.dropWhile Char.isDigit = rest := by
    cases rest with
    | nil => exact ⟨rfl, rfl⟩
    | cons c rest =>
      have hc : c.isDigit = false := h c rfl
      exact ⟨List.takeWhile_cons_of_neg (by simp [hc]), List.dropWhile_cons_of_neg (by simp [hc])⟩
  have hne : Nat.toDigits 10 n ≠ [] := Nat.toDigits_ne_nil
  rw [readNumber, List.takeWhile_append_of_pos hdigits, List.dropWhile_append_of_pos hdigits,
    hstop.1, hstop.2, List.append_nil, if_neg hne, Nat.ofDigitChars_ten_toDigits]

/-- A number starts with a digit. -/
theorem toDigits_eq_cons (n : ℕ) : ∃ c l, Nat.toDigits 10 n = c :: l ∧
    ∀ d : Char, d.isDigit = false → c ≠ d := by
  obtain ⟨c, l, hl⟩ := List.exists_cons_of_ne_nil (Nat.toDigits_ne_nil (n := n) (b := 10))
  have hc : c.isDigit = true :=
    Nat.isDigit_of_mem_toDigits (by decide) (by decide) (hl ▸ List.mem_cons_self)
  refine ⟨c, l, hl, ?_⟩
  rintro d hd rfl
  exact absurd hc (by simp [hd])

/-- Behind a value comes a comma, a line break or nothing: no digit. -/
theorem readScalar_render (v : Scalar) {rest : List Char}
    (h : ∀ c ∈ rest.head?, c.isDigit = false) : readScalar (v.render ++ rest) = some (v, rest) := by
  cases v with
  | bool b => cases b <;> rfl
  | text s =>
    show (readString ((escape s ++ ['"']) ++ rest)).map _ = _
    rw [List.append_assoc, List.cons_append, List.nil_append, readString_escape]
    rfl
  | number n =>
    have hread := readNumber_toDigits n h
    obtain ⟨c, l, hl, hne⟩ := toDigits_eq_cons n
    rw [hl, List.cons_append] at hread
    rw [Scalar.render, hl, List.cons_append, readScalar, hread]
    · rfl
    · rintro rest' heq
      exact hne 't' (by decide) (List.cons.inj heq).1
    · rintro rest' heq
      exact hne 'f' (by decide) (List.cons.inj heq).1
    · rintro rest' heq
      exact hne '"' (by decide) (List.cons.inj heq).1

/-! ## Objects -/

/-- One field, on its line. -/
def renderField (f : List Char × Scalar) : List Char :=
  "  ".toList ++ quote f.1 ++ ": ".toList ++ f.2.render

/-- The lines of the fields; a comma behind each but the last. -/
def renderFields : List (List Char × Scalar) → List Char
  | [] => []
  | [f] => renderField f ++ ['\n', '\x7d']
  | f :: g :: fs => renderField f ++ ',' :: '\n' :: renderFields (g :: fs)

/-- An object as `serde_json` prints it with indentation. -/
def renderRecord : List (List Char × Scalar) → List Char
  | [] => ['\x7b', '\x7d']
  | f :: fs => '\x7b' :: '\n' :: renderFields (f :: fs)

/-- Skips blanks and line breaks. -/
def skipSpace (l : List Char) : List Char :=
  l.dropWhile fun c => c = ' ' || c = '\n' || c = '\r' || c = '\t'

/-- A character that must come next, space aside. -/
def expect (c : Char) (l : List Char) : Option (List Char) :=
  match skipSpace l with
  | [] => none
  | d :: rest => if d = c then some rest else none

/-- Reads a key and its value. -/
def readField (l : List Char) : Option ((List Char × Scalar) × List Char) := do
  let l ← expect '"' l
  let (key, l) ← readString l
  let l ← expect ':' l
  let (value, l) ← readScalar (skipSpace l)
  some ((key, value), l)

/-- The fields up to the closing brace, for as many rounds as there can be fields. -/
def readFields : ℕ → List Char → Option (List (List Char × Scalar))
  | 0, _ => none
  | n + 1, l => do
    let (f, l) ← readField l
    match expect ',' l with
    | some l => (readFields n l).map (f :: ·)
    | none => (expect '\x7d' l).bind fun l => if skipSpace l = [] then some [f] else none

/-- The fields of an object in the order of the text. -/
def readRecord (l : List Char) : Option (List (List Char × Scalar)) := do
  let l ← expect '\x7b' l
  match expect '\x7d' l with
  | some l => if skipSpace l = [] then some [] else none
  | none => readFields l.length l

/-- A printed field is read back. -/
theorem readField_renderField (f : List Char × Scalar) (rest : List Char)
    (h : ∀ c ∈ rest.head?, c.isDigit = false) :
    readField (renderField f ++ rest) = some (f, rest) := by
  obtain ⟨key, value⟩ := f
  have hkey := readString_escape key (':' :: ' ' :: (value.render ++ rest))
  -- a value starts with no space
  have hskip : skipSpace (' ' :: (value.render ++ rest)) = value.render ++ rest := by
    cases value with
    | bool b => cases b <;> rfl
    | text s => rfl
    | number n =>
      obtain ⟨c, l, hl, hne⟩ := toDigits_eq_cons n
      rw [Scalar.render, hl]
      simp [skipSpace, hne ' ' (by decide), hne '\n' (by decide), hne '\r' (by decide),
        hne '\t' (by decide)]
  have htext : renderField (key, value) ++ rest =
      ' ' :: ' ' :: '"' :: (escape key ++ '"' :: ':' :: ' ' :: (value.render ++ rest)) := by
    simp [renderField, quote]
  have hopen : ∀ l : List Char, expect '"' (' ' :: ' ' :: '"' :: l) = some l := fun l => rfl
  have hcolon : ∀ l : List Char, expect ':' (':' :: l) = some l := fun l => rfl
  rw [readField, htext, hopen]
  simp only [Option.bind_eq_bind, Option.bind_some, hkey, hcolon, hskip, readScalar_render value h]

/-- The line break before a field is skipped. -/
theorem readFields_newline (n : ℕ) (l : List Char) : readFields n ('\n' :: l) = readFields n l := by
  have hfield : readField ('\n' :: l) = readField l := rfl
  cases n with
  | zero => rfl
  | succ n => rw [readFields, readFields, hfield]

/-- Printed fields are read back. -/
theorem readFields_renderFields (f : List Char × Scalar) (fs : List (List Char × Scalar)) {n : ℕ}
    (hn : fs.length < n) : readFields n (renderFields (f :: fs)) = some (f :: fs) := by
  induction fs generalizing f n with
  | nil =>
    obtain ⟨n, rfl⟩ := Nat.exists_eq_add_one_of_ne_zero (Nat.ne_of_gt hn)
    have hfield := readField_renderField f ['\n', '\x7d']
      (fun c hc => by obtain rfl := Option.mem_some.mp hc; rfl)
    rw [renderFields, readFields, hfield]
    rfl
  | cons g fs ih =>
    obtain ⟨n, rfl⟩ := Nat.exists_eq_add_one_of_ne_zero (show n ≠ 0 by omega)
    have hfield := readField_renderField f (',' :: '\n' :: renderFields (g :: fs))
      (fun c hc => by obtain rfl := Option.mem_some.mp hc; rfl)
    rw [List.length_cons] at hn
    rw [renderFields, readFields, hfield]
    show (readFields n ('\n' :: renderFields (g :: fs))).map (f :: ·) = _
    rw [readFields_newline, ih g (by omega)]
    rfl

/-- The printed fields are longer than there are fields. -/
theorem length_lt_renderFields (f : List Char × Scalar) (fs : List (List Char × Scalar)) :
    fs.length < (renderFields (f :: fs)).length := by
  induction fs generalizing f with
  | nil => simp [renderFields]
  | cons g fs ih =>
    have := ih g
    rw [renderFields, List.length_append, List.length_cons, List.length_cons, List.length_cons]
    omega

/-- **The text of an object is read back.** -/
theorem readRecord_renderRecord (fs : List (List Char × Scalar)) :
    readRecord (renderRecord fs) = some fs := by
  cases fs with
  | nil => rfl
  | cons f fs =>
    have hopen : expect '\x7b' (renderRecord (f :: fs)) = some ('\n' :: renderFields (f :: fs)) := rfl
    have hbody : ∃ l, renderFields (f :: fs) = ' ' :: ' ' :: '"' :: l := by
      cases fs with
      | nil => exact ⟨_, rfl⟩
      | cons g fs => exact ⟨_, rfl⟩
    have hnot : expect '\x7d' ('\n' :: renderFields (f :: fs)) = none := by
      obtain ⟨l, hl⟩ := hbody
      rw [hl]
      rfl
    have hlen := length_lt_renderFields f fs
    rw [readRecord, hopen]
    simp only [Option.bind_eq_bind, Option.bind_some, hnot]
    rw [readFields_newline, readFields_renderFields f fs (by rw [List.length_cons]; omega)]

/-! ## Sizes -/

/-- A text is printed as a JSON string. -/
theorem Scalar.render_text (s : List Char) : (Scalar.text s).render = quote s := rfl

/-- A number of at most `k` digits. -/
theorem byteLen_render_number_le {n k : ℕ} (hk : 0 < k) (h : n < 10 ^ k) :
    byteLen (Scalar.number n).render ≤ k := by
  have hlen : (Nat.toDigits 10 n).length ≤ k := (Nat.length_toDigits_le_iff (by decide) hk).mpr h
  have hone : ∀ c ∈ Nat.toDigits 10 n, c.utf8Size = 1 := fun c hc => by
    have hdigit := Nat.isDigit_of_mem_toDigits (by decide) (by decide) hc
    have hle := (Char.isDigit_iff_toNat.mp hdigit).2
    rw [Char.utf8Size_eq_one_iff, UInt32.le_iff_toNat_le]
    exact Nat.le_trans hle (by decide)
  rw [Scalar.render, Utf8Text.byteLen_eq_length hone]
  exact hlen

/-- The size of a printed field. -/
theorem byteLen_renderField (f : List Char × Scalar) :
    byteLen (renderField f) = byteLen (quote f.1) + byteLen f.2.render + 4 := by
  have hindent : byteLen "  ".toList = 2 ∧ byteLen ": ".toList = 2 := by decide
  rw [renderField, byteLen_append, byteLen_append, byteLen_append, hindent.1, hindent.2]
  omega

/-- The size of the printed fields. -/
theorem byteLen_renderFields (fs : List (List Char × Scalar)) :
    byteLen (renderFields fs) =
      (fs.map fun f => byteLen (quote f.1) + byteLen f.2.render + 6).sum := by
  have hsep : ','.utf8Size = 1 ∧ '\n'.utf8Size = 1 ∧ '\x7d'.utf8Size = 1 := by decide
  fun_induction renderFields fs with
  | case1 => rfl
  | case2 f =>
    simp only [byteLen_append, byteLen_cons, byteLen_renderField, hsep, Utf8Text.byteLen_nil,
      List.map_cons, List.map_nil, List.sum_cons, List.sum_nil]
    omega
  | case3 f g fs ih =>
    rw [byteLen_append, byteLen_cons, byteLen_cons, byteLen_renderField, List.map_cons, List.sum_cons,
      hsep.1, hsep.2.1]
    omega

/-- The length of an object: six bytes for each field beside its key and value, and two. -/
theorem byteLen_renderRecord (fs : List (List Char × Scalar)) :
    byteLen (renderRecord fs) =
      (fs.map fun f => byteLen (quote f.1) + byteLen f.2.render + 6).sum + 2 := by
  have hbrace : '\x7b'.utf8Size = 1 ∧ '\n'.utf8Size = 1 ∧ '\x7d'.utf8Size = 1 := by decide
  cases fs with
  | nil =>
    show byteLen ['\x7b', '\x7d'] = 0 + 2
    decide
  | cons f fs =>
    have hlen := byteLen_renderFields (f :: fs)
    rw [renderRecord, byteLen_cons, byteLen_cons, hbrace.1, hbrace.2.1]
    omega

end JsonText
