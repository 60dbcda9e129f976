/-
# Cutting a text at a byte length

`compact_snippet` and `compact_text_preview` walk over the characters of a text to find where to
cut it; `normalize_error_signature` cuts at byte 200 whatever stands there.

* `lastStart_eq` — the walk ends behind the longest prefix that fits;
* `compactTextPreview_eq` — what the compaction keeps, and `compactTextPreview_spec`, its law;
* `normalizeErrorSignature_eq_some_iff` — when the normalization has a result;
* `truncation_safe_iff` — the three are safe exactly on the texts without a character across
  byte 200 of their normal form.
-/
import Memd.MemorySearch

open Utf8Text Text

/-! ## Replacing what varies -/

/-- The replacements of the regex crate: pattern, replacement and text. -/
abbrev ReplaceAll :=
  String → String → List Char → List Char

/-- A text with its addresses, timestamps and UUIDs replaced. -/
def replaceVariable (replaceAll : ReplaceAll) (text : List Char) : List Char :=
  let text := replaceAll "0x[0-9a-fA-F]+" "0x..." text
  let text := replaceAll
    "\\d\x7b4\x7d-\\d\x7b2\x7d-\\d\x7b2\x7d[T ]\\d\x7b2\x7d:\\d\x7b2\x7d:\\d\x7b2\x7d" "<timestamp>" text
  replaceAll ("[0-9a-fA-F]\x7b8\x7d-[0-9a-fA-F]\x7b4\x7d-[0-9a-fA-F]\x7b4\x7d-[0-9a-fA-F]\x7b4\x7d-"
    ++ "[0-9a-fA-F]\x7b12\x7d") "<uuid>" text

/-- `normalize_error_signature`; `String::truncate` panics inside a character. -/
def normalizeErrorSignature (replaceAll : ReplaceAll) (error : List Char) : Option (List Char) :=
  let normalized := replaceVariable replaceAll error
  if 200 < Utf8Text.byteLen normalized then
    (splitAtByte normalized 200).map fun p => p.1 ++ "...".toList
  else some normalized

/-- **The normalization** has a result when it cuts nothing, or between two characters. -/
theorem normalizeErrorSignature_eq_some_iff {replaceAll : ReplaceAll} {error : List Char} :
    (∃ r, normalizeErrorSignature replaceAll error = some r) ↔
      Utf8Text.byteLen (replaceVariable replaceAll error) ≤ 200 ∨
        isCharBoundary (replaceVariable replaceAll error) 200 = true := by
  unfold normalizeErrorSignature isCharBoundary
  dsimp only
  split
  · rename_i hlong
    rw [Option.isSome_iff_exists]
    constructor
    · rintro ⟨r, hr⟩
      obtain ⟨p, hp, -⟩ := Option.map_eq_some_iff.mp hr
      exact .inr ⟨p, hp⟩
    · rintro (hshort | ⟨p, hp⟩)
      · exact absurd hlong (not_lt.mpr hshort)
      · exact ⟨_, by rw [hp]; rfl⟩
  · rename_i hshort
    exact ⟨fun _ => .inl (not_lt.mp hshort), fun _ => ⟨_, rfl⟩⟩

theorem byteLen_normalizeErrorSignature {replaceAll : ReplaceAll} {error r : List Char}
    (h : normalizeErrorSignature replaceAll error = some r) : Utf8Text.byteLen r ≤ 203 := by
  unfold normalizeErrorSignature at h
  dsimp only at h
  split at h
  · obtain ⟨⟨a, b⟩, hsplit, rfl⟩ := Option.map_eq_some_iff.mp h
    have hlen := (splitAtByte_eq_some hsplit).2
    have hdots : Utf8Text.byteLen "...".toList = 3 := by decide
    rw [byteLen_append, hlen, hdots]
  · cases h
    omega

/-! ## Walking over the characters -/

/-- The loop over `char_indices`: the start of the last character that starts within `max`. -/
def lastStart (max : ℕ) (found : ℕ) (idx : ℕ) : List Char → ℕ
  | [] => found
  | c :: cs => if max < idx then found else lastStart max idx (idx + c.utf8Size) cs

/-- `trim_end`. -/
def trimEnd (s : List Char) : List Char :=
  (s.reverse.dropWhile isWhitespace).reverse

/-- `compact_text_preview`; `none` is a slice that ends inside a character. -/
def compactTextPreview (text : List Char) (max : ℕ) : Option (List Char) :=
  if Utf8Text.byteLen text ≤ max then some text
  else (splitAtByte text (lastStart max 0 0 text)).map fun p => trimEnd p.1

/-- **The walk** ends behind the longest prefix that fits. -/
theorem lastStart_eq {max found idx : ℕ} {cs : List Char} (hle : idx ≤ max)
    (hlong : max < idx + Utf8Text.byteLen cs) :
    lastStart max found idx cs = idx + Utf8Text.byteLen (takeFitting (max - idx) cs) := by
  induction cs generalizing found idx with
  | nil =>
    rw [byteLen_nil] at hlong
    omega
  | cons c cs ih =>
    rw [byteLen_cons] at hlong
    rw [lastStart, if_neg (by omega), takeFitting]
    by_cases hfits : c.utf8Size ≤ max - idx
    · rw [if_pos hfits, ih (by omega) (by omega), byteLen_cons, Nat.sub_sub]
      omega
    · -- the next character starts behind the bound
      rw [if_neg hfits, byteLen_nil]
      cases cs with
      | nil => rfl
      | cons c' cs => rw [lastStart, if_pos (by omega), Nat.add_zero]

/-- **The compaction** keeps the longest prefix that fits, without the white space at its end. -/
theorem compactTextPreview_eq (text : List Char) (max : ℕ) :
    compactTextPreview text max =
      some (if Utf8Text.byteLen text ≤ max then text else trimEnd (takeFitting max text)) := by
  unfold compactTextPreview
  split
  · rfl
  · rename_i hlong
    obtain ⟨rest, hrest⟩ := prefix_takeFitting max text
    have hstart : lastStart max 0 0 text = Utf8Text.byteLen (takeFitting max text) := by
      rw [lastStart_eq (Nat.zero_le _) (by omega), Nat.sub_zero, Nat.zero_add]
    have hsplit := splitAtByte_append (takeFitting max text) rest
    rw [hrest] at hsplit
    rw [hstart, hsplit]
    rfl

/-- A prefix that fits is one of the longest. -/
theorem prefix_takeFitting_of_le {p text : List Char} {n : ℕ} (hp : p <+: text)
    (hle : Utf8Text.byteLen p ≤ n) : p <+: takeFitting n text := by
  obtain ⟨rest, rfl⟩ := hp
  rw [takeFitting_append hle]
  exact List.prefix_append _ _

theorem byteLen_isPrefix {p text : List Char} (h : p <+: text) :
    Utf8Text.byteLen p ≤ Utf8Text.byteLen text := by
  obtain ⟨rest, rfl⟩ := h
  rw [byteLen_append]
  omega

theorem trimEnd_isPrefix (s : List Char) : trimEnd s <+: s := by
  rw [trimEnd, ← List.reverse_suffix, List.reverse_reverse]
  exact List.dropWhile_suffix _

/-- The text that a compaction to a number of bytes may give. -/
structure CompactTo (max : ℕ) (text result : List Char) : Prop where
  bound : Utf8Text.byteLen result ≤ max
  kept : ∃ kept, kept <+: text ∧ Utf8Text.byteLen kept ≤ max ∧
    (∀ p, p <+: text → Utf8Text.byteLen p ≤ max → p <+: kept) ∧
    result = if kept = text then text else trimEnd kept

/-- **The law of the compaction**: it has a result, within the bound, of the longest prefix. -/
theorem compactTextPreview_spec (text : List Char) (max : ℕ) :
    ∃ result, compactTextPreview text max = some result ∧ CompactTo max text result := by
  refine ⟨_, compactTextPreview_eq text max, ?_, takeFitting max text, prefix_takeFitting max text,
    byteLen_takeFitting_le max text, fun p hp hle => prefix_takeFitting_of_le hp hle, ?_⟩
  · split
    · assumption
    · exact (byteLen_isPrefix (trimEnd_isPrefix _)).trans (byteLen_takeFitting_le max text)
  · split
    · rename_i hle
      have hall : takeFitting max text = text :=
        (prefix_takeFitting max text).eq_of_length_le
          (prefix_takeFitting_of_le (List.prefix_refl text) hle).length_le
      rw [if_pos hall]
    · rename_i hlong
      have hne : takeFitting max text ≠ text := by
        intro heq
        have hle := byteLen_takeFitting_le max text
        rw [heq] at hle
        exact hlong hle
      rw [if_neg hne]

theorem byteLen_toList (s : String) : Utf8Text.byteLen s.toList = s.utf8ByteSize := by
  have hlist : ∀ cs : List Char, Utf8Text.byteLen cs = (String.ofList cs).utf8ByteSize := by
    intro cs
    induction cs with
    | nil => rfl
    | cons c cs ih =>
      rw [byteLen_cons, ih, String.ofList_cons, String.utf8ByteSize_append,
        String.utf8ByteSize_singleton]
  rw [hlist, String.ofList_toList]

/-- `compact_snippet` is the compaction to 600 bytes. -/
theorem compactSnippet_eq (text : String) :
    compactTextPreview text.toList 600 = some (compactSnippet text).toList := by
  rw [compactTextPreview_eq, byteLen_toList, compactSnippet]
  split
  · rfl
  · rw [String.toList_ofList]
    rfl

/-! ## The three functions -/

/-- None of the three cuts inside a character, their results are within their bounds, and the two
compactions keep the longest prefix. -/
structure TruncationSafe (replaceAll : ReplaceAll) (text : String) : Prop where
  normalize : ∃ r, normalizeErrorSignature replaceAll text.toList = some r ∧
    Utf8Text.byteLen r ≤ 203
  snippet : compactTextPreview text.toList 600 = some (compactSnippet text).toList ∧
    CompactTo 600 text.toList (compactSnippet text).toList
  preview : ∀ max, ∃ r, compactTextPreview text.toList max = some r ∧ CompactTo max text.toList r

/-- **Truncation is safe** on exactly the texts whose addresses, timestamps and UUIDs replaced
leave at most 200 bytes or a text with a character starting at byte 200. -/
theorem truncation_safe_iff (replaceAll : ReplaceAll) (text : String) :
    TruncationSafe replaceAll text ↔
      Utf8Text.byteLen (replaceVariable replaceAll text.toList) ≤ 200 ∨
        isCharBoundary (replaceVariable replaceAll text.toList) 200 = true := by
  rw [← normalizeErrorSignature_eq_some_iff]
  constructor
  · rintro ⟨⟨r, hr, -⟩, -, -⟩
    exact ⟨r, hr⟩
  · rintro ⟨r, hr⟩
    obtain ⟨r', hr', hcompact⟩ := compactTextPreview_spec text.toList 600
    have hsnippet := compactSnippet_eq text
    rw [hsnippet] at hr'
    obtain rfl := Option.some.inj hr'
    exact ⟨⟨r, hr, byteLen_normalizeErrorSignature hr⟩, ⟨hsnippet, hcompact⟩,
      compactTextPreview_spec text.toList⟩

/-- 199 letters and a character of two bytes, in which no pattern has a match. -/
theorem not_truncationSafe_wide :
    ¬ TruncationSafe (fun _ _ text => text) (String.ofList (List.replicate 199 'a' ++ ['é'])) := by
  rintro ⟨⟨r, hr, -⟩, -, -⟩
  rw [String.toList_ofList] at hr
  have hnone : normalizeErrorSignature (fun _ _ text => text) (List.replicate 199 'a' ++ ['é']) =
      none := by
    decide +kernel
  rw [hnone] at hr
  exact absurd hr (by simp)
