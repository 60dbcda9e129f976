/-
# Byte offsets into a text

A text is a list of characters, and an offset counts the bytes of its UTF-8 encoding.  Only the
offsets between two characters can be cut at.

* `splitAtByte_eq_some_iff` — a cut succeeds exactly behind a prefix of that many bytes;
* `slice_append` — the slice between two prefixes;
* `takeFitting` — the longest prefix within a number of bytes, and `floorBoundary_append`, which
  finds its end by walking back;
* `flatten_cutText` — cutting a text at the longest prefix that fits, again and again.
-/
import Mathlib.Algebra.GroupWithZero.Nat
import Mathlib.Data.List.Basic
import Mathlib.Data.Nat.Notation
import Mathlib.Data.Option.Basic
import Mathlib.Tactic.Set

namespace Utf8Text

/-- `str::len`: the bytes of a text. -/
def byteLen (l : List Char) : ℕ :=
  (l.map Char.utf8Size).sum

@[simp] theorem byteLen_nil : byteLen [] = 0 := rfl

@[simp] theorem byteLen_cons (c : Char) (l : List Char) :
    byteLen (c :: l) = c.utf8Size + byteLen l := rfl

@[simp] theorem byteLen_append (l l' : List Char) : byteLen (l ++ l') = byteLen l + byteLen l' := by
  rw [byteLen, List.map_append, List.sum_append, byteLen, byteLen]

/-- The bytes of a character repeated. -/
theorem byteLen_replicate (n : ℕ) (c : Char) : byteLen (List.replicate n c) = n * c.utf8Size := by
  induction n with
  | zero => rw [List.replicate_zero, byteLen_nil, Nat.zero_mul]
  | succ n ih =>
    rw [List.replicate_succ, byteLen_cons, ih, Nat.succ_mul, Nat.add_comm]

/-- Only the empty text has no bytes. -/
theorem byteLen_eq_zero {l : List Char} : byteLen l = 0 ↔ l = [] := by
  cases l with
  | nil => simp
  | cons c l =>
    have hpos := c.utf8Size_pos
    simp only [byteLen_cons, reduceCtorEq, iff_false]
    omega

/-- A text of ASCII characters takes a byte a character. -/
theorem byteLen_eq_length {l : List Char} (h : ∀ c ∈ l, c.utf8Size = 1) : byteLen l = l.length := by
  induction l with
  | nil => rfl
  | cons c l ih =>
    rw [byteLen_cons, List.length_cons, ih fun d hd => h d (List.mem_cons_of_mem _ hd),
      h c List.mem_cons_self]
    omega

/-! ## Cutting -/

/-- The text before and behind an offset between two characters. -/
def splitAtByte : List Char → ℕ → Option (List Char × List Char)
  | l, 0 => some ([], l)
  | [], _ + 1 => none
  | c :: l, n + 1 =>
    if c.utf8Size ≤ n + 1 then (splitAtByte l (n + 1 - c.utf8Size)).map fun p => (c :: p.1, p.2)
    else none

/-- Cutting behind a prefix gives the prefix and the rest. -/
theorem splitAtByte_append (a b : List Char) : splitAtByte (a ++ b) (byteLen a) = some (a, b) := by
  induction a with
  | nil => cases b <;> rfl
  | cons c a ih =>
    have hpos := c.utf8Size_pos
    obtain ⟨n, hn⟩ : ∃ n, c.utf8Size + byteLen a = n + 1 := ⟨c.utf8Size + byteLen a - 1, by omega⟩
    have hrest : n + 1 - c.utf8Size = byteLen a := by omega
    rw [List.cons_append, byteLen_cons, hn, splitAtByte, if_pos (by omega), hrest, ih]
    rfl

/-- A cut that succeeds takes the text apart at that byte. -/
theorem splitAtByte_eq_some {l a b : List Char} {n : ℕ} (h : splitAtByte l n = some (a, b)) :
    l = a ++ b ∧ byteLen a = n := by
  fun_induction splitAtByte l n generalizing a b with
  | case1 l =>
    cases h
    exact ⟨rfl, rfl⟩
  | case2 => exact absurd h (by simp)
  | case3 c l n hle ih =>
    obtain ⟨⟨a', b'⟩, hsplit, heq⟩ := Option.map_eq_some_iff.mp h
    cases heq
    obtain ⟨rfl, hlen⟩ := ih hsplit
    refine ⟨rfl, ?_⟩
    rw [byteLen_cons, hlen]
    omega
  | case4 => exact absurd h (by simp)

/-- **A cut** succeeds exactly behind a prefix of that many bytes. -/
theorem splitAtByte_eq_some_iff {l a b : List Char} {n : ℕ} :
    splitAtByte l n = some (a, b) ↔ l = a ++ b ∧ byteLen a = n := by
  refine ⟨splitAtByte_eq_some, ?_⟩
  rintro ⟨rfl, rfl⟩
  exact splitAtByte_append a b

/-- `str::is_char_boundary`. -/
def isCharBoundary (l : List Char) (n : ℕ) : Bool :=
  (splitAtByte l n).isSome

/-- A byte index is a boundary where a prefix of the text ends. -/
theorem isCharBoundary_iff {l : List Char} {n : ℕ} :
    isCharBoundary l n = true ↔ ∃ a b, l = a ++ b ∧ byteLen a = n := by
  rw [isCharBoundary, Option.isSome_iff_exists]
  constructor
  · rintro ⟨⟨a, b⟩, h⟩
    exact ⟨a, b, splitAtByte_eq_some h⟩
  · rintro ⟨a, b, h⟩
    exact ⟨(a, b), splitAtByte_eq_some_iff.mpr h⟩

/-- `text[n..]`, which panics inside a character. -/
def sliceFrom (l : List Char) (n : ℕ) : Option (List Char) :=
  (splitAtByte l n).map Prod.snd

/-- `text[m..n]`, which panics inside a character. -/
def slice (l : List Char) (m n : ℕ) : Option (List Char) := do
  guard (m ≤ n)
  let rest ← sliceFrom l m
  let (inner, _) ← splitAtByte rest (n - m)
  pure inner

/-- The slice behind a prefix. -/
theorem sliceFrom_append (a b : List Char) : sliceFrom (a ++ b) (byteLen a) = some b := by
  rw [sliceFrom, splitAtByte_append]
  rfl

/-- The slice between two prefixes. -/
theorem slice_append (a b c : List Char) :
    slice (a ++ (b ++ c)) (byteLen a) (byteLen a + byteLen b) = some b := by
  unfold slice
  rw [sliceFrom_append, Nat.add_sub_cancel_left]
  simp [splitAtByte_append]

/-- A slice stands behind a prefix of that many bytes. -/
theorem of_slice {l inner : List Char} {m n : ℕ} (h : slice l m n = some inner) :
    ∃ a b, l = a ++ (inner ++ b) ∧ byteLen a = m := by
  unfold slice at h
  by_cases hle : m ≤ n
  · obtain ⟨⟨a, rest⟩, hsplit⟩ | hnone : (∃ p, splitAtByte l m = some p) ∨ splitAtByte l m = none := by
      cases splitAtByte l m <;> simp
    · obtain ⟨⟨inner', b⟩, hsplit'⟩ | hnone :
          (∃ p, splitAtByte rest (n - m) = some p) ∨ splitAtByte rest (n - m) = none := by
        cases splitAtByte rest (n - m) <;> simp
      · simp [guard, hle, sliceFrom, hsplit, hsplit'] at h
        obtain ⟨rfl, hlen⟩ := splitAtByte_eq_some hsplit
        obtain ⟨rfl, _⟩ := splitAtByte_eq_some hsplit'
        exact ⟨a, b, by rw [h], hlen⟩
      · simp [guard, hle, sliceFrom, hsplit, hnone] at h
    · simp [guard, hle, sliceFrom, hnone] at h
  · simp [guard, hle] at h

/-! ## The longest prefix that fits -/

/-- The longest prefix of at most that many bytes. -/
def takeFitting : ℕ → List Char → List Char
  | _, [] => []
  | n, c :: l => if c.utf8Size ≤ n then c :: takeFitting (n - c.utf8Size) l else []

/-- What is taken is a prefix. -/
theorem prefix_takeFitting (n : ℕ) (l : List Char) : takeFitting n l <+: l := by
  fun_induction takeFitting n l with
  | case1 => exact List.nil_prefix
  | case2 n c l hle ih => exact List.cons_prefix_cons.mpr ⟨rfl, ih⟩
  | case3 => exact List.nil_prefix

/-- What is taken fits. -/
theorem byteLen_takeFitting_le (n : ℕ) (l : List Char) : byteLen (takeFitting n l) ≤ n := by
  fun_induction takeFitting n l with
  | case1 => exact Nat.zero_le _
  | case2 n c l hle ih =>
    rw [byteLen_cons]
    omega
  | case3 => exact Nat.zero_le _

/-- A prefix that fits is taken whole. -/
theorem takeFitting_append {a : List Char} {n : ℕ} (h : byteLen a ≤ n) (b : List Char) :
    takeFitting n (a ++ b) = a ++ takeFitting (n - byteLen a) b := by
  induction a generalizing n with
  | nil => rfl
  | cons c a ih =>
    rw [byteLen_cons] at h
    rw [List.cons_append, takeFitting, if_pos (by omega), ih (by omega), byteLen_cons,
      Nat.sub_sub]
    rfl

/-- Into no bytes nothing fits. -/
theorem takeFitting_zero (l : List Char) : takeFitting 0 l = [] := by
  cases l with
  | nil => rfl
  | cons c l =>
    have hpos := c.utf8Size_pos
    rw [takeFitting, if_neg (by omega)]

/-- More than the text has does not fit more. -/
theorem takeFitting_min (n : ℕ) (l : List Char) : takeFitting (min (byteLen l) n) l = takeFitting n l := by
  rcases Nat.le_total (byteLen l) n with hle | hle
  · have hall : ∀ m, byteLen l ≤ m → takeFitting m l = l := fun m hm => by
      simpa [takeFitting] using takeFitting_append hm []
    rw [Nat.min_eq_left hle, hall _ (Nat.le_refl _), hall _ hle]
  · rw [Nat.min_eq_right hle]

/-- Where nothing fits into a size, nothing fits into a smaller one. -/
theorem takeFitting_eq_nil {m n : ℕ} (hle : n ≤ m) {l : List Char} (h : takeFitting m l = []) :
    takeFitting n l = [] := by
  cases l with
  | nil => rfl
  | cons c l =>
    rw [takeFitting] at h ⊢
    by_cases hc : c.utf8Size ≤ m
    · rw [if_pos hc] at h
      exact absurd h (List.cons_ne_nil _ _)
    · rw [if_neg (by omega)]

/-- One byte more makes no difference, unless a character ends there. -/
theorem takeFitting_succ {n : ℕ} {l : List Char} (h : isCharBoundary l (n + 1) = false) :
    takeFitting (n + 1) l = takeFitting n l := by
  obtain ⟨b, hb⟩ := prefix_takeFitting (n + 1) l
  set p := takeFitting (n + 1) l with hp
  have hle : byteLen p ≤ n + 1 := byteLen_takeFitting_le (n + 1) l
  have hne : byteLen p ≠ n + 1 := by
    intro heq
    rw [isCharBoundary_iff.mpr ⟨p, b, hb.symm, heq⟩] at h
    exact absurd h (by simp)
  have hstop : takeFitting (n + 1 - byteLen p) b = [] := by
    have hfit := takeFitting_append hle b
    rw [hb, ← hp] at hfit
    exact List.append_right_eq_self.mp hfit.symm
  have hshort : byteLen p ≤ n := by omega
  rw [← hb, takeFitting_append hshort, takeFitting_eq_nil (by omega) hstop, List.append_nil]

/-- Boundaries behind a prefix are those of the rest. -/
theorem isCharBoundary_append (a b : List Char) (n : ℕ) :
    isCharBoundary (a ++ b) (byteLen a + n) = isCharBoundary b n := by
  rw [Bool.eq_iff_iff, isCharBoundary_iff, isCharBoundary_iff]
  constructor
  · rintro ⟨p, q, heq, hlen⟩
    rcases List.append_eq_append_iff.mp heq with ⟨r, rfl, rfl⟩ | ⟨r, rfl, rfl⟩
    · rw [byteLen_append] at hlen
      exact ⟨r, q, rfl, by omega⟩
    · rw [byteLen_append] at hlen
      exact ⟨[], b, rfl, by rw [byteLen_nil]; omega⟩
  · rintro ⟨p, q, rfl, rfl⟩
    exact ⟨a ++ p, q, (List.append_assoc _ _ _).symm, byteLen_append _ _⟩

/-- The last offset between two characters in `lo .. e`, or `lo`. -/
def floorBoundary (l : List Char) (lo : ℕ) : ℕ → ℕ
  | 0 => 0
  | e + 1 => if lo < e + 1 && !isCharBoundary l (e + 1) then floorBoundary l lo e else e + 1

/-- From its lower end the search for a boundary goes nowhere. -/
theorem floorBoundary_self (l : List Char) (lo : ℕ) : floorBoundary l lo lo = lo := by
  cases lo with
  | zero => rfl
  | succ lo => simp [floorBoundary]

/-- **Walking back** from an offset ends behind the longest prefix that fits. -/
theorem floorBoundary_append (a b : List Char) (n : ℕ) :
    floorBoundary (a ++ b) (byteLen a) (byteLen a + n) = byteLen a + byteLen (takeFitting n b) := by
  induction n with
  | zero => rw [takeFitting_zero, Nat.add_zero, byteLen_nil, floorBoundary_self, Nat.add_zero]
  | succ n ih =>
    rw [← Nat.add_assoc, floorBoundary, Nat.add_assoc, isCharBoundary_append]
    cases hb : isCharBoundary b (n + 1) with
    | false =>
      rw [if_pos (by simp), ih, takeFitting_succ hb]
    | true =>
      obtain ⟨p, q, rfl, hp⟩ := isCharBoundary_iff.mp hb
      rw [if_neg (by simp), takeFitting_append (Nat.le_of_eq hp), hp, Nat.sub_self,
        takeFitting_zero, List.append_nil, hp]

/-! ## Cutting a long text -/

/-- The longest prefix of at most `size` bytes, but at least one character. -/
def firstPiece (size : ℕ) (l : List Char) : List Char :=
  if takeFitting size l = [] then l.take 1 else takeFitting size l

/-- The first piece is a prefix. -/
theorem prefix_firstPiece (size : ℕ) (l : List Char) : firstPiece size l <+: l := by
  unfold firstPiece
  split
  · exact List.take_prefix 1 l
  · exact prefix_takeFitting size l

/-- The first piece of a text takes something, so the cutting goes on. -/
theorem firstPiece_ne_nil (size : ℕ) {l : List Char} (h : l ≠ []) : firstPiece size l ≠ [] := by
  unfold firstPiece
  split
  · cases l with
    | nil => exact absurd rfl h
    | cons c l => exact List.cons_ne_nil _ _
  · assumption

/-- The first piece fits, or it is one character wider than the size. -/
theorem firstPiece_bound (size : ℕ) (l : List Char) :
    byteLen (firstPiece size l) ≤ size ∨ (firstPiece size l).length ≤ 1 := by
  unfold firstPiece
  split
  · exact Or.inr (List.length_take_le 1 l)
  · exact Or.inl (byteLen_takeFitting_le size l)

/-- The pieces of a text. -/
def cutText (size : ℕ) (l : List Char) : List (List Char) :=
  if _h : l = [] then []
  else firstPiece size l :: cutText size (l.drop (firstPiece size l).length)
termination_by l.length
decreasing_by
  have hpos := List.length_pos_iff.mpr (firstPiece_ne_nil size _h)
  have hl := List.length_pos_iff.mpr _h
  rw [List.length_drop]
  omega

/-- The first piece and what is behind it are the text. -/
theorem firstPiece_append_drop (size : ℕ) (l : List Char) :
    firstPiece size l ++ l.drop (firstPiece size l).length = l :=
  List.prefix_iff_eq_append.mp (prefix_firstPiece size l)

/-- **The pieces** make up the text. -/
theorem flatten_cutText (size : ℕ) (l : List Char) : (cutText size l).flatten = l := by
  fun_induction cutText size l with
  | case1 => rfl
  | case2 l h ih => rw [List.flatten_cons, ih, firstPiece_append_drop]

/-- Every piece is nonempty and fits, or is one character wider than the size. -/
theorem mem_cutText {size : ℕ} {l p : List Char} (hp : p ∈ cutText size l) :
    p ≠ [] ∧ (byteLen p ≤ size ∨ p.length ≤ 1) := by
  fun_induction cutText size l with
  | case1 => exact absurd hp List.not_mem_nil
  | case2 l h ih =>
    rcases List.mem_cons.mp hp with rfl | hp
    · exact ⟨firstPiece_ne_nil size h, firstPiece_bound size l⟩
    · exact ih hp

end Utf8Text
