/-
# Searching a text

The first occurrence of a text in another one, as a byte offset, and texts that occur one behind
the other.

* `find_eq_some_iff` — an offset is found exactly if it is that of the first occurrence;
* `inOrder_cons_iff` — taking the first occurrence of each text never misses a place for the
  texts behind it;
* `inOrder_concat_iff` — the last of them may as well be taken at the end.
-/
import Memd.Utf8Text

namespace Utf8Text

variable {p t : List Char}

/-! ## The first occurrence -/

/-- `str::find`, with a text to look for. -/
def find (p : List Char) : List Char → Option ℕ
  | [] => if p = [] then some 0 else none
  | c :: t => if p <+: c :: t then some 0 else (find p t).map (c.utf8Size + ·)

/-- `a` stands in front of the first occurrence of `p` in the text, and `b` behind it. -/
structure FirstAt (p t a b : List Char) : Prop where
  eq : t = a ++ (p ++ b)
  first : ∀ a' b', t = a' ++ (p ++ b') → a <+: a'

theorem FirstAt.nil (b : List Char) : FirstAt p (p ++ b) [] b :=
  ⟨rfl, fun _ _ _ => List.nil_prefix⟩

theorem FirstAt.cons {c : Char} {a b : List Char} (h : FirstAt p t a b)
    (hnot : ¬ p <+: c :: t) : FirstAt p (c :: t) (c :: a) b := by
  refine ⟨by rw [h.eq, List.cons_append], fun a' b' heq => ?_⟩
  cases a' with
  | nil => exact absurd ⟨b', heq.symm⟩ hnot
  | cons c' a' =>
    rw [List.cons_append, List.cons.injEq] at heq
    exact List.cons_prefix_cons.mpr ⟨heq.1, h.first a' b' heq.2⟩

theorem exists_firstAt_of_find {n : ℕ} (h : find p t = some n) :
    ∃ a b, FirstAt p t a b ∧ byteLen a = n := by
  induction t generalizing n with
  | nil =>
    rw [find] at h
    split at h
    · rename_i hp
      subst hp
      cases h
      exact ⟨[], [], FirstAt.nil [], rfl⟩
    · exact absurd h (by simp)
  | cons c t ih =>
    rw [find] at h
    split at h
    · rename_i hp
      obtain ⟨b, hb⟩ := hp
      cases h
      exact ⟨[], b, hb ▸ FirstAt.nil b, rfl⟩
    · rename_i hnot
      obtain ⟨m, hm, rfl⟩ := Option.map_eq_some_iff.mp h
      obtain ⟨a, b, hfirst, rfl⟩ := ih hm
      exact ⟨c :: a, b, hfirst.cons hnot, byteLen_cons c a⟩

theorem find_eq_none_iff : find p t = none ↔ ¬ p <:+: t := by
  induction t with
  | nil =>
    rw [find, List.infix_nil]
    split <;> simp_all
  | cons c t ih =>
    rw [find, List.infix_cons_iff]
    split
    · rename_i hp
      simp [hp]
    · rename_i hnot
      rw [Option.map_eq_none_iff, ih]
      simp [hnot]

/-- **The first occurrence** is what is found. -/
theorem find_eq_some_iff {n : ℕ} : find p t = some n ↔ ∃ a b, FirstAt p t a b ∧ byteLen a = n := by
  refine ⟨exists_firstAt_of_find, ?_⟩
  rintro ⟨a, b, hfirst, rfl⟩
  cases hfind : find p t with
  | none => exact absurd ⟨a, b, by rw [hfirst.eq, List.append_assoc]⟩ (find_eq_none_iff.mp hfind)
  | some m =>
    -- two first occurrences are one
    obtain ⟨a', b', hfirst', rfl⟩ := exists_firstAt_of_find hfind
    have hle := hfirst.first a' b' hfirst'.eq
    have hge := hfirst'.first a b hfirst.eq
    rw [hle.eq_of_length_le hge.length_le]

/-! ## Texts one behind the other -/

/-- The texts occur in `t` in this order, none of them before the end of the one in front. -/
def InOrder : List (List Char) → List Char → Prop
  | [], _ => True
  | p :: ps, t => ∃ a b, t = a ++ (p ++ b) ∧ InOrder ps b

theorem InOrder.append_left {ps : List (List Char)} (h : InOrder ps t) (s : List Char) :
    InOrder ps (s ++ t) := by
  cases ps with
  | nil => trivial
  | cons p ps =>
    obtain ⟨a, b, rfl, hrest⟩ := h
    exact ⟨s ++ a, b, by rw [List.append_assoc], hrest⟩

/-- **The first occurrence** of a text leaves the most room for the texts behind it. -/
theorem inOrder_cons_iff {a b : List Char} {ps : List (List Char)} (h : FirstAt p t a b) :
    InOrder (p :: ps) t ↔ InOrder ps b := by
  constructor
  · rintro ⟨a', b', heq, hrest⟩
    obtain ⟨s, rfl⟩ := h.first a' b' heq
    have hbs : p ++ b = s ++ (p ++ b') := by
      rw [h.eq, List.append_assoc, List.append_cancel_left_eq] at heq
      exact heq
    -- what stands behind a later occurrence stands behind the first one
    have hsuffix : b' <:+ b := by
      have htail : b' <:+ p ++ b := by
        rw [hbs, ← List.append_assoc]
        exact List.suffix_append _ _
      have hlen := congrArg List.length hbs
      simp only [List.length_append] at hlen
      exact List.suffix_of_suffix_length_le htail (List.suffix_append p b) (by omega)
    obtain ⟨s', rfl⟩ := hsuffix
    exact hrest.append_left s'
  · exact fun hrest => ⟨a, b, h.eq, hrest⟩

theorem inOrder_nil_cons_iff {ps : List (List Char)} : InOrder ([] :: ps) t ↔ InOrder ps t :=
  inOrder_cons_iff (FirstAt.nil t)

/-- Empty texts can be left out. -/
theorem inOrder_filter_iff (ps : List (List Char)) :
    InOrder (ps.filter (· ≠ [])) t ↔ InOrder ps t := by
  induction ps generalizing t with
  | nil => exact Iff.rfl
  | cons p ps ih =>
    by_cases hp : p = []
    · subst hp
      rw [inOrder_nil_cons_iff]
      exact ih
    · rw [List.filter_cons_of_pos (by simpa using hp)]
      exact exists_congr fun a => exists_congr fun b => and_congr Iff.rfl ih

theorem InOrder.last_length_le {ps : List (List Char)} {last : List Char}
    (h : InOrder (ps ++ [last]) t) : last.length ≤ t.length := by
  induction ps generalizing t with
  | nil =>
    obtain ⟨a, b, rfl, -⟩ := h
    simp only [List.length_append]
    omega
  | cons p ps ih =>
    obtain ⟨a, b, rfl, hrest⟩ := h
    have hle := ih hrest
    simp only [List.length_append]
    omega

/-- **The last text** at the end of `t`, when it stands there: the others find their places in
front of it. -/
theorem inOrder_concat_iff {ps : List (List Char)} {last : List Char} :
    InOrder (ps ++ [last]) t ∧ last <:+ t ↔ ∃ front, t = front ++ last ∧ InOrder ps front := by
  induction ps generalizing t with
  | nil =>
    constructor
    · rintro ⟨-, front, rfl⟩
      exact ⟨front, rfl, trivial⟩
    · rintro ⟨front, rfl, -⟩
      exact ⟨⟨front, [], by rw [List.append_nil], trivial⟩, List.suffix_append _ _⟩
  | cons p ps ih =>
    constructor
    · rintro ⟨⟨a, b, rfl, hrest⟩, hlast⟩
      have hsuffix : last <:+ b := by
        refine List.suffix_of_suffix_length_le hlast ?_ hrest.last_length_le
        rw [← List.append_assoc]
        exact List.suffix_append _ _
      obtain ⟨front, rfl, hfront⟩ := ih.mp ⟨hrest, hsuffix⟩
      exact ⟨a ++ (p ++ front), by simp only [List.append_assoc], a, front, rfl, hfront⟩
    · rintro ⟨_, rfl, a, front, rfl, hfront⟩
      refine ⟨⟨a, front ++ last, by simp only [List.append_assoc], ?_⟩, List.suffix_append _ _⟩
      exact (ih.mpr ⟨front, rfl, hfront⟩).1

end Utf8Text
