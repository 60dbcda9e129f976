/-
# The words of a text

The words of a list are its longest runs of elements that satisfy `p`.

* `words_append_cons` — an element that is in no word separates;
* `words_congr`, `mem_of_mem_words` — words are read off the elements of the list;
* `intercalate_injective` — words joined by a separator can be told apart again.
-/
import Mathlib.Data.List.Basic

namespace Words

variable {α : Type*} (p : α → Bool)

/-- The runs of elements that satisfy `p`. -/
def words (l : List α) : List (List α) :=
  (l.splitOnP fun a => !p a).filter fun w => !w.isEmpty

@[simp] theorem words_nil : words p [] = [] := rfl

variable {p}

theorem words_append_cons (l l' : List α) {sep : α} (h : p sep = false) :
    words p (l ++ sep :: l') = words p l ++ words p l' := by
  have hsep : (!p sep) = true := by rw [h]; rfl
  rw [words, List.splitOnP_append_cons l l' hsep, List.filter_append, ← words, ← words]

theorem words_cons_of_neg {a : α} (h : p a = false) (l : List α) : words p (a :: l) = words p l :=
  words_append_cons [] l h

/-- The piece up to the first separator, and the words of the rest. -/
theorem exists_splitOnP (l : List α) : ∃ first rest, l.splitOnP (fun a => !p a) = first :: rest ∧
    (∀ a ∈ first, p a = true) := by
  induction l with
  | nil => exact ⟨[], [], rfl, fun a ha => absurd ha List.not_mem_nil⟩
  | cons a l ih =>
    obtain ⟨first, rest, hsplit, hall⟩ := ih
    rw [List.splitOnP_cons_eq_if_modifyHead, hsplit]
    cases ha : p a with
    | false => exact ⟨[], first :: rest, by simp, fun b hb => absurd hb List.not_mem_nil⟩
    | true =>
      refine ⟨a :: first, rest, by simp, ?_⟩
      intro b hb
      rcases List.mem_cons.mp hb with rfl | hb
      · exact ha
      · exact hall b hb

theorem words_congr {q : α → Bool} {l : List α} (h : ∀ a ∈ l, p a = q a) : words p l = words q l := by
  have hsplit : l.splitOnP (fun a => !p a) = l.splitOnP fun a => !q a := by
    induction l with
    | nil => rfl
    | cons a l ih =>
      rw [List.splitOnP_cons_eq_if_modifyHead, List.splitOnP_cons_eq_if_modifyHead,
        h a List.mem_cons_self, ih fun b hb => h b (List.mem_cons_of_mem a hb)]
  rw [words, hsplit, words]

/-- The letters of a word are elements of the list. -/
theorem mem_of_mem_words {l w : List α} (hw : w ∈ words p l) {a : α} (ha : a ∈ w) : a ∈ l := by
  have hmem := (List.mem_filter.mp hw).1
  clear hw
  induction l generalizing w with
  | nil =>
    obtain rfl := List.mem_singleton.mp hmem
    exact ha
  | cons b l ih =>
    rw [List.splitOnP_cons_eq_if_modifyHead] at hmem
    obtain ⟨first, rest, hsplit, _⟩ := exists_splitOnP (p := p) l
    split at hmem
    · rcases List.mem_cons.mp hmem with rfl | hmem
      · exact absurd ha List.not_mem_nil
      · exact List.mem_cons_of_mem b (ih ha hmem)
    · rw [hsplit] at hmem ih
      rcases List.mem_cons.mp hmem with rfl | hmem
      · rcases List.mem_cons.mp ha with rfl | ha
        · exact List.mem_cons_self
        · exact List.mem_cons_of_mem b (ih ha List.mem_cons_self)
      · exact List.mem_cons_of_mem b (ih ha (List.mem_cons_of_mem first hmem))

/-- A word is not empty and holds no separator. -/
theorem mem_words {l w : List α} (h : w ∈ words p l) : w ≠ [] ∧ ∀ a ∈ w, p a = true := by
  obtain ⟨hmem, hne⟩ := List.mem_filter.mp h
  refine ⟨by simpa using hne, ?_⟩
  clear h hne
  induction l with
  | nil =>
    obtain rfl := List.mem_singleton.mp hmem
    exact fun a ha => absurd ha List.not_mem_nil
  | cons a l ih =>
    obtain ⟨first, rest, hsplit, hall⟩ := exists_splitOnP (p := p) l
    rw [List.splitOnP_cons_eq_if_modifyHead] at hmem
    cases ha : p a with
    | false =>
      rw [ha] at hmem
      rcases List.mem_cons.mp hmem with rfl | hmem
      · exact fun b hb => absurd hb List.not_mem_nil
      · exact ih hmem
    | true =>
      rw [ha, hsplit] at hmem
      rcases List.mem_cons.mp hmem with rfl | hmem
      · intro b hb
        rcases List.mem_cons.mp hb with rfl | hb
        · exact ha
        · exact hall b hb
      · exact ih (hsplit ▸ List.mem_cons_of_mem _ hmem)

/-! ## Joining -/

/-- The first separator of a text is where it is. -/
theorem append_cons_inj {sep : α} {l₁ l₂ r₁ r₂ : List α} (h₁ : sep ∉ l₁) (h₂ : sep ∉ l₂) :
    l₁ ++ sep :: r₁ = l₂ ++ sep :: r₂ ↔ l₁ = l₂ ∧ r₁ = r₂ := by
  refine ⟨fun h => ?_, fun h => by rw [h.1, h.2]⟩
  induction l₁ generalizing l₂ with
  | nil =>
    cases l₂ with
    | nil => exact ⟨rfl, (List.cons.inj h).2⟩
    | cons b l₂ => exact absurd ((List.cons.inj h).1 ▸ List.mem_cons_self) h₂
  | cons a l₁ ih =>
    cases l₂ with
    | nil => exact absurd ((List.cons.inj h).1 ▸ List.mem_cons_self) h₁
    | cons b l₂ =>
      obtain ⟨rfl, htail⟩ := List.cons.inj h
      obtain ⟨rfl, hr⟩ := ih (fun hm => h₁ (List.mem_cons_of_mem _ hm))
        (fun hm => h₂ (List.mem_cons_of_mem _ hm)) htail
      exact ⟨rfl, hr⟩

theorem intercalate_cons (sep : List α) (w : List α) (ws : List (List α)) :
    sep.intercalate (w :: ws) = w ++ (if ws = [] then [] else sep ++ sep.intercalate ws) := by
  cases ws with
  | nil => simp [List.intercalate]
  | cons v ws => simp [List.intercalate]

theorem intercalate_eq_nil {sep : List α} {ws : List (List α)} (h : ∀ w ∈ ws, w ≠ [])
    (hnil : sep.intercalate ws = []) : ws = [] := by
  cases ws with
  | nil => rfl
  | cons w ws =>
    rw [intercalate_cons] at hnil
    exact absurd (List.append_eq_nil_iff.mp hnil).1 (h w List.mem_cons_self)

/-- **Joined words** can be told apart again. -/
theorem intercalate_injective [BEq α] [LawfulBEq α] {sep : α} {ws ws' : List (List α)}
    (h : ∀ w ∈ ws, w ≠ [] ∧ sep ∉ w) (h' : ∀ w ∈ ws', w ≠ [] ∧ sep ∉ w)
    (heq : [sep].intercalate ws = [sep].intercalate ws') : ws = ws' := by
  by_cases hnil : ws = []
  · subst hnil
    exact (intercalate_eq_nil (fun w hw => (h' w hw).1) heq.symm).symm
  · have hnil' : ws' ≠ [] := by
      rintro rfl
      exact hnil (intercalate_eq_nil (fun w hw => (h w hw).1) heq)
    rw [← List.splitOn_intercalate sep (fun w hw => (h w hw).2) hnil, heq,
      List.splitOn_intercalate sep (fun w hw => (h' w hw).2) hnil']

/-- Letters and digits are ASCII. -/
theorem isAlphanum_ascii {c : Char} (h : c.isAlphanum = true) :
    (48 ≤ c.toNat ∧ c.toNat ≤ 57) ∨ (65 ≤ c.toNat ∧ c.toNat ≤ 90) ∨
      (97 ≤ c.toNat ∧ c.toNat ≤ 122) := by
  have hcases : ((decide (c.val ≥ 'A'.val ∧ c.val ≤ 'Z'.val) ||
      (c.val ≥ 'a'.val && c.val ≤ 'z'.val)) || (c.val ≥ '0'.val && c.val ≤ '9'.val)) = true := h
  simp only [Bool.or_eq_true, Bool.and_eq_true, decide_eq_true_eq, ge_iff_le,
    UInt32.le_iff_toNat_le] at hcases
  rcases hcases with (hupper | hlower) | hdigit
  · exact .inr (.inl hupper)
  · exact .inr (.inr hlower)
  · exact .inl hdigit

end Words
