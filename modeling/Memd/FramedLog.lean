/-
# Scanning a log of framed records

A framed log is a sequence of symbols in which every record announces its own
length.  A reader scans it from the front and stops at the first position that
does not decode.  This file collects what every such reader satisfies, for an
arbitrary decoder:

* `scan_append_left` : appending symbols never hides a record that was readable;
* `scan_append_of_consumed` : when the scan of a log reaches its end, appended
  symbols are scanned as a log of their own;
* `scan_flatMap` : a concatenation of encoded records scans back to the records.

The last two are what makes an append-only writer safe, and the gap between
them and the first one is a torn record at the end of the log.
-/
import Mathlib.Data.List.Basic
import Mathlib.Tactic.Common

/-- A decoder of one record at the front of a sequence of symbols.  `header` is
the number of symbols a reader wants to see before it tries to decode. -/
structure FrameDecoder (β α : Type) where
  header : ℕ
  decode : List β → Option (α × ℕ)
  header_pos : 0 < header
  /-- A decoded record takes at least its header and lies inside the input. -/
  decode_size : ∀ {d : List β} {a : α} {n : ℕ},
    decode d = some (a, n) → header ≤ n ∧ n ≤ d.length
  /-- Decoding looks at the record's own symbols only. -/
  decode_append : ∀ {d : List β} {a : α} {n : ℕ} (y : List β),
    decode d = some (a, n) → decode (d ++ y) = some (a, n)

namespace FrameDecoder

variable {β α : Type} (F : FrameDecoder β α)

/-! ## The scan loop -/

/-- The reader's loop.  While a header fits behind `offset`, decode there and
move on by what was consumed; stop at the first position that does not decode. -/
def scanFrom (data : List β) : ℕ → ℕ → List α × ℕ
  | 0, offset => ([], offset)
  | fuel + 1, offset =>
    if offset + F.header ≤ data.length then
      match F.decode (data.drop offset) with
      | some (a, consumed) =>
        let rest := scanFrom data fuel (offset + consumed)
        (a :: rest.1, rest.2)
      | none => ([], offset)
    else ([], offset)

/-- Scan a whole log: the records read and the number of symbols consumed. -/
def scan (data : List β) : List α × ℕ := F.scanFrom data data.length 0

/-- The scan as a relation on suffixes: what the loop does, without its fuel. -/
inductive Scans : List β → List α → ℕ → Prop
  | stop {d : List β} (h : F.header ≤ d.length → F.decode d = none) : Scans d [] 0
  | next {d : List β} {a : α} {n m : ℕ} {as : List α} (h : F.decode d = some (a, n))
      (rest : Scans (d.drop n) as m) : Scans d (a :: as) (n + m)

/-- The loop at `offset` computes the scan of the suffix there, given fuel for
the symbols that are left. -/
theorem scans_scanFrom (data : List β) (fuel : ℕ) :
    ∀ offset, data.length - offset ≤ fuel →
      ∃ m, (F.scanFrom data fuel offset).2 = offset + m ∧
        F.Scans (data.drop offset) (F.scanFrom data fuel offset).1 m := by
  induction fuel with
  | zero =>
    intro offset hfuel
    refine ⟨0, rfl, Scans.stop ?_⟩
    intro hlen
    rw [List.length_drop] at hlen
    have := F.header_pos
    omega
  | succ fuel ih =>
    intro offset hfuel
    rw [scanFrom]
    by_cases hfit : offset + F.header ≤ data.length
    · rw [if_pos hfit]
      cases hdec : F.decode (data.drop offset) with
      | none => exact ⟨0, rfl, Scans.stop fun _ => hdec⟩
      | some p =>
        obtain ⟨a, n⟩ := p
        have hsize := F.decode_size hdec
        have hpos := F.header_pos
        rw [List.length_drop] at hsize
        obtain ⟨m, hm, hscan⟩ := ih (offset + n) (by omega)
        refine ⟨n + m, ?_, ?_⟩
        · show (F.scanFrom data fuel (offset + n)).2 = _
          rw [hm]
          omega
        · refine Scans.next hdec ?_
          rw [List.drop_drop]
          exact hscan
    · rw [if_neg hfit]
      refine ⟨0, rfl, Scans.stop ?_⟩
      intro hlen
      rw [List.length_drop] at hlen
      have := F.header_pos
      omega

/-- The scan is determined by the symbols. -/
theorem Scans.unique {F : FrameDecoder β α} {d : List β} {as bs : List α} {m k : ℕ}
    (h : F.Scans d as m) (h' : F.Scans d bs k) : as = bs ∧ m = k := by
  induction h generalizing bs k with
  | stop hstop =>
    cases h' with
    | stop _ => exact ⟨rfl, rfl⟩
    | next hdec _ =>
      have hsize := F.decode_size hdec
      rw [hstop (Nat.le_trans hsize.1 hsize.2)] at hdec
      cases hdec
  | next hdec _ ih =>
    cases h' with
    | stop hstop =>
      have hsize := F.decode_size hdec
      rw [hstop (Nat.le_trans hsize.1 hsize.2)] at hdec
      cases hdec
    | next hdec' rest' =>
      rw [hdec] at hdec'
      cases hdec'
      obtain ⟨has, hm⟩ := ih rest'
      exact ⟨by rw [has], by rw [hm]⟩

/-- `scan` computes the scan relation. -/
theorem scans_scan (data : List β) : F.Scans data (F.scan data).1 (F.scan data).2 := by
  obtain ⟨m, hm, hscan⟩ := F.scans_scanFrom data data.length 0 (by omega)
  rw [List.drop_zero] at hscan
  have : (F.scan data).2 = m := by rw [scan, hm, Nat.zero_add]
  rw [this]
  exact hscan

/-- Reading a scan off its derivation. -/
theorem Scans.scan_eq {F : FrameDecoder β α} {d : List β} {as : List α} {m : ℕ}
    (h : F.Scans d as m) : F.scan d = (as, m) := by
  obtain ⟨h1, h2⟩ := (F.scans_scan d).unique h
  exact Prod.ext h1 h2

/-! ## Appending to a scanned log -/

/-- A record at the front of a log stays there when symbols are appended, and
the scan goes on behind it. -/
theorem Scans.next_append {F : FrameDecoder β α} {d y : List β} {a : α} {n m : ℕ}
    {as : List α} (hdec : F.decode d = some (a, n)) (h : F.Scans (d.drop n ++ y) as m) :
    F.Scans (d ++ y) (a :: as) (n + m) := by
  refine Scans.next (F.decode_append y hdec) ?_
  rw [List.drop_append_of_le_length (F.decode_size hdec).2]
  exact h

/-- Appending symbols never hides a record that was readable. -/
theorem scan_append_left (d y : List β) : (F.scan d).1 <+: (F.scan (d ++ y)).1 := by
  suffices h : ∀ {d : List β} {as : List α} {m : ℕ}, F.Scans d as m →
      ∃ bs k, F.Scans (d ++ y) (as ++ bs) k by
    obtain ⟨bs, k, hscan⟩ := h (F.scans_scan d)
    rw [hscan.scan_eq]
    exact List.prefix_append _ _
  intro d as m h
  induction h with
  | stop _ => exact ⟨_, _, F.scans_scan _⟩
  | next hdec _ ih =>
    obtain ⟨bs, k, hscan⟩ := ih
    exact ⟨bs, _, Scans.next_append hdec hscan⟩

/-- When the scan of `d` reaches the end of `d`, what is appended is scanned as
a log of its own. -/
theorem scan_append_of_consumed (d y : List β) (hd : (F.scan d).2 = d.length) :
    F.scan (d ++ y) = ((F.scan d).1 ++ (F.scan y).1, d.length + (F.scan y).2) := by
  suffices h : ∀ {d : List β} {as : List α} {m : ℕ}, F.Scans d as m → m = d.length →
      F.Scans (d ++ y) (as ++ (F.scan y).1) (d.length + (F.scan y).2) from
    (h (F.scans_scan d) hd).scan_eq
  intro d as m h
  induction h with
  | @stop d _ =>
    intro hnil
    have : d = [] := List.length_eq_zero_iff.mp hnil.symm
    subst this
    simpa using F.scans_scan y
  | @next d a n m as hdec rest ih =>
    intro hlen
    have hsize := F.decode_size hdec
    have hrest : m = (d.drop n).length := by
      rw [List.length_drop]
      omega
    have := Scans.next_append hdec (ih hrest)
    rwa [← Nat.add_assoc, List.length_drop, Nat.add_sub_cancel' hsize.2] at this

/-! ## Logs written record by record -/

/-- The scan of one encoded record followed by anything. -/
theorem scan_encoded_append {e : List β} {a : α} (he : F.decode e = some (a, e.length))
    (y : List β) : F.scan (e ++ y) = (a :: (F.scan y).1, e.length + (F.scan y).2) := by
  have hrest : F.Scans (e.drop e.length ++ y) (F.scan y).1 (F.scan y).2 := by
    rw [List.drop_length, List.nil_append]
    exact F.scans_scan y
  exact (Scans.next_append he hrest).scan_eq

/-- A concatenation of encoded records scans back to the records, and the scan
goes on behind them. -/
theorem scan_flatMap_append (encode : α → List β) :
    ∀ (as : List α) (_ : ∀ a ∈ as, F.decode (encode a) = some (a, (encode a).length))
      (y : List β),
      F.scan (as.flatMap encode ++ y) =
        (as ++ (F.scan y).1, (as.flatMap encode).length + (F.scan y).2)
  | [], _, y => by simp
  | a :: as, h, y => by
    have ha := h a List.mem_cons_self
    have has := scan_flatMap_append encode as (fun b hb => h b (List.mem_cons_of_mem _ hb)) y
    rw [List.flatMap_cons, List.append_assoc, F.scan_encoded_append ha, has]
    simp [Nat.add_assoc]

/-- The scan of the empty log. -/
@[simp] theorem scan_nil : F.scan [] = ([], 0) := rfl

/-- A concatenation of encoded records is consumed to its end. -/
theorem scan_flatMap (encode : α → List β) (as : List α)
    (h : ∀ a ∈ as, F.decode (encode a) = some (a, (encode a).length)) :
    F.scan (as.flatMap encode) = (as, (as.flatMap encode).length) := by
  have := F.scan_flatMap_append encode as h []
  simpa using this

end FrameDecoder
