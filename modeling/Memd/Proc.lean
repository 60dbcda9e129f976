/-
# Programs that act on a shared state one atomic step at a time

A small library for code whose calls run step by step against a common state: a
`Proc` is a resumption tree, every node of which is one atomic step that reads the
state, updates it and chooses how to go on; the step carries a label that says what
it does.  Between two steps of a program other programs may act, and the state may be
lost to a crash; a program proof therefore speaks about every intermediate state, not
only about the last one.

* `Proc` — the programs, with their monad, `read`, `modify`, `transact`, `attempt`;
* `Contract` — what a call may rely on and must guarantee while others run;
* `Proc.Sat` — the rely/guarantee judgement: under a contract, the outcome of a program
  satisfies a postcondition;
* one rule per combinator (`Sat.bind`, `Sat.foldlM`, `Sat.attempt`, …);
* `Proc.All` — what every step of a program is, for programs whose steps rely on nothing
  the program has read before;
* `Proc.Follows` — the same with a postcondition and with a look at the label of the step
  that comes next, for programs that do one thing right after another;
* `Proc.FailsWith` — which errors a program can end with;
* `Proc.Yields` — what a run without interruption returns;
* `Proc.onPart` — a program on a part of a larger state, `Proc.cut` — one that fails after a
  number of steps;
* `free` — the contract of calls that share an invariant and nothing else;
* `Proc.Safe` — the special case without interference, for runs that can only be
  interrupted by a crash.
-/
import Mathlib.Data.List.Basic

/-- A program over the state `σ`: it has returned, it has failed, or it takes one
atomic step that updates the state with `upd` and goes on with what `next` makes of
the state the step saw. -/
inductive Proc (L σ ε α : Type) : Type
  | ret (a : α) : Proc L σ ε α
  | fail (e : ε) : Proc L σ ε α
  | act (label : L) (upd : σ → σ) (next : σ → Proc L σ ε α) : Proc L σ ε α

namespace Proc

variable {L σ ε α β γ : Type}

/-! ## The combinators -/

/-- Sequencing: a failure skips what follows. -/
def bind : Proc L σ ε α → (α → Proc L σ ε β) → Proc L σ ε β
  | .ret a, f => f a
  | .fail e, _ => .fail e
  | .act l upd next, f => .act l upd fun s => (next s).bind f

instance : Monad (Proc L σ ε) where
  pure := .ret
  bind := Proc.bind

/-- One atomic read. -/
def read (l : L) (f : σ → α) : Proc L σ ε α :=
  .act l id fun s => .ret (f s)

/-- One atomic update. -/
def modify (l : L) (upd : σ → σ) : Proc L σ ε Unit :=
  .act l upd fun _ => .ret ()

/-- The outcome of a computation that touches no state. -/
def ofExcept : Except ε α → Proc L σ ε α
  | .ok a => .ret a
  | .error e => .fail e

/-- One atomic step that leaves a state behind and returns or fails. -/
def perform (l : L) (f : σ → Except ε α × σ) : Proc L σ ε α :=
  .act l (fun s => (f s).2) fun s => ofExcept (f s).1

/-- The outcome of a transaction and the state it leaves behind: an error rolls it
back. -/
def commit (s : σ) : Except ε (α × σ) → Except ε α × σ
  | .ok r => (.ok r.1, r.2)
  | .error e => (.error e, s)

/-- One atomic transaction: it commits, or it fails and changes nothing. -/
def transact (l : L) (f : σ → Except ε (α × σ)) : Proc L σ ε α :=
  perform l fun s => commit s (f s)

/-- Run a program and hand its outcome, failure included, to what follows. -/
def attempt : Proc L σ ε α → Proc L σ ε (Except ε α)
  | .ret a => .ret (.ok a)
  | .fail e => .ret (.error e)
  | .act l upd next => .act l upd fun s => (next s).attempt

/-- The label of the step a program is about to take. -/
def label : Proc L σ ε α → Option L
  | .act l _ _ => some l
  | _ => none

/-- A run of the whole program with nothing in between. -/
def run : Proc L σ ε α → σ → Except ε α × σ
  | .ret a, s => (.ok a, s)
  | .fail e, s => (.error e, s)
  | .act _ upd next, s => (next s).run (upd s)

/-- Two computations without state in a row return when both do. -/
theorem except_bind_eq_ok {x : Except ε α} {f : α → Except ε β} {b : β} :
    (x >>= f) = .ok b ↔ ∃ a, x = .ok a ∧ f a = .ok b := by
  cases x with
  | ok a => simp [Bind.bind, Except.bind]
  | error e => simp [Bind.bind, Except.bind]

/-- `pure` is the returning program. -/
@[simp] theorem pure_eq_ret (a : α) : (pure a : Proc L σ ε α) = .ret a := rfl

/-- `>>=` is the bind of programs. -/
@[simp] theorem bind_eq (p : Proc L σ ε α) (f : α → Proc L σ ε β) : p >>= f = p.bind f := rfl

/-- A program behind a value. -/
@[simp] theorem ret_bind (a : α) (f : α → Proc L σ ε β) : (Proc.ret a).bind f = f a := rfl

/-- Nothing runs behind a failure. -/
@[simp] theorem fail_bind (e : ε) (f : α → Proc L σ ε β) : (Proc.fail e).bind f = .fail e := rfl

/-- A returning program leaves the state. -/
@[simp] theorem run_ret (a : α) (s : σ) : (Proc.ret a : Proc L σ ε α).run s = (.ok a, s) := rfl

/-- A read leaves the state and hands on what it sees. -/
@[simp] theorem run_read_bind (l : L) (f : σ → α) (g : α → Proc L σ ε β) (s : σ) :
    ((read l f).bind g).run s = (g (f s)).run s := rfl

/-- A run of two programs in a row. -/
theorem run_bind (p : Proc L σ ε α) (f : α → Proc L σ ε β) (s : σ) :
    (p.bind f).run s = match p.run s with
      | (.ok a, s') => (f a).run s'
      | (.error e, s') => (.error e, s') := by
  induction p generalizing s with
  | ret a => rfl
  | fail e => rfl
  | act l upd next ih => exact ih s (upd s)

/-- Two programs in a row return when both do. -/
theorem run_bind_eq_ok {p : Proc L σ ε α} {f : α → Proc L σ ε β} {s s'' : σ} {b : β} :
    (p.bind f).run s = (.ok b, s'') ↔
      ∃ a s', p.run s = (.ok a, s') ∧ (f a).run s' = (.ok b, s'') := by
  rw [run_bind]
  generalize p.run s = x
  obtain ⟨r, s'⟩ := x
  cases r with
  | ok a => simp
  | error e => simp

/-- An atomic step runs as its function. -/
theorem run_perform (l : L) (f : σ → Except ε α × σ) (s : σ) : (perform l f).run s = f s := by
  show (ofExcept (f s).1).run (f s).2 = f s
  generalize f s = x
  obtain ⟨r, s'⟩ := x
  cases r <;> rfl

/-- A write changes the state for what follows. -/
@[simp] theorem run_modify_bind (l : L) (upd : σ → σ) (g : Unit → Proc L σ ε β) (s : σ) :
    ((modify l upd).bind g).run s = (g ()).run (upd s) := rfl

/-- An attempt returns the outcome of the program, failure included. -/
theorem run_attempt (p : Proc L σ ε α) (s : σ) :
    p.attempt.run s = (.ok (p.run s).1, (p.run s).2) := by
  induction p generalizing s with
  | ret a => rfl
  | fail e => rfl
  | act l upd next ih => exact ih s (upd s)

/-! ## The judgement -/

/-- What a call may rely on and must guarantee.  `Own` is what a call owns while it
runs: what the others may do depends on it, and every step of the call may change it.
`inv` is what holds of the state and of what the call owns whenever the call is between two
steps, and `assume` says in which states a step of a given label may be taken at all. -/
structure Contract (L σ Own : Type) where
  assume : L → σ → Prop
  inv : Own → σ → Prop
  rely : Own → σ → σ → Prop
  guar : Own → Own → σ → σ → Prop
  refl : ∀ o s, rely o s s
  trans : ∀ o s₁ s₂ s₃, rely o s₁ s₂ → rely o s₂ s₃ → rely o s₁ s₃

/-- `Sat C Q p o s`: started in `s` owning `o`, with the others doing what the contract
lets them do between two steps, every step of `p` does what the contract demands and
keeps its invariant, and `p` ends in a state that satisfies `Q` for its outcome. -/
def Sat {Own : Type} (C : Contract L σ Own) (Q : Except ε α → Own → σ → Prop) :
    Proc L σ ε α → Own → σ → Prop
  | .ret a, o, s => ∀ s', C.rely o s s' → C.inv o s' → Q (.ok a) o s'
  | .fail e, o, s => ∀ s', C.rely o s s' → C.inv o s' → Q (.error e) o s'
  | .act l upd next, o, s => ∀ s', C.rely o s s' → C.inv o s' → C.assume l s' →
      ∃ o', C.guar o o' s' (upd s') ∧ C.inv o' (upd s') ∧ Sat C Q (next s') o' (upd s')

section Sat

variable {Own : Type} {C : Contract L σ Own} {o : Own} {s : σ}
  {Q : Except ε α → Own → σ → Prop} {Q' : Except ε β → Own → σ → Prop}

/-- What holds after everything the others may do holds. -/
theorem Sat.of_env {p : Proc L σ ε α}
    (h : ∀ s', C.rely o s s' → C.inv o s' → Sat C Q p o s') : Sat C Q p o s := by
  cases p with
  | ret a =>
    intro s' hE hI
    exact h s' hE hI s' (C.refl o s') hI
  | fail e =>
    intro s' hE hI
    exact h s' hE hI s' (C.refl o s') hI
  | act l upd next =>
    intro s' hE hI
    exact h s' hE hI s' (C.refl o s') hI

/-- What the others do before the first step changes nothing. -/
theorem Sat.env {p : Proc L σ ε α} {s' : σ} (h : Sat C Q p o s) (hE : C.rely o s s') :
    Sat C Q p o s' := by
  cases p with
  | ret a => exact fun t ht hI => h t (C.trans _ _ _ _ hE ht) hI
  | fail e => exact fun t ht hI => h t (C.trans _ _ _ _ hE ht) hI
  | act l upd next => exact fun t ht hI => h t (C.trans _ _ _ _ hE ht) hI

/-- The postcondition may be weakened where the invariant holds. -/
theorem Sat.post {R : Except ε α → Own → σ → Prop} {p : Proc L σ ε α} (h : Sat C Q p o s)
    (hQ : ∀ r o' s', C.inv o' s' → Q r o' s' → R r o' s') : Sat C R p o s := by
  induction p generalizing o s with
  | ret a => exact fun s' hE hI => hQ _ _ _ hI (h s' hE hI)
  | fail e => exact fun s' hE hI => hQ _ _ _ hI (h s' hE hI)
  | act l upd next ih =>
    intro s' hE hI hA
    obtain ⟨o', hG, hI', hrest⟩ := h s' hE hI hA
    exact ⟨o', hG, hI', ih s' hrest⟩

/-- Sequencing: the first program establishes what the second one starts from. -/
theorem Sat.bind {p : Proc L σ ε α} {f : α → Proc L σ ε β} (hp : Sat C Q p o s)
    (hok : ∀ a o' s', C.inv o' s' → Q (.ok a) o' s' → Sat C Q' (f a) o' s')
    (herr : ∀ e o' s', C.inv o' s' → Q (.error e) o' s' → Q' (.error e) o' s') :
    Sat C Q' (p.bind f) o s := by
  induction p generalizing o s with
  | ret a =>
    apply Sat.of_env
    intro s' hE hI
    exact hok a o s' hI (hp s' hE hI)
  | fail e => exact fun s' hE hI => herr e o s' hI (hp s' hE hI)
  | act l upd next ih =>
    intro s' hE hI hA
    obtain ⟨o', hG, hI', hrest⟩ := hp s' hE hI hA
    exact ⟨o', hG, hI', ih s' hrest⟩

/-- A computation without steps. -/
theorem Sat.ofExcept {r : Except ε α} (h : ∀ s', C.rely o s s' → C.inv o s' → Q r o s') :
    Sat C Q (Proc.ofExcept r) o s := by
  cases r with
  | ok a => exact h
  | error e => exact h

/-- One step: it meets the contract and establishes an outcome that survives what the
others may do. -/
theorem Sat.perform {l : L} {f : σ → Except ε α × σ}
    (h : ∀ s', C.rely o s s' → C.inv o s' → C.assume l s' →
      ∃ o', C.guar o o' s' (f s').2 ∧ C.inv o' (f s').2 ∧
        ∀ s'', C.rely o' (f s').2 s'' → C.inv o' s'' → Q (f s').1 o' s'') :
    Sat C Q (perform l f) o s := by
  intro s' hE hI hA
  obtain ⟨o', hG, hI', hQ⟩ := h s' hE hI hA
  exact ⟨o', hG, hI', Sat.ofExcept hQ⟩

/-- Catching the outcome hands it on as a value. -/
theorem Sat.attempt {R : Except ε (Except ε α) → Own → σ → Prop} {p : Proc L σ ε α}
    (h : Sat C (fun r => R (.ok r)) p o s) : Sat C R p.attempt o s := by
  induction p generalizing o s with
  | ret a => exact h
  | fail e => exact h
  | act l upd next ih =>
    intro s' hE hI hA
    obtain ⟨o', hG, hI', hrest⟩ := h s' hE hI hA
    exact ⟨o', hG, hI', ih s' hrest⟩

/-- A loop over a list: `P acc rest` is the loop invariant, `rest` what is left to do. -/
theorem Sat.foldlM {f : β → γ → Proc L σ ε β} {P : β → List γ → Own → σ → Prop}
    (hstable : ∀ b l o s s', C.rely o s s' → C.inv o s' → P b l o s → P b l o s')
    (hstep : ∀ b x l o s, C.inv o s → P b (x :: l) o s →
      Sat C (fun r o' s' => match r with
        | .ok b' => P b' l o' s'
        | .error e => Q' (.error e) o' s') (f b x) o s)
    (hdone : ∀ b o s, C.inv o s → P b [] o s → Q' (.ok b) o s) :
    ∀ (l : List γ) (b : β) (o : Own) (s : σ), C.inv o s → P b l o s →
      Sat C Q' (l.foldlM f b) o s := by
  intro l
  induction l with
  | nil =>
    intro b o s _ hP s' hE hI
    exact hdone b o s' hI (hstable b [] o s s' hE hI hP)
  | cons x l ih =>
    intro b o s hI hP
    rw [List.foldlM_cons]
    refine Sat.bind (hstep b x l o s hI hP) ?_ ?_
    · intro b' o' s' hI' hP'
      exact ih b' o' s' hI' hP'
    · intro e o' s' _ he
      exact he

/-- A loop over a list that returns nothing. -/
theorem Sat.forM {f : γ → Proc L σ ε PUnit} {P : List γ → Own → σ → Prop}
    {R : Except ε PUnit → Own → σ → Prop}
    (hstable : ∀ l o s s', C.rely o s s' → C.inv o s' → P l o s → P l o s')
    (hstep : ∀ x l o s, C.inv o s → P (x :: l) o s →
      Sat C (fun r o' s' => match r with
        | .ok _ => P l o' s'
        | .error e => R (.error e) o' s') (f x) o s)
    (hdone : ∀ o s, C.inv o s → P [] o s → R (.ok ⟨⟩) o s) :
    ∀ (l : List γ) (o : Own) (s : σ), C.inv o s → P l o s → Sat C R (l.forM f) o s := by
  intro l
  induction l with
  | nil =>
    intro o s _ hP s' hE hI
    exact hdone o s' hI (hstable [] o s s' hE hI hP)
  | cons x l ih =>
    intro o s hI hP
    show Sat C R ((f x).bind fun _ => l.forM f) o s
    refine Sat.bind (hstep x l o s hI hP) ?_ ?_
    · intro _ o' s' hI' hP'
      exact ih o' s' hI' hP'
    · intro e o' s' _ he
      exact he

end Sat

/-! ## Programs whose steps need no knowledge -/

/-- Every step the program can take, whatever it has read before, satisfies `P`. -/
def All (P : L → (σ → σ) → Prop) : Proc L σ ε α → Prop
  | .ret _ => True
  | .fail _ => True
  | .act l upd next => P l upd ∧ ∀ s, All P (next s)

section All

variable {P : L → (σ → σ) → Prop}

/-- A bind satisfies a condition on steps if both programs do. -/
theorem All.bind {p : Proc L σ ε α} {f : α → Proc L σ ε β} (hp : p.All P) (hf : ∀ a, (f a).All P) :
    (p.bind f).All P := by
  induction p with
  | ret a => exact hf a
  | fail e => trivial
  | act l upd next ih => exact ⟨hp.1, fun s => ih s (hp.2 s)⟩

/-- A value or an error takes no step. -/
theorem All.ofExcept (r : Except ε α) : (Proc.ofExcept r : Proc L σ ε α).All P := by
  cases r <;> trivial

/-- A read changes nothing. -/
theorem All.read {l : L} (f : σ → α) (h : P l id) : (Proc.read l f : Proc L σ ε α).All P :=
  ⟨h, fun _ => trivial⟩

/-- A write is one step. -/
theorem All.modify {l : L} {upd : σ → σ} (h : P l upd) :
    (Proc.modify l upd : Proc L σ ε Unit).All P :=
  ⟨h, fun _ => trivial⟩

/-- So is an atomic step. -/
theorem All.perform {l : L} {f : σ → Except ε α × σ} (h : P l fun s => (f s).2) :
    (Proc.perform l f).All P :=
  ⟨h, fun s => All.ofExcept (f s).1⟩

/-- An attempt takes the steps of its program. -/
theorem All.attempt {p : Proc L σ ε α} (hp : p.All P) : p.attempt.All P := by
  induction p with
  | ret a => trivial
  | fail e => trivial
  | act l upd next ih => exact ⟨hp.1, fun s => ih s (hp.2 s)⟩

/-- A loop satisfies a condition on steps if its body does. -/
theorem All.foldlM {f : β → γ → Proc L σ ε β} (hf : ∀ b x, (f b x).All P) (l : List γ) (b : β) :
    (l.foldlM f b).All P := by
  induction l generalizing b with
  | nil => trivial
  | cons x l ih =>
    rw [List.foldlM_cons]
    exact (hf b x).bind ih

/-- So does a loop without a result. -/
theorem All.forM {f : γ → Proc L σ ε PUnit} (hf : ∀ x, (f x).All P) (l : List γ) :
    (l.forM f).All P := by
  induction l with
  | nil => trivial
  | cons x l ih =>
    show ((f x).bind fun _ => l.forM f).All P
    exact (hf x).bind fun _ => ih

/-- A weaker condition on steps. -/
theorem All.mono {P' : L → (σ → σ) → Prop} {p : Proc L σ ε α} (hp : p.All P)
    (h : ∀ l upd, P l upd → P' l upd) : p.All P' := by
  induction p with
  | ret a => trivial
  | fail e => trivial
  | act l upd next ih => exact ⟨h l upd hp.1, fun s => ih s (hp.2 s)⟩

/-- What every step of a program keeps, a run of the whole program keeps. -/
theorem All.run {R : σ → σ → Prop} (hrefl : ∀ s, R s s)
    (htrans : ∀ s₁ s₂ s₃, R s₁ s₂ → R s₂ s₃ → R s₁ s₃) {p : Proc L σ ε α}
    (hp : p.All fun _ upd => ∀ s, R s (upd s)) (s : σ) : R s (p.run s).2 := by
  induction p generalizing s with
  | ret a => exact hrefl s
  | fail e => exact hrefl s
  | act l upd next ih => exact htrans _ _ _ (hp.1 s) (ih s (hp.2 s) (upd s))

end All

/-! ## What follows a step -/

/-- Every step satisfies `P` together with the label of the step right behind it, and what
the program returns satisfies `Q`. -/
def Follows (P : L → (σ → σ) → Option L → Prop) (Q : α → Prop) : Proc L σ ε α → Prop
  | .ret a => Q a
  | .fail _ => True
  | .act l upd next => ∀ s, P l upd (next s).label ∧ Follows P Q (next s)

section Follows

variable {P : L → (σ → σ) → Option L → Prop} {Q : α → Prop} {R : β → Prop}

/-- Sequencing.  A step that may be the last one may stand in front of anything. -/
theorem Follows.bind (hP : ∀ l upd x, P l upd none → P l upd x) {p : Proc L σ ε α}
    {f : α → Proc L σ ε β} (hp : p.Follows P Q) (hf : ∀ a, Q a → (f a).Follows P R) :
    (p.bind f).Follows P R := by
  induction p with
  | ret a => exact hf a hp
  | fail e => trivial
  | act l upd next ih =>
    intro s
    obtain ⟨hl, hnext⟩ := hp s
    refine ⟨?_, ih s hnext⟩
    show P l upd ((next s).bind f).label
    cases hs : next s with
    | ret a =>
      rw [hs] at hl
      exact hP l upd _ hl
    | fail e =>
      rw [hs] at hl
      exact hP l upd _ hl
    | act l' upd' next' =>
      rw [hs] at hl
      exact hl

/-- A program all of whose steps are fine follows the rule at any place. -/
theorem Follows.of_all {P' : L → (σ → σ) → Prop} (hP : ∀ l upd x, P' l upd → P l upd x)
    {p : Proc L σ ε α} (hp : p.All P') (hQ : ∀ a, Q a) : p.Follows P Q := by
  induction p with
  | ret a => exact hQ a
  | fail e => trivial
  | act l upd next ih => exact fun s => ⟨hP l upd _ hp.1, ih s (hp.2 s)⟩

/-- A value follows the rule without a step. -/
theorem Follows.ofExcept {r : Except ε α} (h : ∀ a, r = .ok a → Q a) :
    (Proc.ofExcept r : Proc L σ ε α).Follows P Q := by
  cases r with
  | ok a => exact h a rfl
  | error e => trivial

/-- A loop: `Q` is what the loop keeps. -/
theorem Follows.foldlM (hP : ∀ l upd x, P l upd none → P l upd x) {f : β → γ → Proc L σ ε β}
    (l : List γ) (hf : ∀ b x, x ∈ l → R b → (f b x).Follows P R) (b : β) (hb : R b) :
    (l.foldlM f b).Follows P R := by
  induction l generalizing b with
  | nil => exact hb
  | cons x l ih =>
    rw [List.foldlM_cons]
    refine Follows.bind hP (hf b x List.mem_cons_self hb) ?_
    exact fun b' hb' => ih (fun b y hy => hf b y (List.mem_cons_of_mem x hy)) b' hb'

/-- A loop follows the rule if each turn does. -/
theorem Follows.forM (hP : ∀ l upd x, P l upd none → P l upd x) {f : γ → Proc L σ ε PUnit}
    (l : List γ) (hf : ∀ x ∈ l, (f x).Follows P fun _ => True) :
    (l.forM f).Follows P fun _ => True := by
  induction l with
  | nil => trivial
  | cons x l ih =>
    show ((f x).bind fun _ => l.forM f).Follows P _
    refine Follows.bind hP (hf x List.mem_cons_self) fun _ _ => ?_
    exact ih fun y hy => hf y (List.mem_cons_of_mem x hy)

/-- An attempt starts with the step of its program. -/
theorem label_attempt (p : Proc L σ ε α) : p.attempt.label = p.label := by
  cases p <;> rfl

/-- An attempt follows the rule of its program. -/
theorem Follows.attempt {p : Proc L σ ε α} (hp : p.Follows P fun _ => True) :
    p.attempt.Follows P fun _ => True := by
  induction p with
  | ret a => trivial
  | fail e => trivial
  | act l upd next ih =>
    intro s
    obtain ⟨hl, hnext⟩ := hp s
    refine ⟨?_, ih s hnext⟩
    show P l upd (next s).attempt.label
    rw [label_attempt]
    exact hl

end Follows

/-! ## Errors of a program -/

/-- Every error the program can end with satisfies `E`. -/
def FailsWith (E : ε → Prop) : Proc L σ ε α → Prop
  | .ret _ => True
  | .fail e => E e
  | .act _ _ next => ∀ s, FailsWith E (next s)

section FailsWith

variable {E : ε → Prop}

/-- A bind fails as its programs do. -/
theorem FailsWith.bind {p : Proc L σ ε α} {f : α → Proc L σ ε β} (hp : p.FailsWith E)
    (hf : ∀ a, (f a).FailsWith E) : (p.bind f).FailsWith E := by
  induction p with
  | ret a => exact hf a
  | fail e => exact hp
  | act l upd next ih => exact fun s => ih s (hp s)

/-- An error fails as it says. -/
theorem FailsWith.ofExcept {r : Except ε α} (h : ∀ e, r = .error e → E e) :
    (Proc.ofExcept r : Proc L σ ε α).FailsWith E := by
  cases r with
  | ok a => trivial
  | error e => exact h e rfl

/-- An atomic step fails as its function does. -/
theorem FailsWith.perform {l : L} {f : σ → Except ε α × σ}
    (h : ∀ s e, (f s).1 = .error e → E e) : (Proc.perform l f).FailsWith E :=
  fun s => .ofExcept (h s)

/-- A loop fails as its body does. -/
theorem FailsWith.foldlM {f : β → γ → Proc L σ ε β} (hf : ∀ b x, (f b x).FailsWith E)
    (l : List γ) (b : β) : (l.foldlM f b).FailsWith E := by
  induction l generalizing b with
  | nil => trivial
  | cons x l ih =>
    rw [List.foldlM_cons]
    exact FailsWith.bind (hf b x) fun b' => ih b'

/-- Nothing is said about the errors of a program. -/
theorem FailsWith.trivial (p : Proc L σ ε α) : p.FailsWith fun _ => True := by
  induction p with
  | ret a => exact True.intro
  | fail e => exact True.intro
  | act l upd next ih => exact ih

/-- An attempt does not fail. -/
theorem FailsWith.attempt (p : Proc L σ ε α) : p.attempt.FailsWith E := by
  induction p with
  | ret a => trivial
  | fail e => trivial
  | act l upd next ih => exact ih

end FailsWith

/-! ## Runs that return -/

/-- Run alone from `s`, the program returns, with a result and a state in `Q`. -/
def Yields (Q : α → σ → Prop) (p : Proc L σ ε α) (s : σ) : Prop :=
  ∃ a s', p.run s = (.ok a, s') ∧ Q a s'

section Yields

variable {Q : α → σ → Prop} {R : β → σ → Prop} {s : σ}

/-- A value is returned in the state it is returned in. -/
theorem Yields.ret {a : α} (h : Q a s) : Yields Q (.ret a : Proc L σ ε α) s :=
  ⟨a, s, rfl, h⟩

/-- A read returns what it sees. -/
theorem Yields.read {l : L} {f : σ → α} (h : Q (f s) s) :
    Yields Q (Proc.read l f : Proc L σ ε α) s :=
  ⟨f s, s, rfl, h⟩

/-- A write returns behind it. -/
theorem Yields.modify {l : L} {upd : σ → σ} {Q : Unit → σ → Prop} (h : Q () (upd s)) :
    Yields Q (Proc.modify l upd : Proc L σ ε Unit) s :=
  ⟨(), upd s, rfl, h⟩

/-- An atomic step returns if its function does. -/
theorem Yields.perform {l : L} {f : σ → Except ε α × σ} {a : α} (hr : (f s).1 = .ok a)
    (h : Q a (f s).2) : Yields Q (Proc.perform l f) s :=
  ⟨a, (f s).2, by rw [run_perform, ← hr], h⟩

/-- A value is returned. -/
theorem Yields.ofExcept {r : Except ε α} {a : α} (hr : r = .ok a) (h : Q a s) :
    Yields Q (Proc.ofExcept r : Proc L σ ε α) s := by
  subst hr
  exact .ret h

/-- The bind rule for programs that return. -/
theorem Yields.bind {p : Proc L σ ε α} {f : α → Proc L σ ε β} (hp : Yields Q p s)
    (hf : ∀ a s', Q a s' → Yields R (f a) s') : Yields R (p.bind f) s := by
  obtain ⟨a, s', hrun, hQ⟩ := hp
  obtain ⟨b, s'', hrun', hR⟩ := hf a s' hQ
  exact ⟨b, s'', run_bind_eq_ok.mpr ⟨a, s', hrun, hrun'⟩, hR⟩

/-- A weaker postcondition. -/
theorem Yields.post {Q' : α → σ → Prop} {p : Proc L σ ε α} (hp : Yields Q p s)
    (h : ∀ a s', Q a s' → Q' a s') : Yields Q' p s := by
  obtain ⟨a, s', hrun, hQ⟩ := hp
  exact ⟨a, s', hrun, h a s' hQ⟩

/-- An attempt returns the value its program yields. -/
theorem Yields.attempt {p : Proc L σ ε α} (hp : Yields Q p s) :
    Yields (fun r s' => ∃ a, r = .ok a ∧ Q a s') p.attempt s := by
  obtain ⟨a, s', hrun, hQ⟩ := hp
  exact ⟨.ok a, s', by rw [run_attempt, hrun], a, rfl, hQ⟩

/-- A loop over a list: `P` is what holds with the elements that are left. -/
theorem Yields.foldlM {f : β → γ → Proc L σ ε β} {P : β → List γ → σ → Prop}
    (hstep : ∀ b x l s, P b (x :: l) s → Yields (fun b' s' => P b' l s') (f b x) s)
    (l : List γ) (b : β) (hP : P b l s) : Yields (fun b' s' => P b' [] s') (l.foldlM f b) s := by
  induction l generalizing b s with
  | nil => exact .ret hP
  | cons x l ih =>
    rw [List.foldlM_cons]
    exact Yields.bind (hstep b x l s hP) fun b' s' h => ih b' h

/-- The rule for a loop: what holds with the rest of the list still to be done. -/
theorem Yields.forM {f : γ → Proc L σ ε PUnit} {P : List γ → σ → Prop}
    (hstep : ∀ x l s, P (x :: l) s → Yields (fun _ s' => P l s') (f x) s)
    (l : List γ) (hP : P l s) : Yields (fun _ s' => P [] s') (l.forM f) s := by
  induction l generalizing s with
  | nil => exact .ret hP
  | cons x l ih =>
    show Yields _ ((f x).bind fun _ => l.forM f) s
    exact Yields.bind (hstep x l s hP) fun _ s' h => ih h

end Yields

/-! ## Programs on a part of the state -/

/-- The program on a larger state: `get` is the part it acts on, `set` what a step does to
the whole. -/
def onPart {τ : Type} (get : τ → σ) (set : L → (σ → σ) → τ → τ) : Proc L σ ε α → Proc L τ ε α
  | .ret a => .ret a
  | .fail e => .fail e
  | .act l upd next => .act l (set l upd) fun t => (next (get t)).onPart get set

/-- A program of a part starts with the same step on the whole. -/
@[simp] theorem label_onPart {τ : Type} (get : τ → σ) (set : L → (σ → σ) → τ → τ)
    (p : Proc L σ ε α) : (p.onPart get set).label = p.label := by
  cases p <;> rfl

/-- What every step does to the part, every step does to the whole. -/
theorem All.onPart {τ : Type} {get : τ → σ} {set : L → (σ → σ) → τ → τ}
    {P : L → (σ → σ) → Prop} {P' : L → (τ → τ) → Prop} (h : ∀ l upd, P l upd → P' l (set l upd))
    {p : Proc L σ ε α} (hp : p.All P) : (p.onPart get set).All P' := by
  induction p with
  | ret a => trivial
  | fail e => trivial
  | act l upd next ih => exact ⟨h l upd hp.1, fun t => ih (get t) (hp.2 (get t))⟩

/-- The program, cut off with an error after a number of steps. -/
def cut (e : ε) : ℕ → Proc L σ ε α → Proc L σ ε α
  | _, .ret a => .ret a
  | _, .fail e' => .fail e'
  | 0, .act _ _ _ => .fail e
  | n + 1, .act l upd next => .act l upd fun s => (next s).cut e n

/-! ## Calls that share an invariant -/

/-- The contract of calls that keep an invariant and rely on nothing else. -/
def free (A : L → σ → Prop) (I : σ → Prop) : Contract L σ Unit where
  assume := A
  inv _ := I
  rely _ _ _ := True
  guar _ _ _ _ := True
  refl _ _ := trivial
  trans _ _ _ _ _ _ := trivial

section Free

variable {A : L → σ → Prop} {I : σ → Prop} {Q : Except ε α → Prop} {s : σ}

/-- A program whose steps keep the invariant, whatever it has read before. -/
theorem Sat.of_keeps {P : L → (σ → σ) → Prop} {E : ε → Prop} {p : Proc L σ ε α} (hp : p.All P)
    (hE : p.FailsWith E) (hstep : ∀ l upd s, P l upd → I s → I (upd s))
    (hok : ∀ a, Q (.ok a)) (herr : ∀ e, E e → Q (.error e)) :
    Sat (free A I) (fun r _ _ => Q r) p () s := by
  induction p generalizing s with
  | ret a => exact fun _ _ _ => hok a
  | fail e => exact fun _ _ _ => herr e hE
  | act l upd next ih =>
    intro s' _ hI _
    exact ⟨(), trivial, hstep l upd s' hp.1 hI, ih s' (hp.2 s') (hE s')⟩

/-- The steps of a program on a part of the state keep an invariant of the whole. -/
theorem Sat.onPart {τ : Type} {get : τ → σ} {set : L → (σ → σ) → τ → τ} {B : L → τ → Prop}
    {J : τ → Prop} (hget : ∀ c, J c → I (get c)) (hassume : ∀ l c, B l c → A l (get c))
    (hset : ∀ l upd c, J c → I (upd (get c)) → J (set l upd c)) {p : Proc L σ ε α} {c : τ}
    (h : Sat (free A I) (fun r _ _ => Q r) p () s) :
    Sat (free B J) (fun r _ _ => Q r) (p.onPart get set) () c := by
  induction p generalizing s c with
  | ret a => exact fun c' _ hJ => h (get c') trivial (hget c' hJ)
  | fail e => exact fun c' _ hJ => h (get c') trivial (hget c' hJ)
  | act l upd next ih =>
    intro c' _ hJ hB
    obtain ⟨_, _, hI, hnext⟩ := h (get c') trivial (hget c' hJ) (hassume l c' hB)
    exact ⟨(), trivial, hset l upd c' hJ hI, ih (get c') hnext⟩

/-- A contract with a shared invariant is kept where the program is cut off. -/
theorem Sat.cut {e : ε} (he : Q (.error e)) {p : Proc L σ ε α}
    (h : Sat (free A I) (fun r _ _ => Q r) p () s) (n : ℕ) :
    Sat (free A I) (fun r _ _ => Q r) (p.cut e n) () s := by
  induction p generalizing s n with
  | ret a => cases n <;> exact h
  | fail e' => cases n <;> exact h
  | act l upd next ih =>
    cases n with
    | zero => exact fun _ _ _ => he
    | succ n =>
      intro s' _ hI hA
      obtain ⟨_, _, hI', hnext⟩ := h s' trivial hI hA
      exact ⟨(), trivial, hI', ih s' hnext n⟩

end Free

/-! ## Runs without interference -/

/-- The contract of a call that runs alone. -/
def alone (A : L → σ → Prop) (G : σ → σ → Prop) (I : σ → Prop) : Contract L σ Unit where
  assume := A
  inv _ := I
  rely _ := Eq
  guar _ _ := G
  refl _ _ := rfl
  trans _ _ _ _ := Eq.trans

/-- `Safe A G I Q p s`: run alone from `s`, every step of `p` is in `G` and keeps `I`, and
its outcome satisfies `Q`.  `I` is what a crash may find. -/
def Safe (A : L → σ → Prop) (G : σ → σ → Prop) (I : σ → Prop) (Q : Except ε α → σ → Prop)
    (p : Proc L σ ε α) (s : σ) : Prop :=
  Sat (alone A G I) (fun r _ => Q r) p () s

section Safe

variable {A : L → σ → Prop} {G : σ → σ → Prop} {I : σ → Prop} {s : σ}
  {Q : Except ε α → σ → Prop} {Q' : Except ε β → σ → Prop}

/-- A value needs its postcondition. -/
theorem Safe.ret {a : α} (h : I s → Q (.ok a) s) : Safe A G I Q (.ret a) s := by
  rintro s' rfl hI
  exact h hI

/-- So does a failure. -/
theorem Safe.fail {e : ε} (h : I s → Q (.error e) s) : Safe A G I Q (.fail e) s := by
  rintro s' rfl hI
  exact h hI

/-- A step has to keep guarantee and invariant. -/
theorem Safe.act {l : L} {upd : σ → σ} {next : σ → Proc L σ ε α}
    (h : I s → A l s → G s (upd s) ∧ I (upd s) ∧ (I (upd s) → Safe A G I Q (next s) (upd s))) :
    Safe A G I Q (.act l upd next) s := by
  rintro s' rfl hI hA
  obtain ⟨hG, h₁, h₂⟩ := h hI hA
  exact ⟨(), hG, h₁, h₂ h₁⟩

/-- So does an atomic step, whose outcome the postcondition is about. -/
theorem Safe.perform {l : L} {f : σ → Except ε α × σ}
    (h : I s → A l s → G s (f s).2 ∧ I (f s).2 ∧ (I (f s).2 → Q (f s).1 (f s).2)) :
    Safe A G I Q (perform l f) s := by
  apply Sat.perform
  rintro s' rfl hI hA
  obtain ⟨hG, h₁, h₂⟩ := h hI hA
  refine ⟨(), hG, h₁, ?_⟩
  rintro s'' rfl hI'
  exact h₂ hI'

/-- A read keeps the invariant. -/
theorem Safe.read (hG : ∀ s, G s s) {l : L} {f : σ → α} (h : I s → Q (.ok (f s)) s) :
    Safe A G I Q (read l f) s :=
  Safe.act fun hI _ => ⟨hG s, hI, fun _ => Safe.ret h⟩

/-- A write has to keep guarantee and invariant. -/
theorem Safe.modify {l : L} {upd : σ → σ} {R : Except ε Unit → σ → Prop}
    (h : I s → A l s → G s (upd s) ∧ I (upd s) ∧ (I (upd s) → R (.ok ()) (upd s))) :
    Safe A G I R (modify l upd) s :=
  Safe.act fun hI hA => ⟨(h hI hA).1, (h hI hA).2.1, fun _ => Safe.ret (h hI hA).2.2⟩

/-- A weaker postcondition. -/
theorem Safe.post {R : Except ε α → σ → Prop} {p : Proc L σ ε α} (h : Safe A G I Q p s)
    (hQ : ∀ r s', I s' → Q r s' → R r s') : Safe A G I R p s :=
  Sat.post h fun r _ => hQ r

/-- The bind rule: what follows a value starts from its postcondition, a failure ends the program.
-/
theorem Safe.bind {p : Proc L σ ε α} {f : α → Proc L σ ε β} (hp : Safe A G I Q p s)
    (hok : ∀ a s', I s' → Q (.ok a) s' → Safe A G I Q' (f a) s')
    (herr : ∀ e s', I s' → Q (.error e) s' → Q' (.error e) s') :
    Safe A G I Q' (p.bind f) s :=
  Sat.bind hp (fun a _ => hok a) fun e _ => herr e

/-- A read, and what is done with the value read. -/
theorem Safe.read_bind (hG : ∀ s, G s s) {l : L} {f : σ → α} {g : α → Proc L σ ε β}
    (h : I s → Safe A G I Q' (g (f s)) s) : Safe A G I Q' ((Proc.read l f).bind g) s := by
  refine Safe.bind (Q := fun r s' => r = .ok (f s) ∧ s' = s) (Safe.read hG fun _ => ⟨rfl, rfl⟩)
    ?_ ?_
  · rintro a s' hI ⟨ha, rfl⟩
    obtain rfl := Except.ok.inj ha
    exact h hI
  · rintro e s' _ ⟨he, _⟩
    exact absurd he (by simp)

/-- An update, and what follows it. -/
theorem Safe.modify_bind {l : L} {upd : σ → σ} {g : Unit → Proc L σ ε β}
    (h : I s → A l s → G s (upd s) ∧ I (upd s) ∧ Safe A G I Q' (g ()) (upd s)) :
    Safe A G I Q' ((Proc.modify l upd).bind g) s := by
  refine Safe.act (l := l) fun hI hA => ⟨(h hI hA).1, (h hI hA).2.1, fun _ => ?_⟩
  exact (h hI hA).2.2

/-- A step that returns a known value, and what follows it. -/
theorem Safe.perform_bind {l : L} {f : σ → Except ε α × σ} {g : α → Proc L σ ε β} {a : α}
    (hr : (f s).1 = .ok a)
    (h : I s → A l s → G s (f s).2 ∧ I (f s).2 ∧ Safe A G I Q' (g a) (f s).2) :
    Safe A G I Q' ((Proc.perform l f).bind g) s := by
  refine Safe.act (l := l) fun hI hA => ⟨(h hI hA).1, (h hI hA).2.1, fun _ => ?_⟩
  show Safe A G I Q' ((Proc.ofExcept (f s).1).bind g) (f s).2
  rw [hr]
  exact (h hI hA).2.2

/-- A run that is safe for a strong invariant is safe for what the invariant implies,
once the strong one holds at the start. -/
theorem Safe.weaken {J : σ → Prop} {p : Proc L σ ε α} (h : Safe A G J Q p s) (hJ : J s)
    (hIJ : ∀ s, J s → I s) : Safe A G I Q p s := by
  induction p generalizing s with
  | ret a =>
    rintro s' rfl _
    exact h _ rfl hJ
  | fail e =>
    rintro s' rfl _
    exact h _ rfl hJ
  | act l upd next ih =>
    rintro s' rfl _ hA
    obtain ⟨_, hG, h₁, h₂⟩ := h _ rfl hJ hA
    exact ⟨(), hG, hIJ _ h₁, ih _ h₂ h₁⟩

/-- Two properties of the same run. -/
theorem Safe.and {G' : σ → σ → Prop} {J : σ → Prop} {R : Except ε α → σ → Prop}
    {p : Proc L σ ε α} (h : Safe A G I Q p s) (h' : Safe A G' J R p s) :
    Safe A G (fun s => I s ∧ J s) (fun r s => Q r s ∧ R r s) p s := by
  induction p generalizing s with
  | ret a =>
    rintro s' rfl hI
    exact ⟨h _ rfl hI.1, h' _ rfl hI.2⟩
  | fail e =>
    rintro s' rfl hI
    exact ⟨h _ rfl hI.1, h' _ rfl hI.2⟩
  | act l upd next ih =>
    rintro s' rfl hI hA
    obtain ⟨_, hG, h₁, h₂⟩ := h _ rfl hI.1 hA
    obtain ⟨_, _, h₁', h₂'⟩ := h' _ rfl hI.2 hA
    exact ⟨(), hG, ⟨h₁, h₁'⟩, ih _ h₂ h₂'⟩

/-- Catching the outcome. -/
theorem Safe.attempt {R : Except ε (Except ε α) → σ → Prop} {p : Proc L σ ε α}
    (h : Safe A G I (fun r => R (.ok r)) p s) : Safe A G I R p.attempt s :=
  Sat.attempt h

/-- A loop over a list, run alone. -/
theorem Safe.foldlM {f : β → γ → Proc L σ ε β} {P : β → List γ → σ → Prop}
    (hstep : ∀ b x l s, I s → P b (x :: l) s →
      Safe A G I (fun r s' => match r with
        | .ok b' => P b' l s'
        | .error e => Q' (.error e) s') (f b x) s)
    (hdone : ∀ b s, I s → P b [] s → Q' (.ok b) s)
    (l : List γ) (b : β) (hI : I s) (hP : P b l s) : Safe A G I Q' (l.foldlM f b) s := by
  refine Sat.foldlM (P := fun b l _ => P b l) ?_ ?_ ?_ l b () s hI hP
  · rintro b l _ s _ rfl _ h
    exact h
  · exact fun b x l _ => hstep b x l
  · exact fun b _ => hdone b

/-- A loop over a list that returns nothing, run alone. -/
theorem Safe.forM {f : γ → Proc L σ ε PUnit} {P : List γ → σ → Prop}
    {R : Except ε PUnit → σ → Prop}
    (hstep : ∀ x l s, I s → P (x :: l) s →
      Safe A G I (fun r s' => match r with
        | .ok _ => P l s'
        | .error e => R (.error e) s') (f x) s)
    (hdone : ∀ s, I s → P [] s → R (.ok ⟨⟩) s)
    (l : List γ) (hI : I s) (hP : P l s) : Safe A G I R (l.forM f) s := by
  refine Sat.forM (P := fun l _ => P l) ?_ ?_ ?_ l () s hI hP
  · rintro l _ s _ rfl _ h
    exact h
  · exact fun x l _ => hstep x l
  · exact fun _ => hdone

/-- What every step of a program does, whatever it has read before, the whole of it does. -/
theorem Safe.of_all {R : σ → σ → Prop} (hrefl : ∀ s, R s s)
    (htrans : ∀ s₁ s₂ s₃, R s₁ s₂ → R s₂ s₃ → R s₁ s₃) {p : Proc L σ ε α}
    (hp : p.All fun _ upd => ∀ s, R s (upd s)) (s : σ) :
    Safe A (fun _ _ => True) (fun _ => True) (fun _ s' => R s s') p s := by
  induction p generalizing s with
  | ret a => exact Safe.ret fun _ => hrefl s
  | fail e => exact Safe.fail fun _ => hrefl s
  | act l upd next ih =>
    refine Safe.act fun _ _ => ⟨trivial, trivial, fun _ => ?_⟩
    exact (ih s (hp.2 s) (upd s)).post fun r s' _ h => htrans _ _ _ (hp.1 s) h

/-- A safe program, run to its end without a crash, meets its postcondition and the
invariant. -/
theorem Safe.run {p : Proc L σ ε α} (h : Safe (fun _ _ => True) G I Q p s) (hI : I s) :
    Q (p.run s).1 (p.run s).2 ∧ I (p.run s).2 := by
  induction p generalizing s with
  | ret a => exact ⟨h s rfl hI, hI⟩
  | fail e => exact ⟨h s rfl hI, hI⟩
  | act l upd next ih =>
    obtain ⟨_, _, h₁, h₂⟩ := h s rfl hI trivial
    exact ih s h₂ h₁

/-- Wherever a safe program is cut off, the invariant holds. -/
theorem Safe.run_cut {p : Proc L σ ε α} (h : Safe (fun _ _ => True) G I Q p s) (hI : I s) (e : ε)
    (n : ℕ) : I ((p.cut e n).run s).2 := by
  induction p generalizing s n with
  | ret a => cases n <;> exact hI
  | fail e' => cases n <;> exact hI
  | act l upd next ih =>
    cases n with
    | zero => exact hI
    | succ n =>
      obtain ⟨_, _, h₁, h₂⟩ := h s rfl hI trivial
      exact ih s h₂ h₁ n

end Safe

end Proc
