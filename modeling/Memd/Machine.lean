/-
# Callers, crashes and restarts over one state

A `System` says what program each call runs, what program a restart runs and what a
crash leaves of the state.  A configuration is the state, the calls in flight with
what is left of their programs, and the log of what the callers have seen; one
`Choice` of the scheduler starts a call, lets one call take one step, crashes, starts
a restart or lets the restart take one step.  `System.step` executes a choice, so a
script of choices can be evaluated (`System.script`), and `System.Reach` collects the
configurations of all schedules whose steps satisfy a given assumption.

* `System.reach_serial` — when a call is admitted only while no other is in flight,
  an invariant that every call keeps holds whenever the system is up, and one that a
  crash leaves and every restart keeps holds in every reachable configuration;
* `System.reach_pool`, `System.step_pool` — when calls overlap, an invariant kept by every
  guaranteed move and the stable facts that returned calls have established hold in every
  reachable configuration, and every step is such a move, a crash or a step of a restart.
-/
import Memd.Proc

/-- What a caller can observe. -/
inductive Event (Op Res ε : Type) : Type
  | called (op : Op)
  | returned (op : Op) (r : Except ε Res)
  | booted
  | crashed
  deriving DecidableEq

/-- The programs of a system of callers over the state `σ`. -/
structure System (L σ ε Op Res Cfg : Type) where
  /-- the program a call runs -/
  prog : Op → Proc L σ ε Res
  /-- the program a restart runs -/
  boot : Cfg → Proc L σ ε Unit
  /-- what a crash leaves of the state -/
  crash : σ → σ
  /-- may a call start while the given calls are in flight? -/
  admits : List Op → Op → Bool

/-- Whether the system is running, and with which calls in flight. -/
inductive Mode (L σ ε Op Res : Type) : Type
  | up (pool : List (Op × Proc L σ ε Res))
  | down
  | booting (p : Proc L σ ε Unit)

/-- A configuration: the state, the calls in flight, the log of the callers. -/
structure Config (L σ ε Op Res : Type) where
  store : σ
  mode : Mode L σ ε Op Res
  log : List (Event Op Res ε)

/-- One decision of the scheduler. -/
inductive Choice (Op Cfg : Type) : Type
  | call (op : Op)
  | run (i : ℕ)
  | crash
  | boot (cfg : Cfg)
  | bootRun

namespace System

variable {L σ ε Op Res Cfg : Type} (S : System L σ ε Op Res Cfg)

/-! ## Steps and schedules -/

/-- Let the `i`-th call in flight take one step, or return. -/
def runCall (c : Config L σ ε Op Res) (pool : List (Op × Proc L σ ε Res)) (i : ℕ) :
    Option (Config L σ ε Op Res) :=
  match pool[i]? with
  | some (op, .act _ upd next) =>
    some { c with store := upd c.store, mode := .up (pool.set i (op, next c.store)) }
  | some (op, .ret a) =>
    some { c with mode := .up (pool.eraseIdx i), log := c.log ++ [.returned op (.ok a)] }
  | some (op, .fail e) =>
    some { c with mode := .up (pool.eraseIdx i), log := c.log ++ [.returned op (.error e)] }
  | none => none

/-- Let the restart take one step; a restart that fails leaves the system down. -/
def runBoot (c : Config L σ ε Op Res) : Proc L σ ε Unit → Config L σ ε Op Res
  | .act _ upd next => { c with store := upd c.store, mode := .booting (next c.store) }
  | .ret _ => { c with mode := .up [], log := c.log ++ [.booted] }
  | .fail _ => { c with store := S.crash c.store, mode := .down }

/-- The configuration after a choice, if the choice is possible. -/
def step (c : Config L σ ε Op Res) : Choice Op Cfg → Option (Config L σ ε Op Res)
  | .call op =>
    match c.mode with
    | .up pool =>
      if S.admits (pool.map Prod.fst) op then
        some { c with mode := .up (pool ++ [(op, S.prog op)]), log := c.log ++ [.called op] }
      else none
    | _ => none
  | .run i =>
    match c.mode with
    | .up pool => runCall c pool i
    | _ => none
  | .crash =>
    some { store := S.crash c.store, mode := .down, log := c.log ++ [.crashed] }
  | .boot cfg =>
    match c.mode with
    | .down => some { c with mode := .booting (S.boot cfg) }
    | _ => none
  | .bootRun =>
    match c.mode with
    | .booting p => some (S.runBoot c p)
    | _ => none

/-- The label of the step that a choice lets happen. -/
def nextLabel (c : Config L σ ε Op Res) : Choice Op Cfg → Option L
  | .run i =>
    match c.mode with
    | .up pool => pool[i]?.bind fun x => x.2.label
    | _ => none
  | .bootRun =>
    match c.mode with
    | .booting p => p.label
    | _ => none
  | _ => none

/-- The step a choice takes happens in a state that `A` admits for its label. -/
def Meets (A : L → σ → Prop) (c : Config L σ ε Op Res) (ch : Choice Op Cfg) : Prop :=
  ∀ l, nextLabel c ch = some l → A l c.store

/-- The system is down and nobody has called it yet. -/
def start (s₀ : σ) : Config L σ ε Op Res :=
  ⟨s₀, .down, []⟩

/-- The configurations reached from `c₀` by choices that meet `A`. -/
inductive Reach (A : L → σ → Prop) (c₀ : Config L σ ε Op Res) : Config L σ ε Op Res → Prop
  | refl : Reach A c₀ c₀
  | step {c c' : Config L σ ε Op Res} {ch : Choice Op Cfg} :
      Reach A c₀ c → Meets A c ch → S.step c ch = some c' → Reach A c₀ c'

/-- The configurations reached from `c₀` by choices that `ok` admits. -/
inductive Runs (ok : Config L σ ε Op Res → Choice Op Cfg → Prop) (c₀ : Config L σ ε Op Res) :
    Config L σ ε Op Res → Prop
  | refl : Runs ok c₀ c₀
  | step {c c' : Config L σ ε Op Res} {ch : Choice Op Cfg} :
      Runs ok c₀ c → ok c ch → S.step c ch = some c' → Runs ok c₀ c'

/-- Everything a choice can do. -/
inductive Stepped (c : Config L σ ε Op Res) : Choice Op Cfg → Config L σ ε Op Res → Prop
  | call {op : Op} {pool : List (Op × Proc L σ ε Res)} (hup : c.mode = .up pool)
      (hadm : S.admits (pool.map Prod.fst) op = true) :
      Stepped c (.call op)
        { c with mode := .up (pool ++ [(op, S.prog op)]), log := c.log ++ [.called op] }
  | act {i : ℕ} {pool : List (Op × Proc L σ ε Res)} {op : Op} {l : L} {upd : σ → σ}
      {next : σ → Proc L σ ε Res} (hup : c.mode = .up pool)
      (hget : pool[i]? = some (op, .act l upd next)) :
      Stepped c (.run i)
        { c with store := upd c.store, mode := .up (pool.set i (op, next c.store)) }
  | ret {i : ℕ} {pool : List (Op × Proc L σ ε Res)} {op : Op} {a : Res} (hup : c.mode = .up pool)
      (hget : pool[i]? = some (op, .ret a)) :
      Stepped c (.run i)
        { c with mode := .up (pool.eraseIdx i), log := c.log ++ [.returned op (.ok a)] }
  | fail {i : ℕ} {pool : List (Op × Proc L σ ε Res)} {op : Op} {e : ε} (hup : c.mode = .up pool)
      (hget : pool[i]? = some (op, .fail e)) :
      Stepped c (.run i)
        { c with mode := .up (pool.eraseIdx i), log := c.log ++ [.returned op (.error e)] }
  | crash : Stepped c .crash
      { store := S.crash c.store, mode := .down, log := c.log ++ [.crashed] }
  | boot {cfg : Cfg} (hdown : c.mode = .down) :
      Stepped c (.boot cfg) { c with mode := .booting (S.boot cfg) }
  | bootAct {l : L} {upd : σ → σ} {next : σ → Proc L σ ε Unit}
      (hboot : c.mode = .booting (.act l upd next)) :
      Stepped c .bootRun { c with store := upd c.store, mode := .booting (next c.store) }
  | bootRet {u : Unit} (hboot : c.mode = .booting (.ret u)) :
      Stepped c .bootRun { c with mode := .up [], log := c.log ++ [.booted] }
  | bootFail {e : ε} (hboot : c.mode = .booting (.fail e)) :
      Stepped c .bootRun { c with store := S.crash c.store, mode := .down }

variable {S} in
theorem stepped_of_step {c c' : Config L σ ε Op Res} {ch : Choice Op Cfg}
    (h : S.step c ch = some c') : S.Stepped c ch c' := by
  obtain ⟨s, mode, log⟩ := c
  cases ch with
  | call op =>
    cases mode with
    | up pool =>
      by_cases hadm : S.admits (pool.map Prod.fst) op = true
      · obtain rfl : _ = c' := by simpa [System.step, hadm] using h
        exact .call rfl hadm
      · simp [System.step, hadm] at h
    | down => simp [System.step] at h
    | booting p => simp [System.step] at h
  | run i =>
    cases mode with
    | up pool =>
      cases hget : pool[i]? with
      | none => simp [System.step, System.runCall, hget] at h
      | some x =>
        obtain ⟨op, p⟩ := x
        cases p with
        | ret a =>
          obtain rfl : _ = c' := by simpa [System.step, System.runCall, hget] using h
          exact .ret rfl hget
        | fail e =>
          obtain rfl : _ = c' := by simpa [System.step, System.runCall, hget] using h
          exact .fail rfl hget
        | act l upd next =>
          obtain rfl : _ = c' := by simpa [System.step, System.runCall, hget] using h
          exact .act rfl hget
    | down => simp [System.step] at h
    | booting p => simp [System.step] at h
  | crash =>
    obtain rfl : _ = c' := by simpa [System.step] using h
    exact .crash
  | boot cfg =>
    cases mode with
    | down =>
      obtain rfl : _ = c' := by simpa [System.step] using h
      exact .boot rfl
    | up pool => simp [System.step] at h
    | booting p => simp [System.step] at h
  | bootRun =>
    cases mode with
    | booting p =>
      cases p with
      | ret u =>
        obtain rfl : _ = c' := by simpa [System.step, System.runBoot] using h
        exact .bootRet rfl
      | fail e =>
        obtain rfl : _ = c' := by simpa [System.step, System.runBoot] using h
        exact .bootFail rfl
      | act l upd next =>
        obtain rfl : _ = c' := by simpa [System.step, System.runBoot] using h
        exact .bootAct rfl
    | up pool => simp [System.step] at h
    | down => simp [System.step] at h

/-- How many calls a log leaves in flight: a crash ends them all. -/
def callsInFlight (log : List (Event Op Res ε)) : ℕ :=
  log.foldl (fun n ev => match ev with
    | .called _ => n + 1
    | .returned _ _ => n - 1
    | .booted | .crashed => 0) 0

theorem callsInFlight_concat (log : List (Event Op Res ε)) (ev : Event Op Res ε) :
    callsInFlight (log ++ [ev]) = match ev with
      | .called _ => callsInFlight log + 1
      | .returned _ _ => callsInFlight log - 1
      | .booted | .crashed => 0 := by
  rw [callsInFlight, List.foldl_append]
  cases ev <;> rfl

variable {S} in
theorem Reach.callsInFlight {A : L → σ → Prop} {c₀ c : Config L σ ε Op Res}
    (hrun : S.Reach A c₀ c) (h₀ : ∀ pool, c₀.mode = .up pool → System.callsInFlight c₀.log = pool.length)
    {pool : List (Op × Proc L σ ε Res)} (hup : c.mode = .up pool) :
    System.callsInFlight c.log = pool.length := by
  induction hrun generalizing pool with
  | refl => exact h₀ pool hup
  | @step c c' ch _ _ hs ih =>
    cases stepped_of_step hs with
    | @call op pool' hup' _ =>
      obtain rfl := Mode.up.inj hup
      simp [callsInFlight_concat, ih hup']
    | @act i pool' op l upd next hup' _ =>
      obtain rfl := Mode.up.inj hup
      rw [List.length_set]
      exact ih hup'
    | @ret i pool' op a hup' hget =>
      obtain rfl := Mode.up.inj hup
      obtain ⟨hi, _⟩ := List.getElem?_eq_some_iff.mp hget
      rw [callsInFlight_concat, List.length_eraseIdx_of_lt hi, ih hup']
    | @fail i pool' op e hup' hget =>
      obtain rfl := Mode.up.inj hup
      obtain ⟨hi, _⟩ := List.getElem?_eq_some_iff.mp hget
      rw [callsInFlight_concat, List.length_eraseIdx_of_lt hi, ih hup']
    | crash => exact absurd hup (by simp)
    | boot _ => exact absurd hup (by simp)
    | bootAct _ => exact absurd hup (by simp)
    | bootRet _ =>
      obtain rfl := Mode.up.inj hup
      rw [callsInFlight_concat]
      rfl
    | bootFail hboot => exact absurd hup (by simp)

variable {S} in
/-- What holds at the start and is kept by every admitted step holds in every run. -/
theorem Runs.invariant {ok : Config L σ ε Op Res → Choice Op Cfg → Prop}
    {Inv : Config L σ ε Op Res → Prop} {c₀ c : Config L σ ε Op Res}
    (hstep : ∀ c ch c', Inv c → ok c ch → S.Stepped c ch c' → Inv c') (h₀ : Inv c₀)
    (hrun : S.Runs ok c₀ c) : Inv c := by
  induction hrun with
  | refl => exact h₀
  | @step c c' ch _ hok hs ih => exact hstep c ch c' ih hok (stepped_of_step hs)

/-! ## Calls that run alone -/

section Alone

variable {S} {c₀ : Config L σ ε Op Res}

/-- The only call in flight can run to its end. -/
theorem Reach.finish {s : σ} {op : Op} {p : Proc L σ ε Res} {log : List (Event Op Res ε)}
    (hc : S.Reach (fun _ _ => True) c₀ ⟨s, .up [(op, p)], log⟩) :
    S.Reach (fun _ _ => True) c₀ ⟨(p.run s).2, .up [], log ++ [.returned op (p.run s).1]⟩ := by
  have hfree : ∀ (c : Config L σ ε Op Res) (ch : Choice Op Cfg), Meets (fun _ _ => True) c ch :=
    fun _ _ _ _ => trivial
  induction p generalizing s with
  | ret a => exact .step hc (hfree _ (.run 0)) rfl
  | fail e => exact .step hc (hfree _ (.run 0)) rfl
  | act l upd next ih => exact ih s (.step hc (hfree _ (.run 0)) rfl)

/-- While no call is in flight, one can start and run to its end. -/
theorem Reach.call {s : σ} {log : List (Event Op Res ε)} {op : Op}
    (hc : S.Reach (fun _ _ => True) c₀ ⟨s, .up [], log⟩) (hadm : S.admits [] op = true) :
    S.Reach (fun _ _ => True) c₀ ⟨((S.prog op).run s).2, .up [],
      log ++ [.called op] ++ [.returned op ((S.prog op).run s).1]⟩ := by
  have hstep : S.step ⟨s, .up [], log⟩ (.call op) =
      some ⟨s, .up [(op, S.prog op)], log ++ [.called op]⟩ := by
    simp [System.step, hadm]
  exact Reach.finish (.step hc (fun _ _ => trivial) hstep)

/-- A restart that is not interrupted runs to its end. -/
theorem Reach.reboot {s s' : σ} {log : List (Event Op Res ε)} (cfg : Cfg)
    (hc : S.Reach (fun _ _ => True) c₀ ⟨s, .down, log⟩) (hrun : (S.boot cfg).run s = (.ok (), s')) :
    S.Reach (fun _ _ => True) c₀ ⟨s', .up [], log ++ [.booted]⟩ := by
  have hstart : S.step ⟨s, .down, log⟩ (.boot cfg) = some ⟨s, .booting (S.boot cfg), log⟩ := rfl
  have hboot : S.Reach (fun _ _ => True) c₀ ⟨s, .booting (S.boot cfg), log⟩ :=
    .step hc (fun _ _ => trivial) hstart
  clear hc hstart
  generalize S.boot cfg = p at hrun hboot
  induction p generalizing s with
  | ret u =>
    obtain rfl : s = s' := congrArg Prod.snd hrun
    have hstep : S.step ⟨s, .booting (.ret u), log⟩ .bootRun = some ⟨s, .up [], log ++ [.booted]⟩ := rfl
    exact .step hboot (fun _ _ => trivial) hstep
  | fail e => exact absurd (congrArg Prod.fst hrun) (by simp [Proc.run])
  | act l upd next ih =>
    have hstep : S.step ⟨s, .booting (.act l upd next), log⟩ .bootRun =
        some ⟨upd s, .booting (next s), log⟩ := rfl
    exact ih s hrun (.step hboot (fun _ _ => trivial) hstep)

end Alone

/-- No call is in flight and none is being restarted. -/
def isIdle : Mode L σ ε Op Res → Bool
  | .up [] => true
  | _ => false

theorem mode_eq_of_isIdle {m : Mode L σ ε Op Res} (h : isIdle m = true) : m = .up [] := by
  unfold isIdle at h
  split at h
  · rfl
  · exact absurd h (by decide)

/-- Take a choice if it is possible and `ok` admits the step it takes. -/
def stepIf (ok : L → σ → Bool) (c : Config L σ ε Op Res) (ch : Choice Op Cfg) :
    Config L σ ε Op Res :=
  if (nextLabel c ch).all fun l => ok l c.store then (S.step c ch).getD c else c

/-- Let the first call in flight, or the restart, take up to `n` steps. -/
def settle (ok : L → σ → Bool) : ℕ → Config L σ ε Op Res → Config L σ ε Op Res
  | 0, c => c
  | n + 1, c =>
    match c.mode with
    | .up [] => c
    | .up _ => settle ok n (S.stepIf ok c (.run 0))
    | .booting _ => settle ok n (S.stepIf ok c .bootRun)
    | .down => c

/-- Evaluate a script: every choice is followed by up to the given number of steps. -/
def script (ok : L → σ → Bool) : List (Choice Op Cfg × ℕ) → Config L σ ε Op Res →
    Config L σ ε Op Res
  | [], c => c
  | (ch, n) :: rest, c => script ok rest (S.settle ok n (S.stepIf ok c ch))

section Script

variable {S} {A : L → σ → Prop} {ok : L → σ → Bool} {c₀ c : Config L σ ε Op Res}

theorem Reach.stepIf (hA : ∀ l s, ok l s = true → A l s) (hc : S.Reach A c₀ c)
    (ch : Choice Op Cfg) : S.Reach A c₀ (S.stepIf ok c ch) := by
  unfold System.stepIf
  split
  swap
  · exact hc
  rename_i hok
  cases hstep : S.step c ch with
  | none => exact hc
  | some c' =>
    refine .step hc ?_ hstep
    intro l hl
    rw [hl] at hok
    exact hA l c.store (by simpa using hok)

theorem Reach.settle (hA : ∀ l s, ok l s = true → A l s) (n : ℕ) (hc : S.Reach A c₀ c) :
    S.Reach A c₀ (S.settle ok n c) := by
  induction n generalizing c with
  | zero => exact hc
  | succ n ih =>
    unfold System.settle
    split
    · exact hc
    · exact ih (hc.stepIf hA _)
    · exact ih (hc.stepIf hA _)
    · exact hc

/-- What a script evaluates to is reached. -/
theorem Reach.script (hA : ∀ l s, ok l s = true → A l s) (chs : List (Choice Op Cfg × ℕ))
    (hc : S.Reach A c₀ c) : S.Reach A c₀ (S.script ok chs c) := by
  induction chs generalizing c with
  | nil => exact hc
  | cons x chs ih => exact ih ((hc.stepIf hA x.1).settle hA x.2)

/-! A script is also a run, when `may` admits the choices of the script and of the calls and
restarts that settle in it, in every configuration where the label passes. -/

variable {may : Config L σ ε Op Res → Choice Op Cfg → Prop} {fits : Choice Op Cfg → Prop}

theorem Runs.stepIf (hmay : ∀ c ch, fits ch → ((nextLabel c ch).all fun l => ok l c.store) = true →
    may c ch) (hc : S.Runs may c₀ c) {ch : Choice Op Cfg} (hch : fits ch) :
    S.Runs may c₀ (S.stepIf ok c ch) := by
  unfold System.stepIf
  split
  swap
  · exact hc
  rename_i hok
  cases hstep : S.step c ch with
  | none => exact hc
  | some c' => exact .step hc (hmay c ch hch hok) hstep

theorem Runs.settle (hmay : ∀ c ch, fits ch → ((nextLabel c ch).all fun l => ok l c.store) = true →
    may c ch) (hrun : fits (.run 0)) (hboot : fits .bootRun) (n : ℕ) (hc : S.Runs may c₀ c) :
    S.Runs may c₀ (S.settle ok n c) := by
  induction n generalizing c with
  | zero => exact hc
  | succ n ih =>
    unfold System.settle
    split
    · exact hc
    · exact ih (hc.stepIf hmay hrun)
    · exact ih (hc.stepIf hmay hboot)
    · exact hc

theorem Runs.script (hmay : ∀ c ch, fits ch → ((nextLabel c ch).all fun l => ok l c.store) = true →
    may c ch) (hrun : fits (.run 0)) (hboot : fits .bootRun) {chs : List (Choice Op Cfg × ℕ)}
    (hchs : ∀ x ∈ chs, fits x.1) (hc : S.Runs may c₀ c) :
    S.Runs may c₀ (S.script ok chs c) := by
  induction chs generalizing c with
  | nil => exact hc
  | cons x chs ih =>
    refine ih (fun y hy => hchs y (List.mem_cons_of_mem x hy)) ?_
    exact (hc.stepIf hmay (hchs x List.mem_cons_self)).settle hmay hrun hboot x.2

end Script

/-! ## Serial systems -/

section Serial

variable {A : L → σ → Prop} {G : σ → σ → Prop} {S}
  {J D : σ → List (Event Op Res ε) → Prop}

/-- What `reach_serial` needs of the programs: `J` is what holds while the system serves
calls, `D` what holds while it is down or restarting, and every step is in `G`. -/
structure Serial (S : System L σ ε Op Res Cfg) (A : L → σ → Prop) (G : σ → σ → Prop)
    (J D : σ → List (Event Op Res ε) → Prop) : Prop where
  refl : ∀ s, G s s
  crashStep : ∀ s, G s (S.crash s)
  admits : ∀ ops op, S.admits ops op → ops = []
  crash : ∀ s log, D s log → D (S.crash s) log
  crashed : ∀ s log, D s log → D s (log ++ [.crashed])
  up : ∀ s log, J s log → D s log
  call : ∀ s log op, S.admits [] op → J s log → J s (log ++ [.called op]) ∧
    (S.prog op).Safe A G (fun s' => J s' (log ++ [.called op]))
      (fun r s' => J s' (log ++ [.called op] ++ [.returned op r])) s
  boot : ∀ s log cfg, D s log →
    (S.boot cfg).Safe A G (fun s' => D s' log)
      (fun r s' => r = .ok () → J s' (log ++ [.booted])) s

/-- The invariant of a serial system, with the obligations of the call in flight. -/
def SerialInv (A : L → σ → Prop) (G : σ → σ → Prop) (J D : σ → List (Event Op Res ε) → Prop)
    (c : Config L σ ε Op Res) : Prop :=
  match c.mode with
  | .up [] => J c.store c.log
  | .up [(op, p)] => J c.store c.log ∧
      p.Safe A G (fun s' => J s' c.log) (fun r s' => J s' (c.log ++ [.returned op r])) c.store
  | .up _ => False
  | .down => D c.store c.log
  | .booting p => D c.store c.log ∧
      p.Safe A G (fun s' => D s' c.log)
        (fun r s' => r = .ok () → J s' (c.log ++ [.booted])) c.store

theorem SerialInv.up {c : Config L σ ε Op Res} (hc : SerialInv A G J D c)
    {pool : List (Op × Proc L σ ε Res)} (hup : c.mode = .up pool) : J c.store c.log := by
  obtain ⟨s, mode, log⟩ := c
  match mode, hc with
  | .up [], hc => exact hc
  | .up [_], hc => exact hc.1
  | .down, _ => exact absurd hup (by simp)
  | .booting _, _ => exact absurd hup (by simp)

theorem SerialInv.crashInv (h : Serial S A G J D) {c : Config L σ ε Op Res}
    (hc : SerialInv A G J D c) : D c.store c.log := by
  obtain ⟨s, mode, log⟩ := c
  match mode, hc with
  | .up pool, hc => exact h.up s log (SerialInv.up hc rfl)
  | .down, hc => exact hc
  | .booting _, hc => exact hc.1

/-- A step of the one call in flight. -/
theorem SerialInv.runCall {s : σ} {log : List (Event Op Res ε)}
    {pool : List (Op × Proc L σ ε Res)} {i : ℕ} {c' : Config L σ ε Op Res}
    (hc : SerialInv A G J D ⟨s, .up pool, log⟩)
    (hA : ∀ l, (pool[i]?.bind fun x => x.2.label) = some l → A l s)
    (hstep : System.runCall ⟨s, .up pool, log⟩ pool i = some c') : SerialInv A G J D c' := by
  match pool, i, hc with
  | [], i, _ => simp [System.runCall] at hstep
  | [(op, p)], i + 1, _ => simp [System.runCall] at hstep
  | [(op, p)], 0, hc =>
    obtain ⟨hD, hp⟩ := hc
    cases p with
    | ret a =>
      obtain rfl : _ = c' := by simpa [System.runCall] using hstep
      exact hp s rfl hD
    | fail e =>
      obtain rfl : _ = c' := by simpa [System.runCall] using hstep
      exact hp s rfl hD
    | act l upd next =>
      obtain rfl : _ = c' := by simpa [System.runCall] using hstep
      obtain ⟨_, _, h₁, h₂⟩ := hp s rfl hD (hA l rfl)
      exact ⟨h₁, h₂⟩

/-- A step of the restart. -/
theorem SerialInv.runBoot (h : Serial S A G J D) {s : σ} {log : List (Event Op Res ε)}
    {p : Proc L σ ε Unit} (hc : SerialInv A G J D ⟨s, .booting p, log⟩)
    (hA : ∀ l, p.label = some l → A l s) :
    SerialInv A G J D (S.runBoot ⟨s, .booting p, log⟩ p) := by
  obtain ⟨hD, hp⟩ := hc
  cases p with
  | ret a => exact hp s rfl hD rfl
  | fail e => exact h.crash s log hD
  | act l upd next =>
    obtain ⟨_, _, h₁, h₂⟩ := hp s rfl hD (hA l rfl)
    exact ⟨h₁, h₂⟩

/-- **Serial runs.**  Every configuration reached from one that satisfies the serial
invariant satisfies it. -/
theorem reach_serial (h : Serial S A G J D) {c₀ c : Config L σ ε Op Res}
    (hinit : SerialInv A G J D c₀) (hc : S.Reach A c₀ c) : SerialInv A G J D c := by
  induction hc with
  | refl => exact hinit
  | @step c c' ch _ hA hstep ih =>
    obtain ⟨s, mode, log⟩ := c
    cases ch with
    | call op =>
      match mode, ih with
      | .up pool, ih =>
        by_cases hadm : S.admits (pool.map Prod.fst) op
        · have hnil : pool = [] := List.map_eq_nil_iff.mp (h.admits _ _ hadm)
          subst hnil
          have hadm' : S.admits [] op := hadm
          obtain rfl : _ = c' := by simpa only [System.step, List.map_nil, hadm', if_true,
            List.nil_append, Option.some.injEq] using hstep
          exact h.call s log op hadm' ih
        · simp [System.step, hadm] at hstep
      | .down, _ => simp [System.step] at hstep
      | .booting _, _ => simp [System.step] at hstep
    | run i =>
      match mode, ih with
      | .up pool, ih => exact SerialInv.runCall ih hA hstep
      | .down, _ => simp [System.step] at hstep
      | .booting _, _ => simp [System.step] at hstep
    | crash =>
      obtain rfl : _ = c' := by simpa [System.step] using hstep
      exact h.crashed _ _ (h.crash s log (SerialInv.crashInv h ih))
    | boot cfg =>
      match mode, ih with
      | .up _, _ => simp [System.step] at hstep
      | .booting _, _ => simp [System.step] at hstep
      | .down, ih =>
        obtain rfl : _ = c' := by simpa [System.step] using hstep
        exact ⟨ih, h.boot s log cfg ih⟩
    | bootRun =>
      match mode, ih with
      | .up _, _ => simp [System.step] at hstep
      | .down, _ => simp [System.step] at hstep
      | .booting p, ih =>
        obtain rfl : _ = c' := by simpa [System.step] using hstep
        exact SerialInv.runBoot h ih hA

/-- **Serial steps.**  Every step from a reachable configuration is in `G`. -/
theorem step_serial (h : Serial S A G J D) {c₀ c c' : Config L σ ε Op Res} {ch : Choice Op Cfg}
    (hinit : SerialInv A G J D c₀) (hc : S.Reach A c₀ c) (hA : Meets A c ch)
    (hstep : S.step c ch = some c') : G c.store c'.store := by
  have hinv := reach_serial h hinit hc
  obtain ⟨s, mode, log⟩ := c
  -- by what the step does: only a step of a program, a crash and a failed boot change the store
  cases ch with
  | call op =>
    cases mode with
    | up pool =>
      by_cases hadm : S.admits (pool.map Prod.fst) op
      · obtain rfl : _ = c' := by simpa [System.step, hadm] using hstep
        exact h.refl s
      · simp [System.step, hadm] at hstep
    | down => simp [System.step] at hstep
    | booting _ => simp [System.step] at hstep
  | run i =>
    match mode, hinv with
    | .up [], _ => simp [System.step, System.runCall] at hstep
    | .up [(op, p)], hinv =>
      cases i with
      | succ i => simp [System.step, System.runCall] at hstep
      | zero =>
        cases p with
        | ret a =>
          obtain rfl : _ = c' := by simpa [System.step, System.runCall] using hstep
          exact h.refl s
        | fail e =>
          obtain rfl : _ = c' := by simpa [System.step, System.runCall] using hstep
          exact h.refl s
        | act l upd next =>
          obtain rfl : _ = c' := by simpa [System.step, System.runCall] using hstep
          obtain ⟨_, hG, _⟩ := hinv.2 s rfl hinv.1 (hA l rfl)
          exact hG
    | .down, _ => simp [System.step] at hstep
    | .booting _, _ => simp [System.step] at hstep
  | crash =>
    obtain rfl : _ = c' := by simpa [System.step] using hstep
    exact h.crashStep s
  | boot cfg =>
    cases mode with
    | up pool => simp [System.step] at hstep
    | booting _ => simp [System.step] at hstep
    | down =>
      obtain rfl : _ = c' := by simpa [System.step] using hstep
      exact h.refl s
  | bootRun =>
    match mode, hinv with
    | .up _, _ => simp [System.step] at hstep
    | .down, _ => simp [System.step] at hstep
    | .booting p, hinv =>
      obtain rfl : _ = c' := by simpa [System.step] using hstep
      cases p with
      | ret a => exact h.refl s
      | fail e => exact h.crashStep s
      | act l upd next =>
        obtain ⟨_, hG, _⟩ := hinv.2 s rfl hinv.1 (hA l rfl)
        exact hG

end Serial

/-! ## Systems whose calls overlap -/

section Shared

variable {S} {Own : Type} {C : Proc.Contract L σ Own} {G : σ → σ → Prop}
  {apart : Own → Own → Prop} {o₀ : Own} {J D : σ → List (Event Op Res ε) → Prop}
  {Q : Op → Except ε Res → Own → σ → Prop}

/-- What `reach_pool` needs of the programs.  Every call in flight owns something, `o₀` at
its start; `apart` says that two calls own different things.  `J` is what holds while the
system serves calls, `D` what holds while it is down or restarting, `Q` what a call has
established when it returns. -/
structure Shared (S : System L σ ε Op Res Cfg) (C : Proc.Contract L σ Own) (G : σ → σ → Prop)
    (apart : Own → Own → Prop) (o₀ : Own) (J D : σ → List (Event Op Res ε) → Prop)
    (Q : Op → Except ε Res → Own → σ → Prop) : Prop where
  start : ∀ s log, J s log → C.inv o₀ s
  apart₀ : ∀ o, apart o o₀ ∧ apart o₀ o
  others : ∀ o o₁ o₁' s s', apart o o₁ → C.inv o s → C.inv o₁ s → C.guar o₁ o₁' s s' →
    C.inv o₁' s' → C.rely o s s' ∧ C.inv o s' ∧ apart o o₁' ∧ apart o₁' o
  moved : ∀ o o' s s' log, J s log → C.inv o s → C.guar o o' s s' → C.inv o' s' → J s' log
  called : ∀ s log op, J s log → J s (log ++ [.called op])
  call : ∀ s log ops op, S.admits ops op → J s log → (S.prog op).Sat C (Q op) o₀ s
  returned : ∀ s log op o r, J s log → C.inv o s → Q op r o s → J s (log ++ [.returned op r])
  up : ∀ s log, J s log → D s log
  crash : ∀ s log, D s log → D (S.crash s) log
  crashed : ∀ s log, D s log → D s (log ++ [.crashed])
  boot : ∀ s log cfg, D s log →
    (S.boot cfg).Safe C.assume G (fun s' => D s' log)
      (fun r s' => r = .ok () → J s' (log ++ [.booted])) s

/-- The calls in flight with what each of them owns. -/
structure Crew (C : Proc.Contract L σ Own) (apart : Own → Own → Prop)
    (Q : Op → Except ε Res → Own → σ → Prop) (s : σ) (pool : List (Op × Proc L σ ε Res))
    (os : List Own) : Prop where
  length : os.length = pool.length
  each : ∀ (i : ℕ) (op : Op) (p : Proc L σ ε Res) (o : Own), pool[i]? = some (op, p) →
    os[i]? = some o → C.inv o s ∧ p.Sat C (Q op) o s
  distinct : ∀ (i j : ℕ) (o o' : Own), i ≠ j → os[i]? = some o → os[j]? = some o' → apart o o'

/-- The invariant of a system whose calls overlap. -/
def PoolInv (C : Proc.Contract L σ Own) (G : σ → σ → Prop) (apart : Own → Own → Prop)
    (J D : σ → List (Event Op Res ε) → Prop) (Q : Op → Except ε Res → Own → σ → Prop)
    (c : Config L σ ε Op Res) : Prop :=
  match c.mode with
  | .up pool => J c.store c.log ∧ ∃ os, Crew C apart Q c.store pool os
  | .down => D c.store c.log
  | .booting p => D c.store c.log ∧
      p.Safe C.assume G (fun s' => D s' c.log)
        (fun r s' => r = .ok () → J s' (c.log ++ [.booted])) c.store

theorem Crew.nil (s : σ) : Crew C apart Q s [] [] where
  length := rfl
  each := by simp
  distinct := by simp

/-- The owner of a call in flight. -/
theorem Crew.owner {s : σ} {pool : List (Op × Proc L σ ε Res)} {os : List Own}
    (h : Crew C apart Q s pool os) {i : ℕ} {x : Op × Proc L σ ε Res} (hi : pool[i]? = some x) :
    ∃ o, os[i]? = some o := by
  have hlt : i < os.length := by
    rw [h.length]
    exact (List.getElem?_eq_some_iff.mp hi).1
  exact ⟨os[i], List.getElem?_eq_getElem hlt⟩

/-- A new call joins. -/
theorem Crew.call (h : Shared S C G apart o₀ J D Q) {s : σ} {log : List (Event Op Res ε)}
    {pool : List (Op × Proc L σ ε Res)} {os : List Own} (hcrew : Crew C apart Q s pool os)
    (hJ : J s log) {op : Op} (hadm : S.admits (pool.map Prod.fst) op) :
    Crew C apart Q s (pool ++ [(op, S.prog op)]) (os ++ [o₀]) where
  length := by simp [hcrew.length]
  each := by
    intro i op' p o hp ho
    rw [List.getElem?_append] at hp ho
    rw [← hcrew.length] at hp
    by_cases hi : i < os.length
    · rw [if_pos hi] at hp ho
      exact hcrew.each i op' p o hp ho
    · rw [if_neg hi] at hp ho
      rw [List.getElem?_singleton] at hp ho
      by_cases hz : i - os.length = 0
      · rw [if_pos hz] at hp ho
        obtain ⟨rfl, rfl⟩ : op = op' ∧ S.prog op = p := by simpa using hp
        obtain rfl : o₀ = o := by simpa using ho
        exact ⟨h.start s log hJ, h.call s log _ op hadm hJ⟩
      · rw [if_neg hz] at hp
        exact absurd hp (by simp)
  distinct := by
    -- the newcomer owns `o₀`, which is apart from everything
    have hlast : ∀ i o, (os ++ [o₀])[i]? = some o → os[i]? = some o ∨ (os.length ≤ i ∧ o = o₀) := by
      intro i o ho
      rw [List.getElem?_append] at ho
      by_cases hi : i < os.length
      · rw [if_pos hi] at ho
        exact .inl ho
      · rw [if_neg hi, List.getElem?_singleton] at ho
        by_cases hz : i - os.length = 0
        · rw [if_pos hz] at ho
          exact .inr ⟨by omega, by simpa using ho.symm⟩
        · rw [if_neg hz] at ho
          exact absurd ho (by simp)
    intro i j o o' hij ho ho'
    rcases hlast i o ho with ho | ⟨_, rfl⟩
    · rcases hlast j o' ho' with ho' | ⟨_, rfl⟩
      · exact hcrew.distinct i j o o' hij ho ho'
      · exact (h.apart₀ o).1
    · exact (h.apart₀ o').2

/-- A call leaves. -/
theorem Crew.eraseIdx {s : σ} {pool : List (Op × Proc L σ ε Res)} {os : List Own}
    (h : Crew C apart Q s pool os) (k : ℕ) :
    Crew C apart Q s (pool.eraseIdx k) (os.eraseIdx k) where
  length := by simp [List.length_eraseIdx, h.length]
  each := by
    intro i op p o hp ho
    rw [List.getElem?_eraseIdx] at hp ho
    by_cases hi : i < k
    · rw [if_pos hi] at hp ho
      exact h.each i op p o hp ho
    · rw [if_neg hi] at hp ho
      exact h.each (i + 1) op p o hp ho
  distinct := by
    intro i j o o' hij ho ho'
    rw [List.getElem?_eraseIdx] at ho ho'
    by_cases hi : i < k <;> by_cases hj : j < k
    · rw [if_pos hi] at ho
      rw [if_pos hj] at ho'
      exact h.distinct i j o o' hij ho ho'
    · rw [if_pos hi] at ho
      rw [if_neg hj] at ho'
      exact h.distinct i (j + 1) o o' (by omega) ho ho'
    · rw [if_neg hi] at ho
      rw [if_pos hj] at ho'
      exact h.distinct (i + 1) j o o' (by omega) ho ho'
    · rw [if_neg hi] at ho
      rw [if_neg hj] at ho'
      exact h.distinct (i + 1) (j + 1) o o' (by omega) ho ho'

/-- A call takes a step: it goes on with what it owns now, and the others have only seen
what they rely on. -/
theorem Crew.step (h : Shared S C G apart o₀ J D Q) {s s' : σ}
    {pool : List (Op × Proc L σ ε Res)} {os : List Own} (hcrew : Crew C apart Q s pool os)
    {k : ℕ} {op : Op} {p p' : Proc L σ ε Res} {o o' : Own} (hp : pool[k]? = some (op, p))
    (ho : os[k]? = some o) (hG : C.guar o o' s s') (hI : C.inv o' s')
    (hsat : p'.Sat C (Q op) o' s') : Crew C apart Q s' (pool.set k (op, p')) (os.set k o') where
  length := by simp [hcrew.length]
  each := by
    intro i op₁ p₁ o₁ hp₁ ho₁
    rw [List.getElem?_set] at hp₁ ho₁
    by_cases hik : k = i
    · subst hik
      have hk : k < pool.length := (List.getElem?_eq_some_iff.mp hp).1
      have hk' : k < os.length := (List.getElem?_eq_some_iff.mp ho).1
      obtain ⟨rfl, rfl⟩ : op = op₁ ∧ p' = p₁ := by simpa [hk] using hp₁
      obtain rfl : o' = o₁ := by simpa [hk'] using ho₁
      exact ⟨hI, hsat⟩
    · rw [if_neg hik] at hp₁ ho₁
      obtain ⟨hI₁, hsat₁⟩ := hcrew.each i op₁ p₁ o₁ hp₁ ho₁
      have hdis := hcrew.distinct i k o₁ o (Ne.symm hik) ho₁ ho
      obtain ⟨hR, hI₁', -⟩ := h.others o₁ o o' s s' hdis hI₁ (hcrew.each k op p o hp ho).1 hG hI
      exact ⟨hI₁', hsat₁.env hR⟩
  distinct := by
    have hI₀ := (hcrew.each k op p o hp ho).1
    -- a call other than the moving one was apart from it and still is
    have hother : ∀ i o₁, k ≠ i → os[i]? = some o₁ → apart o₁ o' ∧ apart o' o₁ := by
      intro i o₁ hik ho₁
      obtain ⟨x, hx⟩ : ∃ x, pool[i]? = some x := by
        have hlt : i < pool.length := by
          rw [← hcrew.length]
          exact (List.getElem?_eq_some_iff.mp ho₁).1
        exact ⟨pool[i], List.getElem?_eq_getElem hlt⟩
      have hI₁ := (hcrew.each i x.1 x.2 o₁ hx ho₁).1
      have hdis := hcrew.distinct i k o₁ o (Ne.symm hik) ho₁ ho
      exact (h.others o₁ o o' s s' hdis hI₁ hI₀ hG hI).2.2
    intro i j o₁ o₂ hij ho₁ ho₂
    rw [List.getElem?_set] at ho₁ ho₂
    have hk' : k < os.length := (List.getElem?_eq_some_iff.mp ho).1
    by_cases hik : k = i <;> by_cases hjk : k = j
    · exact absurd (hik.symm.trans hjk) hij
    · rw [if_pos hik, if_pos hk'] at ho₁
      rw [if_neg hjk] at ho₂
      obtain rfl : o' = o₁ := by simpa using ho₁
      exact (hother j o₂ hjk ho₂).2
    · rw [if_neg hik] at ho₁
      rw [if_pos hjk, if_pos hk'] at ho₂
      obtain rfl : o' = o₂ := by simpa using ho₂
      exact (hother i o₁ hik ho₁).1
    · rw [if_neg hik] at ho₁
      rw [if_neg hjk] at ho₂
      exact hcrew.distinct i j o₁ o₂ hij ho₁ ho₂

theorem PoolInv.crashInv (h : Shared S C G apart o₀ J D Q) {c : Config L σ ε Op Res}
    (hc : PoolInv C G apart J D Q c) : D c.store c.log := by
  obtain ⟨s, mode, log⟩ := c
  match mode, hc with
  | .up pool, hc => exact h.up s log hc.1
  | .down, hc => exact hc
  | .booting _, hc => exact hc.1

theorem PoolInv.up {c : Config L σ ε Op Res} (hc : PoolInv C G apart J D Q c)
    {pool : List (Op × Proc L σ ε Res)} (hup : c.mode = .up pool) : J c.store c.log := by
  obtain ⟨s, mode, log⟩ := c
  subst hup
  exact hc.1

/-- A step of one of the calls in flight. -/
theorem PoolInv.runCall (h : Shared S C G apart o₀ J D Q) {s : σ} {log : List (Event Op Res ε)}
    {pool : List (Op × Proc L σ ε Res)} {i : ℕ} {c' : Config L σ ε Op Res}
    (hc : PoolInv C G apart J D Q ⟨s, .up pool, log⟩)
    (hA : ∀ l, (pool[i]?.bind fun x => x.2.label) = some l → C.assume l s)
    (hstep : System.runCall ⟨s, .up pool, log⟩ pool i = some c') :
    PoolInv C G apart J D Q c' ∧
      (c'.store = s ∨ ∃ o o', C.inv o s ∧ C.guar o o' s c'.store ∧ C.inv o' c'.store) := by
  obtain ⟨hJ, os, hcrew⟩ := hc
  unfold System.runCall at hstep
  match hi : pool[i]? with
  | none =>
    rw [hi] at hstep
    exact absurd hstep (by simp)
  | some (op, p) =>
    obtain ⟨o, ho⟩ := hcrew.owner hi
    obtain ⟨hI, hsat⟩ := hcrew.each i op p o hi ho
    cases p with
    | ret a =>
      rw [hi] at hstep
      obtain rfl : _ = c' := by simpa using hstep
      have hQ := hsat s (C.refl o s) hI
      exact ⟨⟨h.returned s log op o _ hJ hI hQ, _, hcrew.eraseIdx i⟩, .inl rfl⟩
    | fail e =>
      rw [hi] at hstep
      obtain rfl : _ = c' := by simpa using hstep
      have hQ := hsat s (C.refl o s) hI
      exact ⟨⟨h.returned s log op o _ hJ hI hQ, _, hcrew.eraseIdx i⟩, .inl rfl⟩
    | act l upd next =>
      rw [hi] at hstep
      obtain rfl : _ = c' := by simpa using hstep
      have hl : (pool[i]?.bind fun x => x.2.label) = some l := by
        rw [hi]
        rfl
      obtain ⟨o', hG, hI', hrest⟩ := hsat s (C.refl o s) hI (hA l hl)
      exact ⟨⟨h.moved o o' s _ log hJ hI hG hI', _, hcrew.step h hi ho hG hI' hrest⟩,
        .inr ⟨o, o', hI, hG, hI'⟩⟩

/-- A step of the restart. -/
theorem PoolInv.runBoot (h : Shared S C G apart o₀ J D Q) {s : σ} {log : List (Event Op Res ε)}
    {p : Proc L σ ε Unit} (hc : PoolInv C G apart J D Q ⟨s, .booting p, log⟩)
    (hA : ∀ l, p.label = some l → C.assume l s) :
    PoolInv C G apart J D Q (S.runBoot ⟨s, .booting p, log⟩ p) ∧
      ((S.runBoot ⟨s, .booting p, log⟩ p).store = s ∨
       (S.runBoot ⟨s, .booting p, log⟩ p).store = S.crash s ∨
       G s (S.runBoot ⟨s, .booting p, log⟩ p).store) := by
  obtain ⟨hD, hp⟩ := hc
  cases p with
  | ret a => exact ⟨⟨hp s rfl hD rfl, [], Crew.nil s⟩, .inl rfl⟩
  | fail e => exact ⟨h.crash s log hD, .inr (.inl rfl)⟩
  | act l upd next =>
    obtain ⟨_, hG, h₁, h₂⟩ := hp s rfl hD (hA l rfl)
    exact ⟨⟨h₁, h₂⟩, .inr (.inr hG)⟩

/-- What a step of a system whose calls overlap does to the state: nothing, a crash, a
guaranteed move of one call, or a step of the restart. -/
def Moved (S : System L σ ε Op Res Cfg) (C : Proc.Contract L σ Own) (G : σ → σ → Prop)
    (c c' : Config L σ ε Op Res) : Prop :=
  c'.store = c.store ∨ c'.store = S.crash c.store ∨
  ((∃ pool, c.mode = .up pool) ∧
    ∃ o o', C.inv o c.store ∧ C.guar o o' c.store c'.store ∧ C.inv o' c'.store) ∨
  ((∃ p, c.mode = .booting p) ∧ G c.store c'.store)

/-- One choice keeps the invariant, and is a move. -/
theorem PoolInv.step (h : Shared S C G apart o₀ J D Q) {c c' : Config L σ ε Op Res}
    {ch : Choice Op Cfg} (hc : PoolInv C G apart J D Q c) (hA : Meets C.assume c ch)
    (hstep : S.step c ch = some c') : PoolInv C G apart J D Q c' ∧ Moved S C G c c' := by
  obtain ⟨s, mode, log⟩ := c
  cases ch with
  | call op =>
    match mode, hc with
    | .up pool, ⟨hJ, os, hcrew⟩ =>
      by_cases hadm : S.admits (pool.map Prod.fst) op
      · obtain rfl : _ = c' := by simpa [System.step, hadm] using hstep
        exact ⟨⟨h.called s log op hJ, _, hcrew.call h hJ hadm⟩, .inl rfl⟩
      · simp [System.step, hadm] at hstep
    | .down, _ => simp [System.step] at hstep
    | .booting _, _ => simp [System.step] at hstep
  | run i =>
    match mode, hc with
    | .up pool, hc =>
      obtain ⟨h₁, h₂⟩ := PoolInv.runCall h hc hA hstep
      refine ⟨h₁, ?_⟩
      rcases h₂ with h₂ | h₂
      · exact .inl h₂
      · exact .inr (.inr (.inl ⟨⟨pool, rfl⟩, h₂⟩))
    | .down, _ => simp [System.step] at hstep
    | .booting _, _ => simp [System.step] at hstep
  | crash =>
    obtain rfl : _ = c' := by simpa [System.step] using hstep
    exact ⟨h.crashed _ _ (h.crash s log (PoolInv.crashInv h hc)), .inr (.inl rfl)⟩
  | boot cfg =>
    match mode, hc with
    | .up _, _ => simp [System.step] at hstep
    | .booting _, _ => simp [System.step] at hstep
    | .down, hc =>
      obtain rfl : _ = c' := by simpa [System.step] using hstep
      exact ⟨⟨hc, h.boot s log cfg hc⟩, .inl rfl⟩
  | bootRun =>
    match mode, hc with
    | .up _, _ => simp [System.step] at hstep
    | .down, _ => simp [System.step] at hstep
    | .booting p, hc =>
      obtain rfl : _ = c' := by simpa [System.step] using hstep
      obtain ⟨h₁, h₂⟩ := PoolInv.runBoot h hc hA
      refine ⟨h₁, ?_⟩
      rcases h₂ with h₂ | h₂ | h₂
      · exact .inl h₂
      · exact .inr (.inl h₂)
      · exact .inr (.inr (.inr ⟨⟨p, rfl⟩, h₂⟩))

/-- **Overlapping runs.**  Every configuration reached from one that satisfies the
invariant satisfies it. -/
theorem reach_pool (h : Shared S C G apart o₀ J D Q) {c₀ c : Config L σ ε Op Res}
    (hinit : PoolInv C G apart J D Q c₀) (hc : S.Reach C.assume c₀ c) :
    PoolInv C G apart J D Q c := by
  induction hc with
  | refl => exact hinit
  | step _ hA hstep ih => exact (PoolInv.step h ih hA hstep).1

/-- **Overlapping steps.**  Every step from a reachable configuration is a move. -/
theorem step_pool (h : Shared S C G apart o₀ J D Q) {c₀ c c' : Config L σ ε Op Res}
    {ch : Choice Op Cfg} (hinit : PoolInv C G apart J D Q c₀) (hc : S.Reach C.assume c₀ c)
    (hA : Meets C.assume c ch) (hstep : S.step c ch = some c') : Moved S C G c c' :=
  (PoolInv.step h (reach_pool h hinit hc) hA hstep).2

end Shared

/-! ## Calls that share an invariant -/

/-- What the calls have returned satisfies `Q`. -/
def Returned (Q : Op → Except ε Res → Prop) (log : List (Event Op Res ε)) : Prop :=
  ∀ op r, .returned op r ∈ log → Q op r

theorem Returned.append {Q : Op → Except ε Res → Prop} {log : List (Event Op Res ε)}
    (h : Returned Q log) {e : Event Op Res ε} (he : ∀ op r, e = .returned op r → Q op r) :
    Returned Q (log ++ [e]) := by
  intro op r hmem
  rcases List.mem_append.mp hmem with hmem | hmem
  · exact h op r hmem
  · exact he op r (List.mem_singleton.mp hmem).symm

variable {S} in
/-- **Calls that only share an invariant.**  If the steps of every call keep `I`, then `I`
holds in every reachable configuration and every call has returned what its proof says. -/
theorem reach_free {A : L → σ → Prop} {I : σ → Prop} {Q : Op → Except ε Res → Prop}
    (hprog : ∀ op s, (S.prog op).Sat (Proc.free A I) (fun r _ _ => Q op r) () s)
    (hboot : ∀ cfg s, (S.boot cfg).Safe A (fun _ _ => True) I (fun _ _ => True) s)
    (hcrash : ∀ s, I s → I (S.crash s)) {s₀ : σ} (h₀ : I s₀) {c : Config L σ ε Op Res}
    (hc : S.Reach A (start s₀) c) : I c.store ∧ Returned Q c.log := by
  let J : σ → List (Event Op Res ε) → Prop := fun s log => I s ∧ Returned Q log
  have hshared : Shared S (Proc.free A I) (fun _ _ => True) (fun _ _ => True) () J J
      (fun op r _ _ => Q op r) := {
    start := fun s log h => h.1
    apart₀ := fun _ => ⟨trivial, trivial⟩
    others := fun _ _ _ _ _ _ _ _ _ hI => ⟨trivial, hI, trivial, trivial⟩
    moved := fun _ _ _ _ _ h _ _ hI => ⟨hI, h.2⟩
    called := fun s log op h => ⟨h.1, h.2.append (by simp)⟩
    call := fun s log ops op _ _ => hprog op s
    returned := fun s log op o r h hI hQ => ⟨hI, h.2.append (by rintro _ _ ⟨⟩; exact hQ)⟩
    up := fun _ _ h => h
    crash := fun s log h => ⟨hcrash s h.1, h.2⟩
    crashed := fun s log h => ⟨h.1, h.2.append (by simp)⟩
    boot := by
      intro s log cfg h
      refine ((hboot cfg s).weaken h.1 fun s' hI => (⟨hI, h.2⟩ : J s' log)).post ?_
      exact fun _ s' hJ _ _ => ⟨hJ.1, hJ.2.append (by simp)⟩ }
  have hstart : PoolInv (Proc.free A I) (fun _ _ => True) (fun _ _ => True) J J
      (fun op r _ _ => Q op r) (start s₀ : Config L σ ε Op Res) :=
    ⟨h₀, by simp [Returned, start]⟩
  have hinv := reach_pool hshared hstart hc
  exact PoolInv.crashInv hshared hinv

end System
