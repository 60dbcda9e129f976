/-
# Acknowledged writes survive crashes

Every serial run of one tenant — calls one after the other, crashes between any two of
their steps or of the steps of a recovery, and reopenings — keeps the invariant of the
store for the ledger its log keeps (`serial_session`).  Two consequences:

* `acknowledged_writes_survive` — whenever the store serves calls, `get_chunk` returns
  the payload of every chunk whose add returned and that was never deleted, and nothing
  for a chunk whose delete returned `true`;
* `rows_point_at_own_payload` — in every state, crashed and recovering ones included,
  every row that is not deleted points at a location of its own that holds the payload
  of its own chunk.
-/
import Memd.MaintenanceSafety
import Memd.Session

open Store TenantStore PersistentStore Proc

/-! ## Ledgers -/

/-- `K'` promises no more than `K`. -/
structure Store.Ledger.Le (K' K : Ledger) : Prop where
  keep : ∀ p, K'.keep p → K.keep p
  gone : ∀ c, K'.gone c → K.gone c
  erased : ∀ c, K'.erased c → K.erased c

theorem Store.Ledger.Le.refl (K : Ledger) : K.Le K :=
  ⟨fun _ h => h, fun _ h => h, fun _ h => h⟩

theorem Store.Ledger.le_keeping (K : Ledger) (new : MemoryChunk → Prop) : K.Le (K.keeping new) :=
  ⟨fun _ h => .inl h, fun _ h => h, fun _ h => h⟩

theorem Store.Ledger.le_burying (K : Ledger) (new : ChunkId → Prop) : K.Le (K.burying new) :=
  ⟨fun _ h => h, fun _ h => .inl h, fun _ h => h⟩

theorem Store.Inv.weaken {T : TenantId} {K K' : Ledger} {rest : List LogRecord} {s : Store}
    (h : Inv T K rest s) (hK : K'.Le K) : Inv T K' rest s :=
  ((h.weaken_keep hK.keep).weaken_gone hK.gone).weaken_erased hK.erased

theorem CrashInv.weaken {T : TenantId} {K K' : Ledger} {s : Store} (h : CrashInv T K s)
    (hK : K'.Le K) : CrashInv T K' s :=
  Store.Inv.weaken h hK

/-- What the callers may rely on after a call has returned; a purge is for good only if
the purged chunks were out of the reach of recovery. -/
def Store.Ledger.after (ext : Externals) (A : StoreStep → Store → Prop) (K : Ledger) :
    StoreOp → Except MemdError StoreRes → Ledger
  | .add chunks _ _, .ok (.added out) => K.keeping fun p =>
      StoredAs ext (expandChunksForAdd ext chunks).1 out.storedIds p ∧ p.status ≠ .deleted
  | .addTaskArtifact _ projections _ _, .ok (.projected ids) => K.keeping fun p =>
      ProjectedAs ext projections ids p ∧ p.status ≠ .deleted
  | .delete c, .ok (.deleted true) => K.burying fun d => d = c
  | .purge _ _, .ok (.purged report) => K.erasing fun c => CleanPurges A ∧ c ∈ report.candidateIds
  | _, _ => K

theorem Store.Ledger.le_after (ext : Externals) (A : StoreStep → Store → Prop) (K : Ledger)
    (op : StoreOp) (r : Except MemdError StoreRes) : K.Le (K.after ext A op r) := by
  unfold Store.Ledger.after
  split
  · exact K.le_keeping _
  · exact K.le_keeping _
  · exact K.le_burying _
  · exact ⟨fun _ h => h, fun _ h => h, fun _ h => .inl h⟩
  · exact Ledger.Le.refl K

/-- A ledger kept along the log of a run: nothing is promised that no call has
established, and a delete withdraws the promise to keep its chunk when it is called. -/
structure Tracks (ext : Externals) (A : StoreStep → Store → Prop) (allowed : StoreOp → Bool)
    (K : List StoreEvent → Ledger) : Prop where
  live : ∀ log p, (K log).keep p → p.status ≠ .deleted
  called : ∀ log op, (K (log ++ [.called op])).Le (K log)
  booted : ∀ log, (K (log ++ [.booted])).Le (K log)
  crashed : ∀ log, (K (log ++ [.crashed])).Le (K log)
  delete : ∀ log c p, (K (log ++ [.called (.delete c)])).keep p → p.chunkId ≠ c
  purge : ∀ log o now, allowed (.purge o now) → ∀ p, ¬ (K log).keep p
  returned : ∀ log op r, (K (log ++ [.returned op r])).Le ((K log).after ext A op r)

/-! ## Every serial run -/

section Session

variable (ext : Externals) {T : TenantId} {allowed : StoreOp → Bool}
  {A : StoreStep → Store → Prop} {K : Ledger} {s : Store}

/-- Mapping the result of a call. -/
theorem Proc.Safe.map {α β : Type} {I : Store → Prop} {Q : Except MemdError β → Store → Prop}
    {p : StoreProg α} {f : α → β}
    (h : Safe A Keeps I (fun r s' => Q (r.map f) s') p s) : Safe A Keeps I Q (p.bind fun a => .ret (f a)) s := by
  refine Safe.bind h ?_ ?_
  · exact fun a s' _ hQ => Safe.ret fun _ => hQ
  · exact fun e s' _ hQ => hQ

/-- Every call keeps the ledger it starts with and establishes what its outcome promises. -/
theorem safe_prog (h : Inv T K [] s) (hlive : ∀ p, K.keep p → p.status ≠ .deleted) {op : StoreOp}
    (hfor : op.isFor T) (hdelete : ∀ c, op = .delete c → ∀ p, K.keep p → p.chunkId ≠ c)
    (hpurge : ∀ o now, op = .purge o now → ∀ p, ¬ K.keep p) :
    Safe A Keeps (Inv T K []) (fun r s' => Inv T (K.after ext A op r) [] s') (op.prog ext T) s := by
  cases op with
  | add chunks indexError now =>
    have hchunks : ∀ c ∈ chunks, c.tenantId = T := by
      intro c hc
      simpa using List.all_eq_true.mp hfor c hc
    refine Safe.map ((safe_addChunks ext h hlive hchunks indexError now).post ?_)
    rintro (e | out) s' _ h'
    · exact h'
    · exact h'
  | addTaskArtifact artifact projections indexError now =>
    have hartifact : artifact.tenantId = T := by simpa [StoreOp.isFor] using hfor
    refine Safe.map ((safe_addTaskArtifact ext h hlive hartifact projections indexError now).post ?_)
    rintro (e | ids) s' _ h'
    · exact h'
    · exact h'
  | delete c =>
    refine Safe.map ((safe_deleteChunk h (hdelete c rfl)).post ?_)
    rintro (e | found) s' _ h'
    · exact h'.weaken (K.le_burying _)
    · cases found with
      | false => exact h'.weaken (K.le_burying _)
      | true => exact h'.weaken ⟨fun _ hp => hp, fun d hd => hd.imp_right fun hd => ⟨rfl, hd⟩,
          fun _ he => he⟩
  | hardDelete ids =>
    have h' := h.hardDelete T ids
    refine Safe.map (Safe.perform fun _ _ => ⟨.hardDelete s T ids, h', fun _ => h'⟩)
  | rewrite =>
    refine Safe.map ((safe_rewriteFinalizedSegments h).post ?_)
    rintro (e | _) s' _ h'
    · exact h'
    · exact h'
  | purge o now =>
    refine Safe.map ((safe_runPurge h (hpurge o now rfl) o now).post ?_)
    rintro (e | report) s' _ h'
    · exact h'
    · exact h'
  | shutdown =>
    refine Safe.map ((safe_finalizeActiveSegmentIfAboveThreshold h.layout
      fun _ hs => h.segStep hs).post ?_)
    rintro r s' _ ⟨rfl, hs⟩
    exact h.segStep hs

/-- Every serial run keeps the invariant for the ledger its log keeps. -/
theorem serial_session {K : List StoreEvent → Ledger} (hK : Tracks ext A allowed K) :
    System.Serial (session ext T allowed) A Keeps (fun s log => Inv T (K log) [] s)
      (fun s log => CrashInv T (K log) s) where
  refl := .refl
  crashStep s := .of_eq rfl rfl
  admits ops op h := by
    simp only [session, Bool.and_eq_true, List.isEmpty_iff] at h
    exact h.1.1
  crash s log h := h.crash fun _ hr => hr
  crashed s log h := h.weaken (hK.crashed log)
  up s log h := h.crashInv (by simp)
  call s log op hadm h := by
    simp only [session, List.isEmpty_nil, Bool.true_and, Bool.and_eq_true] at hadm
    have h₁ := h.weaken (hK.called log op)
    refine ⟨h₁, ?_⟩
    refine (safe_prog (A := A) ext h₁ (hK.live _) hadm.1
      (by rintro c rfl; exact hK.delete log c)
      (by rintro o now rfl; exact hK.purge _ o now hadm.2)).post ?_
    intro r s' _ h'
    exact h'.weaken (hK.returned _ op r)
  boot s log cfg h := by
    refine (safe_openTenant ext h rfl).post ?_
    intro r s' _ h' hr
    exact (h' hr).weaken (hK.booted log)

end Session

/-! ## What the log of a run promises -/

/-- The payloads that calls of the log have stored. -/
def Stored (ext : Externals) (log : List StoreEvent) (p : MemoryChunk) : Prop :=
  (∃ chunks indexError now out,
    .returned (.add chunks indexError now) (.ok (.added out)) ∈ log ∧
      StoredAs ext (expandChunksForAdd ext chunks).1 out.storedIds p) ∨
  ∃ artifact projections indexError now ids,
    .returned (.addTaskArtifact artifact projections indexError now) (.ok (.projected ids)) ∈ log ∧
      ProjectedAs ext projections ids p

/-- The ledger of a log: what was stored, not as deleted, and never deleted is kept; what
a delete reported as found is gone. -/
def promised (ext : Externals) (log : List StoreEvent) : Ledger where
  keep p := Stored ext log p ∧ p.status ≠ .deleted ∧ .called (.delete p.chunkId) ∉ log
  gone c := .returned (.delete c) (.ok (.deleted true)) ∈ log
  erased _ := False

theorem Stored.of_append {ext : Externals} {log : List StoreEvent} {ev : StoreEvent}
    (hev : ∀ op r, ev ≠ .returned op (.ok r)) {p : MemoryChunk}
    (h : Stored ext (log ++ [ev]) p) : Stored ext log p := by
  have hmem : ∀ op r, Event.returned op (.ok r) ∈ log ++ [ev] → .returned op (.ok r) ∈ log := by
    intro op r hr
    rcases List.mem_append.mp hr with hr | hr
    · exact hr
    · exact absurd (List.mem_singleton.mp hr).symm (hev op r)
  rcases h with ⟨chunks, ie, now, out, hret, hp⟩ | ⟨artifact, projections, ie, now, ids, hret, hp⟩
  · exact .inl ⟨chunks, ie, now, out, hmem _ _ hret, hp⟩
  · exact .inr ⟨artifact, projections, ie, now, ids, hmem _ _ hret, hp⟩

/-- An event that is no successful return promises nothing new. -/
theorem promised_le_of_append {ext : Externals} {log : List StoreEvent} {ev : StoreEvent}
    (hev : ∀ op r, ev ≠ .returned op (.ok r)) :
    (promised ext (log ++ [ev])).Le (promised ext log) := by
  refine ⟨?_, ?_, fun _ h => absurd h id⟩
  · rintro p ⟨hp, hlive, hdel⟩
    exact ⟨hp.of_append hev, hlive, fun h => hdel (List.mem_append_left _ h)⟩
  · intro c hc
    rcases List.mem_append.mp hc with hc | hc
    · exact hc
    · exact absurd (List.mem_singleton.mp hc).symm (hev _ _)

/-- A successful return promises what the outcome of the call says. -/
theorem promised_le_after (ext : Externals) (A : StoreStep → Store → Prop)
    (log : List StoreEvent) (op : StoreOp) (r : Except MemdError StoreRes) :
    (promised ext (log ++ [.returned op r])).Le ((promised ext log).after ext A op r) := by
  have hle := (promised ext log).le_after ext A op r
  refine ⟨?_, ?_, fun _ h => absurd h id⟩
  · rintro p ⟨hp, hlive, hdel⟩
    have hdel' : Event.called (.delete p.chunkId) ∉ log := fun h => hdel (List.mem_append_left _ h)
    rcases hp with ⟨chunks, ie, now, out, hret, hp⟩ | ⟨artifact, projections, ie, now, ids, hret, hp⟩
    · rcases List.mem_append.mp hret with hret | hret
      · exact hle.keep p ⟨.inl ⟨chunks, ie, now, out, hret, hp⟩, hlive, hdel'⟩
      · obtain ⟨rfl, rfl⟩ : .add chunks ie now = op ∧ .ok (.added out) = r := by
          simpa using List.mem_singleton.mp hret
        exact .inr ⟨hp, hlive⟩
    · rcases List.mem_append.mp hret with hret | hret
      · exact hle.keep p ⟨.inr ⟨artifact, projections, ie, now, ids, hret, hp⟩, hlive, hdel'⟩
      · obtain ⟨rfl, rfl⟩ : .addTaskArtifact artifact projections ie now = op ∧
            .ok (.projected ids) = r := by
          simpa using List.mem_singleton.mp hret
        exact .inr ⟨hp, hlive⟩
  · intro c hc
    rcases List.mem_append.mp hc with hc | hc
    · exact hle.gone c hc
    · obtain ⟨rfl, rfl⟩ : .delete c = op ∧ .ok (.deleted true) = r := by
        simpa using List.mem_singleton.mp hc
      exact .inr rfl

theorem tracks_promised (ext : Externals) (A : StoreStep → Store → Prop)
    {allowed : StoreOp → Bool} (hpurge : ∀ o now, allowed (.purge o now) = false) :
    Tracks ext A allowed (promised ext) where
  live _ _ h := h.2.1
  called _ _ := promised_le_of_append (by simp)
  booted _ := promised_le_of_append (by simp)
  crashed _ := promised_le_of_append (by simp)
  delete log c p h hid := h.2.2 (by simp [hid])
  purge log o now h := absurd ((hpurge o now).symm.trans h) (by decide)
  returned log op r := promised_le_after ext A log op r

/-! ## Durability -/

/-- The calls of a run that purges nothing. -/
def StoreOp.notPurge : StoreOp → Bool
  | .purge _ _ => false
  | _ => true

/-- The empty store satisfies the invariant of any ledger that promises nothing. -/
theorem crashInv_empty (T : TenantId) {K : Ledger} (hkeep : ∀ p, ¬ K.keep p)
    (hgone : ∀ c, ¬ K.gone c) (herased : ∀ c, ¬ K.erased c) : CrashInv T K {} := by
  have hcopy : ∀ p, ¬ ({} : Store).Copy p := by
    rintro p (hp | ⟨d, hd, _⟩ | ⟨a, ha, _⟩)
    · exact absurd hp (by simp)
    · exact absurd hd (by simp)
    · exact absurd ha (by simp)
  exact {
    layout := ⟨Table.Keyed.nil _, by simp, by simp, by simp, rfl⟩
    keys := ⟨Table.Keyed.nil _, Table.Keyed.nil _⟩
    rowTenant := by simp
    rowIds := by simp
    copyTenant := fun p hp => absurd hp (hcopy p)
    copyIds := fun p hp => absurd hp (hcopy p)
    copyEq := fun p _ hp => absurd hp (hcopy p)
    located := by simp
    deleteIds := by simp
    activeLogged := by simp
    kept := fun p hp => absurd hp (hkeep p)
    buried := fun c hc => absurd hc (hgone c)
    erased := fun c hc => absurd hc (herased c) }

/-- **Acknowledged writes survive.**  In every serial run of one tenant, whenever the
store serves calls — after any crashes, also during recoveries, and reopenings —
`get_chunk` returns the stored payload of every chunk whose add (or task artifact write)
returned and that was never deleted, under its current status, and nothing for a chunk
whose delete returned `true`. -/
theorem acknowledged_writes_survive (ext : Externals) (T : TenantId)
    (c : Config StoreStep Store MemdError StoreOp StoreRes)
    (hrun : (session ext T StoreOp.notPurge).Reach (fun _ _ => True) (System.start {}) c)
    (hidle : c.mode = .up []) :
    (∀ p, Stored ext c.log p → p.status ≠ .deleted → .called (.delete p.chunkId) ∉ c.log →
      ∃ st, st ≠ .deleted ∧
        ((getChunk T p.chunkId).run c.store).1 = .ok (some { p with status := st })) ∧
    ∀ id, .returned (.delete id) (.ok (.deleted true)) ∈ c.log →
      ((getChunk T id).run c.store).1 = .ok none := by
  have htracks : Tracks ext (fun _ _ => True) StoreOp.notPurge (promised ext) :=
    tracks_promised ext _ fun _ _ => rfl
  have hserial := serial_session (T := T) ext htracks
  have hstart : CrashInv T (promised ext []) {} := by
    apply crashInv_empty T
    · rintro p ⟨⟨_, _, _, _, h, _⟩ | ⟨_, _, _, _, _, h, _⟩, _⟩ <;> exact absurd h (by simp)
    · exact fun c h => List.not_mem_nil h
    · exact fun c h => h
  obtain ⟨s, mode, log⟩ := c
  obtain rfl : mode = .up [] := hidle
  have hinv : Inv T (promised ext log) [] s :=
    System.reach_serial hserial (show System.SerialInv _ _ _ _ (System.start {}) from hstart) hrun
  constructor
  · intro p hp hlive hdel
    exact hinv.getChunk_kept ⟨hp, hlive, hdel⟩
  · intro id hid
    exact hinv.getChunk_gone hid

/-- A run with a crash in the middle of the third call: two chunks are added, one of them
is deleted, the store crashes while it adds a third one and is reopened. -/
def sampleRun (allowed : StoreOp → Bool) : Config StoreStep Store MemdError StoreOp StoreRes :=
  (session sampleExternals "t" allowed).script (fun _ _ => true)
    [(.boot ⟨1, 2, 0, []⟩, 99), (.call (.add [sampleChunk "a"] none 0), 99),
     (.call (.add [sampleChunk "b"] none 0), 99), (.call (.delete 0), 99),
     (.call (.add [sampleChunk "a"] none 0), 4), (.crash, 0), (.boot ⟨1, 2, 0, []⟩, 99)]
    (System.start {})

theorem acknowledged_writes_survive_sampleRun :
    (∃ st, st ≠ .deleted ∧ ((getChunk "t" 1).run (sampleRun StoreOp.notPurge).store).1 =
      .ok (some { stamp sampleExternals (sampleChunk "b") 1 with status := st })) ∧
    ((getChunk "t" 0).run (sampleRun StoreOp.notPurge).store).1 = .ok none := by
  have hrun : (session sampleExternals "t" StoreOp.notPurge).Reach (fun _ _ => True)
      (System.start {}) (sampleRun _) := System.Reach.script (fun _ _ _ => trivial) _ .refl
  have hidle : (sampleRun StoreOp.notPurge).mode = .up [] :=
    System.mode_eq_of_isIdle (by decide)
  obtain ⟨hkept, hgone⟩ := acknowledged_writes_survive sampleExternals "t" _ hrun hidle
  refine ⟨hkept (stamp sampleExternals (sampleChunk "b") 1) (.inl ?_) (by decide)
    (by decide), hgone 0 (by decide)⟩
  exact ⟨[sampleChunk "b"], none, 0, ⟨[1], [1]⟩, by decide, 0, sampleChunk "b", 1,
    by decide, rfl, rfl⟩

/-! ## Locations -/

/-- The records that wait to be replayed: none while the store serves calls. -/
def unreplayed (c : Config StoreStep Store MemdError StoreOp StoreRes) : List LogRecord :=
  match c.mode with
  | .up _ => []
  | _ => c.store.recordsForRecovery

/-- A ledger without promises is kept by every run. -/
def Store.Ledger.empty : Ledger where
  keep _ := False
  gone _ := False
  erased _ := False

theorem tracks_empty (ext : Externals) (A : StoreStep → Store → Prop) (allowed : StoreOp → Bool) :
    Tracks ext A allowed fun _ => Ledger.empty where
  live _ _ h := h.elim
  called _ _ := .refl _
  booted _ := .refl _
  crashed _ := .refl _
  delete _ _ _ h := h.elim
  purge _ _ _ _ _ h := h
  returned _ op r := Ledger.empty.le_after ext A op r

/-- **Rows point at their own payload.**  In every state of a serial run — whatever calls
were made, in the middle of a call, after a crash, in the middle of a recovery — every row
that is not deleted has a location no other row has, the location yields the payload of
the row's own chunk (from a finalized segment, from the active one or, while the store is
down, from the log), every copy of that chunk is this payload, and while the store serves
calls `get_chunk` returns it; and no step drops a row that is not deleted. -/
theorem rows_point_at_own_payload (ext : Externals) (T : TenantId)
    (c : Config StoreStep Store MemdError StoreOp StoreRes)
    (hrun : (session ext T fun _ => true).Reach (fun _ _ => True) (System.start {}) c) :
    (∀ r ∈ c.store.db.chunks, r.status ≠ .deleted →
      (∀ r' ∈ c.store.db.chunks, r'.tenantId = r.tenantId → r'.segmentId = r.segmentId →
        r'.ordinal = r.ordinal → r' = r) ∧
      ∃ p, p.chunkId = r.chunkId ∧ Located (unreplayed c) c.store p r.segmentId r.ordinal ∧
        (∀ q, c.store.Copy q → q.chunkId = r.chunkId → q = p) ∧
        ∀ pool, c.mode = .up pool →
          ((getChunk T r.chunkId).run c.store).1 = .ok (some { p with status := r.status })) ∧
    ∀ ch c', (session ext T fun _ => true).step c ch = some c' →
      ∀ r ∈ c.store.db.chunks, r.status ≠ .deleted →
        ∃ r' ∈ c'.store.db.chunks, r'.chunkId = r.chunkId := by
  have hserial := serial_session (T := T) ext (tracks_empty ext (fun _ _ => True) fun _ => true)
  have hstart : System.SerialInv (fun _ _ => True) Keeps (fun s _ => Inv T Ledger.empty [] s)
      (fun s _ => CrashInv T Ledger.empty s)
      (System.start {} : Config StoreStep Store MemdError StoreOp StoreRes) :=
    crashInv_empty T (fun _ h => h) (fun _ h => h) fun _ h => h
  have hinv := System.reach_serial hserial hstart hrun
  have hloc : Inv T Ledger.empty (unreplayed c) c.store := by
    unfold unreplayed
    split
    · rename_i pool hup
      exact hinv.up hup
    · exact hinv.crashInv hserial
  constructor
  · intro r hr hlive
    constructor
    · intro r' hr' ht hs ho
      exact hloc.keys.locations.eq hr' hr (by rw [ht, hs, ho])
    obtain ⟨p, hp, hat⟩ := hloc.located r hr hlive
    have hcopies : ∀ q, c.store.Copy q → q.chunkId = r.chunkId → q = p := fun q hq hid =>
      hloc.copyEq q p hq hat.copy (hid.trans hp.symm)
    refine ⟨p, hp, hat, hcopies, ?_⟩
    intro pool hup
    obtain ⟨q, hq, hcopy, hget⟩ := Store.Inv.getChunk_located (hinv.up hup) hr hlive
    rw [hget, hcopies q hcopy hq]
  · intro ch c' hstep
    exact (System.step_serial hserial hstart hrun (fun _ _ => trivial) hstep).rows

theorem rows_point_at_own_payload_sampleRun :
    let c := sampleRun fun _ => true
    (∃ r ∈ c.store.db.chunks, r.chunkId = 1 ∧ r.status ≠ .deleted) ∧
    ∀ r ∈ c.store.db.chunks, r.status ≠ .deleted →
      ∃ p, p.chunkId = r.chunkId ∧ Located (unreplayed c) c.store p r.segmentId r.ordinal := by
  intro c
  have hrun : (session sampleExternals "t" fun _ => true).Reach (fun _ _ => True)
      (System.start {}) c := System.Reach.script (fun _ _ _ => trivial) _ .refl
  refine ⟨by decide, ?_⟩
  intro r hr hlive
  obtain ⟨p, hp, hloc, _⟩ := ((rows_point_at_own_payload sampleExternals "t" c hrun).1
    r hr hlive).2
  exact ⟨p, hp, hloc⟩
