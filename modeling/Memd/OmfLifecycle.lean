/-
# Imports and the lifecycle of the rows

What an import does to the supersession graph and to the statuses.  The old rows are left
alone and the edges connect new rows only, so the graph behind an import is the old one
beside the one of the document.  The document is not checked for cycles, an item may ask for
the status `deleted` and be superseded all the same, and a status is not logged: each of them
breaks the lifecycle, the last one unless a checkpoint follows or the log is refused anyway.

* `Successor`, `NoCycle`, `LinksAgree`, `OneSuccessor` — the graph of a table;
* `Orderly` — what an import needs of the store it starts on;
* `LoopRun.settled`, `LoopRun.reviving` — when rows and log agree behind the items, and when not;
* `import_keeps_lifecycle` — which documents keep the lifecycle in order.
-/
import Mathlib.Logic.Relation
import Memd.OmfRecords

open Proc PersistentStore Store

/-! ## Two graphs beside each other -/

/-- A path through two graphs without a common vertex stays in one of them. -/
theorem transGen_beside {α : Type} {P : α → Prop} {R E S : α → α → Prop}
    (hS : ∀ a b, S a b ↔ R a b ∨ E a b) (hR : ∀ a b, R a b → P a ∧ P b)
    (hE : ∀ a b, E a b → ¬ P a ∧ ¬ P b) {a b : α} :
    Relation.TransGen S a b ↔ Relation.TransGen R a b ∨ Relation.TransGen E a b := by
  constructor
  · intro h
    have hend : ∀ {c : α}, Relation.TransGen R a c → P c := by
      intro c hc
      cases hc with
      | single h => exact (hR _ _ h).2
      | tail _ h => exact (hR _ _ h).2
    have hend' : ∀ {c : α}, Relation.TransGen E a c → ¬ P c := by
      intro c hc
      cases hc with
      | single h => exact (hE _ _ h).2
      | tail _ h => exact (hE _ _ h).2
    induction h with
    | single h => exact ((hS _ _).mp h).imp .single .single
    | tail _ h ih =>
      rcases ih with ih | ih <;> rcases (hS _ _).mp h with h | h
      · exact .inl (ih.tail h)
      · exact absurd (hend ih) (hE _ _ h).1
      · exact absurd (hR _ _ h).1 (hend' ih)
      · exact .inr (ih.tail h)
  · rintro (h | h)
    · exact Relation.TransGen.mono (fun a b hab => (hS a b).mpr (.inl hab)) _ _ h
    · exact Relation.TransGen.mono (fun a b hab => (hS a b).mpr (.inr hab)) _ _ h

/-! ## The graph of a table -/

/-- The chunk `b` has superseded the chunk `a`. -/
def Successor (ms : List ChunkMetadata) (a b : ChunkId) : Prop :=
  ∃ m ∈ ms, m.chunkId = a ∧ m.lifecycle.supersededBy = some b

/-- The graph of successors is acyclic. -/
def NoCycle (ms : List ChunkMetadata) : Prop :=
  ∀ a, ¬ Relation.TransGen (Successor ms) a a

/-- Between rows that are not deleted, the two directions of an edge agree. -/
def LinksAgree (ms : List ChunkMetadata) : Prop :=
  ∀ m ∈ ms, ∀ n ∈ ms, m.status ≠ .deleted → n.status ≠ .deleted →
    (m.lifecycle.supersededBy = some n.chunkId ↔ n.lifecycle.supersedes = some m.chunkId)

/-- No two rows supersede the same one. -/
def OneSuccessor (ms : List ChunkMetadata) : Prop :=
  ∀ m ∈ ms, ∀ n ∈ ms, ∀ n' ∈ ms, m.status ≠ .deleted → n.status ≠ .deleted → n'.status ≠ .deleted →
    n.lifecycle.supersedes = some m.chunkId → n'.lifecycle.supersedes = some m.chunkId →
    n.chunkId = n'.chunkId

theorem LinksAgree.oneSuccessor {ms : List ChunkMetadata} (h : LinksAgree ms) : OneSuccessor ms := by
  intro m hm n hn n' hn' hlive hlive₁ hlive₂ h₁ h₂
  have h₁' := (h m hm n hn hlive hlive₁).mpr h₁
  have h₂' := (h m hm n' hn' hlive hlive₂).mpr h₂
  exact Option.some.inj (h₁'.symm.trans h₂')

section Beside

variable {t : TenantId} {now : ℤ} {n : ChunkId} {old new : List ChunkMetadata}
  {edges : List (ChunkId × ChunkId)}

/-- Rows with ids and links below `n`, and new rows from `n` on that `edges` connects. -/
structure Beside (t : TenantId) (n : ChunkId) (old new : List ChunkMetadata)
    (edges : List (ChunkId × ChunkId)) : Prop where
  oldIds : ∀ m ∈ old, m.chunkId < n
  oldLinks : ∀ m ∈ old, ∀ c, (m.lifecycle.supersededBy = some c ∨ m.lifecycle.supersedes = some c) →
    c < n
  newRows : ∀ m ∈ new, m.tenantId = t ∧ n ≤ m.chunkId ∧ m.lifecycle.supersedes = none ∧
    m.lifecycle.supersededBy = none
  ends : ∀ e ∈ edges, n ≤ e.1 ∧ n ≤ e.2
  hasRow : ∀ e ∈ edges, ∃ m ∈ new, m.chunkId = e.1
  oldEnds : (edges.map (·.1)).Nodup
  newEnds : (edges.map (·.2)).Nodup

/-- The edges do not reach the old rows. -/
theorem Beside.old_untouched (h : Beside t n old new edges) {m : ChunkMetadata} (hm : m ∈ old) :
    linkAll t now edges m = m := by
  refine linkAll_untouched (fun e he => ?_) fun e he => ?_
  · exact Nat.ne_of_lt (Nat.lt_of_lt_of_le (h.oldIds m hm) (h.ends e he).1)
  · exact Nat.ne_of_lt (Nat.lt_of_lt_of_le (h.oldIds m hm) (h.ends e he).2)

theorem Beside.mem (h : Beside t n old new edges) {m : ChunkMetadata}
    (hm : m ∈ linkRows t now edges (old ++ new)) :
    m ∈ old ∨ ∃ r ∈ new, m = linkAll t now edges r := by
  rw [linkRows_eq] at hm
  obtain ⟨r, hr, rfl⟩ := List.mem_map.mp hm
  rcases List.mem_append.mp hr with hr | hr
  · rw [h.old_untouched hr]
    exact .inl hr
  · exact .inr ⟨r, hr, rfl⟩

/-- The graph of the old rows beside the edges. -/
theorem Beside.successor (h : Beside t n old new edges) {a b : ChunkId} :
    Successor (linkRows t now edges (old ++ new)) a b ↔ Successor old a b ∨ (a, b) ∈ edges := by
  constructor
  · rintro ⟨m, hm, rfl, hsup⟩
    rcases h.mem hm with hm | ⟨r, hr, rfl⟩
    · exact .inl ⟨m, hm, rfl, hsup⟩
    · obtain ⟨ht, _, _, hnone⟩ := h.newRows r hr
      rw [linkAll_supersededBy ht hnone h.oldEnds] at hsup
      rw [(linkAll_frame t now edges r).1]
      exact .inr hsup
  · rw [linkRows_eq]
    rintro (⟨m, hm, rfl, hsup⟩ | hedge)
    · refine ⟨_, List.mem_map_of_mem (List.mem_append_left _ hm), ?_⟩
      rw [h.old_untouched hm]
      exact ⟨rfl, hsup⟩
    · obtain ⟨r, hr, hid⟩ := h.hasRow _ hedge
      obtain ⟨ht, _, _, hnone⟩ := h.newRows r hr
      refine ⟨_, List.mem_map_of_mem (List.mem_append_right _ hr),
        (linkAll_frame t now edges r).1.trans hid, ?_⟩
      rw [linkAll_supersededBy ht hnone h.oldEnds, hid]
      exact hedge

/-- A new cycle is one of the edges. -/
theorem Beside.noCycle (h : Beside t n old new edges) (hold : NoCycle old) :
    NoCycle (linkRows t now edges (old ++ new)) ↔
      ∀ a, ¬ Relation.TransGen (fun a b => (a, b) ∈ edges) a a := by
  have hsplit : ∀ a, Relation.TransGen (Successor (linkRows t now edges (old ++ new))) a a ↔
      Relation.TransGen (Successor old) a a ∨
        Relation.TransGen (fun a b => (a, b) ∈ edges) a a := by
    intro a
    refine transGen_beside (P := (· < n)) (fun _ _ => h.successor) ?_ ?_
    · rintro _ b ⟨m, hm, rfl, hsup⟩
      exact ⟨h.oldIds m hm, h.oldLinks m hm b (.inl hsup)⟩
    · intro a b hedge
      exact ⟨Nat.not_lt.mpr (h.ends _ hedge).1, Nat.not_lt.mpr (h.ends _ hedge).2⟩
  constructor
  · intro hnew a hcycle
    exact hnew a ((hsplit a).mpr (.inr hcycle))
  · intro hedges a hcycle
    rcases (hsplit a).mp hcycle with hc | hc
    · exact hold a hc
    · exact hedges a hc

/-- The edges agree in both directions. -/
theorem Beside.linksAgree (h : Beside t n old new edges) (hold : LinksAgree old) :
    LinksAgree (linkRows t now edges (old ++ new)) := by
  -- the links of a new row are edges, and edges lie above `n`
  have hby : ∀ r ∈ new, ∀ c, (linkAll t now edges r).lifecycle.supersededBy = some c ↔
      (r.chunkId, c) ∈ edges := by
    intro r hr c
    obtain ⟨ht, _, _, hnone⟩ := h.newRows r hr
    exact linkAll_supersededBy ht hnone h.oldEnds
  have hsup : ∀ r ∈ new, ∀ c, (linkAll t now edges r).lifecycle.supersedes = some c ↔
      (c, r.chunkId) ∈ edges := by
    intro r hr c
    obtain ⟨ht, _, hnone, _⟩ := h.newRows r hr
    exact linkAll_supersedes ht hnone h.newEnds
  have hid : ∀ r, (linkAll t now edges r).chunkId = r.chunkId :=
    fun r => (linkAll_frame t now edges r).1
  intro m hm k hk hlive hlive'
  rcases h.mem hm with hm | ⟨r, hr, rfl⟩ <;> rcases h.mem hk with hk | ⟨q, hq, rfl⟩
  · exact hold m hm k hk hlive hlive'
  · rw [hid, hsup q hq]
    constructor
    · intro hlink
      exact absurd (h.oldLinks m hm _ (.inl hlink)) (Nat.not_lt.mpr (h.newRows q hq).2.1)
    · intro hedge
      exact absurd (h.oldIds m hm) (Nat.not_lt.mpr (h.ends _ hedge).1)
  · rw [hid, hby r hr]
    constructor
    · intro hedge
      exact absurd (h.oldIds k hk) (Nat.not_lt.mpr (h.ends _ hedge).2)
    · intro hlink
      exact absurd (h.oldLinks k hk _ (.inr hlink)) (Nat.not_lt.mpr (h.newRows r hr).2.1)
  · rw [hid, hid, hby r hr, hsup q hq]

end Beside

/-! ## The references of a document -/

section References

variable {x : OmfExternals} {trusted : Bool} {plan : List PlannedItem}

/-- A cycle of edges is a cycle of references. -/
theorem transGen_planEdges (hsources : (plan.filterMap fun p => sourceRef x trusted p.item.1).Nodup)
    (hfirst : (plan.map (·.first)).Nodup) :
    (∀ a, ¬ Relation.TransGen (fun a b => (a, b) ∈ planEdges x trusted plan) a a) ↔
      ∀ p, ¬ Relation.TransGen (Refers x trusted plan) p p := by
  have hpath : ∀ {a b : ChunkId},
      Relation.TransGen (fun a b => (a, b) ∈ planEdges x trusted plan) a b →
      ∃ p q, Relation.TransGen (Refers x trusted plan) p q ∧ p ∈ plan ∧ q ∈ plan ∧
        p.first = a ∧ q.first = b := by
    intro a b h
    induction h with
    | single h =>
      obtain ⟨p, q, hpq, hp, hq⟩ := (mem_planEdges hsources).mp h
      exact ⟨p, q, .single hpq, hpq.1, hpq.2.1, hp, hq⟩
    | tail _ h ih =>
      obtain ⟨p, q, hpath, hp, hq, hpa, hqb⟩ := ih
      obtain ⟨q', r, hqr, hq', hr⟩ := (mem_planEdges hsources).mp h
      obtain rfl : q = q' := List.inj_on_of_nodup_map hfirst hq hqr.1 (hqb.trans hq'.symm)
      exact ⟨p, r, hpath.tail hqr, hp, hqr.2.1, hpa, hr⟩
  constructor
  · intro h p hcycle
    refine h p.first (Relation.TransGen.lift (·.first) ?_ _ _ hcycle)
    intro p q hpq
    exact (mem_planEdges hsources).mpr ⟨p, q, hpq, rfl, rfl⟩
  · intro h a hcycle
    obtain ⟨p, q, hpath', hp, hq, hpa, hqa⟩ := hpath hcycle
    obtain rfl : p = q := List.inj_on_of_nodup_map hfirst hp hq (hpa.trans hqa.symm)
    exact h p hpath'

end References

/-! ## Stores an import can start on -/

/-- Rows and log agree, and ids from the next one on occur nowhere. -/
structure Orderly (t : TenantId) (s : Store) : Prop extends Settled t s where
  rowIds : ∀ m ∈ s.db.metadata, m.chunkId < s.nextId
  linkIds : ∀ m ∈ s.db.metadata, ∀ c,
    (m.lifecycle.supersededBy = some c ∨ m.lifecycle.supersedes = some c) → c < s.nextId
  deleteIds : ∀ c, .delete c ∈ s.recordsForRecovery → c < s.nextId

section Orderly

variable {t : TenantId} {s s' : Store}

theorem Orderly.roomy (h : Orderly t s) : Roomy t s :=
  fun m hm => ⟨h.rowIds m hm, fun ht => (h.spent m hm ht).used⟩

theorem Orderly.inPlace (h : Orderly t s) : InPlace t s :=
  ⟨h.ids, h.spent, h.active, h.rowIds⟩

/-- A chunk that the log adds has a row. -/
theorem Orderly.added (h : Orderly t s) {q : MemoryChunk} (hq : .add q ∈ s.recordsForRecovery) :
    q.tenantId = t ∧ q.chunkId < s.nextId := by
  obtain ⟨pre, post, hsplit⟩ := List.append_of_mem hq
  obtain ⟨ht, st, hst, _⟩ := h.log.adds pre q post hsplit
  obtain ⟨m, hm, hid, _⟩ := Db.mem_of_statusOf hst
  exact ⟨ht, hid ▸ h.rowIds m hm⟩

/-- No statuses are lost behind a marker. -/
theorem logAgrees_nil (t : TenantId) (ref : ChunkId → Option ChunkStatus) : LogAgrees t ref [] :=
  ⟨fun pre p post h => absurd h (by simp), fun c h => absurd h (by simp),
    fun p h => absurd h (by simp)⟩

/-- The log may be extended by adds of chunks that are not deleted. -/
theorem LogAgrees.append {ref ref' : ChunkId → Option ChunkStatus} {records : List LogRecord}
    (h : LogAgrees t ref records) {chunks : List MemoryChunk}
    (hkeep : ∀ c st, ref c = some st → ref' c = some st)
    (hdel : ∀ c, .delete c ∈ records → ∀ st, ref' c = some st → ref c = some st)
    (hnew : ∀ p ∈ chunks, p.tenantId = t ∧ ∃ st, ref' p.chunkId = some st ∧ st ≠ .deleted) :
    LogAgrees t ref' (records ++ chunks.map .add) where
  adds pre p post hsplit := by
    have hfresh : LogRecord.add p ∈ chunks.map .add → p.tenantId = t ∧
        ∃ st, ref' p.chunkId = some st ∧ (st ≠ .deleted ∨ .delete p.chunkId ∈ post) := by
      intro hmem
      obtain ⟨q, hq, heq⟩ := List.mem_map.mp hmem
      obtain ⟨ht, st, href, hst⟩ := hnew p (LogRecord.add.inj heq ▸ hq)
      exact ⟨ht, st, href, .inl hst⟩
    rcases List.append_eq_append_iff.mp hsplit with ⟨mid, rfl, hmid⟩ | ⟨mid, hmid, hrest⟩
    · exact hfresh (by simp [hmid])
    · cases mid with
      | nil =>
        rw [List.nil_append] at hrest
        exact hfresh (hrest ▸ List.mem_cons_self)
      | cons r mid =>
        obtain ⟨rfl, rfl⟩ := List.cons.inj hrest
        obtain ⟨ht, st, href, hst⟩ := h.adds pre p mid hmid
        exact ⟨ht, st, hkeep _ _ href, hst.imp_right (List.mem_append_left _)⟩
  deletes c hc st href := by
    have hc' : .delete c ∈ records := by simpa using hc
    exact h.deletes c hc' st (hdel c hc' st href)
  digests p hp := h.digests p (by simpa using hp)

end Orderly

/-! ## Imports -/

section Import

variable {x : OmfExternals} {t : TenantId} {opts : ImportOptions} {trusted : Bool} {env : ImportEnv}
  {s s' : Store} {st st' : ImportState}

/-- **Rows and log agree behind the items** if none of those that no checkpoint follows asks for the
status `deleted`. -/
theorem LoopRun.settled {items : List (OmfItem × ℕ)}
    (h : LoopRun x t opts trusted env items st s st' s') (ho : Orderly t s)
    (hlive : ∀ p ∈ unmarked s.handle.config.walCheckpointInterval s.handle.writesSinceCheckpoint
      (importPlan x t opts trusted env s.db.dedupRows s.nextId items),
      requestedStatus trusted p.item.1 ≠ some .deleted) : Settled t s' := by
  have hplaced := h.placed ho.inPlace
  obtain ⟨css, hcss, hrecords⟩ := h.logged ho.roomy
  obtain ⟨⟨rss, hrss, hmeta⟩, _⟩ := h.planned ho.roomy
  -- what is left of the old log
  obtain ⟨old, hsub, hagrees, hrecords⟩ : ∃ old, (∀ r ∈ old, r ∈ s.recordsForRecovery) ∧
      LogAgrees t s.db.statusOf old ∧ s'.recordsForRecovery = old ++ css.flatten.map .add := by
    refine ⟨_, ?_, ?_, hrecords⟩ <;> split
    · exact fun r hr => hr
    · exact fun r hr => absurd hr (by simp)
    · exact ho.log
    · exact logAgrees_nil t _
  have hfirst : ∀ {m : ChunkMetadata}, m ∈ rss.flatten → s.nextId ≤ m.chunkId ∧ m.tenantId = t := by
    intro m hm
    obtain ⟨p, hp, rows, hrows, hm⟩ := mem_flatten_of_planned hrss hm
    have hid : m.chunkId ∈ List.range' p.first p.pieces := hrows.ids ▸ List.mem_map_of_mem hm
    exact ⟨Nat.le_trans (mem_importPlan hp).1 (List.mem_range'_1.mp hid).1, (hrows.row hm).1⟩
  have hnew : ∀ q ∈ css.flatten, s.nextId ≤ q.chunkId ∧ q.tenantId = t ∧
      ∃ st, s'.db.statusOf q.chunkId = some st ∧ st ≠ .deleted := by
    intro q hq
    obtain ⟨p, hp, hid, ht, _⟩ := mem_flatten_of_logged hcss hq
    have hplan := (unmarked_suffix _ _ _).subset hp
    obtain ⟨rows, hrows, m, hm, hmid, hmem⟩ := exists_row_of_planned hrss hplan hid
    refine ⟨Nat.le_trans (mem_importPlan hplan).1 (List.mem_range'_1.mp hid).1, ht, m.status, ?_, ?_⟩
    · rw [← hmid]
      exact Db.statusOf_of_mem hplaced.ids (hmeta ▸ List.mem_append_right _ hmem)
    · rw [(hrows.row hm).2.2.2]
      exact getD_ne_deleted (hlive p hp)
  refine ⟨hplaced.ids, ?_, ?_, hplaced.spent, hplaced.active⟩
  · rw [hrecords]
    refine hagrees.append ?_ ?_ fun q hq => (hnew q hq).2
    · intro c st hc
      obtain ⟨m, hm, rfl, rfl⟩ := Db.mem_of_statusOf hc
      exact Db.statusOf_of_mem hplaced.ids (hmeta ▸ List.mem_append_left _ hm)
    · intro c hdel st hc
      obtain ⟨m, hm, rfl, rfl⟩ := Db.mem_of_statusOf hc
      rw [hmeta] at hm
      rcases List.mem_append.mp hm with hm | hm
      · exact Db.statusOf_of_mem ho.ids hm
      · exact absurd (ho.deleteIds _ (hsub _ hdel)) (Nat.not_lt.mpr (hfirst hm).1)
  · intro q hq m hm hid
    rw [hmeta] at hm
    rcases List.mem_append.mp hm with hm | hm
    · rw [hrecords] at hq
      rcases List.mem_append.mp hq with hq | hq
      · exact ho.tenants q (hsub _ hq) m hm hid
      · -- an old row does not have the id of a new chunk
        obtain ⟨q', hq', heq⟩ := List.mem_map.mp hq
        obtain rfl := LogRecord.add.inj heq
        exact absurd (ho.rowIds m hm) (Nat.not_lt.mpr (hid ▸ (hnew _ hq').1))
    · exact (hfirst hm).2

theorem artifactsOf_adds (chunks : List MemoryChunk) : artifactsOf (chunks.map .add) = [] := by
  rw [artifactsOf, List.filterMap_eq_nil_iff]
  intro r hr
  obtain ⟨q, _, rfl⟩ := List.mem_map.mp hr
  rfl

/-- **The log adds an item that no checkpoint follows again**, behind links or not, unless the old
artifacts stop its replay. -/
theorem LoopRun.reviving {items : List (OmfItem × ℕ)} {s₁ : Store}
    (h : LoopRun x t opts trusted env items st s st' s₁) (hf : NoFault s) (ho : Orderly t s)
    (hs' : s' = { s₁ with db := s'.db }) (hplaced : InPlace t s')
    (hguards : s'.db.guards = s.db.guards)
    (haccepts : checkpointFree s.handle.config.walCheckpointInterval s.handle.writesSinceCheckpoint
      (importPlan x t opts trusted env s.db.dedupRows s.nextId items) = true → s.replayable = true)
    {p : PlannedItem}
    (hp : p ∈ unmarked s.handle.config.walCheckpointInterval s.handle.writesSinceCheckpoint
      (importPlan x t opts trusted env s.db.dedupRows s.nextId items)) :
    Reviving t p.first s'.recordsForRecovery s' := by
  obtain ⟨css, hcss, hrecords⟩ := h.logged ho.roomy
  obtain ⟨hfirst, hpieces⟩ := mem_importPlan ((unmarked_suffix _ _ _).subset hp)
  have hold : ∀ {c : ChunkId}, c < s.nextId → c ≠ p.first :=
    fun hc => Nat.ne_of_lt (Nat.lt_of_lt_of_le hc hfirst)
  -- what is left of the old log
  obtain ⟨old, hsub, haccept, hrecords⟩ : ∃ old, (∀ r ∈ old, r ∈ s.recordsForRecovery) ∧
      s.db.guards.acceptsAll (artifactsOf old) = true ∧
      s₁.recordsForRecovery = old ++ css.flatten.map .add := by
    refine ⟨_, ?_, ?_, hrecords⟩ <;> split
    · exact fun r hr => hr
    · exact fun r hr => absurd hr (by simp)
    · rename_i hfree
      exact haccepts hfree
    · rfl
  have hrec : s'.recordsForRecovery = old ++ css.flatten.map .add := by
    rw [hs']
    exact hrecords
  rw [hrec]
  exact
    { fails := by
        rw [hs']
        exact (congrArg (fun c : StoreConfig => c.finalizeFails) h.config).trans hf
      accepted := by
        rw [artifactsOf_append, artifactsOf_adds, List.append_nil, hguards]
        exact haccept
      ids := hplaced.ids
      spent := hplaced.spent
      active := hplaced.active
      adds := by
        intro q hq
        rcases List.mem_append.mp hq with hq | hq
        · obtain ⟨ht, hlt⟩ := ho.added (hsub _ hq)
          exact ⟨ht, fun hid => absurd hid (hold hlt)⟩
        · obtain ⟨q', hq', heq⟩ := List.mem_map.mp hq
          obtain rfl := LogRecord.add.inj heq
          obtain ⟨_, _, _, ht, hfinal⟩ := mem_flatten_of_logged hcss hq'
          exact ⟨ht, fun _ => by rw [hfinal]; decide⟩
      deletes := by
        intro hdel
        have hdel' : .delete p.first ∈ old := by simpa using hdel
        exact hold (ho.deleteIds _ (hsub _ hdel')) rfl
      digests := by
        intro q hq
        have hq' : .taskArtifact q ∈ old := by simpa using hq
        exact ho.log.digests q (hsub _ hq')
      back := by
        have hid : p.first ∈ List.range' p.first p.pieces :=
          List.mem_range'_1.mpr ⟨Nat.le_refl _, Nat.lt_add_of_pos_right hpieces⟩
        obtain ⟨q, hq, hqid⟩ := exists_logged hcss hp hid
        exact .inl ⟨q, List.mem_append_right _ (List.mem_map_of_mem hq), hqid⟩ }

/-- A link makes no row deleted, and none that is deleted something else, unless a deleted
row is an old end. -/
theorem linkAll_deleted {now : ℤ} {edges : List (ChunkId × ChunkId)} {m : ChunkMetadata}
    (h : ∀ e ∈ edges, m.chunkId = e.1 → m.status ≠ .deleted) :
    (linkAll t now edges m).status = .deleted ↔ m.status = .deleted := by
  induction edges generalizing m with
  | nil => exact Iff.rfl
  | cons e edges ih =>
    have hrow : (linkRow t now e m).status = .deleted ↔ m.status = .deleted := by
      by_cases hid : m.chunkId = e.1
      · have hlive := h e List.mem_cons_self hid
        unfold linkRow
        dsimp only
        split_ifs <;> simp [hlive]
      · rw [linkRow_status hid]
    refine (ih (m := linkRow t now e m) fun e' he' hid => ?_).trans hrow
    rw [(linkRow_frame t now e m).1] at hid
    exact fun hdel => h e' (List.mem_cons_of_mem e he') hid (hrow.mp hdel)

/-- Statuses that agree on what is deleted agree with the same logs. -/
theorem LogAgrees.congr {ref ref' : ChunkId → Option ChunkStatus} {records : List LogRecord}
    (h : LogAgrees t ref records)
    (hfwd : ∀ c st, ref c = some st → ∃ st', ref' c = some st' ∧ (st' = .deleted ↔ st = .deleted))
    (hbwd : ∀ c st', ref' c = some st' → ∃ st, ref c = some st ∧ (st' = .deleted ↔ st = .deleted)) :
    LogAgrees t ref' records where
  adds pre p post hsplit := by
    obtain ⟨ht, st, href, hst⟩ := h.adds pre p post hsplit
    obtain ⟨st', href', hiff⟩ := hfwd _ _ href
    exact ⟨ht, st', href', hst.imp_left fun hne hdel => hne (hiff.mp hdel)⟩
  deletes c hc st' href' := by
    obtain ⟨st, href, hiff⟩ := hbwd c st' href'
    exact hiff.mpr (h.deletes c hc st href)
  digests := h.digests

theorem Settled.linked (h : Settled t s) {now : ℤ} {edges : List (ChunkId × ChunkId)} {db' : Db}
    (hrows : db'.metadata = linkRows t now edges s.db.metadata)
    (hlive : ∀ m ∈ s.db.metadata, ∀ e ∈ edges, m.chunkId = e.1 → m.status ≠ .deleted) :
    Settled t { s with db := db' } := by
  rw [linkRows_eq] at hrows
  have hframe := linkAll_frame t now edges
  have hids : (db'.metadata.map (·.chunkId)).Nodup := by
    rw [hrows, List.map_map]
    refine (List.map_congr_left fun m _ => ?_) ▸ h.ids
    exact (hframe m).1.symm
  refine ⟨hids, h.log.congr ?_ ?_, ?_, ?_, h.active⟩
  · intro c st hc
    obtain ⟨m, hm, rfl, rfl⟩ := Db.mem_of_statusOf hc
    have hm' : linkAll t now edges m ∈ db'.metadata := hrows ▸ List.mem_map_of_mem hm
    refine ⟨(linkAll t now edges m).status, ?_, linkAll_deleted (hlive m hm)⟩
    rw [← (hframe m).1]
    exact Db.statusOf_of_mem hids hm'
  · intro c st' hc
    obtain ⟨m', hm', rfl, rfl⟩ := Db.mem_of_statusOf hc
    rw [hrows] at hm'
    obtain ⟨m, hm, rfl⟩ := List.mem_map.mp hm'
    refine ⟨m.status, ?_, linkAll_deleted (hlive m hm)⟩
    rw [(hframe m).1]
    exact Db.statusOf_of_mem h.ids hm
  · intro p hp m' hm' hid
    have hm'' : m' ∈ db'.metadata := hm'
    rw [hrows] at hm''
    obtain ⟨m, hm, rfl⟩ := List.mem_map.mp hm''
    rw [(hframe m).1] at hid
    rw [(hframe m).2.1]
    exact h.tenants p hp m hm hid
  · intro m' hm' ht
    have hm'' : m' ∈ db'.metadata := hm'
    rw [hrows] at hm''
    obtain ⟨m, hm, rfl⟩ := List.mem_map.mp hm''
    obtain ⟨_, htenant, hseg, hord⟩ := hframe m
    rw [htenant] at ht
    rw [hseg, hord]
    exact h.spent m hm ht

/-- Every row of an item that asks for the status `deleted` has it. -/
def DeletedStay (trusted : Bool) (plan : List PlannedItem) (ms : List ChunkMetadata) : Prop :=
  ∀ p ∈ plan, requestedStatus trusted p.item.1 = some .deleted →
    ∀ m ∈ ms, m.chunkId ∈ List.range' p.first p.pieces → m.status = .deleted

variable (x t opts env) in
/-- An accepted import leaves the lifecycle in order. -/
def KeepsLifecycle (doc : OmfDocument) (s : Store) : Prop :=
  ∀ r s', (importOmfWithEvents x t doc opts env).run s = (.ok r, s') →
    NoCycle s'.db.metadata ∧ LinksAgree s'.db.metadata ∧ OneSuccessor s'.db.metadata ∧
      DeletedStay (isTrusted doc) (planOf x t opts env doc s) s'.db.metadata ∧
      StatusesSurvive x.toExternals t s'

/-- The new rows of an import and its edges stand beside the old rows. -/
theorem beside_planned {plan : List PlannedItem} {rss : List (List ChunkMetadata)}
    {old : List ChunkMetadata} {n : ChunkId}
    (hrss : List.Forall₂ (PlannedRows x t trusted env) plan rss)
    (hfirst : ∀ p ∈ plan, n ≤ p.first ∧ 0 < p.pieces)
    (hids : ∀ m ∈ old, m.chunkId < n)
    (hlinks : ∀ m ∈ old, ∀ c,
      (m.lifecycle.supersededBy = some c ∨ m.lifecycle.supersedes = some c) → c < n)
    (hsources : (plan.filterMap fun p => sourceRef x trusted p.item.1).Nodup)
    (hnodup : (plan.map (·.first)).Nodup)
    (hold : ((planEdges x trusted plan).map (·.1)).Nodup) :
    Beside t n old rss.flatten (planEdges x trusted plan) where
  oldIds := hids
  oldLinks := hlinks
  newRows m hm := by
    obtain ⟨p, hp, rows, hrows, hm⟩ := mem_flatten_of_planned hrss hm
    obtain ⟨htenant, hsup, hsupBy, _⟩ := hrows.row hm
    refine ⟨htenant, ?_, hsup, hsupBy⟩
    have hid : m.chunkId ∈ List.range' p.first p.pieces := hrows.ids ▸ List.mem_map_of_mem hm
    exact Nat.le_trans (hfirst p hp).1 (List.mem_range'_1.mp hid).1
  ends e he := by
    obtain ⟨p, q, ⟨hp, hq, _⟩, hpe, hqe⟩ := (mem_planEdges hsources).mp he
    exact ⟨hpe ▸ (hfirst p hp).1, hqe ▸ (hfirst q hq).1⟩
  hasRow e he := by
    obtain ⟨p, q, ⟨hp, _⟩, hpe, _⟩ := (mem_planEdges hsources).mp he
    have hid : p.first ∈ List.range' p.first p.pieces :=
      List.mem_range'_1.mpr ⟨Nat.le_refl _, Nat.lt_add_of_pos_right (hfirst p hp).2⟩
    obtain ⟨_, _, m, _, hmid, hm⟩ := exists_row_of_planned hrss hp hid
    exact ⟨m, hm, hmid.trans hpe⟩
  oldEnds := hold
  newEnds := nodup_planEdges_new hnodup

/-- A deleted item stays deleted unless another item supersedes it. -/
theorem deletedStay_iff {plan : List PlannedItem} {rss : List (List ChunkMetadata)}
    {old : List ChunkMetadata} {n : ChunkId} {now : ℤ}
    (hrss : List.Forall₂ (PlannedRows x t trusted env) plan rss)
    (hplan : plan.Pairwise fun p q => p.first + p.pieces ≤ q.first)
    (hfirst : ∀ p ∈ plan, n ≤ p.first ∧ 0 < p.pieces)
    (hsources : (plan.filterMap fun p => sourceRef x trusted p.item.1).Nodup)
    (hb : Beside t n old rss.flatten (planEdges x trusted plan)) :
    DeletedStay trusted plan (linkRows t now (planEdges x trusted plan) (old ++ rss.flatten)) ↔
      ∀ p q, Refers x trusted plan p q → requestedStatus trusted p.item.1 ≠ some .deleted := by
  constructor
  · intro h p q hpq hasked
    have hid : p.first ∈ List.range' p.first p.pieces :=
      List.mem_range'_1.mpr ⟨Nat.le_refl _, Nat.lt_add_of_pos_right (hfirst p hpq.1).2⟩
    obtain ⟨_, hrows, m, hm, hmid, hmem⟩ := exists_row_of_planned hrss hpq.1 hid
    obtain ⟨htenant, _, hnone, _⟩ := hrows.row hm
    have hedge : (m.chunkId, q.first) ∈ planEdges x trusted plan :=
      (mem_planEdges hsources).mpr ⟨p, q, hpq, hmid.symm, rfl⟩
    have hstatus : (linkAll t now (planEdges x trusted plan) m).status = .superseded :=
      (linkAll_old htenant hnone hb.oldEnds hedge).2
    have hdeleted := h p hpq.1 hasked (linkAll t now (planEdges x trusted plan) m)
      (by rw [linkRows_eq]; exact List.mem_map_of_mem (List.mem_append_right _ hmem))
      (by rw [(linkAll_frame t now _ m).1, hmid]; exact hid)
    exact absurd (hstatus.symm.trans hdeleted) (by decide)
  · intro h p hp hasked m hm hid
    rcases hb.mem hm with hm | ⟨r, hr, rfl⟩
    · exact absurd (hb.oldIds m hm)
        (Nat.not_lt.mpr (Nat.le_trans (hfirst p hp).1 (List.mem_range'_1.mp hid).1))
    rw [(linkAll_frame t now _ r).1] at hid
    obtain ⟨p', hp', rows, hrows, hr⟩ := mem_flatten_of_planned hrss hr
    obtain rfl := eq_of_mem_range hplan hp' hp (hrows.ids ▸ List.mem_map_of_mem hr) hid
    -- the row is no old end
    have hnot : r.chunkId ∉ (planEdges x trusted plan).map (·.1) := by
      intro hmem
      obtain ⟨e, he, heq⟩ := List.mem_map.mp hmem
      obtain ⟨p₀, q, hrefers, hpe, _⟩ := (mem_planEdges hsources).mp he
      have hid₀ : r.chunkId ∈ List.range' p₀.first p₀.pieces := by
        rw [← heq, ← hpe]
        exact List.mem_range'_1.mpr ⟨Nat.le_refl _,
          Nat.lt_add_of_pos_right (hfirst p₀ hrefers.1).2⟩
      obtain rfl := eq_of_mem_range hplan hrefers.1 hp hid₀ hid
      exact h _ q hrefers hasked
    rw [(linkAll_notOld hnot).2, (hrows.row hr).2.2.2, hasked]
    rfl

end Import

/-! ## Sample documents -/

/-- An item with an id and the given lifecycle fields. -/
def referringItem (content : String) (id : SourceId) (fields : List (String × Json)) : OmfItem where
  content := content
  extensions := .object [("memd", .object
    [("v", .number (.posInt 1)), ("chunk_id", .string (sampleUuid id)),
     ("lifecycle", .object fields)])]

theorem orderly_empty (t : TenantId) : Orderly t {} where
  ids := List.nodup_nil
  log := logAgrees_nil t _
  tenants p hp := absurd hp (by simp [recordsForRecovery])
  spent m hm := absurd hm (by simp [Db.metadata])
  active := activeDir_of_none rfl
  rowIds m hm := absurd hm (by simp [Db.metadata])
  linkIds m hm := absurd hm (by simp [Db.metadata])
  deleteIds c hc := absurd hc (by simp [recordsForRecovery])

theorem noCycle_nil : NoCycle [] := by
  intro a h
  cases h with
  | single h =>
    obtain ⟨m, hm, _⟩ := h
    exact absurd hm (by simp)
  | tail _ h =>
    obtain ⟨m, hm, _⟩ := h
    exact absurd hm (by simp)

/-- References that go forward form no cycle. -/
theorem noCycle_of_forward {x : OmfExternals} {trusted : Bool} {plan : List PlannedItem}
    (h : ∀ p ∈ plan, ∀ q ∈ plan, sourceRef x trusted p.item.1 ≠ none →
      sourceRef x trusted p.item.1 = supersedesRef x trusted q.item.1 → p.first < q.first)
    (p : PlannedItem) : ¬ Relation.TransGen (Refers x trusted plan) p p := by
  have hstep : ∀ {p q : PlannedItem}, Refers x trusted plan p q → p.first < q.first := by
    rintro p q ⟨hp, hq, k, hk, hk'⟩
    exact h p hp q hq (by simp [hk]) (hk.trans hk'.symm)
  have hpath : ∀ {p q : PlannedItem}, Relation.TransGen (Refers x trusted plan) p q →
      p.first < q.first := by
    intro p q hpq
    induction hpq with
    | single h => exact hstep h
    | tail _ h ih => exact Nat.lt_trans ih (hstep h)
  exact fun hcycle => Nat.lt_irrefl _ (hpath hcycle)
