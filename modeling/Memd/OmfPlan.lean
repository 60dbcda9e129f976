/-
# The plan of an import

Which items of a document are imported, and under which ids, can be told from the rows that
are there before (`importPlan`).  The supersession edges of an import are the references
between planned items (`Refers`).

* `LoopRun.planned` — the rows and references of the items follow the plan;
* `linkAll` — what all edges together do to a row;
* `mem_planEdges` — the edges are the references between planned items;
* `importOmf_planned` — what an import that goes through leaves behind.
-/
import Memd.OmfOutcome

open Proc PersistentStore Store

/-! ## Items and ids -/

/-- An item that is imported, with the ids of its rows. -/
structure PlannedItem where
  item : OmfItem × ℕ
  first : ChunkId
  pieces : ℕ

section Plan

variable (x : OmfExternals) (t : TenantId) (opts : ImportOptions) (trusted : Bool) (env : ImportEnv)

/-- The items that are imported, given the rows in the table and the next id. -/
def importPlan (rows : List DedupRow) (n : ChunkId) : List (OmfItem × ℕ) → List PlannedItem
  | [] => []
  | item :: rest =>
    let new := pieceRows x t item.1 (env.item item.2).created
    match judge x t opts trusted rows item.1 with
    | .imported => ⟨item, n, new.length⟩ :: importPlan (rows ++ new) (n + new.length) rest
    | _ => importPlan rows n rest

/-- The rows written for a planned item. -/
def PlannedRows (p : PlannedItem) (rows : List ChunkMetadata) : Prop :=
  ∃ initial a locs, requestedLifecycle trusted p.item.1 = .ok initial ∧
    gateItem x p.item.1 initial (env.item p.item.2).gate = .admitted a ∧
    locs.length = p.pieces ∧ (splitForAdd x.toExternals
      (importedChunk t p.item.1 a (env.item p.item.2).created)).length = p.pieces ∧
    rows = addedRows x.toExternals (importedChunk t p.item.1 a (env.item p.item.2).created) a.initial
      (env.item p.item.2).stored p.first locs

/-- The id of the document a planned item is known by. -/
def PlannedItem.source (p : PlannedItem) : Option (SourceId × ChunkId) :=
  (sourceRef x trusted p.item.1).map (·, p.first)

/-- The edge a planned item asks for. -/
def PlannedItem.pending (p : PlannedItem) : Option PendingSupersede :=
  (supersedesRef x trusted p.item.1).map (⟨·, p.first⟩)

/-- The status an item asks for. -/
def requestedStatus (item : OmfItem) : Option ChunkStatus :=
  (requestedLifecycle trusted item).toOption.bind (·.status)

variable {x t opts trusted env} {s s' : Store} {st st' : ImportState}

/-- An item is stored as at least one row. -/
theorem length_pieceRows (x : OmfExternals) (t : TenantId) (item : OmfItem) (created : ℤ) :
    0 < (pieceRows x t item created).length := by
  rw [pieceRows, List.length_map]
  exact List.length_pos_of_ne_nil (splitForAdd_ne_nil _ _)

/-- The planned items are items of the document, in order. -/
theorem importPlan_sublist (rows : List DedupRow) (n : ChunkId) (items : List (OmfItem × ℕ)) :
    ((importPlan x t opts trusted env rows n items).map (·.item)).Sublist items := by
  induction items generalizing rows n with
  | nil => exact .refl _
  | cons item items ih =>
    unfold importPlan
    dsimp only
    split
    · exact (ih _ _).cons_cons item
    · exact (ih _ _).cons item

/-- Every planned item has rows, and ids from `n` on. -/
theorem mem_importPlan {rows : List DedupRow} {n : ChunkId} {items : List (OmfItem × ℕ)}
    {p : PlannedItem} (h : p ∈ importPlan x t opts trusted env rows n items) :
    n ≤ p.first ∧ 0 < p.pieces := by
  induction items generalizing rows n with
  | nil => exact absurd h (by simp [importPlan])
  | cons item items ih =>
    unfold importPlan at h
    dsimp only at h
    split at h
    · rcases List.mem_cons.mp h with rfl | h
      · exact ⟨Nat.le_refl _, length_pieceRows x t item.1 _⟩
      · exact ⟨Nat.le_trans (Nat.le_add_right _ _) (ih h).1, (ih h).2⟩
    · exact ih h

/-- The items of a plan have different ids, one behind the other. -/
theorem pairwise_importPlan (rows : List DedupRow) (n : ChunkId) (items : List (OmfItem × ℕ)) :
    (importPlan x t opts trusted env rows n items).Pairwise
      fun p q => p.first + p.pieces ≤ q.first := by
  induction items generalizing rows n with
  | nil => exact .nil
  | cons item items ih =>
    unfold importPlan
    dsimp only
    split
    · exact List.pairwise_cons.mpr ⟨fun q hq => (mem_importPlan hq).1, ih _ _⟩
    · exact ih _ _

/-- No two items of a plan start at the same id. -/
theorem nodup_first (rows : List DedupRow) (n : ChunkId) (items : List (OmfItem × ℕ)) :
    ((importPlan x t opts trusted env rows n items).map (·.first)).Nodup := by
  rw [List.Nodup, List.pairwise_map]
  refine (pairwise_importPlan rows n items).imp_of_mem ?_
  intro a b ha _ hab heq
  exact Nat.lt_irrefl _ (Nat.lt_of_lt_of_le
    (Nat.lt_add_of_pos_right (mem_importPlan ha).2) (heq ▸ hab))

/-- The ids of different items do not meet. -/
theorem eq_of_mem_range {plan : List PlannedItem}
    (h : plan.Pairwise fun p q => p.first + p.pieces ≤ q.first) {p q : PlannedItem} (hp : p ∈ plan)
    (hq : q ∈ plan) {c : ChunkId} (hcp : c ∈ List.range' p.first p.pieces)
    (hcq : c ∈ List.range' q.first q.pieces) : p = q := by
  obtain ⟨hp₁, hp₂⟩ := List.mem_range'_1.mp hcp
  obtain ⟨hq₁, hq₂⟩ := List.mem_range'_1.mp hcq
  induction plan with
  | nil => exact absurd hp (by simp)
  | cons r plan ih =>
    obtain ⟨hr, hrest⟩ := List.pairwise_cons.mp h
    rcases List.mem_cons.mp hp with rfl | hp' <;> rcases List.mem_cons.mp hq with rfl | hq'
    · rfl
    · exact absurd (Nat.lt_of_lt_of_le hp₂ (Nat.le_trans (hr q hq') hq₁)) (Nat.lt_irrefl c)
    · exact absurd (Nat.lt_of_lt_of_le hq₂ (Nat.le_trans (hr p hp') hp₁)) (Nat.lt_irrefl c)
    · exact ih hrest hp' hq'

/-- The plan of an item that is imported. -/
theorem importPlan_imported {rows : List DedupRow} {item : OmfItem × ℕ}
    (h : judge x t opts trusted rows item.1 = .imported) (n : ChunkId) (items : List (OmfItem × ℕ)) :
    importPlan x t opts trusted env rows n (item :: items) =
      ⟨item, n, (pieceRows x t item.1 (env.item item.2).created).length⟩ ::
        importPlan x t opts trusted env (rows ++ pieceRows x t item.1 (env.item item.2).created)
          (n + (pieceRows x t item.1 (env.item item.2).created).length) items := by
  rw [importPlan, h]

/-- An item that is not imported is not in the plan. -/
theorem importPlan_other {rows : List DedupRow} {item : OmfItem × ℕ}
    (h : judge x t opts trusted rows item.1 ≠ .imported) (n : ChunkId) (items : List (OmfItem × ℕ)) :
    importPlan x t opts trusted env rows n (item :: items) =
      importPlan x t opts trusted env rows n items := by
  rw [importPlan]
  cases hj : judge x t opts trusted rows item.1 with
  | imported => exact absurd hj h
  | _ => rfl

/-- The judgement of an admitted item, and how many rows it gets. -/
theorem pieces_of_written {item : OmfItem × ℕ} {a : AdmittedItem} {locs : List (ℕ × ℕ)}
    (hv : itemVerdict x t opts trusted (env.item item.2).gate s.db item.1 = .ok (.admitted a))
    (hw : Written x.toExternals (importedChunk t item.1 a (env.item item.2).created) a.initial
      (env.item item.2).stored locs s s') (hr : Roomy t s) :
    judge x t opts trusted s.db.dedupRows item.1 = .imported ∧
      s'.db.dedupRows = s.db.dedupRows ++ pieceRows x t item.1 (env.item item.2).created ∧
      (splitForAdd x.toExternals (importedChunk t item.1 a (env.item item.2).created)).length =
        (pieceRows x t item.1 (env.item item.2).created).length := by
  obtain ⟨_, _, initial, _, hgate⟩ := itemVerdict_admitted hv
  have hpieces : (splitForAdd x.toExternals
      (importedChunk t item.1 a (env.item item.2).created)).map (chunkRow x) =
      pieceRows x t item.1 (env.item item.2).created := by
    rw [importedChunk_eq x t hgate, chunkRow_splitForAdd]
    rfl
  refine ⟨?_, ?_, ?_⟩
  · rw [← judgementOf_itemVerdict x t opts trusted (env.item item.2).gate, hv]
    rfl
  · rw [hw.dedupRows rfl hr, hpieces]
  · rw [← hpieces, List.length_map]

/-- The rows of an admitted item are those of its plan. -/
theorem plannedRows_of_written {item : OmfItem × ℕ} {a : AdmittedItem} {locs : List (ℕ × ℕ)}
    (hv : itemVerdict x t opts trusted (env.item item.2).gate s.db item.1 = .ok (.admitted a))
    (hw : Written x.toExternals (importedChunk t item.1 a (env.item item.2).created) a.initial
      (env.item item.2).stored locs s s') (hr : Roomy t s) :
    PlannedRows x t trusted env
      ⟨item, s.nextId, (pieceRows x t item.1 (env.item item.2).created).length⟩
      (addedRows x.toExternals (importedChunk t item.1 a (env.item item.2).created) a.initial
        (env.item item.2).stored s.nextId locs) := by
  obtain ⟨_, _, initial, hreq, hgate⟩ := itemVerdict_admitted hv
  obtain ⟨_, _, hlen⟩ := pieces_of_written hv hw hr
  exact ⟨initial, a, locs, hreq, hgate, hw.locations.length.trans hlen, hlen, rfl⟩

/-- **The items of an import follow the plan**: the new rows, the ids of the document and
the edges to be written come from it. -/
theorem LoopRun.planned {items : List (OmfItem × ℕ)}
    (h : LoopRun x t opts trusted env items st s st' s') (hr : Roomy t s) :
    (∃ rss, List.Forall₂ (PlannedRows x t trusted env)
        (importPlan x t opts trusted env s.db.dedupRows s.nextId items) rss ∧
      s'.db.metadata = s.db.metadata ++ rss.flatten) ∧
    st'.sourceToTarget = ((importPlan x t opts trusted env s.db.dedupRows s.nextId
      items).filterMap (·.source x trusted)).reverse ++ st.sourceToTarget ∧
    st'.pendingEdges = st.pendingEdges ++ (importPlan x t opts trusted env s.db.dedupRows s.nextId
      items).filterMap (·.pending x trusted) := by
  induction h with
  | nil => exact ⟨⟨[], .nil, by simp⟩, rfl, by simp [importPlan]⟩
  | @cons item items st st₁ st' s s₁ s' hitem _ ih =>
    have hj := judgementOf_itemVerdict x t opts trusted (env.item item.2).gate s.db item.1
    cases hitem with
    | skipped hv hor =>
      rw [importPlan_other (by rw [← hj, hv]; rcases hor with rfl | rfl <;> simp [judgementOf])]
      exact ih hr
    | duplicate hv =>
      rw [importPlan_other (by rw [← hj, hv]; simp [judgementOf])]
      exact ih hr
    | written hv hw =>
      obtain ⟨himported, hadds, hlen⟩ := pieces_of_written hv hw hr
      obtain ⟨⟨rss, hrss, hrows⟩, hsources, hpending⟩ := ih (hw.roomy rfl hr)
      have hnext := hw.nextId
      rw [hlen] at hnext
      rw [hadds, hnext] at hrss hsources hpending
      rw [importPlan_imported himported]
      refine ⟨⟨_ :: rss, .cons (plannedRows_of_written hv hw hr) hrss, ?_⟩, ?_, ?_⟩
      · rw [hrows, hw.metadata_of_roomy rfl hr, List.flatten_cons, List.append_assoc]
      · rw [hsources, ← List.append_assoc, List.filterMap_cons]
        simp only [PlannedItem.source]
        cases sourceRef x trusted item.1 <;> simp
      · rw [hpending, List.append_assoc, List.filterMap_cons]
        simp only [PlannedItem.pending]
        cases supersedesRef x trusted item.1 <;> simp

end Plan

/-! ## The rows of a plan -/

section Rows

variable {x : OmfExternals} {t : TenantId} {trusted : Bool} {env : ImportEnv}

/-- A row that was not asked to be deleted is not. -/
theorem getD_ne_deleted {st : Option ChunkStatus} (h : st ≠ some .deleted) :
    st.getD .final ≠ .deleted := by
  cases st with
  | none => decide
  | some st => exact fun hst => h (congrArg some hst)

/-- The rows of a planned item carry consecutive ids. -/
theorem PlannedRows.ids {p : PlannedItem} {rows : List ChunkMetadata}
    (h : PlannedRows x t trusted env p rows) :
    rows.map (·.chunkId) = List.range' p.first p.pieces := by
  obtain ⟨initial, a, locs, _, _, hlocs, hparts, rfl⟩ := h
  rw [ids_addedRows _ _ _ _ _ (hlocs.trans hparts.symm), partIds, hparts]

/-- A row as an import writes it: the tenant's, without links, with the status asked for. -/
theorem PlannedRows.row {p : PlannedItem} {rows : List ChunkMetadata}
    (h : PlannedRows x t trusted env p rows) {m : ChunkMetadata} (hm : m ∈ rows) :
    m.tenantId = t ∧ m.lifecycle.supersedes = none ∧ m.lifecycle.supersededBy = none ∧
      m.status = (requestedStatus trusted p.item.1).getD .final := by
  obtain ⟨initial, a, locs, hreq, hgate, _, _, rfl⟩ := h
  obtain ⟨hstatus, hsup, hsupBy⟩ := gateItem_overlay hgate
  obtain ⟨hsup', hsupBy'⟩ := requestedLifecycle_links hreq
  have hasked : requestedStatus trusted p.item.1 = a.initial.status := by
    rw [requestedStatus, hreq, hstatus]
    rfl
  obtain ⟨r, hr, rfl⟩ := List.mem_map.mp hm
  obtain ⟨part, hpart, l, _, rfl⟩ := mem_rowsAt hr
  obtain ⟨y, hy, rfl⟩ := List.mem_map.mp hpart
  obtain ⟨text, tags, hsplit⟩ := mem_splitForAdd (List.fst_mem_of_mem_zipIdx hy)
  have htenant : y.1.tenantId = t := by
    rw [hsplit]
    rfl
  have hfinal : y.1.status = .final := by
    rw [hsplit]
    rfl
  unfold initialRow
  split
  · rename_i hempty
    have hnone : a.initial.status = none := by
      rcases hempty with hempty | hdel
      · simp only [LifecycleDelta.isEmpty, Bool.and_eq_true, Option.isNone_iff_eq_none] at hempty
        exact hempty.1.1.1.1.1.1
      · exact absurd (hfinal.symm.trans hdel) (by decide)
    refine ⟨htenant, rfl, rfl, ?_⟩
    rw [hasked, hnone]
    exact hfinal
  · refine ⟨htenant, ?_, ?_, ?_⟩
    · simp [ChunkMetadata.overlay, stampedDelta, hsup, hsup', metadataRow]
    · simp [ChunkMetadata.overlay, stampedDelta, hsupBy, hsupBy', metadataRow]
    · rw [hasked]
      show a.initial.status.getD y.1.status = a.initial.status.getD .final
      rw [hfinal]

/-- A row of the plan belongs to one of its items. -/
theorem mem_flatten_of_planned {plan : List PlannedItem} {rss : List (List ChunkMetadata)}
    (h : List.Forall₂ (PlannedRows x t trusted env) plan rss) {m : ChunkMetadata}
    (hm : m ∈ rss.flatten) : ∃ p ∈ plan, ∃ rows, PlannedRows x t trusted env p rows ∧ m ∈ rows := by
  induction h with
  | nil => exact absurd hm (by simp)
  | @cons p rows plan rss hp _ ih =>
    rcases List.mem_append.mp hm with hm | hm
    · exact ⟨p, List.mem_cons_self, rows, hp, hm⟩
    · obtain ⟨q, hq, found⟩ := ih hm
      exact ⟨q, List.mem_cons_of_mem p hq, found⟩

/-- Every id of the plan has a row. -/
theorem exists_row_of_planned {plan : List PlannedItem} {rss : List (List ChunkMetadata)}
    (h : List.Forall₂ (PlannedRows x t trusted env) plan rss) {p : PlannedItem} (hp : p ∈ plan)
    {c : ChunkId} (hc : c ∈ List.range' p.first p.pieces) :
    ∃ rows, PlannedRows x t trusted env p rows ∧ ∃ m ∈ rows, m.chunkId = c ∧ m ∈ rss.flatten := by
  induction h with
  | nil => exact absurd hp (by simp)
  | @cons q rows plan rss hq _ ih =>
    rcases List.mem_cons.mp hp with rfl | hp
    · rw [← hq.ids] at hc
      obtain ⟨m, hm, rfl⟩ := List.mem_map.mp hc
      exact ⟨rows, hq, m, hm, rfl, List.mem_append_left _ hm⟩
    · obtain ⟨rows', hrows', m, hm, hmc, hmem⟩ := ih hp
      exact ⟨rows', hrows', m, hm, hmc, List.mem_append_right _ hmem⟩

end Rows

/-! ## All edges on one row -/

section Links

variable {t : TenantId} {now : ℤ} {e : ChunkId × ChunkId} {edges : List (ChunkId × ChunkId)}
  {m : ChunkMetadata}

/-- What the edges do to a row. -/
def linkAll (t : TenantId) (now : ℤ) (edges : List (ChunkId × ChunkId)) (m : ChunkMetadata) :
    ChunkMetadata :=
  edges.foldl (fun m e => linkRow t now e m) m

/-- Linking by all edges acts row by row. -/
theorem linkRows_eq (t : TenantId) (now : ℤ) (edges : List (ChunkId × ChunkId))
    (ms : List ChunkMetadata) : linkRows t now edges ms = ms.map (linkAll t now edges) := by
  induction edges generalizing ms with
  | nil => exact (List.map_id ms).symm
  | cons e edges ih =>
    rw [linkRows, List.foldl_cons, ← linkRows, ih, List.map_map]
    rfl

/-- Linking moves no payload. -/
theorem linkRow_location (t : TenantId) (now : ℤ) (e : ChunkId × ChunkId) (m : ChunkMetadata) :
    (linkRow t now e m).segmentId = m.segmentId ∧ (linkRow t now e m).ordinal = m.ordinal := by
  unfold linkRow
  dsimp only
  split_ifs <;> exact ⟨rfl, rfl⟩

/-- An edge leaves the rows alone that it does not name. -/
theorem linkRow_untouched (hold : m.chunkId ≠ e.1) (hnew : m.chunkId ≠ e.2) :
    linkRow t now e m = m := by
  have h₁ : ¬(m.tenantId = t ∧ m.chunkId = e.1 ∧ m.lifecycle.supersededBy = none) :=
    fun h => hold h.2.1
  have h₂ : ¬(m.tenantId = t ∧ m.chunkId = e.2) := fun h => hnew h.2
  simp only [linkRow, if_neg h₁, if_neg h₂]

/-- The old end of an edge. -/
theorem linkRow_old (ht : m.tenantId = t) (hid : m.chunkId = e.1)
    (hnone : m.lifecycle.supersededBy = none) :
    (linkRow t now e m).lifecycle.supersededBy = some e.2 ∧
      (linkRow t now e m).status = .superseded := by
  simp only [linkRow, if_pos (show m.tenantId = t ∧ m.chunkId = e.1 ∧
    m.lifecycle.supersededBy = none from ⟨ht, hid, hnone⟩)]
  split_ifs <;> exact ⟨rfl, rfl⟩

/-- An edge changes the status of the superseded row only. -/
theorem linkRow_status (h : m.chunkId ≠ e.1) : (linkRow t now e m).status = m.status := by
  have hold : ¬(m.tenantId = t ∧ m.chunkId = e.1 ∧ m.lifecycle.supersededBy = none) :=
    fun hm => h hm.2.1
  simp only [linkRow, if_neg hold]
  split_ifs <;> rfl

/-- The new end of an edge. -/
theorem linkRow_new (ht : m.tenantId = t) (hid : m.chunkId = e.2) :
    (linkRow t now e m).lifecycle.supersedes = some e.1 := by
  unfold linkRow
  dsimp only
  split_ifs with h₁ h₂ h₂
  · rfl
  · exact absurd ⟨ht, hid⟩ h₂
  · rfl
  · exact absurd ⟨ht, hid⟩ h₂

/-- An edge sets the predecessor of the new row only. -/
theorem linkRow_supersedes (h : m.chunkId ≠ e.2) :
    (linkRow t now e m).lifecycle.supersedes = m.lifecycle.supersedes := by
  unfold linkRow
  dsimp only
  split_ifs with h₁ h₂ h₂
  · exact absurd h₂.2 h
  · rfl
  · exact absurd h₂.2 h
  · rfl

/-- Linking keeps the ids, tenants and locations. -/
theorem linkAll_frame (t : TenantId) (now : ℤ) (edges : List (ChunkId × ChunkId))
    (m : ChunkMetadata) : (linkAll t now edges m).chunkId = m.chunkId ∧
      (linkAll t now edges m).tenantId = m.tenantId ∧
      (linkAll t now edges m).segmentId = m.segmentId ∧
      (linkAll t now edges m).ordinal = m.ordinal := by
  induction edges generalizing m with
  | nil => exact ⟨rfl, rfl, rfl, rfl⟩
  | cons e edges ih =>
    obtain ⟨h₁, h₂, h₃, h₄⟩ := ih (linkRow t now e m)
    obtain ⟨hid, htenant⟩ := linkRow_frame t now e m
    obtain ⟨hseg, hord⟩ := linkRow_location t now e m
    exact ⟨h₁.trans hid, h₂.trans htenant, h₃.trans hseg, h₄.trans hord⟩

/-- Edges leave the rows alone that none of them names. -/
theorem linkAll_untouched (hold : ∀ e ∈ edges, m.chunkId ≠ e.1)
    (hnew : ∀ e ∈ edges, m.chunkId ≠ e.2) : linkAll t now edges m = m := by
  induction edges with
  | nil => rfl
  | cons e edges ih =>
    rw [linkAll, List.foldl_cons, linkRow_untouched (hold e List.mem_cons_self)
      (hnew e List.mem_cons_self)]
    exact ih (fun e' he' => hold e' (List.mem_cons_of_mem e he'))
      fun e' he' => hnew e' (List.mem_cons_of_mem e he')

/-- A row that is no old end keeps its successor and its status. -/
theorem linkAll_notOld (h : m.chunkId ∉ edges.map (·.1)) :
    (linkAll t now edges m).lifecycle.supersededBy = m.lifecycle.supersededBy ∧
      (linkAll t now edges m).status = m.status := by
  induction edges generalizing m with
  | nil => exact ⟨rfl, rfl⟩
  | cons e edges ih =>
    rw [List.map_cons, List.mem_cons, not_or] at h
    obtain ⟨h₁, h₂⟩ := ih (m := linkRow t now e m) (by rw [(linkRow_frame t now e m).1]; exact h.2)
    exact ⟨h₁.trans (linkRow_supersededBy h.1), h₂.trans (linkRow_status h.1)⟩

/-- An old end gets its successor and its new status. -/
theorem linkAll_old {y : ChunkId} (ht : m.tenantId = t) (hnone : m.lifecycle.supersededBy = none)
    (hnodup : (edges.map (·.1)).Nodup) (h : (m.chunkId, y) ∈ edges) :
    (linkAll t now edges m).lifecycle.supersededBy = some y ∧
      (linkAll t now edges m).status = .superseded := by
  induction edges generalizing m with
  | nil => exact absurd h (by simp)
  | cons e edges ih =>
    obtain ⟨hid, htenant⟩ := linkRow_frame t now e m
    rw [List.map_cons, List.nodup_cons] at hnodup
    rcases List.mem_cons.mp h with rfl | h
    · have hrow : (linkRow t now (m.chunkId, y) m).lifecycle.supersededBy = some y ∧
          (linkRow t now (m.chunkId, y) m).status = .superseded := linkRow_old ht rfl hnone
      have hrest : (linkRow t now (m.chunkId, y) m).chunkId ∉ edges.map (·.1) := by
        rw [hid]
        exact hnodup.1
      exact ⟨(linkAll_notOld hrest).1.trans hrow.1, (linkAll_notOld hrest).2.trans hrow.2⟩
    · have hne : m.chunkId ≠ e.1 := by
        intro heq
        exact hnodup.1 (heq ▸ List.mem_map_of_mem h)
      exact ih (htenant.trans ht) ((linkRow_supersededBy hne).trans hnone) hnodup.2
        (by rw [hid]; exact h)

/-- A row is superseded by the new end of its edge. -/
theorem linkAll_supersededBy {y : ChunkId} (ht : m.tenantId = t)
    (hnone : m.lifecycle.supersededBy = none) (hnodup : (edges.map (·.1)).Nodup) :
    (linkAll t now edges m).lifecycle.supersededBy = some y ↔ (m.chunkId, y) ∈ edges := by
  refine ⟨fun h => ?_, fun h => (linkAll_old ht hnone hnodup h).1⟩
  by_cases hold : m.chunkId ∈ edges.map (·.1)
  · obtain ⟨⟨a, b⟩, he, rfl⟩ := List.mem_map.mp hold
    rw [(linkAll_old ht hnone hnodup he).1] at h
    exact Option.some.inj h ▸ he
  · rw [(linkAll_notOld hold).1, hnone] at h
    exact absurd h (by simp)

/-- A row that is new in no edge keeps its predecessor. -/
theorem linkAll_notNew (h : m.chunkId ∉ edges.map (·.2)) :
    (linkAll t now edges m).lifecycle.supersedes = m.lifecycle.supersedes := by
  induction edges generalizing m with
  | nil => rfl
  | cons e edges ih =>
    rw [List.map_cons, List.mem_cons, not_or] at h
    have h₁ := ih (m := linkRow t now e m) (by rw [(linkRow_frame t now e m).1]; exact h.2)
    exact h₁.trans (linkRow_supersedes h.1)

/-- A row supersedes the old end of its edge. -/
theorem linkAll_supersedes {z : ChunkId} (ht : m.tenantId = t)
    (hnone : m.lifecycle.supersedes = none) (hnodup : (edges.map (·.2)).Nodup) :
    (linkAll t now edges m).lifecycle.supersedes = some z ↔ (z, m.chunkId) ∈ edges := by
  induction edges generalizing m with
  | nil => simp [linkAll, hnone]
  | cons e edges ih =>
    obtain ⟨hid, htenant⟩ := linkRow_frame t now e m
    rw [List.map_cons, List.nodup_cons] at hnodup
    by_cases heq : m.chunkId = e.2
    · have hrest : (linkAll t now edges (linkRow t now e m)).lifecycle.supersedes = some e.1 := by
        rw [linkAll_notNew (by rw [hid, heq]; exact hnodup.1), linkRow_new ht heq]
      show (linkAll t now edges (linkRow t now e m)).lifecycle.supersedes = some z ↔ _
      rw [hrest, Option.some.injEq, List.mem_cons]
      constructor
      · rintro rfl
        exact .inl (Prod.ext rfl heq)
      · rintro (h | h)
        · exact congrArg Prod.fst h.symm
        · exact absurd (heq ▸ List.mem_map_of_mem h : e.2 ∈ edges.map (·.2)) hnodup.1
    · show (linkAll t now edges (linkRow t now e m)).lifecycle.supersedes = some z ↔ _
      rw [ih (htenant.trans ht) ((linkRow_supersedes heq).trans hnone) hnodup.2, hid, List.mem_cons]
      refine ⟨.inr, fun h => h.resolve_left fun h => heq (congrArg Prod.snd h)⟩

end Links

/-! ## The edges of a plan -/

section Edges

variable (x : OmfExternals) (trusted : Bool)

/-- The item `q` of the plan supersedes the item `p`. -/
def Refers (plan : List PlannedItem) (p q : PlannedItem) : Prop :=
  p ∈ plan ∧ q ∈ plan ∧
    ∃ k, sourceRef x trusted p.item.1 = some k ∧ supersedesRef x trusted q.item.1 = some k

/-- The edges an import of the plan writes. -/
def planEdges (plan : List PlannedItem) : List (ChunkId × ChunkId) :=
  resolvedEdges (plan.filterMap (·.source x trusted)).reverse
    (plan.filterMap (·.pending x trusted))

variable {x trusted} {plan : List PlannedItem}

/-- A source id stands for the first row of the item that has it. -/
theorem mem_sources {k : SourceId} {c : ChunkId} :
    (k, c) ∈ (plan.filterMap (·.source x trusted)).reverse ↔
      ∃ p ∈ plan, sourceRef x trusted p.item.1 = some k ∧ p.first = c := by
  simp [PlannedItem.source, List.mem_filterMap, Option.map_eq_some_iff]

/-- A pending supersede comes from an item that names a predecessor. -/
theorem mem_pending {e : PendingSupersede} :
    e ∈ plan.filterMap (·.pending x trusted) ↔
      ∃ q ∈ plan, supersedesRef x trusted q.item.1 = some e.oldSourceId ∧
        q.first = e.newTargetId := by
  rw [List.mem_filterMap]
  constructor
  · rintro ⟨q, hq, h⟩
    obtain ⟨k, hk, rfl⟩ := Option.map_eq_some_iff.mp h
    exact ⟨q, hq, hk, rfl⟩
  · rintro ⟨q, hq, hk, hfirst⟩
    exact ⟨q, hq, Option.map_eq_some_iff.mpr ⟨_, hk, by rw [hfirst]⟩⟩

/-- The edges are the references. -/
theorem mem_planEdges (hsources : (plan.filterMap fun p => sourceRef x trusted p.item.1).Nodup)
    {e : ChunkId × ChunkId} :
    e ∈ planEdges x trusted plan ↔
      ∃ p q, Refers x trusted plan p q ∧ p.first = e.1 ∧ q.first = e.2 := by
  constructor
  · intro he
    obtain ⟨pe, hpe, hsource, hnew⟩ := mem_resolvedEdges he
    obtain ⟨q, hq, hold, hqfirst⟩ := mem_pending.mp hpe
    obtain ⟨p, hp, hk, hpfirst⟩ := mem_sources.mp hsource
    exact ⟨p, q, ⟨hp, hq, _, hk, hold⟩, hpfirst, hqfirst.trans hnew⟩
  · rintro ⟨p, q, ⟨hp, hq, k, hk, hold⟩, hpfirst, hqfirst⟩
    have hsource : (k, p.first) ∈ (plan.filterMap (·.source x trusted)).reverse :=
      mem_sources.mpr ⟨p, hp, hk, rfl⟩
    have hkeys : ((plan.filterMap (·.source x trusted)).reverse.map (·.1)).Nodup := by
      rw [List.map_reverse, List.nodup_reverse, List.map_filterMap]
      refine (List.filterMap_congr fun p _ => ?_) ▸ hsources
      simp [PlannedItem.source, Function.comp_def]
    refine List.mem_filterMap.mpr ⟨⟨k, q.first⟩, mem_pending.mpr ⟨q, hq, hold, rfl⟩, ?_⟩
    -- the entry found for `k` is the one of `p`
    cases hfind : (plan.filterMap (·.source x trusted)).reverse.find? fun e => e.1 == k with
    | none =>
      rw [List.find?_eq_none] at hfind
      exact absurd (show (k == k) = true by simp) (hfind _ hsource)
    | some entry =>
      have hkey : entry.1 = k := by simpa using List.find?_some hfind
      obtain rfl : entry = (k, p.first) :=
        List.inj_on_of_nodup_map hkeys (List.mem_of_find?_eq_some hfind) hsource hkey
      exact congrArg some (Prod.ext hpfirst hqfirst)

/-- No chunk is the new end of two edges. -/
theorem nodup_planEdges_new (hfirst : (plan.map (·.first)).Nodup) :
    ((planEdges x trusted plan).map (·.2)).Nodup := by
  have hsub : ((planEdges x trusted plan).map (·.2)).Sublist
      ((plan.filterMap (·.pending x trusted)).map (·.newTargetId)) := by
    unfold planEdges resolvedEdges
    generalize (plan.filterMap (·.source x trusted)).reverse = sources
    generalize plan.filterMap (·.pending x trusted) = pending
    induction pending with
    | nil => exact .slnil
    | cons p pending ih =>
      rw [List.filterMap_cons, List.map_cons]
      cases sources.find? fun e => e.1 == p.oldSourceId with
      | none => exact ih.cons _
      | some entry => exact ih.cons_cons _
  have hsub' : ((plan.filterMap (·.pending x trusted)).map (·.newTargetId)).Sublist
      (plan.map (·.first)) := by
    clear hfirst hsub
    induction plan with
    | nil => exact .slnil
    | cons p plan ih =>
      rw [List.filterMap_cons, List.map_cons]
      cases h : p.pending x trusted with
      | none => exact ih.cons _
      | some e =>
        obtain ⟨k, _, rfl⟩ := Option.map_eq_some_iff.mp h
        exact ih.cons_cons _
  exact hfirst.sublist (hsub.trans hsub')

end Edges

/-! ## An import that goes through -/

section Whole

variable (x : OmfExternals) (t : TenantId) (opts : ImportOptions) (env : ImportEnv)

/-- The items of a document that will be imported. -/
def planOf (doc : OmfDocument) (s : Store) : List PlannedItem :=
  importPlan x t opts (isTrusted doc) env s.db.dedupRows s.nextId doc.memories.zipIdx

/-- What an accepted document has done: the rows `rss` of its plan are behind the old rows,
and the edges of the plan are written. -/
structure ImportedAs (doc : OmfDocument) (s s' : Store) (rss : List (List ChunkMetadata)) : Prop where
  loop : ∃ st s₁, LoopRun x t opts (isTrusted doc) env doc.memories.zipIdx (initialState doc) s st s₁ ∧
    s₁.db.metadata = s.db.metadata ++ rss.flatten ∧ s' = { s₁ with db := s'.db }
  rows : List.Forall₂ (PlannedRows x t (isTrusted doc) env) (planOf x t opts env doc s) rss
  metadata : s'.db.metadata = linkRows t env.link
    (planEdges x (isTrusted doc) (planOf x t opts env doc s)) (s.db.metadata ++ rss.flatten)
  sources : ((planOf x t opts env doc s).filterMap
    fun p => sourceRef x (isTrusted doc) p.item.1).Nodup
  oldEnds : ((planEdges x (isTrusted doc) (planOf x t opts env doc s)).map (·.1)).Nodup

variable {x t opts env}

/-- In a document that passes the checks the source ids are distinct. -/
theorem nodup_sources {doc : OmfDocument} (hpre : preflight x doc = .ok ()) (s : Store) :
    ((planOf x t opts env doc s).filterMap fun p => sourceRef x (isTrusted doc) p.item.1).Nodup := by
  obtain ⟨_, hnodup, _⟩ := preflight_ok hpre
  have hitems : ((planOf x t opts env doc s).map (·.item)).Sublist doc.memories.zipIdx :=
    importPlan_sublist _ _ _
  have hsub := hitems.filterMap fun item => sourceRef x (isTrusted doc) item.1
  rw [List.filterMap_map] at hsub
  exact hnodup.sublist hsub

variable (t opts env) in
/-- **An accepted document is imported as planned.** -/
theorem importOmf_planned {s : Store} (hf : NoFault s) (hr : Roomy t s) (doc : OmfDocument) :
    (∃ e s', (importOmfWithEvents x t doc opts env).run s = (.error e, s')) ∨
    ∃ r s' rss, (importOmfWithEvents x t doc opts env).run s = (.ok r, s') ∧
      ImportedAs x t opts env doc s s' rss := by
  rcases importOmf_run t opts env hf doc with
    ⟨e, _, hrun⟩ | ⟨_, pre, item, post, st₁, s₁, e, _, _, _, hrun⟩
      | ⟨hpre, st', s', db', hloop, hcollected, hrows, hrun⟩
  · exact .inl ⟨e, s, hrun⟩
  · exact .inl ⟨e, s₁, hrun⟩
  · obtain ⟨⟨rss, hrss, hmeta⟩, hsourceMap, hpending⟩ := hloop.planned hr
    have hedges : resolvedEdges st'.sourceToTarget st'.pendingEdges =
        planEdges x (isTrusted doc) (planOf x t opts env doc s) := by
      rw [hsourceMap, hpending]
      simp [planEdges, planOf, initialState]
    refine .inr ⟨_, _, rss, hrun, ⟨st', s', hloop, hmeta, rfl⟩, hrss, ?_, nodup_sources hpre s, ?_⟩
    · show db'.metadata = _
      rw [hrows, hedges, hmeta]
    · rw [← hedges]
      refine nodup_resolvedEdges hcollected.targets ?_
      simpa using hcollected.supersedes

end Whole
