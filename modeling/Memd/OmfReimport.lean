/-
# Importing a document again

An import compares the canonical text of an item with the canonical texts of the rows of its
project, so that a document that is imported a second time finds what the first import has
left.

* `LoopRun.duplicates_found` — an item that was stored as one row is a duplicate from then on;
* `LoopRun.idle` — a loop that meets no new item leaves the store as it is;
* `reimport_merges` — the second import of a document.

With a fuzzy threshold an item can be a duplicate of a row with another canonical text
(`near_duplicate_without_row`).
-/
import Memd.OmfPlan

open Proc PersistentStore Store

section Reimport

variable {x : OmfExternals} {t : TenantId} {opts : ImportOptions} {trusted : Bool} {env : ImportEnv}
  {s s' : Store} {st st' : ImportState}

/-! ## Rows that are found again -/

theorem isExactIn_append {rows : List DedupRow} {project : Option String} {canonical : String}
    (h : isExactIn t rows project canonical = true) (rows' : List DedupRow) :
    isExactIn t (rows ++ rows') project canonical = true := by
  rw [isExactIn, List.any_append, Bool.or_eq_true]
  exact .inl h

theorem isDuplicateIn_of_exact {rows : List DedupRow} {item : OmfItem}
    (h : isExactIn t rows (resolvedProject item) (itemCanonical x item) = true) :
    isDuplicateIn x t opts rows item = true := by
  rw [isDuplicateIn, h, Bool.true_or]

/-- The one piece of a text that is not divided is the text. -/
theorem splitForAdd_of_length {ext : Externals} {chunk : MemoryChunk}
    (h : (splitForAdd ext chunk).length = 1) : splitForAdd ext chunk = [chunk] := by
  unfold splitForAdd at h ⊢
  dsimp only at h ⊢
  split at h
  · rw [if_pos ‹_›]
  · rename_i hlong
    rw [if_neg hlong]
    split at h
    · rw [if_pos ‹_›]
    · rename_i hpieces
      rw [List.length_mapIdx] at h
      omega

/-- An item that is stored as one row has its own canonical text in the table. -/
theorem isExactIn_pieceRows {item : OmfItem} {created : ℤ}
    (h : (pieceRows x t item created).length = 1) :
    isExactIn t (pieceRows x t item created) (resolvedProject item) (itemCanonical x item) = true := by
  rw [pieceRows, List.length_map] at h
  rw [pieceRows, splitForAdd_of_length h]
  simp [isExactIn, inScope, chunkRow, itemChunk, itemCanonical]

theorem LoopRun.dedupRows {items : List (OmfItem × ℕ)}
    (h : LoopRun x t opts trusted env items st s st' s') (hr : Roomy t s) :
    ∃ new, s'.db.dedupRows = s.db.dedupRows ++ new := by
  induction h with
  | nil => exact ⟨[], (List.append_nil _).symm⟩
  | @cons item items st st₁ st' s s₁ s' hitem _ ih =>
    obtain ⟨j, _, _, _, hadds, hr₁, _⟩ := hitem.judged hr
    obtain ⟨new, hnew⟩ := ih hr₁
    exact ⟨_, by rw [hnew, hadds, List.append_assoc]⟩

/-- The plan of a document, behind its first item. -/
theorem ItemRun.importPlan_cons {item : OmfItem × ℕ}
    (h : ItemRun x t opts trusted env item st s st' s') (hr : Roomy t s)
    (items : List (OmfItem × ℕ)) :
    importPlan x t opts trusted env s.db.dedupRows s.nextId (item :: items) =
      (if judge x t opts trusted s.db.dedupRows item.1 = .imported then
        [⟨item, s.nextId, (pieceRows x t item.1 (env.item item.2).created).length⟩] else []) ++
      importPlan x t opts trusted env s'.db.dedupRows s'.nextId items := by
  have hj := judgementOf_itemVerdict x t opts trusted (env.item item.2).gate s.db item.1
  cases h with
  | skipped hv hor =>
    have hne : judge x t opts trusted s.db.dedupRows item.1 ≠ .imported := by
      rw [← hj, hv]
      rcases hor with rfl | rfl <;> simp [judgementOf]
    rw [importPlan_other hne, if_neg hne, List.nil_append]
  | duplicate hv =>
    have hne : judge x t opts trusted s.db.dedupRows item.1 ≠ .imported := by
      rw [← hj, hv]
      simp [judgementOf]
    rw [importPlan_other hne, if_neg hne, List.nil_append]
  | written hv hw =>
    obtain ⟨himported, hadds, hlen⟩ := pieces_of_written hv hw hr
    have hnext := hw.nextId
    rw [hlen] at hnext
    rw [importPlan_imported himported, if_pos himported, ← hadds, ← hnext, List.singleton_append]

/-- **An item that was stored as one row** is an exact duplicate behind the loop. -/
theorem LoopRun.duplicates_found {items : List (OmfItem × ℕ)}
    (h : LoopRun x t opts trusted env items st s st' s') (hr : Roomy t s) {p : PlannedItem}
    (hp : p ∈ importPlan x t opts trusted env s.db.dedupRows s.nextId items) (hone : p.pieces = 1) :
    isExactIn t s'.db.dedupRows (resolvedProject p.item.1) (itemCanonical x p.item.1) = true := by
  induction h with
  | nil => exact absurd hp (by simp [importPlan])
  | @cons item items st st₁ st' s s₁ s' hitem hrest ih =>
    obtain ⟨j, hj, _, _, hadds, hr₁, _⟩ := hitem.judged hr
    rw [hitem.importPlan_cons hr, List.mem_append] at hp
    rcases hp with hp | hp
    · split at hp
      · rename_i himported
        obtain rfl := List.mem_singleton.mp hp
        obtain ⟨new, hnew⟩ := hrest.dedupRows hr₁
        rw [himported] at hj
        rw [hnew, hadds, ← hj]
        refine isExactIn_append ?_ new
        rw [isExactIn, List.any_append, Bool.or_eq_true]
        exact .inr (isExactIn_pieceRows hone)
      · exact absurd hp (by simp)
    · exact ih hr₁ hp

/-- With exact comparison only, and every new item stored as one row, no item of the document
is new any more. -/
theorem LoopRun.nothing_new {items : List (OmfItem × ℕ)}
    (h : LoopRun x t opts trusted env items st s st' s') (hr : Roomy t s)
    (hexact : opts.fuzzyThreshold = none)
    (hone : ∀ p ∈ importPlan x t opts trusted env s.db.dedupRows s.nextId items, p.pieces = 1) :
    ∀ item ∈ items, judge x t opts trusted s'.db.dedupRows item.1 = .skipped ∨
      judge x t opts trusted s'.db.dedupRows item.1 = .duplicate := by
  induction h with
  | nil => simp
  | @cons item items st st₁ st' s s₁ s' hitem hrest ih =>
    obtain ⟨j, hj, hgood, _, hadds, hr₁, _⟩ := hitem.judged hr
    obtain ⟨new, hnew⟩ := hrest.dedupRows hr₁
    have hplan := hitem.importPlan_cons hr items
    -- an exact duplicate stays one, and is judged before anything else but its status
    have hdup : isExactIn t s'.db.dedupRows (resolvedProject item.1) (itemCanonical x item.1) = true →
        judge x t opts trusted s'.db.dedupRows item.1 = .skipped ∨
          judge x t opts trusted s'.db.dedupRows item.1 = .duplicate := by
      intro hex
      unfold judge
      rw [isDuplicateIn_of_exact hex]
      split
      · exact .inl rfl
      · exact .inr rfl
    intro y hy
    rcases List.mem_cons.mp hy with rfl | hy
    · cases j with
      | malformed => exact absurd rfl hgood
      | imported =>
        have hmem : (⟨y, s.nextId, (pieceRows x t y.1 (env.item y.2).created).length⟩ : PlannedItem) ∈
            importPlan x t opts trusted env s.db.dedupRows s.nextId (y :: items) := by
          rw [hplan, if_pos hj]
          exact List.mem_append_left _ (List.mem_singleton.mpr rfl)
        exact hdup (LoopRun.duplicates_found (.cons hitem hrest) hr hmem (hone _ hmem))
      | duplicate =>
        apply hdup
        rw [hnew, hadds]
        refine isExactIn_append (isExactIn_append ?_ _) _
        unfold judge at hj
        split at hj
        · exact absurd hj (by simp)
        · split at hj
          · rename_i hin
            simpa [isDuplicateIn, hexact] using hin
          · split at hj
            · exact absurd hj (by simp)
            · split at hj <;> exact absurd hj (by simp)
      | skipped =>
        unfold judge at hj ⊢
        split at hj
        · rename_i harch
          rw [if_pos harch]
          exact .inl rfl
        · rename_i harch
          rw [if_neg harch]
          split at hj
          · exact absurd hj (by simp)
          · split at hj
            · exact absurd hj (by simp)
            · rename_i hread
              rw [if_neg hread]
              split at hj
              · rename_i href
                rw [if_pos href]
                split
                · exact .inr rfl
                · exact .inl rfl
              · exact absurd hj (by simp)
    · refine ih hr₁ ?_ y hy
      intro p hp
      exact hone p (by rw [hplan]; exact List.mem_append_right _ hp)

/-! ## A loop without new items -/

/-- **A loop that meets no new item** counts, and leaves everything else as it is. -/
theorem LoopRun.idle {items : List (OmfItem × ℕ)}
    (h : LoopRun x t opts trusted env items st s st' s') (hr : Roomy t s)
    (hold : ∀ item ∈ items, judge x t opts trusted s.db.dedupRows item.1 = .skipped ∨
      judge x t opts trusted s.db.dedupRows item.1 = .duplicate) :
    s' = s ∧ st'.result.imported = st.result.imported ∧ st'.events = st.events ∧
      st'.pendingEdges = st.pendingEdges := by
  induction h with
  | nil => exact ⟨rfl, rfl, rfl, rfl⟩
  | @cons item items st st₁ st' s s₁ s' hitem _ ih =>
    have hitemOld := hold item List.mem_cons_self
    have hrest := fun y hy => hold y (List.mem_cons_of_mem item hy)
    cases hitem with
    | skipped _ _ => exact ih hr hrest
    | duplicate _ => exact ih hr hrest
    | written hv hw =>
      obtain ⟨himported, _⟩ := pieces_of_written hv hw hr
      rw [himported] at hitemOld
      exact absurd hitemOld (by simp)

end Reimport

/-! ## The second import -/

theorem dedupRow_linkRow (t : TenantId) (now : ℤ) (e : ChunkId × ChunkId) (m : ChunkMetadata) :
    (linkRow t now e m).dedupRow = m.dedupRow := by
  unfold linkRow
  dsimp only
  split_ifs <;> rfl

theorem dedupRow_linkRows (t : TenantId) (now : ℤ) (edges : List (ChunkId × ChunkId))
    (ms : List ChunkMetadata) : (linkRows t now edges ms).map (·.dedupRow) = ms.map (·.dedupRow) := by
  induction edges generalizing ms with
  | nil => rfl
  | cons e edges ih =>
    rw [linkRows, List.foldl_cons, ← linkRows, ih, List.map_map]
    exact List.map_congr_left fun m _ => dedupRow_linkRow t now e m

section Second

variable (x : OmfExternals) (t : TenantId) (doc : OmfDocument) (opts : ImportOptions)

/-- A second import of a document in which nothing is new. -/
theorem importOmf_idle (env : ImportEnv) {s : Store} (hf : NoFault s) (hr : Roomy t s)
    (hpre : preflight x doc = .ok ())
    (hold : ∀ item ∈ doc.memories.zipIdx,
      judge x t opts (isTrusted doc) s.db.dedupRows item.1 = .skipped ∨
        judge x t opts (isTrusted doc) s.db.dedupRows item.1 = .duplicate) :
    ∃ res, (importOmfWithEvents x t doc opts env).run s = (.ok (res, []), s) ∧ res.imported = 0 := by
  have hrun : (importOmfWithEvents x t doc opts env).run s =
      ((doc.memories.zipIdx.foldlM (importItem x t opts (isTrusted doc) env)
        (initialState doc)).bind fun st =>
        (replaySupersessionEdges t st.sourceToTarget st.pendingEdges env.link).bind fun _ =>
          .ret (st.result, st.events)).run s := by
    simp only [importOmfWithEvents, hpre]
    rfl
  rw [hrun, run_bind]
  rcases importLoop_run t opts env hf (preflight_ok hpre).1 (initialState doc) with
    ⟨pre, item, post, st₁, s₁, e, hsplit, hloop, hv, _⟩ | ⟨st', s', hloop, hloopRun⟩
  · -- no item stops the loop
    have hpreOld : ∀ y ∈ pre, judge x t opts (isTrusted doc) s.db.dedupRows y.1 = .skipped ∨
        judge x t opts (isTrusted doc) s.db.dedupRows y.1 = .duplicate :=
      fun y hy => hold y (by rw [hsplit]; exact List.mem_append_left _ hy)
    obtain ⟨rfl, _⟩ := hloop.idle hr hpreOld
    have hitem := hold item (by rw [hsplit]; simp)
    rw [← judgementOf_itemVerdict x t opts (isTrusted doc) (env.item item.2).gate, hv] at hitem
    exact absurd hitem (by simp [judgementOf])
  · obtain ⟨rfl, himported, hevents, hpending⟩ := hloop.idle hr hold
    refine ⟨st'.result, ?_, himported⟩
    rw [hloopRun]
    dsimp only
    rw [hpending, hevents]
    rfl

/-- **The second import of a document**, behind one that went through.  Whatever the options,
an item that was stored as one row is a duplicate afterwards; with exact comparison only, and
every new item stored as one row, a second import imports nothing and leaves the store as it
is.  An item is reported as a duplicate only if a row of its tenant in exactly its project
has its canonical text, or one that is near under a given threshold. -/
theorem reimport_merges {env : ImportEnv} {s s' : Store} {res : ImportResult}
    {events : List ImportedChunk} (hf : NoFault s) (hr : Roomy t s)
    (hrun : (importOmfWithEvents x t doc opts env).run s = (.ok (res, events), s')) :
    (∀ p ∈ importPlan x t opts (isTrusted doc) env s.db.dedupRows s.nextId doc.memories.zipIdx,
      p.pieces = 1 → isDuplicate x t opts s'.db p.item.1 = true) ∧
    (opts.fuzzyThreshold = none →
      (∀ p ∈ importPlan x t opts (isTrusted doc) env s.db.dedupRows s.nextId doc.memories.zipIdx,
        p.pieces = 1) →
      ∀ env' : ImportEnv, ∃ res', (importOmfWithEvents x t doc opts env').run s' =
        (.ok (res', []), s') ∧ res'.imported = 0) ∧
    ∀ (now : ℤ) (item : OmfItem) (s₀ : Store),
      ((decideItem x t opts (isTrusted doc) now item).run s₀).1 = .ok .duplicate →
      ∃ m ∈ s₀.db.metadata, m.tenantId = t ∧ m.projectId = resolvedProject item ∧
        (m.canonicalText = some (itemCanonical x item) ∨
          ∃ thr text, opts.fuzzyThreshold = some thr ∧ m.canonicalText = some text ∧
            isNearDuplicate x (itemCanonical x item) text thr = true) := by
  rcases importOmf_run t opts env hf doc with
    ⟨e, _, herr⟩ | ⟨_, _, _, _, _, _, e, _, _, _, herr⟩ | ⟨hpre, st', s₁, db', hloop, _, hrows, hok⟩
  -- a refused document and a failed step do not return
  · rw [hrun] at herr
    exact absurd (Prod.mk.inj herr).1 (by simp)
  · rw [hrun] at herr
    exact absurd (Prod.mk.inj herr).1 (by simp)
  · rw [hrun] at hok
    obtain rfl : s' = { s₁ with db := db' } := (Prod.mk.inj hok).2
    -- linking changes nothing that the duplicate check looks at
    have hdedup : db'.dedupRows = s₁.db.dedupRows := by
      rw [Db.dedupRows, hrows, dedupRow_linkRows]
      rfl
    have hroomy₁ : Roomy t s₁ := (hloop.lateness hr [] false).2.2
    have hroomy : Roomy t { s₁ with db := db' } := by
      intro m hm
      change m ∈ db'.metadata at hm
      rw [hrows, linkRows_eq] at hm
      obtain ⟨r, hr', rfl⟩ := List.mem_map.mp hm
      obtain ⟨hid, htenant, hseg, hord⟩ := linkAll_frame t env.link
        (resolvedEdges st'.sourceToTarget st'.pendingEdges) r
      rw [hid, htenant, hseg, hord]
      exact hroomy₁ r hr'
    -- an item stored as one row is found by its canonical text
    refine ⟨?_, ?_, ?_⟩
    · intro p hp hone
      rw [isDuplicate_eq]
      refine isDuplicateIn_of_exact ?_
      rw [hdedup]
      exact hloop.duplicates_found hr hp hone
    -- judged against these rows nothing is new
    · intro hexact hone env'
      refine importOmf_idle x t doc opts env' (hloop.noFault hf) hroomy hpre ?_
      intro item hitem
      show judge x t opts (isTrusted doc) db'.dedupRows item.1 = .skipped ∨ _
      rw [hdedup]
      exact hloop.nothing_new hr hexact hone item hitem
    -- what the decision calls a duplicate was found by one of the two checks
    · intro now item s₀ hdup
      rw [decideItem_run] at hdup
      have hdupDb : isDuplicate x t opts s₀.db item = true := by
        unfold itemVerdict at hdup
        split at hdup
        · exact absurd (Except.ok.inj hdup) (by simp)
        · split at hdup
          · assumption
          · cases hreq : requestedLifecycle (isTrusted doc) item with
            | error e => rw [hreq] at hdup; exact absurd hdup (by simp [Except.map])
            | ok initial =>
              rw [hreq] at hdup
              have hgate := judgementOf_gateItem x item initial now
              rw [show Except.ok (gateItem x item initial now) = .ok .duplicate from hdup] at hgate
              split at hgate <;> exact absurd hgate (by simp [judgementOf])
      rw [isDuplicate_eq, isDuplicateIn, Bool.or_eq_true] at hdupDb
      have hscope : ∀ r ∈ s₀.db.dedupRows, inScope t (resolvedProject item) r = true →
          ∃ m ∈ s₀.db.metadata, m.tenantId = t ∧ m.projectId = resolvedProject item ∧
            m.canonicalText = r.canonicalText := by
        intro r hr' hin
        obtain ⟨m, hm, rfl⟩ := List.mem_map.mp hr'
        simp only [inScope, Bool.and_eq_true, beq_iff_eq] at hin
        exact ⟨m, hm, hin.1, hin.2, rfl⟩
      -- found by equal text, or by a near one under the threshold
      rcases hdupDb with hex | hfuzzy
      · obtain ⟨r, hr', hin⟩ := List.any_eq_true.mp hex
        rw [Bool.and_eq_true, beq_iff_eq] at hin
        obtain ⟨m, hm, ht, hp, hc⟩ := hscope r hr' hin.1
        exact ⟨m, hm, ht, hp, .inl (hc.trans hin.2)⟩
      · cases hthr : opts.fuzzyThreshold with
        | none =>
          rw [hthr] at hfuzzy
          exact absurd hfuzzy (by simp)
        | some thr =>
          rw [hthr] at hfuzzy
          obtain ⟨r, hr', hin⟩ := List.any_eq_true.mp hfuzzy
          have hmem := List.mem_filter.mp (List.mem_mergeSort.mp (List.mem_of_mem_take hr'))
          obtain ⟨m, hm, ht, hp, hc⟩ := hscope r hmem.1 hmem.2
          cases htext : r.canonicalText with
          | none =>
            rw [htext] at hin
            exact absurd hin (by simp)
          | some text =>
            rw [htext] at hin hc
            exact ⟨m, hm, ht, hp, .inr ⟨thr, text, rfl, hc, hin⟩⟩

end Second

/-! ### Sample documents -/

/-- A document with two items. -/
def sampleTwo : OmfDocument :=
  trustedDocument [lifecycleItem "a" [], lifecycleItem "b" []]

/-- The store behind the first import of the two items. -/
def sampleImported : Store :=
  ((importOmfWithEvents sampleOmf "t" sampleTwo {} sampleImportEnv).run {}).2

theorem reimport_merges_sampleTwo :
    sampleImported.db.metadata.length = 2 ∧
      ∃ res', (importOmfWithEvents sampleOmf "t" sampleTwo {} sampleImportEnv).run sampleImported =
        (.ok (res', []), sampleImported) ∧ res'.imported = 0 := by
  have hok : ((importOmfWithEvents sampleOmf "t" sampleTwo {} sampleImportEnv).run {}).1 =
      .ok ({ total := 2, imported := 2 }, [⟨0, .doc, none, "a"⟩, ⟨1, .doc, none, "b"⟩]) := by
    decide
  refine ⟨by decide, ?_⟩
  exact (reimport_merges sampleOmf "t" sampleTwo {} noFault_empty (roomy_empty "t")
    (Prod.ext hok rfl)).2.1 rfl (by decide) sampleImportEnv

/-- "aaaa" and "aaaaa" have the same trigrams: the second item is counted as a duplicate, and
no row has its canonical text. -/
theorem near_duplicate_without_row :
    (((importOmfWithEvents sampleOmf "t"
        (trustedDocument [lifecycleItem "aaaa" [], lifecycleItem "aaaaa" []])
        { fuzzyThreshold := some 0x3f666666 } sampleImportEnv).run {}).1.map Prod.fst =
      .ok { total := 2, imported := 1, duplicates := 1 }) ∧
    ∀ m ∈ ((importOmfWithEvents sampleOmf "t"
        (trustedDocument [lifecycleItem "aaaa" [], lifecycleItem "aaaaa" []])
        { fuzzyThreshold := some 0x3f666666 } sampleImportEnv).run {}).2.db.metadata,
      m.canonicalText ≠ some (itemCanonical sampleOmf (lifecycleItem "aaaaa" [])) := by
  constructor
  · decide +kernel
  · decide +kernel
