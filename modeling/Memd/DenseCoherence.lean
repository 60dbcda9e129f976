/-
# The dense index under concurrent calls

Between its locks a call leaves the index half changed: an embedding is cached and its point
not yet in the graph, or a graph without the excluded points is in place and their slots not
yet invalid.  `Coherent` is what holds of the index together with the calls in flight; every
step keeps it that meets `Sound`:

* an embedding is cached only where no valid one is;
* a batch that fails does so at its first item;
* one rebuild at a time is between its build and its end, and the inserts that overlap it
  are on one side: a point that was cached before the build is added before the swap, one
  that was cached behind it is added behind the swap.

`dense_index_coherent` is the invariant over all such runs; `reinsert_duplicates_point` is a
run of two sequential inserts that is not one of them.
-/
import Mathlib.Data.List.Forall2
import Mathlib.Data.List.Induction
import Mathlib.Data.List.Perm.Basic
import Memd.DenseIndex

/-! ## What a call in flight holds -/

namespace IndexCall

/-- The points the call has cached and not yet added. -/
def points : IndexCall → List Point
  | insertCached _ id e => [(id, e)]
  | batchCached _ toInsert => toInsert
  | _ => []

/-- The ids whose points the call has removed and whose slots it has not yet marked. -/
def hidden : IndexCall → List ℕ
  | rebuildSwapped _ ids => ids
  | _ => []

/-- A rebuild between its build and its end. -/
def inWindow : IndexCall → Bool
  | rebuildBuilt .. | rebuildSwapped .. => true
  | _ => false

/-- The chunks the call is about. -/
def chunks : IndexCall → List ChunkId
  | insertMapped c _ _ | insertCached c _ _ => [c]
  | batchCached cs _ | rebuildCollected cs _ | rebuildBuilt cs _ _ | rebuildSwapped cs _ => cs

/-- Their internal ids. -/
def ids : IndexCall → List ℕ
  | insertMapped _ id _ | insertCached _ id _ => [id]
  | batchCached _ toInsert => toInsert.map Prod.fst
  | rebuildCollected _ ids | rebuildBuilt _ ids _ | rebuildSwapped _ ids => ids

/-- The call has looked up its chunks and checked its vector. -/
structure Ok (call : IndexCall) (ix : HnswIndex) : Prop where
  mapped : List.Forall₂ (fun c id => ix.mapping.chunkToId c = some id) call.chunks call.ids
  length : ∀ c id e, call = insertMapped c id e → e.length = ix.dimension

end IndexCall

/-- The points that are cached and not yet added. -/
def pendingPoints (calls : List IndexCall) : List Point :=
  calls.flatMap IndexCall.points

/-- The ids that are removed and not yet marked. -/
def hiddenIds (calls : List IndexCall) : List ℕ :=
  calls.flatMap IndexCall.hidden

/-- The last answer about a chunk: it was inserted, or it was excluded. -/
def lastWord (log : List IndexEvent) (c : ChunkId) : Option Bool :=
  log.reverse.findSome? fun
    | .inserted cs => if c ∈ cs then some true else none
    | .excluded cs => if c ∈ cs then some false else none
    | .failed _ => none

/-- A failure says nothing about a chunk. -/
theorem lastWord_failed (log : List IndexEvent) (err : MemdError) (c : ChunkId) :
    lastWord (log ++ [.failed err]) c = lastWord log c := by
  simp [lastWord]

/-- An insertion has the last word on its chunks. -/
theorem lastWord_inserted (log : List IndexEvent) (cs : List ChunkId) (c : ChunkId) :
    lastWord (log ++ [.inserted cs]) c = if c ∈ cs then some true else lastWord log c := by
  unfold lastWord
  by_cases hc : c ∈ cs <;> simp [hc]

/-- An exclusion has the last word on its chunks. -/
theorem lastWord_excluded (log : List IndexEvent) (cs : List ChunkId) (c : ChunkId) :
    lastWord (log ++ [.excluded cs]) c = if c ∈ cs then some false else lastWord log c := by
  unfold lastWord
  by_cases hc : c ∈ cs <;> simp [hc]

/-! ## The invariant -/

/-- The graph a rebuild has built, against the cache of now: its points are still cached, and
what it lacks is about to be added. -/
structure Built (ix : HnswIndex) (pending : List Point) (ids : List ℕ) (graph : List Point) :
    Prop where
  nodup : graph.Nodup
  cached : ∀ p ∈ graph, ix.cache.get p.1 = some p.2 ∧ p.1 ∉ ids
  complete : ∀ p : Point, ix.cache.get p.1 = some p.2 → p.1 ∉ ids → p ∈ graph ∨ p ∈ pending

/-- The index with the calls in flight. -/
structure Coherent (ix : HnswIndex) (calls : List IndexCall) (log : List IndexEvent) : Prop where
  mapping : ix.mapping.Bijective
  dimension : ix.cache.dimension = ix.dimension
  known : ∀ id e, ix.cache.get id = some e → id < ix.mapping.nextId
  each : ∀ call ∈ calls, call.Ok ix
  nodup : (ix.graph ++ pendingPoints calls).Nodup
  points : ∀ p : Point, p ∈ ix.graph ∨ p ∈ pendingPoints calls ↔
    ix.cache.get p.1 = some p.2 ∧ p.1 ∉ hiddenIds calls
  window : (calls.filter IndexCall.inWindow).length ≤ 1
  built : ∀ cs ids graph, .rebuildBuilt cs ids graph ∈ calls →
    Built ix (pendingPoints calls) ids graph
  inserted : ∀ c, lastWord log c = some true →
    ∃ id e, ix.mapping.chunkToId c = some id ∧ ix.cache.get id = some e
  live : ∀ c id e, ix.mapping.chunkToId c = some id → ix.cache.get id = some e →
    lastWord log c = some true ∨ (id, e) ∈ pendingPoints calls

section Parts

variable {ix : HnswIndex} {calls calls' rest : List IndexCall} {log : List IndexEvent}
  {call : IndexCall}

/-- An id is hidden where a call in flight hides it. -/
theorem mem_hiddenIds {id : ℕ} : id ∈ hiddenIds calls ↔ ∃ call ∈ calls, id ∈ call.hidden :=
  List.mem_flatMap

/-- The points on their way, of one call and the others. -/
theorem pendingPoints_cons (call : IndexCall) (calls : List IndexCall) :
    pendingPoints (call :: calls) = call.points ++ pendingPoints calls :=
  List.flatMap_cons

/-- The hidden ids, of one call and the others. -/
theorem hiddenIds_cons (call : IndexCall) (calls : List IndexCall) :
    hiddenIds (call :: calls) = call.hidden ++ hiddenIds calls :=
  List.flatMap_cons

/-- The order of the calls does not matter. -/
theorem Coherent.perm (h : Coherent ix calls log) (hp : calls.Perm calls') :
    Coherent ix calls' log := by
  have hpending : (pendingPoints calls).Perm (pendingPoints calls') := hp.flatMap_right _
  have hhidden : ∀ id, id ∈ hiddenIds calls' ↔ id ∈ hiddenIds calls :=
    fun id => (hp.flatMap_right _).mem_iff.symm
  constructor
  · exact h.mapping
  · exact h.dimension
  · exact h.known
  · exact fun call hcall => h.each call (hp.mem_iff.mpr hcall)
  · exact (hpending.append_left _).nodup_iff.mp h.nodup
  · intro p
    rw [← hpending.mem_iff, hhidden]
    exact h.points p
  · rw [← (hp.filter _).length_eq]
    exact h.window
  · intro cs ids graph hmem
    obtain ⟨hnodup, hcached, hcomplete⟩ := h.built cs ids graph (hp.mem_iff.mpr hmem)
    exact ⟨hnodup, hcached, fun p hp₁ hp₂ => (hcomplete p hp₁ hp₂).imp_right hpending.mem_iff.mp⟩
  · exact h.inserted
  · intro c id e hc hget
    exact (h.live c id e hc hget).imp_right hpending.mem_iff.mp

/-- A point on its way is in the cache. -/
theorem Coherent.cached_of_pending (h : Coherent ix calls log) {p : Point}
    (hp : p ∈ pendingPoints calls) : ix.cache.get p.1 = some p.2 :=
  ((h.points p).mp (.inr hp)).1

/-- A call that holds nothing may come or go. -/
theorem coherent_cons_iff (hok : call.Ok ix) (hpoints : call.points = [])
    (hnone : call.hidden = []) (hwindow : call.inWindow = false) :
    Coherent ix (call :: calls) log ↔ Coherent ix calls log := by
  have hpending : pendingPoints (call :: calls) = pendingPoints calls := by
    rw [pendingPoints_cons, hpoints, List.nil_append]
  have hhidden : hiddenIds (call :: calls) = hiddenIds calls := by
    rw [hiddenIds_cons, hnone, List.nil_append]
  have hfilter : (call :: calls).filter IndexCall.inWindow = calls.filter IndexCall.inWindow :=
    List.filter_cons_of_neg (by rw [hwindow]; decide)
  constructor
  · rintro ⟨h1, h2, h3, h4, h5, h6, h7, h8, h9, h10⟩
    rw [hpending] at h5 h6 h8 h10
    rw [hhidden] at h6
    rw [hfilter] at h7
    exact ⟨h1, h2, h3, fun call' hcall' => h4 call' (List.mem_cons_of_mem _ hcall'), h5, h6, h7,
      fun cs ids graph hmem => h8 cs ids graph (List.mem_cons_of_mem _ hmem), h9, h10⟩
  · rintro ⟨h1, h2, h3, h4, h5, h6, h7, h8, h9, h10⟩
    refine ⟨h1, h2, h3, ?_, ?_, ?_, ?_, ?_, h9, ?_⟩
    · intro call' hcall'
      rcases List.mem_cons.mp hcall' with rfl | hcall'
      · exact hok
      · exact h4 call' hcall'
    · rw [hpending]
      exact h5
    · rw [hpending, hhidden]
      exact h6
    · rw [hfilter]
      exact h7
    · intro cs ids graph hmem
      rw [hpending]
      rcases List.mem_cons.mp hmem with rfl | hmem
      · exact absurd hwindow (by simp [IndexCall.inWindow])
      · exact h8 cs ids graph hmem
    · rw [hpending]
      exact h10

end Parts

/-! ## One lock -/

/-- Every element on the left has a partner on the right. -/
theorem exists_right_of_forall₂ {α β : Type} {R : α → β → Prop} {l₁ : List α} {l₂ : List β}
    (h : List.Forall₂ R l₁ l₂) {a : α} (ha : a ∈ l₁) : ∃ b ∈ l₂, R a b := by
  induction h with
  | nil => exact absurd ha (by simp)
  | @cons a' b' l₁' l₂' hr _ ih =>
    rcases List.mem_cons.mp ha with rfl | ha
    · exact ⟨b', by simp, hr⟩
    · obtain ⟨b, hb, hab⟩ := ih ha
      exact ⟨b, List.mem_cons_of_mem _ hb, hab⟩

section Steps

variable {ix : HnswIndex} {calls rest : List IndexCall} {log : List IndexEvent}
  {call call' : IndexCall}

/-- A call stays good when a chunk is given an id. -/
theorem IndexCall.Ok.mapping (h : call.Ok ix) (c : ChunkId) :
    call.Ok { ix with mapping := (ix.mapping.insert c).2 } :=
  ⟨h.mapped.imp fun _ _ hmapped => ix.mapping.insert_mono c hmapped, h.length⟩

/-- **The lock of the mapping**: a chunk is looked up or gets the next id. -/
theorem Coherent.mappingStep (h : Coherent ix calls log) (c : ChunkId) :
    Coherent { ix with mapping := (ix.mapping.insert c).2 } calls log := by
  have hbij := h.mapping.insert c
  -- below the old end the mapping has not changed
  have hold : ∀ c' id, id < ix.mapping.nextId →
      (ix.mapping.insert c).2.chunkToId c' = some id → ix.mapping.chunkToId c' = some id := by
    intro c' id hlt hc'
    obtain ⟨c₀, hc₀⟩ := Option.isSome_iff_exists.mp ((h.mapping.range id).mpr hlt)
    have hmapped := (h.mapping.inverse c₀ id).mpr hc₀
    have hmapped' := (hbij.inverse c₀ id).mp (ix.mapping.insert_mono c hmapped)
    rw [(hbij.inverse c' id).mp hc'] at hmapped'
    rw [Option.some.inj hmapped']
    exact hmapped
  constructor
  · exact hbij
  · exact h.dimension
  · exact fun id e hget => Nat.lt_of_lt_of_le (h.known id e hget) (ix.mapping.nextId_le_insert c)
  · exact fun call hcall => (h.each call hcall).mapping c
  · exact h.nodup
  · exact h.points
  · exact h.window
  · intro cs ids graph hmem
    obtain ⟨hnodup, hcached, hcomplete⟩ := h.built cs ids graph hmem
    exact ⟨hnodup, hcached, hcomplete⟩
  · intro c' hc'
    obtain ⟨id, e, hid, hget⟩ := h.inserted c' hc'
    exact ⟨id, e, ix.mapping.insert_mono c hid, hget⟩
  · intro c' id e hc' hget
    exact h.live c' id e (hold c' id (h.known id e hget) hc') hget

/-- **The lock of the cache**: an embedding goes into a slot that is not valid, and its point
is pending. -/
theorem Coherent.cacheStep (h : Coherent ix (call :: rest) log) {c : ChunkId} {id : ℕ}
    {e : Embedding} (hc : ix.mapping.chunkToId c = some id) (he : e.length = ix.cache.dimension)
    (hvacant : ix.cache.get id = none) (hshown : id ∉ hiddenIds (call :: rest))
    (hok : call'.Ok ix) (hpoints : call'.points = call.points ++ [(id, e)])
    (hhidden : call'.hidden = call.hidden) (hwindow : call.inWindow = false)
    (hwindow' : call'.inWindow = false) :
    Coherent { ix with cache := ix.cache.write id e he } (call' :: rest) log := by
  have hget : ∀ j, (ix.cache.write id e he).get j = if j = id then some e else ix.cache.get j :=
    EmbeddingCache.get_write id he
  have hmem : ∀ p, p ∈ pendingPoints (call' :: rest) ↔
      p ∈ pendingPoints (call :: rest) ∨ p = (id, e) := by
    intro p
    simp only [pendingPoints_cons, hpoints, List.mem_append, List.mem_singleton]
    tauto
  -- the new point is in neither the graph nor on its way, since its slot was not valid
  have hhidden' : hiddenIds (call' :: rest) = hiddenIds (call :: rest) := by
    rw [hiddenIds_cons, hiddenIds_cons, hhidden]
  have hnew : (id, e) ∉ ix.graph ++ pendingPoints (call :: rest) := by
    rw [List.mem_append, h.points, hvacant]
    simp
  constructor
  · exact h.mapping
  · exact h.dimension
  -- known: a cached id is one of the mapping
  · intro j e' hj
    rw [hget] at hj
    by_cases hji : j = id
    · rw [hji]
      exact h.mapping.lt hc
    · rw [if_neg hji] at hj
      exact h.known j e' hj
  -- each: the call that moves is fine by `hok`, the others do not see the cache
  · intro call₀ hcall₀
    rcases List.mem_cons.mp hcall₀ with rfl | hcall₀
    · exact ⟨hok.mapped, hok.length⟩
    · have hold := h.each call₀ (List.mem_cons_of_mem _ hcall₀)
      exact ⟨hold.mapped, hold.length⟩
  -- nodup: the new point is one of those on their way
  · have hperm : (ix.graph ++ pendingPoints (call' :: rest)).Perm
        ((id, e) :: (ix.graph ++ pendingPoints (call :: rest))) := by
      rw [pendingPoints_cons, pendingPoints_cons, hpoints, List.append_assoc, List.singleton_append,
        ← List.append_assoc, ← List.append_assoc]
      exact List.perm_middle
    show (ix.graph ++ pendingPoints (call' :: rest)).Nodup
    rw [hperm.nodup_iff, List.nodup_cons]
    exact ⟨hnew, h.nodup⟩
  -- points: the slot of the new id was empty, the others are as before
  · intro p
    rw [hmem, ← or_assoc, h.points, hhidden', hget]
    by_cases hp : p.1 = id
    · rw [if_pos hp, hp, hvacant]
      constructor
      · rintro (⟨hfalse, _⟩ | rfl)
        · exact absurd hfalse (by simp)
        · exact ⟨rfl, hshown⟩
      · rintro ⟨hpe, _⟩
        exact .inr (Prod.ext hp (Option.some.inj hpe).symm)
    · rw [if_neg hp]
      constructor
      · rintro (hold | rfl)
        · exact hold
        · exact absurd rfl hp
      · exact .inl
  -- window: neither this call nor the one it comes from is in the window
  · have hwin := h.window
    rw [List.filter_cons_of_neg (by rw [hwindow]; decide)] at hwin
    rw [List.filter_cons_of_neg (by rw [hwindow']; decide)]
    exact hwin
  -- built: a graph under construction has none of the new point
  · intro cs ids graph hbuilt
    have hold : .rebuildBuilt cs ids graph ∈ call :: rest := by
      rcases List.mem_cons.mp hbuilt with rfl | hbuilt
      · exact absurd hwindow' (by simp [IndexCall.inWindow])
      · exact List.mem_cons_of_mem _ hbuilt
    obtain ⟨hnodup, hcached, hcomplete⟩ := h.built cs ids graph hold
    refine ⟨hnodup, ?_, ?_⟩
    · intro p hp
      obtain ⟨hcache, hids⟩ := hcached p hp
      refine ⟨?_, hids⟩
      rw [hget, if_neg, hcache]
      intro hpid
      rw [hpid, hvacant] at hcache
      exact absurd hcache (by simp)
    · intro p hp hids
      rw [hmem]
      rw [hget] at hp
      by_cases hpid : p.1 = id
      · rw [if_pos hpid] at hp
        exact .inr (.inr (Prod.ext hpid (Option.some.inj hp).symm))
      · rw [if_neg hpid] at hp
        exact (hcomplete p hp hids).imp_right .inl
  -- inserted: what was inserted is still cached
  · intro c' hc'
    obtain ⟨id', e', hid', he'⟩ := h.inserted c' hc'
    by_cases hid : id' = id
    · exact ⟨id', e, hid', by rw [hget, if_pos hid]⟩
    · exact ⟨id', e', hid', by rw [hget, if_neg hid, he']⟩
  -- live: the new embedding is on its way into the graph
  · intro c' id' e' hc' he'
    rw [hmem]
    rw [hget] at he'
    by_cases hid : id' = id
    · rw [if_pos hid] at he'
      exact .inr (.inr (Prod.ext hid (Option.some.inj he').symm))
    · rw [if_neg hid] at he'
      exact (h.live c' id' e' hc' he').imp_right .inl

/-- **The lock of the graph**: the pending points of a call are added and it returns. -/
theorem Coherent.graphStep (h : Coherent ix (call :: rest) log) (hids : call.ids = call.points.map Prod.fst)
    (hhidden : call.hidden = []) (hwindow : call.inWindow = false)
    (hsound : ∀ cs ids graph, .rebuildBuilt cs ids graph ∈ rest → ∀ p ∈ call.points,
      p.1 ∈ ids ∨ p.1 ∈ graph.map Prod.fst) :
    Coherent { ix with graph := ix.graph ++ call.points } rest
      (log ++ [.inserted call.chunks]) := by
  have hok := (h.each call (by simp)).mapped
  rw [hids] at hok
  have hpending := pendingPoints_cons call rest
  have hhidden' : hiddenIds (call :: rest) = hiddenIds rest := by
    rw [hiddenIds_cons, hhidden, List.nil_append]
  constructor
  · exact h.mapping
  · exact h.dimension
  · exact h.known
  -- each: the other calls see neither the mapping nor the cache change
  · intro call₀ hcall₀
    have hold := h.each call₀ (List.mem_cons_of_mem _ hcall₀)
    exact ⟨hold.mapped, hold.length⟩
  -- nodup: the pending points of the call are now in the graph
  · show ((ix.graph ++ call.points) ++ pendingPoints rest).Nodup
    rw [List.append_assoc, ← hpending]
    exact h.nodup
  -- points: graph and pending points together are the same
  · intro p
    have hp := h.points p
    rw [hpending, hhidden', List.mem_append, ← or_assoc] at hp
    rw [← hp, List.mem_append]
  · have hwin := h.window
    rw [List.filter_cons_of_neg (by rw [hwindow]; decide)] at hwin
    exact hwin
  -- built: a graph under construction has what this call adds
  · intro cs ids graph hbuilt
    obtain ⟨hnodup, hcached, hcomplete⟩ := h.built cs ids graph (List.mem_cons_of_mem _ hbuilt)
    refine ⟨hnodup, hcached, ?_⟩
    intro p hp hnot
    have hold := hcomplete p hp hnot
    rw [hpending, List.mem_append] at hold
    rcases hold with hold | hold | hold
    · exact .inl hold
    · -- the point is added in time, so the rebuild has it already
      rcases hsound cs ids graph hbuilt p hold with hin | hin
      · exact absurd hin hnot
      · obtain ⟨p', hp', heq⟩ := List.mem_map.mp hin
        have hcache := (hcached p' hp').1
        rw [heq, hp] at hcache
        exact .inl (Prod.ext heq (Option.some.inj hcache).symm ▸ hp')
    · exact .inr hold
  -- inserted: this call has the last word on its chunks
  · intro c hc
    rw [lastWord_inserted] at hc
    by_cases hmem : c ∈ call.chunks
    · obtain ⟨id, hid, hmapped⟩ := exists_right_of_forall₂ hok hmem
      obtain ⟨p, hp, rfl⟩ := List.mem_map.mp hid
      exact ⟨p.1, p.2, hmapped, h.cached_of_pending (by rw [hpending]; simp [hp])⟩
    · rw [if_neg hmem] at hc
      exact h.inserted c hc
  -- live: an embedding that was on its way with this call is in the graph
  · intro c id e hc hget
    rw [lastWord_inserted]
    by_cases hmem : c ∈ call.chunks
    · rw [if_pos hmem]
      exact .inl rfl
    · rw [if_neg hmem]
      have hold := h.live c id e hc hget
      rw [hpending, List.mem_append] at hold
      rcases hold with hold | hold | hold
      · exact .inl hold
      · obtain ⟨c', hc', hmapped⟩ := exists_right_of_forall₂ hok.flip (List.mem_map_of_mem hold)
        rw [h.mapping.inverse] at hc hmapped
        rw [hc] at hmapped
        exact absurd (Option.some.inj hmapped ▸ hc') hmem
      · exact .inr hold

/-- A call that hides an id is between its cache and its graph. -/
theorem IndexCall.inWindow_of_hidden {id : ℕ} (h : id ∈ call.hidden) : call.inWindow = true := by
  cases call <;> first | rfl | exact absurd h (by simp [IndexCall.hidden])

/-- Where no call is in that window, nothing is hidden. -/
theorem hiddenIds_eq_nil (h : ∀ call ∈ rest, call.inWindow = false) : hiddenIds rest = [] := by
  rw [List.eq_nil_iff_forall_not_mem]
  intro id hid
  obtain ⟨call, hcall, hmem⟩ := mem_hiddenIds.mp hid
  exact absurd ((h call hcall).symm.trans (IndexCall.inWindow_of_hidden hmem)) (by decide)

/-- Nobody else is between build and end. -/
theorem Coherent.alone (h : Coherent ix (call :: rest) log) (hwindow : call.inWindow = true) :
    ∀ call' ∈ rest, call'.inWindow = false := by
  have hwin := h.window
  rw [List.filter_cons_of_pos hwindow, List.length_cons] at hwin
  have hnil : rest.filter IndexCall.inWindow = [] := List.length_eq_zero_iff.mp (by omega)
  intro call' hcall'
  have hnot := List.filter_eq_nil_iff.mp hnil call' hcall'
  simpa using hnot

/-- Where no call is in that window, none is found there. -/
theorem filter_inWindow_eq_nil (h : ∀ call ∈ rest, call.inWindow = false) :
    rest.filter IndexCall.inWindow = [] := by
  rw [List.filter_eq_nil_iff]
  intro call hcall
  rw [h call hcall]
  decide

/-- **The build of a rebuild**: a graph of all cached points that are not excluded. -/
theorem Coherent.buildStep {cs : List ChunkId} {ids : List ℕ}
    (h : Coherent ix (.rebuildCollected cs ids :: rest) log)
    (hfree : ∀ call ∈ rest, call.inWindow = false) :
    Coherent ix (.rebuildBuilt cs ids (HnswIndex.rebuildClean ix.cache ids) :: rest) log := by
  have hok := h.each (.rebuildCollected cs ids) (by simp)
  have hrest := (coherent_cons_iff hok rfl rfl rfl).mp h
  have hmem : ∀ p, p ∈ HnswIndex.rebuildClean ix.cache ids ↔
      ix.cache.get p.1 = some p.2 ∧ p.1 ∉ ids := by
    intro p
    simp [HnswIndex.rebuildClean, List.mem_filter]
  constructor
  · exact h.mapping
  · exact h.dimension
  · exact h.known
  · intro call hcall
    rcases List.mem_cons.mp hcall with rfl | hcall
    · exact ⟨hok.mapped, by simp⟩
    · exact h.each call (List.mem_cons_of_mem _ hcall)
  · exact hrest.nodup
  · exact hrest.points
  · rw [List.filter_cons_of_pos rfl, filter_inWindow_eq_nil hfree]
    simp
  · intro cs' ids' graph hbuilt
    rcases List.mem_cons.mp hbuilt with heq | hbuilt
    · obtain ⟨rfl, rfl, rfl⟩ := IndexCall.rebuildBuilt.inj heq
      refine ⟨ix.cache.nodup_iterValid.filter _, fun p hp => (hmem p).mp hp, ?_⟩
      intro p hp hnot
      exact .inl ((hmem p).mpr ⟨hp, hnot⟩)
    · exact absurd (hfree _ hbuilt) (by simp [IndexCall.inWindow])
  · exact h.inserted
  · exact hrest.live

/-- **The swap of a rebuild**: its graph replaces the old one, and with it goes what the old
one had more. -/
theorem Coherent.swapStep {cs : List ChunkId} {ids : List ℕ} {graph : List Point}
    (h : Coherent ix (.rebuildBuilt cs ids graph :: rest) log)
    (hsound : ∀ p ∈ pendingPoints rest, p.1 ∉ ids ∧ p.1 ∉ graph.map Prod.fst) :
    Coherent { ix with graph := graph } (.rebuildSwapped cs ids :: rest) log := by
  have hok := h.each (.rebuildBuilt cs ids graph) (by simp)
  have halone := h.alone rfl
  have hnone := hiddenIds_eq_nil halone
  obtain ⟨hnodup, hcached, hcomplete⟩ := h.built cs ids graph (by simp)
  have hpending : pendingPoints (.rebuildBuilt cs ids graph :: rest) = pendingPoints rest := rfl
  have hpending' : pendingPoints (.rebuildSwapped cs ids :: rest) = pendingPoints rest := rfl
  have hhidden : hiddenIds (.rebuildSwapped cs ids :: rest) = ids := by
    rw [hiddenIds_cons, hnone, List.append_nil]
    rfl
  constructor
  · exact h.mapping
  · exact h.dimension
  · exact h.known
  · intro call hcall
    rcases List.mem_cons.mp hcall with rfl | hcall
    · exact ⟨hok.mapped, by simp⟩
    · have hold := h.each call (List.mem_cons_of_mem _ hcall)
      exact ⟨hold.mapped, hold.length⟩
  · show (graph ++ pendingPoints rest).Nodup
    rw [List.nodup_append']
    refine ⟨hnodup, (List.nodup_append'.mp h.nodup).2.1, ?_⟩
    intro p hp hp'
    exact (hsound p hp').2 (List.mem_map_of_mem hp)
  · intro p
    rw [hpending', hhidden]
    constructor
    · rintro (hp | hp)
      · exact hcached p hp
      · exact ⟨h.cached_of_pending hp, (hsound p hp).1⟩
    · rintro ⟨hp, hnot⟩
      exact hcomplete p hp hnot
  · rw [List.filter_cons_of_pos rfl, filter_inWindow_eq_nil halone]
    simp
  · intro cs' ids' graph' hbuilt
    rcases List.mem_cons.mp hbuilt with heq | hbuilt
    · exact absurd heq (by simp)
    · exact absurd (halone _ hbuilt) (by simp [IndexCall.inWindow])
  · exact h.inserted
  · exact h.live

/-- **The end of a rebuild**: the slots of the excluded ids become invalid. -/
theorem Coherent.markStep {cs : List ChunkId} {ids : List ℕ}
    (h : Coherent ix (.rebuildSwapped cs ids :: rest) log) :
    Coherent { ix with cache := ix.cache.markAllInvalid ids } rest (log ++ [.excluded cs]) := by
  have hok := (h.each (.rebuildSwapped cs ids) (by simp)).mapped
  have halone := h.alone rfl
  have hnone := hiddenIds_eq_nil halone
  have hget := fun j => ix.cache.get_markAllInvalid ids j
  have hcached : ∀ j e, (ix.cache.markAllInvalid ids).get j = some e ↔
      ix.cache.get j = some e ∧ j ∉ ids := by
    intro j e
    rw [hget]
    by_cases hj : j ∈ ids <;> simp [hj]
  -- a chunk is excluded exactly when its id is
  have hexcluded : ∀ c id, ix.mapping.chunkToId c = some id → (c ∈ cs ↔ id ∈ ids) := by
    intro c id hc
    constructor
    · intro hmem
      obtain ⟨id', hid', hmapped⟩ := exists_right_of_forall₂ hok hmem
      rw [hc] at hmapped
      rw [Option.some.inj hmapped]
      exact hid'
    · intro hmem
      obtain ⟨c', hc', hmapped⟩ := exists_right_of_forall₂ hok.flip hmem
      rw [h.mapping.inverse] at hc hmapped
      rw [hc] at hmapped
      rw [Option.some.inj hmapped]
      exact hc'
  have hhidden : hiddenIds (.rebuildSwapped cs ids :: rest) = ids := by
    rw [hiddenIds_cons, hnone, List.append_nil]
    rfl
  constructor
  · exact h.mapping
  · exact (ix.cache.dimension_markAllInvalid ids).trans h.dimension
  · intro id e hid
    exact h.known id e ((hcached id e).mp hid).1
  · intro call hcall
    have hold := h.each call (List.mem_cons_of_mem _ hcall)
    exact ⟨hold.mapped, hold.length⟩
  · exact h.nodup
  · intro p
    rw [hnone, hcached]
    have hp := h.points p
    rw [hhidden, show pendingPoints (.rebuildSwapped cs ids :: rest) = pendingPoints rest from rfl]
      at hp
    rw [hp]
    simp
  · rw [filter_inWindow_eq_nil halone]
    simp
  · intro cs' ids' graph hbuilt
    exact absurd (halone _ hbuilt) (by simp [IndexCall.inWindow])
  · intro c hc
    rw [lastWord_excluded] at hc
    by_cases hmem : c ∈ cs
    · rw [if_pos hmem] at hc
      exact absurd hc (by simp)
    · rw [if_neg hmem] at hc
      obtain ⟨id, e, hid, he⟩ := h.inserted c hc
      exact ⟨id, e, hid, (hcached id e).mpr ⟨he, mt (hexcluded c id hid).mpr hmem⟩⟩
  · intro c id e hc he
    obtain ⟨he, hnot⟩ := (hcached id e).mp he
    rw [lastWord_excluded, if_neg (mt (hexcluded c id hc).mp hnot)]
    exact h.live c id e hc he

end Steps

/-! ## Batches -/

/-- The chunk has no valid embedding, and no rebuild is about to mark its slot. -/
def Vacant (ix : HnswIndex) (calls : List IndexCall) (c : ChunkId) : Prop :=
  ∀ id ∈ ix.mapping.chunkToId c, ix.cache.get id = none ∧ id ∉ hiddenIds calls

instance (ix : HnswIndex) (calls : List IndexCall) (c : ChunkId) : Decidable (Vacant ix calls c) :=
  inferInstanceAs (Decidable (∀ id ∈ ix.mapping.chunkToId c, _))

/-- The ids a rebuild excludes are old ones. -/
theorem Coherent.hidden_lt {ix : HnswIndex} {calls : List IndexCall} {log : List IndexEvent}
    (h : Coherent ix calls log) {id : ℕ} (hid : id ∈ hiddenIds calls) :
    id < ix.mapping.nextId := by
  obtain ⟨call, hcall, hmem⟩ := mem_hiddenIds.mp hid
  have hids : id ∈ call.ids := by
    cases call <;> first | exact hmem | exact absurd hmem (by simp [IndexCall.hidden])
  obtain ⟨c, _, hc⟩ := exists_right_of_forall₂ (h.each call hcall).mapped.flip hids
  exact h.mapping.lt hc

/-- The id a vacant chunk gets is that of a slot that is not valid. -/
theorem Coherent.vacant_insert {ix : HnswIndex} {calls : List IndexCall} {log : List IndexEvent}
    (h : Coherent ix calls log) {c : ChunkId} (hc : Vacant ix calls c) :
    ix.cache.get (ix.mapping.insert c).1 = none ∧ (ix.mapping.insert c).1 ∉ hiddenIds calls := by
  unfold IndexMapping.insert
  cases hmapped : ix.mapping.chunkToId c with
  | some id => exact hc id hmapped
  | none =>
    constructor
    · cases hget : ix.cache.get ix.mapping.nextId with
      | none => rfl
      | some e => exact absurd (h.known _ e hget) (Nat.lt_irrefl _)
    · intro hid
      exact absurd (h.hidden_lt hid) (Nat.lt_irrefl _)

/-- **A batch**: vectors of the right length for distinct vacant chunks all go through. -/
theorem Coherent.batch {ix : HnswIndex} {rest : List IndexCall} {log : List IndexEvent}
    {cs : List ChunkId} {toInsert : List Point} {items : List (ChunkId × Embedding)}
    (h : Coherent ix (.batchCached cs toInsert :: rest) log)
    (hlen : ∀ item ∈ items, item.2.length = ix.dimension) (hnodup : (items.map Prod.fst).Nodup)
    (hvacant : ∀ item ∈ items, Vacant ix rest item.1) :
    ∃ m cache points,
      HnswIndex.batchLoop ix.dimension items ix.mapping ix.cache toInsert = (m, cache, .ok points) ∧
      Coherent { ix with mapping := m, cache := cache }
        (.batchCached (cs ++ items.map Prod.fst) points :: rest) log := by
  induction items generalizing ix cs toInsert with
  | nil => exact ⟨ix.mapping, ix.cache, toInsert, rfl, by simpa using h⟩
  | cons item items ih =>
    obtain ⟨c, e⟩ := item
    rw [List.map_cons, List.nodup_cons] at hnodup
    have he : e.length = ix.cache.dimension := by
      rw [h.dimension]
      exact hlen (c, e) (by simp)
    have hself := ix.mapping.insert_self c
    have hmapped := h.mappingStep c
    have hfree : ix.cache.get (ix.mapping.insert c).1 = none ∧
        (ix.mapping.insert c).1 ∉ hiddenIds rest :=
      h.vacant_insert (hvacant (c, e) (by simp))
    have hok := (hmapped.each (.batchCached cs toInsert) (by simp)).mapped
    have hnext : Coherent { ix with
        mapping := (ix.mapping.insert c).2
        cache := ix.cache.write (ix.mapping.insert c).1 e he }
        (.batchCached (cs ++ [c]) (toInsert ++ [((ix.mapping.insert c).1, e)]) :: rest) log := by
      refine hmapped.cacheStep hself he hfree.1 hfree.2 ⟨?_, by simp⟩ rfl rfl rfl rfl
      show List.Forall₂ _ (cs ++ [c]) (List.map Prod.fst (toInsert ++ [_]))
      rw [List.map_append]
      exact List.rel_append hok (.cons hself .nil)
    -- the other chunks of the batch have other ids
    have hvacant' : ∀ item ∈ items, Vacant { ix with
        mapping := (ix.mapping.insert c).2
        cache := ix.cache.write (ix.mapping.insert c).1 e he } rest item.1 := by
      intro item hitem id hid
      have hne : item.1 ≠ c := fun heq => hnodup.1 (List.mem_map.mpr ⟨item, hitem, heq⟩)
      have hid_ne : id ≠ (ix.mapping.insert c).1 := by
        rintro rfl
        have h₁ := (hmapped.mapping.inverse _ _).mp hid
        have h₂ := (hmapped.mapping.inverse _ _).mp hself
        rw [h₁] at h₂
        exact hne (Option.some.inj h₂)
      have hold : ix.mapping.chunkToId item.1 = some id := by
        rw [← ix.mapping.insert_of_ne hne]
        exact hid
      obtain ⟨hget, hhidden⟩ := hvacant item (by simp [hitem]) id hold
      refine ⟨?_, hhidden⟩
      show (ix.cache.write (ix.mapping.insert c).1 e he).get id = none
      rw [EmbeddingCache.get_write, if_neg hid_ne, hget]
    obtain ⟨m, cache, points, hloop, hcoh⟩ := ih hnext
      (fun item hitem => hlen item (by simp [hitem])) hnodup.2 hvacant'
    refine ⟨m, cache, points, ?_, ?_⟩
    · rw [HnswIndex.batchLoop, if_neg (by simpa using hlen (c, e) (by simp)),
        EmbeddingCache.insert, dif_pos he]
      exact hloop
    · have hcs : cs ++ ((c, e) :: items).map Prod.fst = cs ++ [c] ++ items.map Prod.fst := by simp
      rw [hcs]
      exact hcoh

/-! ## Steps and runs -/

/-- A batch fails at its first item, or it has vectors of the right length for distinct vacant
chunks. -/
def BatchSound (ix : HnswIndex) (calls : List IndexCall) (items : List (ChunkId × Embedding)) :
    Prop :=
  (∃ item ∈ items.head?, item.2.length ≠ ix.dimension) ∨
    (∀ item ∈ items, item.2.length = ix.dimension) ∧ (items.map Prod.fst).Nodup ∧
      ∀ item ∈ items, Vacant ix calls item.1

instance (ix : HnswIndex) (calls : List IndexCall) (items : List (ChunkId × Embedding)) :
    Decidable (BatchSound ix calls items) :=
  inferInstanceAs (Decidable (_ ∨ _ ∧ _ ∧ _))

/-- A rebuild that has not swapped yet either has the point or excludes it. -/
def IndexCall.takes (p : Point) : IndexCall → Bool
  | rebuildBuilt _ ids graph => decide (p.1 ∈ ids) || decide (p.1 ∈ graph.map Prod.fst)
  | _ => true

/-- The points are added in time for every rebuild. -/
def AddSound (calls : List IndexCall) (points : List Point) : Prop :=
  ∀ call ∈ calls, ∀ p ∈ points, call.takes p = true

instance (calls : List IndexCall) (points : List Point) : Decidable (AddSound calls points) :=
  inferInstanceAs (Decidable (∀ call ∈ calls, _))

namespace DenseSystem

/-- What the next lock of a call needs. -/
def AdvanceSound (s : DenseSystem) : IndexCall → Prop
  | .insertMapped _ id _ => s.index.cache.get id = none ∧ id ∉ hiddenIds s.calls
  | .insertCached _ id e => AddSound s.calls [(id, e)]
  | .batchCached _ toInsert => AddSound s.calls toInsert
  | .rebuildCollected .. => ∀ call ∈ s.calls, call.inWindow = false
  | .rebuildBuilt _ ids graph =>
    ∀ p ∈ pendingPoints s.calls, p.1 ∉ ids ∧ p.1 ∉ graph.map Prod.fst
  | .rebuildSwapped .. => True

instance (s : DenseSystem) : DecidablePred s.AdvanceSound
  | .insertMapped _ _ _ => inferInstanceAs (Decidable (_ ∧ _))
  | .insertCached _ _ _ => inferInstanceAs (Decidable (AddSound _ _))
  | .batchCached _ _ => inferInstanceAs (Decidable (AddSound _ _))
  | .rebuildCollected _ _ => inferInstanceAs (Decidable (∀ call ∈ s.calls, _))
  | .rebuildBuilt _ _ _ => inferInstanceAs (Decidable (∀ p ∈ pendingPoints s.calls, _))
  | .rebuildSwapped _ _ => inferInstanceAs (Decidable True)

/-- What a step needs. -/
def Sound (s : DenseSystem) : DenseStep → Prop
  | .start (.insertBatch items) => BatchSound s.index s.calls items
  | .start _ => True
  | .next k => ∀ call ∈ s.calls[k]?, s.AdvanceSound call

instance (s : DenseSystem) : DecidablePred s.Sound
  | .start (.insertBatch _) => inferInstanceAs (Decidable (BatchSound _ _ _))
  | .start (.insert _ _) => inferInstanceAs (Decidable True)
  | .start (.rebuild _) => inferInstanceAs (Decidable True)
  | .next k => inferInstanceAs (Decidable (∀ call ∈ s.calls[k]?, _))

/-- All steps of a run have what they need. -/
def SoundRun (s : DenseSystem) : List DenseStep → Prop
  | [] => True
  | a :: steps => s.Sound a ∧ (s.step a).SoundRun steps

instance decidableSoundRun (s : DenseSystem) : DecidablePred s.SoundRun
  | [] => inferInstanceAs (Decidable True)
  | a :: steps =>
    have := decidableSoundRun (s.step a) steps
    inferInstanceAs (Decidable (_ ∧ _))

variable {s : DenseSystem}

/-- A call that holds nothing and has looked up its chunks joins the others. -/
theorem coherent_concat {ix : HnswIndex} {calls : List IndexCall} {log : List IndexEvent}
    {call : IndexCall} (h : Coherent ix (call :: calls) log) :
    Coherent ix (calls ++ [call]) log :=
  h.perm (List.perm_append_singleton call calls).symm

/-- A failure keeps the index coherent. -/
theorem Coherent.failed {ix : HnswIndex} {calls : List IndexCall} {log : List IndexEvent}
    (h : Coherent ix calls log) (err : MemdError) : Coherent ix calls (log ++ [.failed err]) := by
  refine ⟨h.mapping, h.dimension, h.known, h.each, h.nodup, h.points, h.window, h.built, ?_, ?_⟩
  · intro c hc
    rw [lastWord_failed] at hc
    exact h.inserted c hc
  · intro c id e hc hget
    rw [lastWord_failed]
    exact h.live c id e hc hget

/-- The chunks with an id, beside their ids. -/
theorem forall₂_filterMap (f : ChunkId → Option ℕ) (cs : List ChunkId) :
    List.Forall₂ (fun c id => f c = some id) (cs.filter fun c => (f c).isSome)
      (cs.filterMap f) := by
  induction cs with
  | nil => exact .nil
  | cons c cs ih =>
    cases hc : f c with
    | none => simpa [hc] using ih
    | some id => simpa [hc] using ih

/-- **A call starts.** -/
theorem coherent_start (h : Coherent s.index s.calls s.log) {req : IndexRequest}
    (hs : s.Sound (.start req)) :
    Coherent (s.index.start req).index (s.calls ++ (s.index.start req).call.toList)
      (s.log ++ (s.index.start req).answer) := by
  cases req with
  | insert c e =>
    by_cases he : e.length ≠ s.index.dimension
    · have hstart : s.index.start (.insert c e) = _ := if_pos he
      rw [hstart]
      simpa using Coherent.failed h _
    · have hstart : s.index.start (.insert c e) = _ := if_neg he
      rw [hstart]
      have hmapped := h.mappingStep c
      have hok : (IndexCall.insertMapped c (s.index.mapping.insert c).1 e).Ok
          { s.index with mapping := (s.index.mapping.insert c).2 } := by
        refine ⟨.cons (s.index.mapping.insert_self c) .nil, ?_⟩
        intro c' id' e' heq
        obtain ⟨rfl, rfl, rfl⟩ := IndexCall.insertMapped.inj heq
        exact not_not.mp he
      simpa using coherent_concat ((coherent_cons_iff hok rfl rfl rfl).mpr hmapped)
  | insertBatch items =>
    rcases hs with ⟨item, hitem, hbad⟩ | ⟨hlen, hnodup, hvacant⟩
    · -- the first item is refused, and nothing has happened
      cases items with
      | nil => exact absurd hitem (by simp)
      | cons item' items =>
        obtain rfl : item' = item := by simpa using hitem
        have hloop : HnswIndex.batchLoop s.index.dimension (item' :: items) s.index.mapping
            s.index.cache [] = (s.index.mapping, s.index.cache, .error _) := if_pos hbad
        simp only [HnswIndex.start, hloop]
        simpa using Coherent.failed h _
    · have hempty : Coherent s.index (.batchCached [] [] :: s.calls) s.log :=
        (coherent_cons_iff ⟨.nil, by simp⟩ rfl rfl rfl).mpr h
      obtain ⟨m, cache, points, hloop, hcoh⟩ := hempty.batch hlen hnodup hvacant
      simp only [HnswIndex.start, hloop]
      simpa using coherent_concat hcoh
  | rebuild deleted =>
    have hok : (IndexCall.rebuildCollected
        (deleted.filter fun c => (s.index.mapping.getInternalId c).isSome)
        (deleted.filterMap s.index.mapping.getInternalId)).Ok s.index :=
      ⟨forall₂_filterMap _ _, by simp⟩
    simpa [HnswIndex.start] using coherent_concat ((coherent_cons_iff hok rfl rfl rfl).mpr h)

/-- What the next lock of a call leaves, with the call in front of the others. -/
theorem coherent_advance {call : IndexCall} {rest : List IndexCall}
    (hp : s.calls.Perm (call :: rest)) (h : Coherent s.index (call :: rest) s.log)
    (hs : s.AdvanceSound call) :
    Coherent (s.index.advance call).index ((s.index.advance call).call.toList ++ rest)
      (s.log ++ (s.index.advance call).answer) := by
  have hmem : ∀ call', call' ∈ s.calls ↔ call' ∈ call :: rest := fun _ => hp.mem_iff
  have hrest : ∀ call' ∈ rest, call' ∈ s.calls :=
    fun call' hcall' => (hmem call').mpr (List.mem_cons_of_mem _ hcall')
  cases call with
  | insertMapped c id e =>
    have hok := h.each (.insertMapped c id e) (by simp)
    have he : e.length = s.index.cache.dimension := by
      rw [h.dimension]
      exact hok.length c id e rfl
    have hc : s.index.mapping.chunkToId c = some id := by
      cases hok.mapped with
      | cons hc _ => exact hc
    have hhidden : id ∉ hiddenIds (.insertMapped c id e :: rest) := by
      intro hid
      exact hs.2 ((hp.flatMap_right IndexCall.hidden).mem_iff.mpr hid)
    have hinsert : s.index.cache.insert id e = .ok (s.index.cache.write id e he) := dif_pos he
    have hok' : (IndexCall.insertCached c id e).Ok s.index := ⟨.cons hc .nil, by simp⟩
    simp only [HnswIndex.advance, hinsert]
    simpa using h.cacheStep hc he hs.1 hhidden hok' rfl rfl rfl rfl
  | insertCached c id e =>
    exact h.graphStep rfl rfl rfl fun cs ids graph hbuilt p hmem => by
      simpa [IndexCall.takes] using hs _ (hrest _ hbuilt) p hmem
  | batchCached cs toInsert =>
    exact h.graphStep rfl rfl rfl fun cs ids graph hbuilt p hmem => by
      simpa [IndexCall.takes] using hs _ (hrest _ hbuilt) p hmem
  | rebuildCollected cs ids =>
    have hnext := h.buildStep fun call' hcall' => hs call' (hrest call' hcall')
    simpa [HnswIndex.advance] using hnext
  | rebuildBuilt cs ids graph =>
    have hpending : ∀ p, p ∈ pendingPoints rest → p ∈ pendingPoints s.calls := by
      intro p hmem
      exact (hp.flatMap_right IndexCall.points).mem_iff.mpr (List.mem_append_right _ hmem)
    have hnext := h.swapStep fun p hmem => hs p (hpending p hmem)
    simpa [HnswIndex.advance] using hnext
  | rebuildSwapped cs ids =>
    simpa [HnswIndex.advance] using h.markStep

/-- **One step** keeps the index coherent with the calls in flight. -/
theorem coherent_step (h : Coherent s.index s.calls s.log) {a : DenseStep} (hs : s.Sound a) :
    Coherent (s.step a).index (s.step a).calls (s.step a).log := by
  cases a with
  | start req => exact coherent_start h hs
  | next k =>
    cases hk : s.calls[k]? with
    | none =>
      have hstep : s.step (.next k) = s := by
        simp only [step, hk]
      rw [hstep]
      exact h
    | some call =>
      obtain ⟨hlt, hget⟩ := List.getElem?_eq_some_iff.mp hk
      have hperm : s.calls.Perm (call :: s.calls.eraseIdx k) := by
        rw [← hget]
        exact (List.getElem_cons_eraseIdx_perm hlt).symm
      have hnext := coherent_advance hperm (h.perm hperm) (hs call hk)
      simp only [step, hk]
      cases hcall : (s.index.advance call).call with
      | none =>
        rw [hcall] at hnext
        exact hnext
      | some call' =>
        rw [hcall] at hnext
        exact hnext.perm (List.set_perm_cons_eraseIdx hlt call').symm

/-! ## Whenever no call is in flight -/

/-- The chunks of the points of the graph. -/
def graphChunks (s : DenseSystem) : List (Option ChunkId) :=
  s.index.graph.map fun p => s.index.mapping.getChunkId p.1

/-- The three structures agree, and so does what a search returns with what the calls have
answered. -/
structure Consistent (s : DenseSystem) : Prop where
  mapping : s.index.mapping.Bijective
  /-- one point for a valid id, with its vector, and none for any other -/
  points : ∀ id, s.index.graph.filter (·.1 = id) = ((s.index.cache.get id).map (id, ·)).toList
  distinct : ∀ knn, HnswIndex.LawfulKnn knn → ∀ query k res,
    s.index.search knn query k = .ok res → res.Nodup
  excluded : ∀ knn, HnswIndex.LawfulKnn knn → ∀ query k res,
    s.index.search knn query k = .ok res → ∀ c, lastWord s.log c = some false → c ∉ res
  findable : ∀ c, lastWord s.log c = some true → ∃ knn, HnswIndex.LawfulKnn knn ∧
    ∃ query k res, s.index.search knn query k = .ok res ∧ c ∈ res

section Quiet

variable {ix : HnswIndex} {log : List IndexEvent}

/-- Between calls the graph holds the points of the cache. -/
theorem Coherent.mem_graph (h : Coherent ix [] log) (p : Point) :
    p ∈ ix.graph ↔ ix.cache.get p.1 = some p.2 := by
  have hp := h.points p
  simpa [pendingPoints, hiddenIds] using hp

/-- Between calls the graph holds each id once. -/
theorem Coherent.filter_graph (h : Coherent ix [] log) (id : ℕ) :
    ix.graph.filter (·.1 = id) = ((ix.cache.get id).map (id, ·)).toList := by
  have hnodup : ix.graph.Nodup := by simpa [pendingPoints] using h.nodup
  cases hget : ix.cache.get id with
  | none =>
    show _ = []
    rw [List.filter_eq_nil_iff]
    intro p hp hid
    have hcached := (Coherent.mem_graph h p).mp hp
    rw [of_decide_eq_true hid, hget] at hcached
    exact absurd hcached (by simp)
  | some e =>
    show _ = [(id, e)]
    rw [← List.perm_singleton, List.perm_ext_iff_of_nodup (hnodup.filter _) (List.nodup_singleton _)]
    intro p
    rw [List.mem_filter, Coherent.mem_graph h, List.mem_singleton, decide_eq_true_eq]
    constructor
    · rintro ⟨hcached, hid⟩
      rw [hid, hget] at hcached
      exact Prod.ext hid (Option.some.inj hcached).symm
    · rintro rfl
      exact ⟨hget, rfl⟩

/-- Two points of the graph are of two chunks. -/
theorem Coherent.nodup_chunks (h : Coherent ix [] log) :
    (ix.graph.filterMap fun p => ix.mapping.getChunkId p.1).Nodup := by
  have hnodup : ix.graph.Nodup := by simpa [pendingPoints] using h.nodup
  rw [List.Nodup, List.pairwise_filterMap]
  refine hnodup.imp_of_mem ?_
  intro p q hp hq hne c hc c' hc' heq
  subst heq
  have hid := (h.mapping.inverse c p.1).mpr hc
  rw [(h.mapping.inverse c q.1).mpr hc'] at hid
  have hpq : p.1 = q.1 := (Option.some.inj hid).symm
  have hcached := (Coherent.mem_graph h p).mp hp
  rw [hpq, (Coherent.mem_graph h q).mp hq] at hcached
  exact hne (Prod.ext hpq (Option.some.inj hcached).symm)

/-- What a search answers. -/
theorem search_eq_ok {knn : List Point → Embedding → ℕ → List Point} {query : Embedding} {k : ℕ}
    {res : List ChunkId} (h : ix.search knn query k = .ok res) :
    res = (knn ix.graph query k).filterMap fun p => ix.mapping.getChunkId p.1 := by
  unfold HnswIndex.search at h
  split at h
  · exact absurd h (by simp)
  · exact (Except.ok.inj h).symm

/-- A coherent index between calls is consistent. -/
theorem consistent_of_coherent (h : Coherent s.index [] s.log) : s.Consistent where
  mapping := h.mapping
  points := Coherent.filter_graph h
  distinct := by
    intro knn hknn query k res hres
    obtain ⟨found, hperm, hsub⟩ := hknn s.index.graph query k
    rw [search_eq_ok hres, ← (hperm.filterMap _).nodup_iff]
    exact (hsub.filterMap _).nodup (Coherent.nodup_chunks h)
  excluded := by
    intro knn hknn query k res hres c hc hmem
    rw [search_eq_ok hres, List.mem_filterMap] at hmem
    obtain ⟨p, hp, hchunk⟩ := hmem
    have hcached := (Coherent.mem_graph h p).mp ((hknn s.index.graph query k).subset hp)
    rcases h.live c p.1 p.2 ((h.mapping.inverse c p.1).mpr hchunk) hcached with hlast | hpending
    · rw [hc] at hlast
      exact absurd hlast (by simp)
    · exact absurd hpending (by simp [pendingPoints])
  findable := by
    intro c hc
    obtain ⟨id, e, hid, hget⟩ := h.inserted c hc
    refine ⟨fun graph _ _ => graph, fun graph _ _ => List.Subperm.refl graph,
      List.replicate s.index.dimension 0, 0, _, if_neg (by simp), ?_⟩
    exact List.mem_filterMap.mpr ⟨(id, e), (Coherent.mem_graph h _).mpr hget,
      (h.mapping.inverse c id).mp hid⟩

end Quiet

/-- A new index is coherent. -/
theorem coherent_new (dimension : ℕ) : Coherent (.new dimension) [] [] := by
  have hget : ∀ id, (EmbeddingCache.new dimension).get id = none := by
    intro id
    rfl
  constructor
  · exact IndexMapping.bijective_new
  · rfl
  · intro id e h
    exact absurd ((hget id).symm.trans h) (by simp)
  · simp
  · simp [pendingPoints, HnswIndex.new]
  · intro p
    show p ∈ [] ∨ p ∈ [] ↔ (EmbeddingCache.new dimension).get p.1 = some p.2 ∧ _
    rw [hget]
    simp
  · simp
  · simp
  · intro c hc
    exact absurd hc (by simp [lastWord])
  · intro c id e hc
    exact absurd hc (by simp [HnswIndex.new])

/-- The state after any part of a run. -/
theorem coherent_run {steps pre : List DenseStep} (h : Coherent s.index s.calls s.log)
    (hsound : s.SoundRun steps) (hpre : pre <+: steps) :
    Coherent (pre.foldl step s).index (pre.foldl step s).calls (pre.foldl step s).log := by
  induction steps generalizing s pre with
  | nil =>
    rw [List.prefix_nil.mp hpre]
    exact h
  | cons a steps ih =>
    cases pre with
    | nil => exact h
    | cons b pre =>
      obtain ⟨rfl, htail⟩ := List.cons_prefix_cons.mp hpre
      exact ih (s := s.step b) (coherent_step h hsound.1) hsound.2 htail

/-- **The dense index is coherent** whenever no call is in flight, in every run whose steps
have what they need: the mapping is a bijection, the graph has exactly the cached points, and
a search finds each chunk once, none that the last word excluded, and can find every one the
last word inserted. -/
theorem dense_index_coherent (dimension : ℕ) (steps : List DenseStep)
    (hsound : SoundRun ⟨.new dimension, [], []⟩ steps) :
    ∀ pre, pre <+: steps → (run dimension pre).calls = [] → (run dimension pre).Consistent := by
  intro pre hpre hquiet
  have h : Coherent (run dimension pre).index (run dimension pre).calls (run dimension pre).log :=
    coherent_run (coherent_new dimension) hsound hpre
  rw [hquiet] at h
  exact consistent_of_coherent h

/-- An insert and a batch overlap; then a rebuild excludes chunk 6 while chunk 8 is inserted,
cached behind the build and added behind the swap; then chunk 6 comes back. -/
def sampleOverlap : List DenseStep :=
  [.start (.insert 5 [0]), .start (.insertBatch [(6, [0]), (7, [1])]), .next 0, .next 0, .next 0,
   .start (.rebuild [6, 9]), .start (.insert 8 [1]), .next 0, .next 1, .next 0, .next 1, .next 0,
   .start (.insert 6 [1]), .next 0, .next 0]

/-- Two calls that overlap on different chunks. -/
theorem dense_index_coherent_sampleOverlap :
    SoundRun ⟨.new 1, [], []⟩ sampleOverlap ∧ (run 1 sampleOverlap).calls.length = 0 ∧
      (run 1 sampleOverlap).graphChunks = [some 5, some 7, some 8, some 6] ∧
      (run 1 sampleOverlap).Consistent := by
  have hsound : SoundRun ⟨.new 1, [], []⟩ sampleOverlap := by decide
  have hquiet : (run 1 sampleOverlap).calls.length = 0 := by decide
  exact ⟨hsound, hquiet, by decide,
    dense_index_coherent 1 sampleOverlap hsound _ (List.prefix_refl _)
      (List.length_eq_zero_iff.mp hquiet)⟩

/-- The same chunk is inserted twice, one call behind the other. -/
def sampleReinsert : List DenseStep :=
  [.start (.insert 5 [0]), .next 0, .next 0, .start (.insert 5 [0]), .next 0, .next 0]

/-- The second insert reuses the internal id and adds a second point: a search finds the chunk
twice. -/
theorem reinsert_duplicates_point :
    (run 1 sampleReinsert).calls.length = 0 ∧
      (run 1 sampleReinsert).graphChunks = [some 5, some 5] ∧
      ¬ (run 1 sampleReinsert).Consistent := by
  refine ⟨by decide, by decide, ?_⟩
  intro h
  have hpoints := congrArg List.length (h.points 0)
  exact absurd hpoints (by decide)

end DenseSystem
