/-
# Current lessons

The walk along the corrections (`collect_terminals`) and what `current_lesson_heads` finds with
it, for cases whose references point back.

* `collectTerminals_eq_leaves` — the walk never meets an artifact twice, and finds the ends of the
  chains of corrections;
* `currentLessonHeads_eq` — so the current lessons of such a case are always found;
* `mem_headGroups` — a current lesson is the end of a chain that starts at a lesson;
* `Unforked.currentLessonHeads_eq` — when nothing is corrected twice, every lesson has exactly one
  current version and the times leave nothing open.
-/
import Memd.CaseLaw
import Memd.CausalOrder
import Memd.SuccessorForest

open Proc (except_bind_eq_ok)

namespace Experience

open ExperienceArtifact

variable {l l' : List ExperienceArtifact} {a b root : ExperienceArtifact} {id : String}

/-- The references of the artifacts can be ordered. -/
abbrev CausalCase (l : List ExperienceArtifact) : Prop :=
  Causal.Acyclic (fun a : ExperienceArtifact => a.artifactId) ExperienceArtifact.causalIds l

/-- `b` is a correction of `a`. -/
abbrev Corrects (l : List ExperienceArtifact) : ExperienceArtifact → ExperienceArtifact → Prop :=
  Forest.Descends (fun a : ExperienceArtifact => a.artifactId) (childrenOf l)

/-- Nothing is corrected twice. -/
def Unforked (l : List ExperienceArtifact) : Prop :=
  ∀ x ∈ l, ∀ y ∈ l, x.supersedes?.isSome = true → x.supersedes? = y.supersedes? → x = y

/-- The corrections of an artifact are those that name it. -/
theorem mem_childrenOf : b ∈ childrenOf l id ↔
    (∃ a ∈ l, a.artifactId = id) ∧ b ∈ l ∧ b.supersedes? = some id := by
  unfold childrenOf
  split_ifs with hsome
  · rw [List.mem_filter, beq_iff_eq]
    exact ⟨fun h => ⟨isSome_byId.mp hsome, h⟩, fun h => h.2⟩
  · constructor
    · exact fun h => absurd h List.not_mem_nil
    · exact fun h => absurd (isSome_byId.mpr h.1) hsome

/-- What a correction supersedes must be there before it. -/
theorem mem_causalIds_of_supersedes (h : b.supersedes? = some id) : id ∈ b.causalIds := by
  unfold supersedes? at h
  unfold ExperienceArtifact.causalIds
  split at h
  · rename_i hevent
    obtain rfl := Option.some.inj h
    rw [hevent]
    simp [ExperienceEvent.causalIds]
  · exact absurd h (by simp)

/-- The corrections of a case have ranks. -/
theorem exists_ranked (hk : KeyedIds l) (h : CausalCase l) : ∃ rank,
    Forest.Ranked (fun a : ExperienceArtifact => a.artifactId) (childrenOf l) rank l.length ∧
      ∀ a ∈ l, rank a.artifactId < l.length := by
  obtain ⟨rank, hbound, hlt⟩ := h.rank hk
  refine ⟨rank, ⟨fun a b hb => ?_, fun a b hb => ?_⟩, hbound⟩
  · obtain ⟨-, hmem, hsupersedes⟩ := mem_childrenOf.mp hb
    exact hlt b hmem _ (mem_causalIds_of_supersedes hsupersedes)
  · exact hbound b (mem_childrenOf.mp hb).2.1

/-- The ends of the chains of corrections from an artifact. -/
def terminalsOf (l : List ExperienceArtifact) (a : ExperienceArtifact) : List ExperienceArtifact :=
  Forest.leaves (fun a : ExperienceArtifact => a.artifactId) (childrenOf l) l.length a

/-- **The walk** along ranked successors meets nothing twice. -/
theorem collectTerminals_eq_leaves {children : String → List ExperienceArtifact}
    {rank : String → ℕ} {bound : ℕ}
    (h : Forest.Ranked (fun a : ExperienceArtifact => a.artifactId) children rank bound) {n : ℕ}
    {visiting : List String} (hvisiting : ∀ v ∈ visiting, rank v < rank a.artifactId)
    (hn : bound ≤ rank a.artifactId + n + 1) :
    collectTerminals children (n + 1) visiting a =
      .ok (Forest.leaves (fun a : ExperienceArtifact => a.artifactId) children n a) := by
  have hnew : visiting.contains a.artifactId = false := by
    rw [List.contains_eq_mem, decide_eq_false_iff_not]
    intro hmem
    exact absurd (hvisiting _ hmem) (lt_irrefl _)
  induction n generalizing a visiting with
  | zero =>
    have hnil : children a.artifactId = [] := h.next_eq_nil hn
    simp only [collectTerminals, hnew, hnil, Forest.leaves]
    rfl
  | succ n ih =>
    have hturn : ∀ c ∈ children a.artifactId,
        collectTerminals children (n + 1) (a.artifactId :: visiting) c =
          .ok (Forest.leaves (fun a : ExperienceArtifact => a.artifactId) children n c) := by
      intro c hc
      have hlt : rank a.artifactId < rank c.artifactId := h.lt a c hc
      have hbefore : ∀ v ∈ a.artifactId :: visiting, rank v < rank c.artifactId := by
        intro v hv
        rcases List.mem_cons.mp hv with rfl | hv
        · exact hlt
        · exact (hvisiting v hv).trans hlt
      refine ih hbefore (by omega) ?_
      rw [List.contains_eq_mem, decide_eq_false_iff_not]
      intro hmem
      exact absurd (hbefore _ hmem) (lt_irrefl _)
    rw [collectTerminals, hnew, Forest.leaves]
    dsimp only
    by_cases hnil : children a.artifactId = []
    · rw [hnil]
      rfl
    · have hempty : ¬ (children a.artifactId).isEmpty = true :=
        fun hempty => hnil (List.isEmpty_iff.mp hempty)
      rw [if_neg (by decide : ¬ false = true), if_neg hempty, if_neg hempty,
        Fallible.mapM_total hturn]
      rfl

/-- The walk of the source finds the ends of the chains. -/
theorem collectTerminals_eq (hk : KeyedIds l) (h : CausalCase l) (a : ExperienceArtifact) :
    collectTerminals (childrenOf l) (l.length + 1) [] a = .ok (terminalsOf l a) := by
  obtain ⟨rank, hranked, -⟩ := exists_ranked hk h
  apply collectTerminals_eq_leaves hranked
  · exact fun v hv => absurd hv List.not_mem_nil
  · omega

/-- An end of a chain corrects the artifact and is corrected by nothing. -/
theorem mem_terminalsOf (hk : KeyedIds l) (h : CausalCase l) :
    b ∈ terminalsOf l a ↔ Corrects l a b ∧ childrenOf l b.artifactId = [] := by
  obtain ⟨rank, hranked, -⟩ := exists_ranked hk h
  exact Forest.mem_leaves hranked (by omega)

/-- Every chain of corrections ends. -/
theorem terminalsOf_ne_nil (hk : KeyedIds l) (h : CausalCase l) : terminalsOf l a ≠ [] := by
  obtain ⟨rank, hranked, -⟩ := exists_ranked hk h
  exact Forest.leaves_ne_nil hranked (by omega)

/-- The latest have the greatest event time. -/
theorem mem_latest : b ∈ latest l ↔ b ∈ l ∧ some b.eventTime = (l.map (·.eventTime)).max? := by
  rw [latest, List.mem_insertionSort, List.mem_filter, beq_iff_eq]

/-- The latest are no earlier than any other. -/
theorem mem_latest_iff : b ∈ latest l ↔ b ∈ l ∧ ∀ a ∈ l, a.eventTime ≤ b.eventTime := by
  rw [mem_latest, eq_comm, List.max?_eq_some_iff, List.forall_mem_map]
  exact ⟨fun h => ⟨h.1, h.2.2⟩, fun h => ⟨h.1, List.mem_map_of_mem h.1, h.2⟩⟩

/-- Of some artifacts one is a latest. -/
theorem exists_mem_latest (h : l ≠ []) : ∃ b, b ∈ latest l := by
  cases hmax : Selection.maxByKey eventTime l with
  | none => exact absurd (Selection.maxByKey_eq_none.mp hmax) h
  | some b => exact ⟨b, mem_latest_iff.mpr (Selection.maxByKey_eq_some hmax)⟩

/-- Of one artifact it is the latest. -/
theorem latest_singleton (a : ExperienceArtifact) : latest [a] = [a] := by
  simp [latest]

/-- The groups of latest terminals, one for each lesson. -/
def headGroups (l : List ExperienceArtifact) : List (List ExperienceArtifact) :=
  (l.filter isLesson).map fun root => latest (terminalsOf l root)

/-- **The current lessons are always found.** -/
theorem currentLessonHeads_eq (hk : KeyedIds l) (h : CausalCase l) :
    currentLessonHeads l = .ok (sortArtifacts (((headGroups l).filter (·.length == 1)).flatten),
      (((headGroups l).filter (·.length != 1)).map fun g =>
        g.map (·.artifactId)).insertionSort (· ≤ ·)) := by
  unfold currentLessonHeads
  have hturn : ∀ root ∈ l.filter isLesson, (do
      let terminals ← collectTerminals (childrenOf l) (l.length + 1) [] root
      pure (latest terminals)) = (Except.ok (latest (terminalsOf l root)) :
        Except MemdError (List ExperienceArtifact)) := by
    intro root _
    rw [collectTerminals_eq hk h root]
    rfl
  rw [Fallible.mapM_total hturn]
  rfl

/-- Sorting loses and adds nothing. -/
theorem mem_sortArtifacts : a ∈ sortArtifacts l ↔ a ∈ l := by
  rw [sortArtifacts, List.mem_insertionSort]

/-- Sorting permutes. -/
theorem sortArtifacts_perm (l : List ExperienceArtifact) : (sortArtifacts l).Perm l :=
  List.perm_insertionSort _ l

/-- A current lesson, or a side of a conflict that the times leave open, is the end of a chain that
starts at a lesson. -/
theorem mem_headGroups (hk : KeyedIds l) (h : CausalCase l) {g : List ExperienceArtifact}
    (hg : g ∈ headGroups l) (ha : a ∈ g) :
    ∃ root ∈ l, root.isLesson = true ∧ Corrects l root a ∧ childrenOf l a.artifactId = [] := by
  obtain ⟨root, hroot, rfl⟩ := List.mem_map.mp hg
  obtain ⟨hmem, hlesson⟩ := List.mem_filter.mp hroot
  obtain ⟨hterminal, -⟩ := mem_latest.mp ha
  obtain ⟨hcorrects, hend⟩ := (mem_terminalsOf hk h).mp hterminal
  exact ⟨root, hmem, hlesson, hcorrects, hend⟩

/-- What corrects an artifact of the list is in the list. -/
theorem Corrects.mem (h : Corrects l a b) (ha : a ∈ l) : b ∈ l := by
  rcases h.cases_tail with rfl | ⟨c, -, hb⟩
  · exact ha
  · exact (mem_childrenOf.mp hb).2.1

/-- A correction is no lesson of its own. -/
theorem supersedes?_of_isLesson (h : a.isLesson = true) : a.supersedes? = none := by
  unfold isLesson at h
  unfold supersedes?
  split at h
  · rename_i hevent
    rw [hevent]
  · exact absurd h (by simp)

/-- Two chains that start at lessons and meet are one. -/
theorem Corrects.root_eq {root' : ExperienceArtifact} (h : Corrects l root a)
    (h' : Corrects l root' a) (hk : KeyedIds l) (hroot : root ∈ l) (hroot' : root' ∈ l)
    (hlesson : root.isLesson = true) (hlesson' : root'.isLesson = true) : root = root' := by
  induction h with
  | refl =>
    rcases h'.cases_tail with rfl | ⟨c, -, hc⟩
    · rfl
    · have hsup := (mem_childrenOf.mp hc).2.2
      rw [supersedes?_of_isLesson hlesson] at hsup
      exact absurd hsup (by simp)
  | @tail c d hcd hd ih =>
    obtain ⟨-, hdl, hsup⟩ := mem_childrenOf.mp hd
    rcases h'.cases_tail with rfl | ⟨c', hc', hd'⟩
    · rw [supersedes?_of_isLesson hlesson'] at hsup
      exact absurd hsup (by simp)
    · -- both chains come through what `d` supersedes
      have hsup' := (mem_childrenOf.mp hd').2.2
      have hids : c.artifactId = c'.artifactId := Option.some.inj (hsup.symm.trans hsup')
      have hcc' : c = c' := hk.eq (Corrects.mem hcd hroot) (Corrects.mem hc' hroot') hids
      exact ih (hcc' ▸ hc')

/-- Whether something is corrected twice does not depend on the order. -/
theorem Unforked.perm (h : Unforked l) (hp : l.Perm l') : Unforked l' :=
  fun x hx y hy => h x (hp.mem_iff.mpr hx) y (hp.mem_iff.mpr hy)

/-- Without a fork an artifact has at most one correction. -/
theorem Unforked.length_childrenOf (hun : Unforked l) (hk : KeyedIds l) (id : String) :
    (childrenOf l id).length ≤ 1 := by
  have hnodup : (childrenOf l id).Nodup := by
    unfold childrenOf
    split_ifs
    · exact (List.Nodup.of_map _ hk).filter _
    · exact List.nodup_nil
  by_contra hlen
  rcases hchildren : childrenOf l id with _ | ⟨x, _ | ⟨y, rest⟩⟩
  · rw [hchildren] at hlen
    exact hlen (by simp)
  · rw [hchildren] at hlen
    exact hlen (by simp)
  · have hx : x ∈ childrenOf l id := by
      rw [hchildren]
      exact List.mem_cons_self
    have hy : y ∈ childrenOf l id := by
      rw [hchildren]
      exact List.mem_cons_of_mem _ List.mem_cons_self
    obtain ⟨-, hxl, hxs⟩ := mem_childrenOf.mp hx
    obtain ⟨-, hyl, hys⟩ := mem_childrenOf.mp hy
    have hsame := hun x hxl y hyl (by rw [hxs]; rfl) (hxs.trans hys.symm)
    rw [hchildren, List.nodup_cons] at hnodup
    exact hnodup.1 (hsame ▸ List.mem_cons_self)

/-- The end of the chain of corrections from an artifact. -/
def tipOf (l : List ExperienceArtifact) (a : ExperienceArtifact) : ExperienceArtifact :=
  (terminalsOf l a).headD a

/-- Without a fork a chain of corrections has one end. -/
theorem Unforked.terminalsOf_eq (hun : Unforked l) (hk : KeyedIds l) (a : ExperienceArtifact) :
    terminalsOf l a = [tipOf l a] := by
  have hone : ∃ b, terminalsOf l a = [b] :=
    Forest.leaves_eq_singleton (hun.length_childrenOf hk) l.length a
  obtain ⟨b, hb⟩ := hone
  rw [tipOf, hb]
  rfl

/-- **Where nothing is corrected twice**, every lesson has one current version, and the times leave
nothing open. -/
theorem Unforked.currentLessonHeads_eq (hun : Unforked l) (hk : KeyedIds l) (h : CausalCase l) :
    currentLessonHeads l = .ok (sortArtifacts ((l.filter isLesson).map (tipOf l)), []) := by
  have hgroups : headGroups l = ((l.filter isLesson).map (tipOf l)).map fun a => [a] := by
    rw [headGroups, List.map_map]
    apply List.map_congr_left
    intro root _
    show latest (terminalsOf l root) = [tipOf l root]
    rw [hun.terminalsOf_eq hk, latest_singleton]
  have hsingle : ∀ m : List ExperienceArtifact,
      ((m.map fun a => [a]).filter (·.length == 1)).flatten = m ∧
        (m.map fun a => [a]).filter (·.length != 1) = [] := by
    intro m
    induction m with
    | nil => exact ⟨rfl, rfl⟩
    | cons a m ih => exact ⟨by simpa using ih.1, by simp⟩
  rw [Experience.currentLessonHeads_eq hk h, hgroups, (hsingle _).1, (hsingle _).2]
  rfl

/-- The end of a chain corrects its beginning, and nothing corrects the end. -/
theorem Unforked.tipOf_spec (hun : Unforked l) (hk : KeyedIds l) (h : CausalCase l) :
    Corrects l a (tipOf l a) ∧ childrenOf l (tipOf l a).artifactId = [] := by
  apply (mem_terminalsOf hk h).mp
  rw [hun.terminalsOf_eq hk]
  exact List.mem_singleton_self _

/-! ## What a case resolves to -/

/-- The current lessons of a case. -/
def currentOf (l : List ExperienceArtifact) : List ExperienceArtifact :=
  sortArtifacts ((headGroups l).filter (·.length == 1)).flatten

/-- The groups that the times leave open. -/
def openGroups (l : List ExperienceArtifact) : List (List String) :=
  (((headGroups l).filter (·.length != 1)).map fun g => g.map (·.artifactId)).insertionSort (· ≤ ·)

/-- The groups of the lessons that contradict each other. -/
def conflictsOf (l : List ExperienceArtifact) : List (List String) :=
  (addConflictGroups (currentOf l) (openGroups l)).insertionSort (· ≤ ·)

/-- What a case resolves to. -/
def resolved (p : ExperienceArtifact) (l : List ExperienceArtifact) : ExperienceCase :=
  ⟨p, l, currentOf l, conflictsOf l, resolutionStateOf (conflictsOf l) (currentOf l)⟩

/-- **A case resolves** exactly when it is lawful. -/
theorem caseOf_eq_ok (hk : KeyedIds l) (h : CausalCase l) {p : ExperienceArtifact}
    {c : ExperienceCase} :
    caseOf p l = .ok c ↔ CaseLaw l ∧ c = resolved p (sortArtifacts l) := by
  have hperm := (sortArtifacts_perm l).symm
  have hlaw : CaseLaw (sortArtifacts l) ↔ CaseLaw l :=
    ⟨fun h => h.perm hperm.symm, fun h => h.perm hperm⟩
  unfold caseOf
  simp only [except_bind_eq_ok, validateCase_eq_ok_iff (hk.perm hperm), hlaw,
    currentLessonHeads_eq (hk.perm hperm) (h.perm hperm), Except.ok.injEq, exists_eq_left']
  constructor
  · rintro ⟨_, hl, hpure⟩
    exact ⟨hl, (Except.ok.inj hpure).symm⟩
  · rintro ⟨hl, rfl⟩
    exact ⟨(), hl, rfl⟩

/-- The current lessons are those that stand alone at the end of their chains. -/
theorem mem_currentOf : a ∈ currentOf l ↔ [a] ∈ headGroups l := by
  rw [currentOf, mem_sortArtifacts, List.mem_flatten]
  constructor
  · rintro ⟨g, hg, ha⟩
    obtain ⟨hgroup, hlen⟩ := List.mem_filter.mp hg
    obtain ⟨b, rfl⟩ := List.length_eq_one_iff.mp (beq_iff_eq.mp hlen)
    obtain rfl := List.mem_singleton.mp ha
    exact hgroup
  · intro hgroup
    exact ⟨[a], List.mem_filter.mpr ⟨hgroup, rfl⟩, List.mem_singleton_self a⟩

/-- The conflict groups are the open ones and those that current lessons name. -/
theorem mem_addConflictGroups {current : List ExperienceArtifact} {conflicts : List (List String)}
    {g : List String} : g ∈ addConflictGroups current conflicts ↔
      g ∈ conflicts ∨ ∃ a ∈ current, g = conflictGroup current a ∧ 1 < g.length := by
  have hloop : ∀ rest : List ExperienceArtifact, g ∈ rest.foldl (fun groups a =>
      let group := conflictGroup current a
      if decide (1 < group.length) && !groups.contains group then groups ++ [group] else groups)
      conflicts ↔ g ∈ conflicts ∨ ∃ a ∈ rest, g = conflictGroup current a ∧ 1 < g.length := by
    intro rest
    induction rest using List.reverseRecOn with
    | nil => simp
    | append_singleton rest a ih =>
      rw [List.foldl_append, List.foldl_cons, List.foldl_nil]
      simp only [List.mem_append, List.mem_singleton, or_and_right, exists_or, exists_eq_left,
        ← or_assoc, ← ih]
      generalize rest.foldl _ conflicts = groups
      -- a group that is there already is not added twice
      by_cases hlen : 1 < (conflictGroup current a).length
      · by_cases hmem : conflictGroup current a ∈ groups
        · have hno : ¬ (decide (1 < (conflictGroup current a).length) &&
              !groups.contains (conflictGroup current a)) = true := by
            simp [hmem]
          rw [if_neg hno]
          exact ⟨.inl, fun h => h.elim id fun h => h.1 ▸ hmem⟩
        · have hyes : (decide (1 < (conflictGroup current a).length) &&
              !groups.contains (conflictGroup current a)) = true := by
            simp [hmem, hlen]
          rw [if_pos hyes, List.mem_append, List.mem_singleton]
          exact or_congr_right ⟨fun h => ⟨h, h ▸ hlen⟩, fun h => h.1⟩
      · have hno : ¬ (decide (1 < (conflictGroup current a).length) &&
            !groups.contains (conflictGroup current a)) = true := by
          simp [hlen]
        rw [if_neg hno]
        exact ⟨.inl, fun h => h.elim id fun h => absurd (h.1 ▸ h.2) hlen⟩
  exact hloop current

/-- The conflict group of a lesson is itself and the current lessons it conflicts with. -/
theorem mem_conflictGroup {current : List ExperienceArtifact} :
    id ∈ conflictGroup current a ↔ id = a.artifactId ∨
      id ∈ (a.lesson?.map (·.conflictsWith)).getD [] ∧ ∃ c ∈ current, c.artifactId = id := by
  rw [conflictGroup, sortedIds, List.mem_insertionSort, List.mem_dedup, List.mem_cons,
    List.mem_filter, List.any_eq_true]
  simp only [beq_iff_eq]

/-- A side of a conflict is one of the latest versions of a lesson. -/
theorem mem_headGroups_of_conflict (h : id ∈ (conflictsOf l).flatten) :
    ∃ g ∈ headGroups l, ∃ a ∈ g, a.artifactId = id := by
  obtain ⟨g, hg, hid⟩ := List.mem_flatten.mp h
  rw [conflictsOf, List.mem_insertionSort, mem_addConflictGroups] at hg
  rcases hg with hopen | ⟨a, ha, rfl, -⟩
  · rw [openGroups, List.mem_insertionSort] at hopen
    obtain ⟨group, hgroup, rfl⟩ := List.mem_map.mp hopen
    obtain ⟨a, ha, rfl⟩ := List.mem_map.mp hid
    exact ⟨group, List.mem_of_mem_filter hgroup, a, ha, rfl⟩
  · rcases mem_conflictGroup.mp hid with rfl | ⟨-, c, hc, rfl⟩
    · exact ⟨[a], mem_currentOf.mp ha, a, List.mem_singleton_self a, rfl⟩
    · exact ⟨[c], mem_currentOf.mp hc, c, List.mem_singleton_self c, rfl⟩

/-- A lesson and a correction carry a lesson. -/
theorem isSome_lesson?_of_isLesson (h : a.isLesson = true) : a.lesson?.isSome = true := by
  unfold isLesson at h
  unfold lesson?
  split at h
  · rename_i hevent
    rw [hevent]
    rfl
  · exact absurd h (by simp)

/-- A correction carries a lesson. -/
theorem isSome_lesson?_of_supersedes? (h : a.supersedes? = some id) : a.lesson?.isSome = true := by
  unfold supersedes? at h
  unfold lesson?
  split at h
  · rename_i hevent
    rw [hevent]
    rfl
  · exact absurd h (by simp)

/-- Every version of a lesson carries one. -/
theorem Corrects.isSome_lesson? (h : Corrects l root a) (hlesson : root.isLesson = true) :
    a.lesson?.isSome = true := by
  rcases h.cases_tail with rfl | ⟨c, -, hc⟩
  · exact isSome_lesson?_of_isLesson hlesson
  · exact isSome_lesson?_of_supersedes? (mem_childrenOf.mp hc).2.2

/-- The ends of the chains are lessons of the list. -/
theorem isSome_lesson?_of_mem_headGroups (hk : KeyedIds l) (h : CausalCase l)
    {g : List ExperienceArtifact} (hg : g ∈ headGroups l) (ha : a ∈ g) :
    a ∈ l ∧ a.lesson?.isSome = true := by
  obtain ⟨root, hroot, hlesson, hcorrects, -⟩ := mem_headGroups hk h hg ha
  exact ⟨hcorrects.mem hroot, Corrects.isSome_lesson? hcorrects hlesson⟩

end Experience
