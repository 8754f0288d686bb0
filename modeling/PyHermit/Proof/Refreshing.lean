import PyHermit.Proof.Marking
import PyHermit.Proof.Settled

/-!
# Refreshing block marks

A refresh computes on the kernel as blocking reads it, and sends the kernel the difference
between the assignments before and after. `Refreshed` says what that leaves, `Refreshable`
what it needs to succeed. `MarksFollow`, marks and assignments are in step, is kept by a
refresh (`Refreshed.follows`) and by a call that settles the marks (`MarksFollow.settled`).
-/

open Std Prog List

namespace PyHermit

open TableauKernel Arena

/-! ## The kernel as blocking reads it -/

section Reading

variable {n : Nat} {k : TableauKernel} {r : NodeRecord} {vocabulary : BlockingVocabulary}
  {h : NodeHandle}

theorem mem_nodeRecords : r ∈ k.blockingState.nodeRecords ↔
    ∃ (i : Nat) (x : Node), k.state.nodes[i]? = some (some x) ∧ r = x.blockingRecord := by
  change r ∈ k.state.nodes.liveNodes.map (·.blockingRecord) ↔ _
  rw [mem_map]
  constructor
  · rintro ⟨x, hx, rfl⟩
    obtain ⟨i, hi⟩ := mem_liveNodes.mp hx
    exact ⟨i, x, hi, rfl⟩
  · rintro ⟨i, x, hi, rfl⟩
    exact ⟨x, mem_liveNodes.mpr ⟨i, hi⟩, rfl⟩

def ParentsActive (st : MutableState) : Prop :=
  ∀ x ∈ st.nodes.liveNodes, x.lifecycle = .active → x.kind = .tree →
    ∃ p ∈ st.nodes.liveNodes, p.lifecycle = .active ∧ x.parent = some p.handle

variable (hi : StateInv n k.state) (hl : Lineage k.state)
include hi hl

theorem parentsOlder_of_lineage : k.blockingState.ParentsOlder := by
  intro r hr p hp _ _ hparent
  obtain ⟨i, x, hx, rfl⟩ := mem_nodeRecords.mp hr
  obtain ⟨j, y, hy, rfl⟩ := mem_nodeRecords.mp hp
  change x.parent = some y.handle at hparent
  by_cases hk : x.kind = .tree
  · obtain ⟨h, parent, hxp, hnode, hlt⟩ := hl.tree i x hx hk
    rw [hparent] at hxp
    cases hxp
    rw [hi.slotted.requireNode_self hy] at hnode
    cases hnode
    exact hlt
  · rw [hl.nonTree i x hx hk] at hparent
    cases hparent

theorem distinct_nodeRecords : Distinct k.blockingState.nodeRecords := by
  refine List.Pairwise.sublist filter_sublist ?_
  change (k.state.nodes.liveNodes.map (·.blockingRecord)).Pairwise _
  rw [pairwise_map]
  unfold Arena.liveNodes
  rw [pairwise_filterMap, pairwise_iff_getElem]
  intro i j hil hjl hij x hx y hy
  have hix : k.state.nodes[i]? = some (some x) := List.getElem?_eq_some_iff.mpr ⟨hil, hx⟩
  have hjy : k.state.nodes[j]? = some (some y) := List.getElem?_eq_some_iff.mpr ⟨hjl, hy⟩
  refine ⟨fun heq => ?_, fun heq => ?_⟩
  · have h1 := (hi.slotted i x hix).1
    have h2 := (hi.slotted j y hjy).1
    rw [show x.handle = y.handle from heq] at h1
    omega
  · exact absurd (hl.distinct i j x y hix hjy heq) (by omega)

theorem getElem?_projection : (k.blockingState.projection vocabulary).nodes[h]? = some r ↔
      ∃ x, k.state.nodes.requireActive h = .ok x ∧ r = x.blockingRecord := by
  change k.blockingState.activeNodes[h]? = some r ↔ _
  rw [BlockingState.getElem?_activeNodes (distinct_nodeRecords hi hl), mem_nodeRecords]
  constructor
  · rintro ⟨⟨i, x, hx, rfl⟩, hact, rfl⟩
    exact ⟨x, requireActive_eq_ok.mpr ⟨hi.slotted.requireNode_self hx, hact⟩, rfl⟩
  · rintro ⟨x, hx, rfl⟩
    obtain ⟨hn, hact⟩ := requireActive_eq_ok.mp hx
    exact ⟨⟨h.slot, x, (requireNode_eq_ok.mp hn).1, rfl⟩, hact, hi.slotted.handle_eq hn⟩

theorem activeObject_of_isTree (hP : (k.blockingState.projection vocabulary).Lawful)
    (htree : (k.blockingState.projection vocabulary).isTree h = true) :
    k.state.nodes.ActiveObject h := by
  obtain ⟨r, hr, hkind⟩ := hP.isTree_iff.mp htree
  obtain ⟨x, hx, rfl⟩ := (getElem?_projection hi hl).mp hr
  refine ⟨x, hx, ?_⟩
  rw [hl.sort _ x (requireNode_eq_ok.mp (requireActive_eq_ok.mp hx).1).1,
    show x.kind = .tree from hkind]
  rfl

theorem projectable_of_parentsActive
    (hp : ParentsActive k.state) : k.blockingState.Projectable where
  distinct := distinct_nodeRecords hi hl
  tree r hr hact hk := by
    obtain ⟨i, x, hx, rfl⟩ := mem_nodeRecords.mp hr
    obtain ⟨p, hpm, hpact, hparent⟩ := hp x (mem_liveNodes.mpr ⟨i, hx⟩) hact hk
    obtain ⟨j, hj⟩ := mem_liveNodes.mp hpm
    exact ⟨p.blockingRecord, mem_nodeRecords.mpr ⟨j, p, hj, rfl⟩, hpact, hparent⟩
  nonTree r hr hact hk := by
    obtain ⟨i, x, hx, rfl⟩ := mem_nodeRecords.mp hr
    exact hl.nonTree i x hx hk

end Reading

/-! ## Changes -/

theorem mem_assignmentChanges {before after : Assignments} {c : AssignmentChange} :
    c ∈ assignmentChanges before after ↔ c.before = before[c.node]? ∧ c.after = after[c.node]? ∧
      c.isDefault = false ∧ c.before ≠ c.after := by
  unfold assignmentChanges
  rw [mem_filterMap]
  constructor
  · rintro ⟨node, -, hc⟩
    dsimp only at hc
    split at hc
    · cases hc
    · rename_i hkeep
      cases hc
      rw [Bool.or_eq_true, not_or, Bool.not_eq_true, decide_eq_true_eq] at hkeep
      exact ⟨rfl, rfl, hkeep.1, hkeep.2⟩
  · rintro ⟨hb, ha, hdefault, hne⟩
    have heq : (⟨c.node, before[c.node]?, after[c.node]?⟩ : AssignmentChange) = c := by
      rw [← hb, ← ha]
    refine ⟨c.node, ?_, ?_⟩
    · rw [ExtTreeSet.mem_toList, ExtTreeSet.mem_ofList, contains_iff_mem, mem_append,
        ExtTreeMap.mem_keys, ExtTreeMap.mem_keys]
      by_contra hnone
      rw [not_or] at hnone
      refine hne ?_
      rw [hb, ha, ExtTreeMap.getElem?_eq_none hnone.1, ExtTreeMap.getElem?_eq_none hnone.2]
    · simp only [heq]
      rw [if_neg]
      rw [Bool.or_eq_true, not_or, Bool.not_eq_true, decide_eq_true_eq]
      exact ⟨hdefault, fun heq => hne (by rw [hb, ha, heq])⟩

theorem nodup_assignmentChanges (before after : Assignments) :
    ((assignmentChanges before after).map (·.node)).Nodup := by
  unfold assignmentChanges
  rw [List.Nodup, pairwise_map, pairwise_filterMap]
  refine (ExtTreeSet.distinct_toList (t := ExtTreeSet.ofList (before.keys ++ after.keys))).imp ?_
  intro a b hab c hc d hd heq
  dsimp only at hc hd
  split at hc
  · cases hc
  · split at hd
    · cases hd
    · cases hc
      cases hd
      exact hab (Std.compare_eq_iff_eq.mpr heq)

theorem mem_rescheduled {P : BlockingProjection} {changes : List AssignmentChange} {h : NodeHandle}
    (hh : h ∈ BlockingManager.rescheduled P changes) : ∃ c ∈ changes, c.node = h := by
  have hin := (destutter_sublist _ _).subset hh
  rw [mem_insertionSort, mem_map] at hin
  obtain ⟨c, hc, rfl⟩ := hin
  exact ⟨c, (mem_filter.mp hc).1, rfl⟩

theorem length_rescheduled (P : BlockingProjection) (changes : List AssignmentChange) :
    (BlockingManager.rescheduled P changes).length ≤ changes.length := by
  refine Nat.le_trans (destutter_sublist _ _).length_le ?_
  rw [length_insertionSort, length_map]
  exact length_filter_le _ _

/-! ## What a refresh does -/

/-- What a refresh on the kernel leaves. -/
structure Refreshed (m : BlockingManager) (k : TableauKernel) (result : ComputeResult)
    (m' : BlockingManager) (k' : TableauKernel) : Prop where
  computed : m.Computed k.blockingState result m'
  objects : ∀ c ∈ result.changed, k.state.nodes.ActiveObject c.node
  nodes : k'.state.nodes = (k.state.marks result.changed).nodes
  facts : k'.state.facts = k.state.facts

/-- The assignment the manager holds for a node; a node it does not know is unblocked. -/
def BlockingManager.held (m : BlockingManager) (h : NodeHandle) : BlockingAssignment :=
  (m.assigned[h]?).getD (.unblocked h)

/-- A refresh may write on the node: it is active, and a tree node or held blocked. -/
def BlockingManager.MayWrite (m : BlockingManager) (x : Node) : Prop :=
  x.lifecycle = .active ∧ (x.kind = .tree ∨ (m.held x.handle).blocked = true)

instance (m : BlockingManager) (x : Node) : Decidable (m.MayWrite x) := instDecidableAnd

/-- What a refresh needs: the nodes the manager holds blocked are still active, so are the
parents of active tree nodes, and of the nodes it may write on no place in the queue is
taken and no counter is at its end. -/
structure Refreshable (m : BlockingManager) (k : TableauKernel) : Prop where
  held : ∀ entry ∈ m.assigned.toList, entry.2.blocked = true → k.state.nodes.ActiveObject entry.1
  parents : ParentsActive k.state
  ranks : ∀ x ∈ k.state.nodes.liveNodes, m.MayWrite x →
    .node x.handle ∈ k.state.existentialCandidates.members ∨
      ([(x.creationId : Int), x.handle.slot, x.handle.generation] : List Int) ∉
        k.state.existentialCandidates.entries
  generations : ∀ x ∈ k.state.nodes.liveNodes, m.MayWrite x → x.blockingGeneration < u32Max
  room : k.trailLength + 2 * k.state.nodes.liveNodes.countP (m.MayWrite ·) ≤ u64Max

instance (st : MutableState) : Decidable (ParentsActive st) := by
  unfold ParentsActive
  infer_instance

instance (m : BlockingManager) (k : TableauKernel) : Decidable (Refreshable m k) :=
  decidable_of_iff (_ ∧ _ ∧ _ ∧ _ ∧ _)
    ⟨fun h => ⟨h.1, h.2.1, h.2.2.1, h.2.2.2.1, h.2.2.2.2⟩,
      fun h => ⟨h.held, h.parents, h.ranks, h.generations, h.room⟩⟩

def BlockingAssignment.mark (a : BlockingAssignment) : Option NodeHandle × Bool :=
  (a.blocker, a.directly)

section Refresh

variable {n : Nat} {k : TableauKernel} {m m' : BlockingManager} {result : ComputeResult}
  {c : AssignmentChange}

theorem BlockingManager.Neat.plain_held (hm : m.Neat) (h : NodeHandle) :
    BlockingPass.Plain h (m.held h) := by
  unfold BlockingManager.held
  cases ha : m.assigned[h]? with
  | none => exact BlockingPass.plain_unblocked h
  | some a => exact hm.plain ha

theorem changed_mark (hc : m.Computed k.blockingState result m') (hmem : c ∈ result.changed) :
    c.mark = (m'.held c.node).mark := by
  rw [hc.changed] at hmem
  obtain ⟨-, hafter, -, -⟩ := mem_assignmentChanges.mp hmem
  unfold AssignmentChange.mark BlockingManager.held
  rw [hafter]
  cases ha : m'.assigned[c.node]? with
  | none => rfl
  | some a => simp [(hc.neat.plain ha).uncached, BlockingAssignment.mark]

section
variable (hm : m.Neat) (hi : StateInv n k.state) (hl : Lineage k.state)
  (hc : m.Computed k.blockingState result m')
include hm hi hl hc

/-- A change is about an active object node the refresh may write on, unless the manager
held a node blocked that is none any more. -/
theorem changed_object
    (hheld : ∀ entry ∈ m.assigned.toList, entry.2.blocked = true →
      k.state.nodes.ActiveObject entry.1)
    (hmem : c ∈ result.changed) :
    ∃ x, k.state.nodes.requireActive c.node = .ok x ∧ x.sort = .object ∧ m.MayWrite x := by
  rw [hc.changed] at hmem
  obtain ⟨hbefore, hafter, hdefault, hne⟩ := mem_assignmentChanges.mp hmem
  obtain ⟨hP, ht⟩ := hc.neat.tidy _ hc.projection
  -- blocked before: the manager held it
  have hwas : ∀ a, c.before = some a → a.blocked = true →
      ∃ x, k.state.nodes.requireActive c.node = .ok x ∧ x.sort = .object ∧ m.MayWrite x := by
    intro a ha hb
    rw [hbefore] at ha
    obtain ⟨x, hx, hsort⟩ := hheld (c.node, a)
      (ExtTreeMap.mem_toList_iff_getElem?_eq_some.mpr ha) hb
    obtain ⟨hn, hact⟩ := requireActive_eq_ok.mp hx
    refine ⟨x, hx, hsort, hact, .inr ?_⟩
    rw [hi.slotted.handle_eq hn, BlockingManager.held, ha]
    exact hb
  -- blocked now: it is a tree node of the projection
  have his : ∀ a, c.after = some a → a.blocked = true →
      ∃ x, k.state.nodes.requireActive c.node = .ok x ∧ x.sort = .object ∧ m.MayWrite x := by
    intro a ha hb
    rw [hafter] at ha
    rw [(ht.plain _ a ha).blocked] at hb
    obtain ⟨b, hb⟩ := Option.isSome_iff_exists.mp hb
    have htree := (ht.blocker _ a b ha hb).1
    obtain ⟨r, hr, hkind⟩ := hP.isTree_iff.mp htree
    obtain ⟨x, hx, rfl⟩ := (getElem?_projection hi hl).mp hr
    obtain ⟨y, hy, hsort⟩ := activeObject_of_isTree hi hl hP htree
    cases hx.symm.trans hy
    exact ⟨x, hx, hsort, (requireActive_eq_ok.mp hx).2, .inl hkind⟩
  cases hb : c.before with
  | none =>
    cases ha : c.after with
    | none => exact absurd (hb.trans ha.symm) hne
    | some a =>
      unfold AssignmentChange.isDefault at hdefault
      rw [hb, ha] at hdefault
      exact his a ha (by simpa using hdefault)
  | some a =>
    by_cases hab : a.blocked = true
    · exact hwas a hb hab
    · cases ha : c.after with
      | none =>
        unfold AssignmentChange.isDefault at hdefault
        rw [hb, ha] at hdefault
        exact absurd (by simpa using hdefault) hab
      | some a' =>
        by_cases hab' : a'.blocked = true
        · exact his a' ha hab'
        · -- a node is unblocked in one way only, so nothing would have changed
          rw [Bool.not_eq_true] at hab hab'
          refine absurd ?_ hne
          rw [hb, ha, (hm.plain (hbefore.symm.trans hb)).eq_unblocked hab,
            (hc.neat.plain (hafter.symm.trans ha)).eq_unblocked hab']

theorem length_changed (hr : Refreshable m k) :
    result.changed.length ≤ k.state.nodes.liveNodes.countP (m.MayWrite ·) := by
  have hnodup : (result.changed.map (·.node)).Nodup := by
    rw [hc.changed]
    exact nodup_assignmentChanges _ _
  have hsub : result.changed.map (·.node) ⊆
      (k.state.nodes.liveNodes.filter (m.MayWrite ·)).map (·.handle) := by
    intro h hh
    obtain ⟨c, hmem, rfl⟩ := mem_map.mp hh
    obtain ⟨x, hx, -, hwrite⟩ := changed_object hm hi hl hc hr.held hmem
    have hn := (requireActive_eq_ok.mp hx).1
    have hhandle := hi.slotted.handle_eq hn
    rw [← hhandle] at hn ⊢
    exact mem_map_of_mem
      (mem_filter.mpr ⟨hi.slotted.mem_liveNodes.mpr hn, decide_eq_true hwrite⟩)
  have hle := (subperm_of_subset hnodup hsub).length_le
  rwa [length_map, length_map, ← countP_eq_length_filter] at hle

/-- A refresh that needs nothing more can write its marks. -/
theorem Refreshable.allMarkable (hr : Refreshable m k) : AllMarkable k result.changed := by
  obtain ⟨hP, ht⟩ := hc.neat.tidy _ hc.projection
  refine ⟨fun c hmem => ?_, ?_⟩
  · obtain ⟨x, hx, hsort, hwrite⟩ := changed_object hm hi hl hc hr.held hmem
    refine ⟨⟨x, hx, hsort⟩, fun y hy => ?_, fun b hb => ?_⟩
    · cases hx.symm.trans hy
      have hslot := (requireNode_eq_ok.mp (requireActive_eq_ok.mp hx).1).1
      exact hr.generations x (mem_liveNodes.mpr ⟨_, hslot⟩) hwrite
    · -- a blocker is a tree node of the projection
      rw [changed_mark hc hmem] at hb
      unfold BlockingManager.held at hb
      cases ha : m'.assigned[c.node]? with
      | none =>
        rw [ha] at hb
        cases hb
      | some a =>
        rw [ha] at hb
        exact activeObject_of_isTree hi hl hP (ht.blocker _ a b ha hb).2.1
  · have hroom := hr.room
    have hlen := length_changed hm hi hl hc hr
    omega

/-- It can also queue the nodes that came unblocked, once the marks are written. -/
theorem Refreshable.allQueueable (hr : Refreshable m k) : AllQueueable { k with
      state := k.state.marks result.changed
      trailLength := k.trailLength + result.changed.length } result.rescheduleNodes := by
  have hlen := length_changed hm hi hl hc hr
  have hchanged : ∀ h ∈ result.rescheduleNodes, ∃ c ∈ result.changed, c.node = h := by
    intro h hh
    rcases hc.rescheduled with hnone | hsome
    · rw [hnone] at hh
      cases hh
    · rw [hsome] at hh
      exact mem_rescheduled hh
  have hobject : ∀ c ∈ result.changed, k.state.nodes.ActiveObject c.node := fun c hmem =>
    let ⟨x, hx, hsort, _⟩ := changed_object hm hi hl hc hr.held hmem
    ⟨x, hx, hsort⟩
  refine ⟨fun h hh => ?_, fun h hh x hx => ?_, ?_⟩
  · obtain ⟨c, hmem, rfl⟩ := hchanged h hh
    obtain ⟨x, hx, -⟩ := hobject c hmem
    exact active_marks hobject ⟨x, hx⟩
  · obtain ⟨c, hmem, rfl⟩ := hchanged h hh
    obtain ⟨y, hy, -, hwrite⟩ := changed_object hm hi hl hc hr.held hmem
    obtain ⟨old, hold, hbirth⟩ := origin_marks hx
    cases hy.symm.trans hold
    have hn := (requireActive_eq_ok.mp hy).1
    have hfree := hr.ranks y (mem_liveNodes.mpr ⟨_, (requireNode_eq_ok.mp hn).1⟩) hwrite
    rw [hi.slotted.handle_eq hn] at hfree
    rw [hbirth.creationId, marks_queue]
    exact hfree
  · have hroom := hr.room
    have hqueue : result.rescheduleNodes.length ≤ result.changed.length := by
      rcases hc.rescheduled with hnone | hsome
      · rw [hnone]
        exact Nat.zero_le _
      · rw [hsome]
        exact length_rescheduled _ _
    change k.trailLength + result.changed.length + result.rescheduleNodes.length ≤ u64Max
    omega

end

/-- **A refresh computes, writes the changed marks and moves nothing else about the
nodes.** It fails only when it is halted or when it lacks something it needs. -/
theorem wp_computeAndMark (control : BlockingControl) (forceFull : Bool) {b : Blocking}
    (hm : m.Neat) (hi : StateInv n b.kernel.state) (hl : Lineage b.kernel.state) :
    wp (m.computeAndMark control forceFull)
      (fun answer b' => Refreshed m b.kernel answer.1 answer.2 b'.kernel)
      (fun e _ => Halted control e ∨ ¬ Refreshable m b.kernel) b := by
  refine wp_get_then.mpr (wp_bind.mpr (wp_zoom.mpr ?_))
  refine wp_mono (hm.wp_compute (parentsOlder_of_lineage hi hl) control forceFull _) ?_ ?_
  · rintro ⟨result, m'⟩ w ⟨hc, -⟩
    have hnodup : (result.changed.map (·.node)).Nodup := by
      rw [hc.changed]
      exact nodup_assignmentChanges _ _
    refine wp_bind.mpr (wp_pollBlocking (fun w => ?_) fun e w hi => .inl (.inl hi))
    refine wp_then (wp_applyChanges hnodup) ?_ ?_
    · rintro _ b' ⟨hobject, hkernel⟩
      refine wp_then wp_rescheduleEach ?_ ?_
      · intro _ b'' hsame
        refine wp_pure.mpr ⟨hc, hobject, ?_, ?_⟩
        · rw [hsame.nodes, hkernel]
          rfl
        · rw [hsame.facts, hkernel]
          exact marks_facts
      · rintro e b'' (hh | hbad)
        · exact .inl hh
        · refine .inr fun hr => hbad ?_
          rw [hkernel]
          exact hr.allQueueable hm hi hl hc
    · rintro e b' (hh | hbad)
      · exact .inl hh
      · exact .inr fun hr => hbad (hr.allMarkable hm hi hl hc)
  · rintro e w (hh | hbad)
    · exact .inl hh
    · exact .inr fun hr => hbad (projectable_of_parentsActive hi hl hr.parents)

end Refresh

/-! ## Marks and assignments in step -/

instance (arena : Arena) (h : NodeHandle) : Decidable (arena.Active h) :=
  match hx : arena.requireActive h with
  | .ok x => isTrue ⟨x, hx⟩
  | .error _ => isFalse fun ⟨_, hy⟩ => nomatch hx.symm.trans hy

/-- The node, if it is an active object node, carries the mark of the assignment the manager
holds for it, and no mark if it holds none; if it is held blocked by a node that is gone,
it may carry another. -/
def MarksFollow (m : BlockingManager) (arena : Arena) (h : NodeHandle) : Prop :=
  ∀ x ∈ arena.liveNodes, x.handle = h → x.lifecycle = .active → x.sort = .object →
    x.mark = (m.held h).mark ∨ ∃ b ∈ (m.held h).blocker, ¬ arena.Active b

instance (m : BlockingManager) (arena : Arena) (h : NodeHandle) :
    Decidable (MarksFollow m arena h) :=
  @decidableBAll _ _ (fun _ => instDecidableForall) _

/-- The changes account for all that differs between the two managers. -/
structure Sent (m : BlockingManager) (changes : List AssignmentChange)
    (m' : BlockingManager) : Prop where
  nodup : (changes.map (·.node)).Nodup
  written : ∀ c ∈ changes, c.mark = (m'.held c.node).mark
  others : ∀ h, (∀ c ∈ changes, h ≠ c.node) → m'.held h = m.held h

section InStep

variable {n : Nat} {k k' : TableauKernel} {m m' : BlockingManager} {result : ComputeResult}

/-- A computation reports all it changes. -/
theorem BlockingManager.Computed.sent (hc : m.Computed k.blockingState result m') (hm : m.Neat) :
    Sent m result.changed m' := by
  refine ⟨?_, fun c hmem => changed_mark hc hmem, fun h hnone => ?_⟩
  · rw [hc.changed]
    exact nodup_assignmentChanges _ _
  have hnot : (⟨h, m.assigned[h]?, m'.assigned[h]?⟩ : AssignmentChange) ∉ result.changed :=
    fun hin => hnone _ hin rfl
  rw [hc.changed, mem_assignmentChanges] at hnot
  simp only [true_and, not_and, not_not] at hnot
  by_cases hdefault : AssignmentChange.isDefault ⟨h, m.assigned[h]?, m'.assigned[h]?⟩ = false
  · unfold held
    rw [hnot hdefault]
  -- one of the two has no assignment, the other an unblocked one
  unfold AssignmentChange.isDefault at hdefault
  have hplain := hm.plain_held h
  have hplain' := hc.neat.plain_held h
  unfold held at hplain hplain' ⊢
  cases ha : m.assigned[h]? with
  | none =>
    cases ha' : m'.assigned[h]? with
    | none => rfl
    | some a =>
      simp only [ha, ha', Bool.not_eq_false, Bool.not_eq_true'] at hdefault
      rw [ha'] at hplain'
      exact hplain'.eq_unblocked hdefault
  | some a =>
    cases ha' : m'.assigned[h]? with
    | none =>
      simp only [ha, ha', Bool.not_eq_false, Bool.not_eq_true'] at hdefault
      rw [ha] at hplain
      exact (hplain.eq_unblocked hdefault).symm
    | some a' => simp [ha, ha'] at hdefault

variable {st : MutableState} {changes : List AssignmentChange} {h : NodeHandle}

/-- **Writing the changes keeps mark and assignment in step**, and brings them in step if
there is a change for the node. -/
theorem MarksFollow.marks (hf : (∃ c ∈ changes, c.node = h) ∨ MarksFollow m st.nodes h)
    (hs : Sent m changes m') (hm : m'.Neat) (hi : st.nodes.Slotted)
    (hobject : ∀ c ∈ changes, st.nodes.ActiveObject c.node) :
    MarksFollow m' (st.marks changes).nodes h := by
  rintro x hx rfl hact hsort
  have hxa : (st.marks changes).nodes.requireActive x.handle = .ok x :=
    requireActive_eq_ok.mpr ⟨(slotted_marks hi).mem_liveNodes.mp hx, hact⟩
  obtain ⟨y, hy, -⟩ := origin_marks hxa
  by_cases hchanged : ∃ c ∈ changes, c.node = x.handle
  · obtain ⟨c, hmem, hnode⟩ := hchanged
    rw [← hnode] at hy hxa ⊢
    rw [requireActive_marks hobject hs.nodup hmem hy, hs.written c hmem] at hxa
    cases hxa
    refine .inl (Prod.ext rfl ?_)
    change ((m'.held c.node).blocker.isSome && (m'.held c.node).directly) =
      (m'.held c.node).directly
    cases hb : (m'.held c.node).blocker with
    | none => rw [(hm.plain_held c.node).directly hb]; rfl
    | some b => rfl
  · -- nothing was sent for it, so its mark and its assignment are the old ones
    have hne : ∀ c ∈ changes, x.handle ≠ c.node := fun c hmem heq => hchanged ⟨c, hmem, heq.symm⟩
    rw [hs.others x.handle hne]
    rw [requireActive_marks_ne hobject hne hy] at hxa
    cases hxa
    have hlive := hi.mem_liveNodes.mpr (requireActive_eq_ok.mp hy).1
    refine ((hf.resolve_left hchanged) x hlive rfl hact hsort).imp_right ?_
    rintro ⟨b, hb, hgone⟩
    refine ⟨b, hb, fun ⟨z, hz⟩ => hgone ?_⟩
    obtain ⟨old, hold, -⟩ := origin_marks hz
    exact ⟨old, hold⟩

/-- **Calls keep them in step** if they settle the marks and the manager knows no new node. -/
theorem MarksFollow.settled {N : NodeHandle → Prop} {arena arena' : Arena}
    (hf : MarksFollow m arena h) (hs : Settled N arena arena') (hi : arena'.Slotted)
    (hnew : ∀ g, N g → m.held g = .unblocked g ∧ ∀ g', (m.held g').blocker ≠ some g) :
    MarksFollow m arena' h := by
  -- a node the manager knows and that is active now was active before
  have hback : ∀ b, (m.held h).blocker = some b → arena'.Active b → arena.Active b := by
    rintro b hb ⟨z, hz⟩
    obtain ⟨hn, hact⟩ := requireActive_eq_ok.mp hz
    obtain ⟨hslot, hgen, -⟩ := requireNode_eq_ok.mp hn
    rcases hs _ z hslot hact with ⟨y, hy, hhandle, hact', -⟩ | ⟨hfresh, -⟩
    · refine ⟨y, requireActive_eq_ok.mpr ⟨requireNode_eq_ok.mpr ⟨hy, ?_, ?_⟩, hact'⟩⟩
      · rw [hhandle]
        exact hgen
      · rw [hact']
        exact nofun
    · rw [hi.handle_eq hn] at hfresh
      exact absurd hb ((hnew b hfresh).2 h)
  intro x hx hh hact hsort
  obtain ⟨i, hslot⟩ := mem_liveNodes.mp hx
  rcases hs i x hslot hact with ⟨y, hy, hhandle, hact', hsort', hmark⟩ | ⟨hfresh, hmark⟩
  · rcases hf y (mem_liveNodes.mpr ⟨i, hy⟩) (hhandle.trans hh) hact' (hsort'.trans hsort) with
      hold | ⟨b, hb, hgone⟩
    · rcases hmark with hmark | ⟨-, b, hb, hgone⟩
      · exact .inl (hmark.trans hold)
      · exact .inr ⟨b, (congrArg Prod.fst hold).symm.trans hb, hgone⟩
    · exact .inr ⟨b, hb, fun hactive => hgone (hback b hb hactive)⟩
  · rw [hh] at hfresh
    rw [(hnew _ hfresh).1]
    exact .inl hmark

section
variable (hr : Refreshed m k result m' k')
include hr

/-- Nothing that blocking reads has changed. -/
theorem Refreshed.reads :
    k'.blockingState = { k.blockingState with revision := k'.trailLength } := by
  unfold TableauKernel.blockingState
  rw [hr.nodes, hr.facts, marks_records]

theorem Refreshed.isUnchanged :
    m'.isUnchanged (k'.blockingState.projection m'.checker.vocabulary) false = true := by
  unfold BlockingManager.isUnchanged
  rw [hr.computed.clean, hr.computed.projection, hr.reads, hr.computed.checker]
  exact decide_eq_true rfl

variable (hi : StateInv n k.state)
include hi

theorem Refreshed.follows (hm : m.Neat)
    (hf : (∃ c ∈ result.changed, c.node = h) ∨ MarksFollow m k.state.nodes h) :
    MarksFollow m' k'.state.nodes h := by
  rw [hr.nodes]
  exact .marks hf (hr.computed.sent hm) hr.computed.neat hi.slotted hr.objects

/-- After a refresh no blocker is gone, so mark and assignment agree. -/
theorem Refreshed.agree (hl : Lineage k.state) {x : Node}
    (hf : MarksFollow m' k'.state.nodes x.handle)
    (hx : x ∈ k'.state.nodes.liveNodes) (hact : x.lifecycle = .active) (hsort : x.sort = .object) :
    ∃ a, m'.assigned[x.handle]? = some a ∧ x.blocker = a.blocker ∧
      x.directlyBlocked = a.directly := by
  obtain ⟨hP, ht⟩ := hr.computed.neat.tidy _ hr.computed.projection
  have hxm := hx
  rw [hr.nodes] at hxm
  obtain ⟨y, hy, -⟩ := origin_marks
    (requireActive_eq_ok.mpr ⟨(slotted_marks hi.slotted).mem_liveNodes.mp hxm, hact⟩)
  -- the node was active before, so it is projected and assigned
  obtain ⟨a, ha⟩ := (ht.assigned x.handle).mpr
    (hP.mem_ordered.mpr ⟨_, (getElem?_projection hi hl).mpr ⟨y, hy, rfl⟩⟩)
  change m'.assigned[x.handle]? = some a at ha
  have hheld : m'.held x.handle = a := by rw [BlockingManager.held, ha]; rfl
  have hfx := hf x hx rfl hact hsort
  rw [hheld] at hfx
  rcases hfx with hmark | ⟨b, hb, hgone⟩
  · exact ⟨a, ha, congrArg Prod.fst hmark, congrArg Prod.snd hmark⟩
  · obtain ⟨z, hz, -⟩ := activeObject_of_isTree hi hl hP (ht.blocker _ a b ha hb).2.1
    refine absurd ?_ hgone
    rw [hr.nodes]
    exact active_marks hr.objects ⟨z, hz⟩

end

/-- The manager has seen no handle that the state has not handed out. -/
def BlockingManager.Issued (m : BlockingManager) (st : MutableState) : Prop :=
  ∀ P, m.lastProjection = some P → ∀ h ∈ P.orderedNodes, h.generation ≤ st.stamp h.slot

theorem BlockingManager.Issued.mono {st' : MutableState} (h : m.Issued st)
    (hle : ∀ slot, st.stamp slot ≤ st'.stamp slot) : m.Issued st' :=
  fun P hlast g hg => Nat.le_trans (h P hlast g hg) (hle g.slot)

theorem issued_of_projection {vocabulary : BlockingVocabulary} (hi : StateInv n k.state)
    (hl : Lineage k.state) (hst : Stamped k.state) (hm : m.Neat)
    (hlast : m.lastProjection = some (k.blockingState.projection vocabulary)) :
    m.Issued k.state := by
  intro P hP h hh
  cases hlast.symm.trans hP
  obtain ⟨r, hr⟩ := (hm.tidy _ hlast).1.mem_ordered.mp hh
  obtain ⟨x, hx, -⟩ := (getElem?_projection hi hl).mp hr
  have hn := (requireActive_eq_ok.mp hx).1
  have hle := hst _ x (requireNode_eq_ok.mp hn).1
  rwa [hi.slotted.handle_eq hn] at hle

/-- The manager holds nothing for a handle yet to be handed out. -/
theorem BlockingManager.Neat.unissued (hm : m.Neat) (hissued : m.Issued st) (hnew : st.Unissued h) :
    m.held h = .unblocked h ∧ ∀ g, (m.held g).blocker ≠ some h := by
  have hnone : ∀ P, m.lastProjection = some P → h ∉ P.orderedNodes := fun P hlast hh =>
    absurd hnew (Nat.not_lt.mpr (hissued P hlast h hh))
  unfold held
  cases hlast : m.lastProjection with
  | none =>
    rw [hm.fresh hlast]
    simp [BlockingAssignment.unblocked]
  | some P =>
    obtain ⟨hP, ht⟩ := hm.tidy P hlast
    refine ⟨?_, fun g hb => ?_⟩
    · cases ha : m.assigned[h]? with
      | none => rfl
      | some a => exact absurd ((ht.assigned h).mp ⟨a, ha⟩) (hnone P hlast)
    · cases ha : m.assigned[g]? with
      | none =>
        rw [ha] at hb
        cases hb
      | some a =>
        -- a blocker is a tree node of the last projection
        rw [ha] at hb
        obtain ⟨r, hr, -⟩ := hP.isTree_iff.mp (ht.blocker g a h ha hb).2.1
        exact hnone P hlast (hP.mem_ordered.mpr ⟨r, hr⟩)

end InStep

end PyHermit
