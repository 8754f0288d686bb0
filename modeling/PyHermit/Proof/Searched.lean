import PyHermit.Proof.Insertion

/-!
# Classification by search

The search mode from its told pairs to the frozen hierarchy. The oracle starts with the
told pairs and those of top, bottom and identity, all of which hold (`new_sound`). The
hierarchy starts with a node for the top and one for the bottom, every insertion keeps it
one of classes and covers, and after the last all elements are in it
(`wp_classifyBySearch`).
-/

open Std Prog Cover List

namespace PyHermit.Classification

open NativeError

variable {τ : Type}

/-! ## Well-formed problems -/

/-- The problem is in the canonical form that `validateInputs` asks for. -/
structure Canonical (problem : ClassificationProblem) : Prop where
  elements : problem.elements.Pairwise (· < ·)
  known : problem.known.Pairwise fun a b => compare a b = .lt
  inside : ∀ edge ∈ problem.known, Inside problem.elements edge
  top : problem.top ∈ problem.elements
  bottom : problem.bottom ∈ problem.elements

/-- The told pairs hold. -/
def Holds (le : Nat → Nat → Prop) (problem : ClassificationProblem) : Prop :=
  ∀ edge ∈ problem.known, le edge.child edge.parent

section Bounded

variable {le : Nat → Nat → Prop} [Std.Refl le] {problem : ClassificationProblem}

theorem Bounded.top_ne_bottom (h : Bounded le problem) : problem.top ≠ problem.bottom := by
  intro heq
  refine h.proper ?_
  rw [heq]
  exact refl_of le _

theorem Canonical.two_le (hcan : Canonical problem) (h : Bounded le problem) :
    2 ≤ problem.elements.length := by
  have hnodup : [problem.top, problem.bottom].Nodup := by
    simpa using h.top_ne_bottom
  refine (hnodup.subperm ?_).length_le
  intro x hx
  rcases mem_pair.mp hx with rfl | rfl
  · exact hcan.top
  · exact hcan.bottom

end Bounded

/-! ## Seeds -/

section Seeds

variable {problem : ClassificationProblem}

/-- Above the bottom, below the top, or the same. -/
def Trivial (problem : ClassificationProblem) (edge : Edge) : Prop :=
  Inside problem.elements edge ∧
    (edge.child = problem.bottom ∨ edge.parent = problem.top ∨ edge.child = edge.parent)

theorem Trivial.le {le : Nat → Nat → Prop} [Std.Refl le] (hb : Bounded le problem) {edge : Edge}
    (h : Trivial problem edge) : le edge.child edge.parent := by
  obtain ⟨⟨hchild, hparent⟩, heq | heq | heq⟩ := h
  · rw [heq]
    exact hb.bottom _ hparent
  · rw [heq]
    exact hb.top _ hchild
  · rw [heq]
    exact refl_of le _

theorem size_seedElement {top bottom : Nat} (seed : ExtTreeSet Edge) (element : Nat) :
    (seedElement top bottom seed element).size ≤ seed.size + 3 := by
  refine ExtTreeSet.size_insert_le.trans (Nat.succ_le_succ ?_)
  refine ExtTreeSet.size_insert_le.trans (Nat.succ_le_succ ?_)
  exact ExtTreeSet.size_insert_le

theorem mem_seedElement (hcan : Canonical problem) {seed : ExtTreeSet Edge} {element : Nat}
    (helement : element ∈ problem.elements) {edge : Edge}
    (h : edge ∈ seedElement problem.top problem.bottom seed element) :
    edge ∈ seed ∨ Trivial problem edge := by
  unfold seedElement at h
  rw [ExtTreeSet.mem_insert, ExtTreeSet.mem_insert, ExtTreeSet.mem_insert] at h
  simp only [Std.compare_eq_iff_eq] at h
  rcases h with rfl | rfl | rfl | h
  · exact .inr ⟨⟨helement, helement⟩, .inr (.inr rfl)⟩
  · exact .inr ⟨⟨helement, hcan.top⟩, .inr (.inl rfl)⟩
  · exact .inr ⟨⟨hcan.bottom, helement⟩, .inl rfl⟩
  · exact .inl h

theorem foldl_seedElement (hcan : Canonical problem) {rest : List Nat}
    (hrest : ∀ x ∈ rest, x ∈ problem.elements) (seed : ExtTreeSet Edge) :
    (∀ edge ∈ rest.foldl (seedElement problem.top problem.bottom) seed,
      edge ∈ seed ∨ Trivial problem edge) ∧
    (rest.foldl (seedElement problem.top problem.bottom) seed).size ≤ seed.size + 3 *
      rest.length := by
  induction rest generalizing seed with
  | nil => exact ⟨fun _ => .inl, le_rfl⟩
  | cons x rest ih =>
    obtain ⟨hmem, hsize⟩ := ih (fun y hy => hrest y (mem_cons_of_mem x hy))
      (seedElement problem.top problem.bottom seed x)
    refine ⟨?_, ?_⟩
    · intro edge hedge
      rcases hmem edge hedge with hedge | hedge
      · exact mem_seedElement hcan (hrest x mem_cons_self) hedge
      · exact .inr hedge
    · have hone := @size_seedElement problem.top problem.bottom seed x
      rw [foldl_cons, length_cons]
      omega

theorem seedRelations_spec (hcan : Canonical problem) :
    (∀ edge ∈ seedRelations problem, edge ∈ problem.known ∨ Trivial problem edge) ∧
      (seedRelations problem).size ≤ problem.known.length + 3 * problem.elements.length := by
  obtain ⟨hmem, hsize⟩ := foldl_seedElement hcan (fun _ hx => hx) (ExtTreeSet.ofList problem.known)
  refine ⟨?_, hsize.trans (Nat.add_le_add_right ExtTreeSet.size_ofList_le _)⟩
  intro edge hedge
  refine (hmem edge hedge).imp_left ?_
  intro hold
  rw [ExtTreeSet.mem_ofList, contains_iff_mem] at hold
  exact hold

end Seeds

/-! ## The first oracle -/

section New

variable {le : Nat → Nat → Prop} {problem : ClassificationProblem}

/-- Between the pairs of `Oracle.new`. -/
structure Listing (le : Nat → Nat → Prop) (elements : List Nat)
    (successors : ExtTreeMap Nat (ExtTreeSet Nat)) : Prop where
  listed : ∀ child ∈ elements, child ∈ successors
  holds : ∀ (child : Nat) (parents : ExtTreeSet Nat), successors[child]? = some parents →
    ∀ parent ∈ parents, parent ∈ elements ∧ le child parent

theorem Listing.start (elements : List Nat) :
    Listing le elements (ExtTreeMap.ofList (elements.map fun value => (value, ∅))) := by
  refine ⟨?_, ?_⟩
  · intro child hchild
    rw [ExtTreeMap.mem_ofList, map_map, contains_iff_mem]
    exact mem_map.mpr ⟨child, hchild, rfl⟩
  · intro child parents hparents parent hparent
    -- the listed sets are all empty
    obtain ⟨_, _, heq⟩ := mem_map.mp (mem_of_getElem?_ofList hparents)
    cases heq
    exact absurd hparent ExtTreeSet.not_mem_empty

theorem Listing.add {elements : List Nat} {successors : ExtTreeMap Nat (ExtTreeSet Nat)}
    (h : Listing le elements successors) {edge : Edge} {parents : ExtTreeSet Nat}
    (hparents : successors[edge.child]? = some parents) (hparent : edge.parent ∈ elements)
    (hle : le edge.child edge.parent) :
    Listing le elements (successors.insert edge.child (parents.insert edge.parent)) := by
  refine ⟨?_, ?_⟩
  · intro child hchild
    exact ExtTreeMap.mem_insert.mpr (.inr (h.listed child hchild))
  · intro child set hset parent hmem
    rcases getElem?_insert_cases hset with ⟨rfl, rfl⟩ | ⟨-, hset⟩
    · rcases mem_insert_eq.mp hmem with rfl | hmem
      · exact ⟨hparent, hle⟩
      · exact h.holds edge.child parents hparents parent hmem
    · exact h.holds child set hset parent hmem

theorem foldlM_listing {elements : List Nat} {edges : List Edge}
    (hedges : ∀ edge ∈ edges, Inside elements edge ∧ le edge.child edge.parent)
    (successors : ExtTreeMap Nat (ExtTreeSet Nat)) (h : Listing le elements successors) :
    ∃ successors', edges.foldlM Oracle.addSuccessor successors = .ok successors' ∧
      Listing le elements successors' := by
  induction edges generalizing successors with
  | nil => exact ⟨successors, rfl, h⟩
  | cons edge edges ih =>
    obtain ⟨⟨hchild, hparent⟩, hle⟩ := hedges edge mem_cons_self
    obtain ⟨parents, hparents⟩ := mem_iff_found.mp (h.listed _ hchild)
    obtain ⟨successors', hrun, h'⟩ := ih (fun e he => hedges e (mem_cons_of_mem edge he)) _
      (h.add hparents hparent hle)
    refine ⟨successors', ?_, h'⟩
    refine bind_eq_ok.mpr ⟨_, ?_, hrun⟩
    unfold Oracle.addSuccessor
    rw [hparents]

/-- An oracle that starts from pairs that hold is sound. -/
theorem Oracle.new_sound {known : ExtTreeSet Edge}
    (hknown : ∀ edge ∈ known, Inside problem.elements edge ∧ le edge.child edge.parent) :
    ∃ oracle, Oracle.new problem.elements known problem.mode problem.limits = .ok oracle ∧
      oracle.Sound le problem ∧ oracle.Counted := by
  obtain ⟨successors, hrun, h⟩ := foldlM_listing
    (fun edge hedge => hknown edge (ExtTreeSet.mem_toList.mp hedge)) _
      (Listing.start problem.elements)
  refine ⟨_, bind_eq_ok.mpr ⟨successors, hrun, rfl⟩, ⟨rfl, ?_, ?_, h.listed, h.holds, ?_⟩,
    ⟨Nat.zero_le _, le_rfl⟩⟩
  · intro edge hedge
    exact (hknown edge hedge).1
  · intro edge hedge
    exact absurd hedge ExtTreeSet.not_mem_empty
  · intro edge answer hanswer
    obtain ⟨_, hmem, heq⟩ := mem_map.mp (mem_of_getElem?_ofList hanswer)
    cases heq
    have hedge := hknown edge (ExtTreeSet.mem_toList.mp hmem)
    exact ⟨hedge.1, fun _ => hedge.2, fun _ => rfl⟩

end New

/-! ## The run -/

theorem Partition.length_le {le : Nat → Nat → Prop} {elements : List Nat} {nodes : List (List Nat)}
    (h : Partition le { x | x ∈ elements } nodes) : nodes.length ≤ elements.length := by
  have hnodup : ((List.range nodes.length).map (point nodes)).Nodup := by
    refine List.Nodup.map_on ?_ nodup_range
    intro i hi j hj heq
    obtain ⟨node, hnode⟩ := exists_node (mem_range.mp hi)
    obtain ⟨node', hnode'⟩ := exists_node (mem_range.mp hj)
    have hmem := h.point_mem hnode
    rw [heq] at hmem
    exact h.distinct i j node node' _ hnode hnode' hmem (h.point_mem hnode')
  have hsub : (List.range nodes.length).map (point nodes) ⊆ elements := by
    intro x hx
    obtain ⟨i, hi, rfl⟩ := mem_map.mp hx
    obtain ⟨node, hnode⟩ := exists_node (mem_range.mp hi)
    exact h.mem_set hnode (h.point_mem hnode)
  have hle := (hnodup.subperm hsub).length_le
  rw [length_map, length_range] at hle
  exact hle

section Run

variable {le : Nat → Nat → Prop} [IsTrans Nat le] [Std.Refl le] {problem : ClassificationProblem}

omit [IsTrans Nat le] [Std.Refl le] in
theorem partition_nil : Partition le ∅ [] := by
  refine ⟨?_, ?_, ?_, ?_⟩ <;> intros <;> simp_all

omit [IsTrans Nat le] [Std.Refl le] in
theorem diagram_pair {top bottom : Nat} (hle : le bottom top) (hproper : ¬ le top bottom) :
    Diagram le [[top], [bottom]] (.ofList [(⟨1, 0⟩ : Edge)]) := by
  have hbelow : Below (NodeLe le [[top], [bottom]]) 1 0 := ⟨hle, hproper⟩
  have hnumbers : ∀ i ∈ numbers [[top], [bottom]], i = 0 ∨ i = 1 := by
    intro i hi
    have hlt : i < 2 := hi
    omega
  rintro ⟨child, parent⟩
  rw [ExtTreeSet.mem_ofList, contains_iff_mem, mem_singleton]
  constructor
  · intro heq
    cases heq
    refine ⟨show 1 < 2 by decide, show 0 < 2 by decide, hbelow, ?_⟩
    intro c hc hac hcb
    rcases hnumbers c hc with rfl | rfl
    · exact hcb.ne rfl
    · exact hac.ne rfl
  · intro hcov
    rcases hnumbers child hcov.left with rfl | rfl
    · rcases hnumbers parent hcov.right with rfl | rfl
      · exact absurd rfl hcov.below.ne
      · exact absurd hcov.below.1 hproper
    · rcases hnumbers parent hcov.right with rfl | rfl
      · rfl
      · exact absurd rfl hcov.below.ne

theorem Built.new (hcan : Canonical problem) (hb : Bounded le problem) :
    Built le problem (insert problem.bottom (insert problem.top ∅))
      (MutableHierarchy.new problem.top problem.bottom) := by
  have hnodes : memberLists (MutableHierarchy.new problem.top problem.bottom).members =
      [[problem.top], [problem.bottom]] := rfl
  refine ⟨?_, ?_, ?_, ⟨[problem.top], rfl, mem_singleton_self _⟩,
    ⟨[problem.bottom], rfl, mem_singleton_self _⟩⟩
  · rw [hnodes]
    refine (partition_nil.concat nofun).concat ?_
    intro i hi heq
    have hzero : i = 0 := Nat.lt_one_iff.mp hi
    rw [hzero] at heq
    exact hb.proper heq.2
  · rw [hnodes]
    exact diagram_pair (hb.bottom _ hcan.top) hb.proper
  · rintro a (rfl | rfl | ha)
    · exact hcan.bottom
    · exact hcan.top
    · exact ha.elim

variable [DecidableRel le] {control : OperationControl} {tester : Tester τ}

theorem mem_insertionOrder {oracle : Oracle} {x : Nat} :
    x ∈ insertionOrder problem oracle ↔ x ∈ problem.elements ∧ x ≠ problem.top ∧
      x ≠ problem.bottom := by
  unfold insertionOrder
  rw [(perm_insertionSort _ _).mem_iff, mem_filter, decide_eq_true_iff]

/-- Between two insertions. -/
structure Inserting (le : Nat → Nat → Prop) (problem : ClassificationProblem)
    (rest : List (Nat × Nat)) (hierarchy : MutableHierarchy) : Prop where
  built : ∃ s, Built le problem s hierarchy ∧ ∀ a ∈ problem.elements, a ∈ s ∨ a ∈ rest.map (·.1)
  pending : ∀ x ∈ rest, x.1 ∈ problem.elements

/-- The search mode returns the taxonomy. -/
theorem wp_classifyBySearch (hcan : Canonical problem) (hb : Bounded le problem)
    (hcontrol : NeverAborts control) (htester : Truthful le problem.elements tester)
    (hcount : problem.elements.length ≤ u32Max) {oracle : Oracle} (hs : oracle.Sound le problem)
    (hc : oracle.Counted) {r : Ambient τ} : wp (classifyBySearch problem control tester)
      (fun result _ => IsTaxonomy le problem.elements problem.top problem.bottom result.hierarchy)
      (fun e _ => Exceeded problem e) (oracle, r) := by
  refine wp_get_then.mpr (wp_bind.mpr ?_)
  refine wp_imp (wp_foldlM (fun (rest : List (Nat × Nat)) hierarchy (s' : Oracle × Ambient τ) =>
      Inserting le problem rest hierarchy ∧ s'.1.Sound le problem ∧ s'.1.Counted) ?_ _ _ _ ?_) ?_
  · rintro ⟨element, offset⟩ rest hierarchy ⟨o, r⟩ ⟨hins, hs, hc⟩
    have hinsert : ∀ r' : Ambient τ, wp (hierarchy.insert control tester element)
        (fun hierarchy' s' =>
          Inserting le problem rest hierarchy' ∧ s'.1.Sound le problem ∧ s'.1.Counted)
        (fun e _ => Exceeded problem e) (o, r') := by
      intro r'
      obtain ⟨s, hbuilt, hall⟩ := hins.built
      refine wp_imp (hbuilt.wp_insert hb hcontrol htester hcount
        (hins.pending _ mem_cons_self) hs hc) ?_
      rintro hierarchy' s' ⟨hbuilt', hs', hc'⟩
      refine ⟨⟨⟨_, hbuilt', ?_⟩, fun x hx => hins.pending x (mem_cons_of_mem _ hx)⟩, hs', hc'⟩
      intro a ha
      rcases hall a ha with h | h
      · exact .inl (.inr h)
      · rcases mem_cons.mp h with rfl | h
        · exact .inl (.inl rfl)
        · exact .inr h
    -- every so many insertions the run is polled
    refine wp_ite (fun _ => ?_) fun _ => hinsert r
    refine wp_bind.mpr (wp_outside.mpr (wp_imp (wp_pollNow hcontrol) ?_))
    intro _ r' _
    exact hinsert r'
  · refine ⟨⟨⟨_, Built.new hcan hb, ?_⟩, ?_⟩, hs, hc⟩
    · intro a ha
      by_cases htop : a = problem.top
      · exact .inl (.inr (.inl htop))
      · by_cases hbottom : a = problem.bottom
        · exact .inl (.inl hbottom)
        · refine .inr ?_
          rw [zipIdx_map_fst]
          exact mem_insertionOrder.mpr ⟨ha, htop, hbottom⟩
    · intro x hx
      exact (mem_insertionOrder.mp (mem_of_getElem? (mem_zipIdx_iff_getElem?.mp hx))).1
  · rintro hierarchy s' ⟨hins, -, -⟩
    obtain ⟨s, hbuilt, hall⟩ := hins.built
    -- all elements are in, so what was built is their taxonomy
    have hset : s = { x | x ∈ problem.elements } := by
      ext a
      exact ⟨hbuilt.subset a, fun ha => (hall a ha).resolve_right not_mem_nil⟩
    rw [hset] at hbuilt
    have hlength : hierarchy.members.length ≤ problem.elements.length := by
      rw [← length_memberLists]
      exact hbuilt.partition.length_le
    obtain ⟨frozen, hfreeze, htaxonomy, hnodes⟩ :=
      freeze_ok hbuilt.partition hbuilt.diagram hbuilt.top hbuilt.bottom (by omega)
    refine wp_ask_known hfreeze (wp_seq (htaxonomy.wp_validate (by omega)) ?_)
    intro _ s'' _
    exact wp_ask_known (if_pos hcount) (wp_get_then.mpr (wp_pure.mpr htaxonomy))

end Run

end PyHermit.Classification
