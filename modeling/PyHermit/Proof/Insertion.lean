import PyHermit.Proof.Levels
import PyHermit.Proof.OracleAnswers

/-!
# Inserting an element into a hierarchy

The search mode keeps a hierarchy of the elements inserted so far: its nodes are their
classes and its edges the covers. One insertion keeps it so.

The parents of a new element, the least nodes above it, are found from the top down: a node
is left when none of its children is above the element any more, and since covers connect
everything, no node above the element is missed. The children are found from the bottom up,
by the same proof with all relations reversed (`Dir`).
-/

open Std Prog Cover List

namespace PyHermit.Classification

open NativeError MutableHierarchy

variable {τ : Type}

/-! ## The two directions -/

/-- The order of the nodes, seen from where the search starts. -/
def Dir (le : Nat → Nat → Prop) (nodes : List (List Nat)) (upward : Bool) (i j : Nat) : Prop :=
  if upward = true then NodeLe le nodes j i else NodeLe le nodes i j

/-- The node lies on the side of the element that is searched. -/
def Beyond (le : Nat → Nat → Prop) (nodes : List (List Nat)) (upward : Bool)
    (element i : Nat) : Prop :=
  if upward = true then le (point nodes i) element else le element (point nodes i)

section Dir

variable {le : Nat → Nat → Prop} {nodes : List (List Nat)} {upward : Bool} {element : Nat}

instance [IsTrans Nat le] : IsTrans Nat (Dir le nodes upward) := by
  refine ⟨fun a b c h h' => ?_⟩
  cases upward with
  | true => exact trans_of (NodeLe le nodes) h' h
  | false => exact trans_of (NodeLe le nodes) h h'

instance [Std.Refl le] : Std.Refl (Dir le nodes upward) := by
  refine ⟨fun a => ?_⟩
  cases upward with
  | true | false => exact refl_of (NodeLe le nodes) a

theorem covers_dir {i j : Nat} : Covers (Dir le nodes upward) (numbers nodes) i j ↔
    if upward = true then Covers (NodeLe le nodes) (numbers nodes) j i
    else Covers (NodeLe le nodes) (numbers nodes) i j := by
  cases upward with
  | true => exact covers_flip
  | false => exact Iff.rfl

theorem Partition.antisymm_dir {s : Set Nat} (h : Partition le s nodes) :
    ∀ i ∈ numbers nodes, ∀ j ∈ numbers nodes, Dir le nodes upward i j →
      Dir le nodes upward j i → i = j := by
  intro i hi j hj hij hji
  cases upward with
  | true => exact h.antisymm i hi j hj hji hij
  | false => exact h.antisymm i hi j hj hij hji

theorem Beyond.up [IsTrans Nat le] {i j : Nat} (h : Beyond le nodes upward element i)
    (hij : Dir le nodes upward i j) : Beyond le nodes upward element j := by
  cases upward with
  | true => exact trans_of le (show le (point nodes j) (point nodes i) from hij) h
  | false => exact trans_of le (show le element (point nodes i) from h) hij

end Dir

/-! ## The boundary -/

/-- The hierarchy of the elements `s`. -/
structure Built (le : Nat → Nat → Prop) (problem : ClassificationProblem) (s : Set Nat)
    (hierarchy : MutableHierarchy) : Prop where
  partition : Partition le s (memberLists hierarchy.members)
  diagram : Diagram le (memberLists hierarchy.members) hierarchy.edges
  subset : ∀ a ∈ s, a ∈ problem.elements
  top : ∃ node, (memberLists hierarchy.members)[hierarchy.topNode]? = some node ∧ problem.top ∈ node
  bottom : ∃ node, (memberLists hierarchy.members)[hierarchy.bottomNode]? = some node ∧
    problem.bottom ∈ node

abbrev MutableHierarchy.nodes (hierarchy : MutableHierarchy) := memberLists hierarchy.members

abbrev Components.nodes (found : Components) := memberLists found.components

/-- The start of a search. -/
def MutableHierarchy.start (hierarchy : MutableHierarchy) (upward : Bool) : Nat :=
  if upward = true then hierarchy.bottomNode else hierarchy.topNode

/-- The top is above and the bottom below all elements, and they differ. -/
structure Bounded (le : Nat → Nat → Prop) (problem : ClassificationProblem) : Prop where
  top : ∀ a ∈ problem.elements, le a problem.top
  bottom : ∀ a ∈ problem.elements, le problem.bottom a
  proper : ¬ le problem.top problem.bottom

section Boundary

variable {le : Nat → Nat → Prop} {problem : ClassificationProblem} {s : Set Nat}
  {hierarchy : MutableHierarchy} {upward : Bool} {element i : Nat}

theorem length_memberLists (members : List (ExtTreeSet Nat)) :
    (memberLists members).length = members.length :=
  length_map _

/-- The least nodes beyond the element, seen from the start. -/
def IsBoundary (le : Nat → Nat → Prop) (nodes : List (List Nat)) (upward : Bool) (element : Nat)
    (boundary : ExtTreeSet Nat) : Prop :=
  ∀ i, i ∈ boundary ↔ i ∈ numbers nodes ∧ Beyond le nodes upward element i ∧
    ∀ c ∈ numbers nodes, Beyond le nodes upward element c → ¬ Below (Dir le nodes upward) c i

/-- The pair that is tested for a node. -/
def testedEdge (nodes : List (List Nat)) (upward : Bool) (element i : Nat) : Edge :=
  if upward = true then ⟨point nodes i, element⟩ else ⟨element, point nodes i⟩

theorem tested_iff {nodes : List (List Nat)} :
    le (testedEdge nodes upward element i).child (testedEdge nodes upward element i).parent ↔
      Beyond le nodes upward element i := by
  cases upward <;> rfl

variable (h : Built le problem s hierarchy)
include h

theorem Built.start_mem : hierarchy.start upward ∈ numbers hierarchy.nodes := by
  cases upward with
  | true =>
    obtain ⟨node, hnode, -⟩ := h.bottom
    exact mem_numbers hnode
  | false =>
    obtain ⟨node, hnode, -⟩ := h.top
    exact mem_numbers hnode

theorem Built.dir_start [IsTrans Nat le] (hb : Bounded le problem)
    (hi : i ∈ numbers hierarchy.nodes) :
    Dir le hierarchy.nodes upward i (hierarchy.start upward) := by
  obtain ⟨node, hnode⟩ := exists_node hi
  have hpoint := h.partition.point_mem hnode
  have hmem := h.subset _ (h.partition.mem_set hnode hpoint)
  cases upward with
  | true =>
    obtain ⟨node', hnode', hbottom⟩ := h.bottom
    exact (h.partition.nodeLe_iff hnode' hnode hbottom hpoint).mpr (hb.bottom _ hmem)
  | false =>
    obtain ⟨node', hnode', htop⟩ := h.top
    exact (h.partition.nodeLe_iff hnode hnode' hpoint htop).mpr (hb.top _ hmem)

theorem Built.beyond_start [IsTrans Nat le] (hb : Bounded le problem)
    (helement : element ∈ problem.elements) :
    Beyond le hierarchy.nodes upward element (hierarchy.start upward) := by
  cases upward with
  | true =>
    obtain ⟨node, hnode, hbottom⟩ := h.bottom
    exact trans_of le (h.partition.same hnode (h.partition.point_mem hnode) hbottom).1
      (hb.bottom element helement)
  | false =>
    obtain ⟨node, hnode, htop⟩ := h.top
    exact trans_of le (hb.top element helement)
      (h.partition.same hnode (h.partition.point_mem hnode) htop).2

theorem Built.representative (hi : i ∈ numbers hierarchy.nodes) :
    hierarchy.representative i = .ok (point hierarchy.nodes i) := by
  obtain ⟨node, hnode⟩ := exists_node hi
  have hne := h.partition.nonempty i node hnode
  have hlist := hnode
  unfold nodes memberLists at hlist
  rw [getElem?_map] at hlist
  obtain ⟨members, hmembers, rfl⟩ := Option.map_eq_some_iff.mp hlist
  have hmin : members.min? = some (members.toList.headD 0) := by
    rw [← ExtTreeSet.minD_eq_headD_toList]
    refine ExtTreeSet.min?_eq_some_minD ?_
    intro hempty
    exact hne (ExtTreeSet.toList_eq_nil_iff.mpr hempty)
  unfold MutableHierarchy.representative point
  rw [hmembers, Option.bind_some, hmin, getD_eq_getElem?_getD, hnode]
  rfl

theorem Built.mem_neighbours {c : Nat} : c ∈ hierarchy.neighbours upward i ↔
      Covers (Dir le hierarchy.nodes upward) (numbers hierarchy.nodes) c i := by
  rw [mem_neighbours_iff, h.diagram, covers_dir]
  cases upward with
  | true | false => exact Iff.rfl

theorem Built.relationTo (hi : i ∈ numbers hierarchy.nodes) :
    hierarchy.relationTo upward element i =
      .ok (testedEdge hierarchy.nodes upward element i) := by
  refine bind_eq_ok.mpr ⟨_, h.representative hi, ?_⟩
  cases upward <;> rfl

theorem Built.tested_inside (helement : element ∈ problem.elements)
    (hi : i ∈ numbers hierarchy.nodes) :
    Inside problem.elements (testedEdge hierarchy.nodes upward element i) := by
  obtain ⟨node, hnode⟩ := exists_node hi
  have hmem := h.subset _ (h.partition.mem_set hnode (h.partition.point_mem hnode))
  cases upward with
  | true => exact ⟨hmem, helement⟩
  | false => exact ⟨helement, hmem⟩

variable {oracle : Oracle} {r : Ambient τ} {control : OperationControl} {tester : Tester τ}
  [IsTrans Nat le] [Std.Refl le] [DecidableRel le]

/-- The boundary search finds the least nodes beyond the element. -/
theorem Built.wp_boundary (hbounded : Bounded le problem) (hcontrol : NeverAborts control)
    (htester : Truthful le problem.elements tester) (hcount : problem.elements.length ≤ u32Max)
    (helement : element ∈ problem.elements) (hs : oracle.Sound le problem) (hc : oracle.Counted) :
    wp (hierarchy.boundary control tester (hierarchy.start upward) upward element)
      (fun boundary s' => IsBoundary le hierarchy.nodes upward element boundary ∧
        s'.1.Sound le problem ∧ s'.1.Counted) (fun e _ => Exceeded problem e) (oracle, r) := by
  refine wp_levels (I := fun s' : Oracle × Ambient τ => s'.1.Sound le problem ∧ s'.1.Counted)
    (fun i hi => length_memberLists hierarchy.members ▸ hi) h.partition.antisymm_dir h.start_mem
    (fun x hx => h.dir_start hbounded hx) (fun x y hx hxy => Beyond.up hx hxy)
    (h.beyond_start hbounded helement) (fun i c => h.mem_neighbours) ?_ ?_ ⟨hs, hc⟩
  · intro frontier s' _ hI
    exact wp_outside.mpr (wp_imp (wp_pollNow hcontrol) fun _ _ _ => hI)
  · rintro candidates ⟨o, r'⟩ hin ⟨hs, hc⟩
    have hrelations : candidates.mapM (hierarchy.relationTo upward element) =
        .ok (candidates.map (testedEdge hierarchy.nodes upward element)) := by
      refine mapM_eq_ok.mpr (List.forall₂_map_right_iff.mpr (List.forall₂_same.mpr ?_))
      intro c hmem
      exact h.relationTo (hin c hmem)
    refine wp_ask_known hrelations (wp_imp (hs.wp_evaluate hc hcontrol htester hcount ?_) ?_)
    · intro edge hedge
      obtain ⟨c, hmem, rfl⟩ := mem_map.mp hedge
      exact h.tested_inside helement (hin c hmem)
    · rintro answers s'' ⟨hanswers, hI⟩
      rw [map_map] at hanswers
      exact ⟨⟨_, hanswers, fun c _ => decide_eq_true_iff.trans tested_iff⟩, hI⟩

end Boundary

/-! ## One insertion -/

section Insert

variable {le : Nat → Nat → Prop} [IsTrans Nat le] {problem : ClassificationProblem} {s : Set Nat}
  {hierarchy : MutableHierarchy} {element : Nat} {parents children : ExtTreeSet Nat}

/-- The element is of the class of a node. -/
def Equivalent (le : Nat → Nat → Prop) (nodes : List (List Nat)) (element i : Nat) : Prop :=
  le element (point nodes i) ∧ le (point nodes i) element

theorem Built.boundary_unique (h : Built le problem s hierarchy) {upward : Bool}
    {boundary : ExtTreeSet Nat}
    (hboundary : IsBoundary le hierarchy.nodes upward element boundary) {i : Nat}
    (hi : i ∈ numbers hierarchy.nodes) (heq : Equivalent le hierarchy.nodes element i) (j : Nat) :
    j ∈ boundary ↔ j = i := by
  have hbeyond : Beyond le hierarchy.nodes upward element i := by
    cases upward with
    | true => exact heq.2
    | false => exact heq.1
  have hleast : ∀ c, Beyond le hierarchy.nodes upward element c →
      Dir le hierarchy.nodes upward i c := by
    intro c hc
    cases upward with
    | true => exact trans_of le (show le (point _ c) element from hc) heq.1
    | false => exact trans_of le heq.2 hc
  rw [hboundary j]
  exact least_iff_eq h.partition.antisymm_dir hi hbeyond hleast

/-- The nodes afterwards are the nodes before with the element added to one of them. -/
structure Joined (nodes nodes' : List (List Nat)) (i element : Nat) : Prop where
  length_eq : nodes'.length = nodes.length
  mem_iff : ∀ (j : Nat) (node node' : List Nat), nodes[j]? = some node → nodes'[j]? = some node' →
    ∀ a, a ∈ node' ↔ a ∈ node ∨ (j = i ∧ a = element)

namespace Joined

variable {nodes nodes' : List (List Nat)} {i j : Nat} {node : List Nat}

theorem before (hjoin : Joined nodes nodes' i element) (hj : nodes'[j]? = some node) :
    ∃ node', nodes[j]? = some node' :=
  exists_node (show j < nodes.length from hjoin.length_eq ▸ lt_of_getElem? hj)

theorem after (hjoin : Joined nodes nodes' i element) (hj : nodes[j]? = some node) :
    ∃ node', nodes'[j]? = some node' ∧ ∀ a ∈ node, a ∈ node' := by
  obtain ⟨node', hnode'⟩ :=
    exists_node (show j < nodes'.length from hjoin.length_eq ▸ lt_of_getElem? hj)
  exact ⟨node', hnode', fun a ha => (hjoin.mem_iff j node node' hj hnode' a).mpr (.inl ha)⟩

variable (hp : Partition le s nodes) (heq : Equivalent le nodes element i)
include hp heq

theorem equivalent (hi : nodes[i]? = some node) {a : Nat} (ha : a ∈ node) :
    le element a ∧ le a element := by
  have hsame := hp.same hi (hp.point_mem hi) ha
  exact ⟨trans_of le heq.1 hsame.1, trans_of le hsame.2 heq.2⟩

variable (hi : i ∈ numbers nodes)
include hi

theorem only (hj : nodes[j]? = some node) {a : Nat} (ha : a ∈ node) (hae : le a element)
    (hea : le element a) : j = i := by
  obtain ⟨node', hnode'⟩ := exists_node hi
  have hpoint := hp.point_mem hnode'
  have hmem : point nodes i ∈ node :=
    (hp.classes j node hj a ha _).mpr
      ⟨hp.mem_set hnode' hpoint, trans_of le hae heq.1, trans_of le heq.2 hea⟩
  exact hp.distinct j i node node' _ hj hnode' hmem hpoint

variable [Std.Refl le]

theorem partition (hjoin : Joined nodes nodes' i element) :
    Partition le (insert element s) nodes' := by
  refine ⟨?_, ?_, ?_, ?_⟩
  · intro j node' hj hnil
    obtain ⟨node, hnode⟩ := hjoin.before hj
    have hpoint := (hjoin.mem_iff j node node' hnode hj _).mpr (.inl (hp.point_mem hnode))
    rw [hnil] at hpoint
    exact not_mem_nil hpoint
  · intro a ha
    rcases ha with rfl | ha
    · obtain ⟨node, hnode⟩ := exists_node hi
      obtain ⟨node', hnode', -⟩ := hjoin.after hnode
      exact ⟨i, node', hnode', (hjoin.mem_iff i node node' hnode hnode' _).mpr (.inr ⟨rfl, rfl⟩)⟩
    · obtain ⟨j, node, hnode, hmem⟩ := hp.total a ha
      obtain ⟨node', hnode', hkept⟩ := hjoin.after hnode
      exact ⟨j, node', hnode', hkept a hmem⟩
  · intro j node' hj a ha b
    obtain ⟨node, hnode⟩ := hjoin.before hj
    have hmem := hjoin.mem_iff j node node' hnode hj
    rw [hmem b]
    rcases (hmem a).mp ha with ha | ⟨rfl, rfl⟩
    · -- `a` is old, so `b` is of its class before, or is the element
      rw [hp.classes j node hnode a ha b]
      constructor
      · rintro (⟨hb, hab⟩ | ⟨rfl, rfl⟩)
        · exact ⟨.inr hb, hab⟩
        · exact ⟨.inl rfl, (equivalent hp heq hnode ha).symm⟩
      · rintro ⟨rfl | hb, hab⟩
        · exact .inr ⟨only hp heq hi hnode ha hab.1 hab.2, rfl⟩
        · exact .inl ⟨hb, hab⟩
    · -- `a` is the element itself
      constructor
      · rintro (hb | ⟨-, rfl⟩)
        · exact ⟨.inr (hp.mem_set hnode hb), equivalent hp heq hnode hb⟩
        · exact ⟨.inl rfl, refl_of le _, refl_of le _⟩
      · rintro ⟨rfl | hb, hab⟩
        · exact .inr ⟨rfl, rfl⟩
        · have hpoint := hp.point_mem hnode
          exact .inl ((hp.classes j node hnode _ hpoint b).mpr
            ⟨hb, trans_of le heq.2 hab.1, trans_of le hab.2 heq.1⟩)
  · intro j k node1' node2' a hj hk ha1 ha2
    obtain ⟨node1, hnode1⟩ := hjoin.before hj
    obtain ⟨node2, hnode2⟩ := hjoin.before hk
    rcases (hjoin.mem_iff j node1 node1' hnode1 hj a).mp ha1 with ha1 | ⟨rfl, rfl⟩
    · rcases (hjoin.mem_iff k node2 node2' hnode2 hk a).mp ha2 with ha2 | ⟨rfl, rfl⟩
      · exact hp.distinct j k node1 node2 a hnode1 hnode2 ha1 ha2
      · exact only hp heq hi hnode1 ha1 (refl_of le a) (refl_of le a)
    · rcases (hjoin.mem_iff k node2 node2' hnode2 hk a).mp ha2 with ha2 | ⟨rfl, -⟩
      · exact (only hp heq hi hnode2 ha2 (refl_of le a) (refl_of le a)).symm
      · rfl

theorem diagram (hjoin : Joined nodes nodes' i element) {edges : ExtTreeSet Edge}
    (hd : Diagram le nodes edges) : Diagram le nodes' edges := by
  have hnumbers : numbers nodes' = numbers nodes := by
    unfold numbers
    rw [hjoin.length_eq]
  intro edge
  rw [hd edge, hnumbers]
  refine covers_congr ?_
  intro x hx y hy
  obtain ⟨nodex, hnodex⟩ := exists_node hx
  obtain ⟨nodey, hnodey⟩ := exists_node hy
  obtain ⟨nodex', hnodex', hkeptx⟩ := hjoin.after hnodex
  obtain ⟨nodey', hnodey', hkepty⟩ := hjoin.after hnodey
  exact ((hjoin.partition hp heq hi).nodeLe_iff hnodex' hnodey'
    (hkeptx _ (hp.point_mem hnodex)) (hkepty _ (hp.point_mem hnodey))).symm

end Joined

theorem joined_modify (members : List (ExtTreeSet Nat)) (i element : Nat) :
    Joined (memberLists members) (memberLists (members.modify i (·.insert element))) i element := by
  refine ⟨?_, ?_⟩
  · rw [length_memberLists, length_memberLists, length_modify]
  · intro j node node' hnode hnode' a
    unfold memberLists at hnode hnode'
    rw [getElem?_map] at hnode hnode'
    obtain ⟨set, hset, rfl⟩ := Option.map_eq_some_iff.mp hnode
    obtain ⟨set', hset', rfl⟩ := Option.map_eq_some_iff.mp hnode'
    rw [ExtTreeSet.mem_toList, ExtTreeSet.mem_toList]
    rcases getElem?_modify_iff.mp hset' with ⟨rfl, _, hold, rfl⟩ | ⟨hne, hold⟩
    · cases hset.symm.trans hold
      rw [mem_insert_eq, or_comm, and_iff_right rfl, eq_comm]
    · cases hset.symm.trans hold
      exact ⟨.inl, fun ha => ha.resolve_right fun hb => hne hb.1.symm⟩

theorem Built.join [Std.Refl le] (h : Built le problem s hierarchy)
    (helement : element ∈ problem.elements)
    {i : Nat} (hi : i ∈ numbers hierarchy.nodes) (heq : Equivalent le hierarchy.nodes element i) :
    Built le problem (insert element s)
      { hierarchy with members := hierarchy.members.modify i (·.insert element) } := by
  have hjoin := joined_modify hierarchy.members i element
  refine ⟨hjoin.partition h.partition heq hi,
    hjoin.diagram h.partition heq hi h.diagram,
    Set.forall_insert_of_forall h.subset helement, ?_, ?_⟩
  · obtain ⟨node, hnode, htop⟩ := h.top
    obtain ⟨node', hnode', hkept⟩ := hjoin.after hnode
    exact ⟨node', hnode', hkept _ htop⟩
  · obtain ⟨node, hnode, hbottom⟩ := h.bottom
    obtain ⟨node', hnode', hkept⟩ := hjoin.after hnode
    exact ⟨node', hnode', hkept _ hbottom⟩

/-! ### A node of its own -/

section Concat

variable {nodes : List (List Nat)} {upward : Bool}

section
variable (hp : Partition le s nodes) (hnew : ∀ i ∈ numbers nodes, ¬ Equivalent le nodes element i)
include hp hnew

theorem Partition.not_equivalent {j a : Nat} {node : List Nat}
    (hj : nodes[j]? = some node) (ha : a ∈ node) : ¬ (le element a ∧ le a element) := by
  rintro ⟨hea, hae⟩
  have hsame := hp.same hj (hp.point_mem hj) ha
  exact hnew j (mem_numbers hj) ⟨trans_of le hea hsame.2, trans_of le hsame.1 hae⟩

theorem Partition.concat [Std.Refl le] :
    Partition le (insert element s) (nodes ++ [[element]]) := by
  refine ⟨?_, ?_, ?_, ?_⟩
  · intro j node hj
    rcases getElem?_concat_iff.mp hj with hj | ⟨-, rfl⟩
    · exact hp.nonempty j node hj
    · exact cons_ne_nil _ _
  · intro a ha
    rcases ha with rfl | ha
    · exact ⟨nodes.length, [a], getElem?_concat_iff.mpr (.inr ⟨rfl, rfl⟩), mem_singleton_self a⟩
    · obtain ⟨j, node, hj, hmem⟩ := hp.total a ha
      exact ⟨j, node, getElem?_concat_iff.mpr (.inl hj), hmem⟩
  · intro j node hj a ha b
    rcases getElem?_concat_iff.mp hj with hnode | ⟨-, rfl⟩
    · rw [hp.classes j node hnode a ha b]
      constructor
      · rintro ⟨hb, hab⟩
        exact ⟨.inr hb, hab⟩
      · rintro ⟨hb, hab⟩
        rcases hb with rfl | hb
        · exact absurd hab.symm (hp.not_equivalent hnew hnode ha)
        · exact ⟨hb, hab⟩
    · rw [mem_singleton] at ha ⊢
      rw [ha]
      constructor
      · rintro rfl
        exact ⟨.inl rfl, refl_of le _, refl_of le _⟩
      · rintro ⟨rfl | hb, hab⟩
        · rfl
        · obtain ⟨k, node', hk, hmem⟩ := hp.total b hb
          exact absurd hab (hp.not_equivalent hnew hk hmem)
  · intro j k node node' a hj hk ha ha'
    -- no old node has the element
    have hfar : ∀ (x : Nat) (l : List Nat), nodes[x]? = some l → element ∈ l → False :=
      fun x l hx hmem => hp.not_equivalent hnew hx hmem ⟨refl_of le _, refl_of le _⟩
    rcases getElem?_concat_iff.mp hj with hnode | ⟨hlast, rfl⟩
    · rcases getElem?_concat_iff.mp hk with hnode' | ⟨-, rfl⟩
      · exact hp.distinct j k node node' a hnode hnode' ha ha'
      · exact (hfar j node hnode (mem_singleton.mp ha' ▸ ha)).elim
    · rcases getElem?_concat_iff.mp hk with hnode' | ⟨hlast', rfl⟩
      · exact (hfar k node' hnode' (mem_singleton.mp ha ▸ ha')).elim
      · exact hlast.trans hlast'.symm

end

theorem numbers_concat {x : List Nat} :
    numbers (nodes ++ [x]) = insert nodes.length (numbers nodes) := by
  ext i
  simp only [numbers, length_append, length_singleton, Set.mem_ofPred_eq, Set.mem_insert_iff]
  omega

variable {i : Nat}

theorem point_concat_old (hi : i ∈ numbers nodes) :
    point (nodes ++ [[element]]) i = point nodes i := by
  unfold point
  rw [getD_eq_getElem?_getD, getElem?_append_left hi, ← getD_eq_getElem?_getD]

theorem point_concat_new : point (nodes ++ [[element]]) nodes.length = element := by
  unfold point
  rw [getD_eq_getElem?_getD, getElem?_concat_length]
  rfl

omit [IsTrans Nat le] in
theorem dir_concat_old {j : Nat} (hi : i ∈ numbers nodes) (hj : j ∈ numbers nodes) :
    Dir le (nodes ++ [[element]]) upward i j ↔ Dir le nodes upward i j := by
  unfold Dir NodeLe
  rw [point_concat_old hi, point_concat_old hj]

omit [IsTrans Nat le] in
theorem dir_concat_new (hi : i ∈ numbers nodes) :
    Dir le (nodes ++ [[element]]) upward nodes.length i ↔ Beyond le nodes upward element i := by
  unfold Dir NodeLe Beyond
  rw [point_concat_old hi, point_concat_new]

variable (hnew : ∀ i ∈ numbers nodes, ¬ Equivalent le nodes element i)
include hnew

omit [IsTrans Nat le] in
/-- Without a node of its class, the element is strictly apart from what is beyond it. -/
theorem below_concat_new (hi : i ∈ numbers nodes) :
    Below (Dir le (nodes ++ [[element]]) upward) nodes.length i ↔
      Beyond le nodes upward element i := by
  unfold Below
  rw [dir_concat_new hi]
  constructor
  · exact And.left
  · intro hbeyond
    refine ⟨hbeyond, ?_⟩
    intro hback
    unfold Dir NodeLe at hback
    rw [point_concat_old hi, point_concat_new] at hback
    cases upward with
    | true => exact hnew i hi ⟨hback, hbeyond⟩
    | false => exact hnew i hi ⟨hbeyond, hback⟩

omit [IsTrans Nat le] in
theorem covers_concat_new {boundary : ExtTreeSet Nat}
    (hboundary : IsBoundary le nodes upward element boundary) (hi : i ∈ numbers nodes) :
    Covers (Dir le (nodes ++ [[element]]) upward) (numbers (nodes ++ [[element]])) nodes.length i ↔
      i ∈ boundary := by
  rw [hboundary i, numbers_concat]
  constructor
  · intro hcov
    refine ⟨hi, (below_concat_new hnew hi).mp hcov.below, ?_⟩
    intro c hc hbeyond hbelow
    refine hcov.between c (.inr hc) ((below_concat_new hnew hc).mpr hbeyond) ?_
    exact ⟨(dir_concat_old hc hi).mpr hbelow.1, fun hback =>
      hbelow.2 ((dir_concat_old hi hc).mp hback)⟩
  · rintro ⟨-, hbeyond, hleast⟩
    refine ⟨.inl rfl, .inr hi, (below_concat_new hnew hi).mpr hbeyond, ?_⟩
    intro c hc hnc hci
    rcases hc with rfl | hc
    · exact hnc.ne rfl
    · refine hleast c hc ((below_concat_new hnew hc).mp hnc) ?_
      exact ⟨(dir_concat_old hc hi).mp hci.1, fun hback => hci.2 ((dir_concat_old hi hc).mpr hback)⟩

/-- The new node cuts the covers between its children and its parents. -/
theorem covers_concat (hparents : IsBoundary le nodes false element parents)
    (hchildren : IsBoundary le nodes true element children) {c p : Nat} :
    Covers (NodeLe le (nodes ++ [[element]])) (numbers (nodes ++ [[element]])) c p ↔
      (Covers (NodeLe le nodes) (numbers nodes) c p ∧ ¬ (c ∈ children ∧ p ∈ parents)) ∨
      (c ∈ children ∧ p = nodes.length) ∨ (c = nodes.length ∧ p ∈ parents) := by
  have hup : ∀ i ∈ numbers nodes,
    Covers (NodeLe le (nodes ++ [[element]])) (numbers (nodes ++ [[element]]))
      nodes.length i ↔ i ∈ parents := fun i hi => covers_concat_new hnew hparents hi
  have hdown : ∀ i ∈ numbers nodes,
    Covers (NodeLe le (nodes ++ [[element]])) (numbers (nodes ++ [[element]]))
      i nodes.length ↔ i ∈ children := fun i hi =>
    covers_flip.symm.trans (covers_concat_new hnew hchildren hi)
  have hsame : ∀ {c p : Nat}, Covers (NodeLe le (nodes ++ [[element]])) (numbers nodes) c p ↔
      Covers (NodeLe le nodes) (numbers nodes) c p :=
    covers_congr fun x hx y hy => by
      unfold NodeLe
      rw [point_concat_old hx, point_concat_old hy]
  rw [numbers_concat] at *
  constructor
  · intro hcov
    rcases hcov.left with rfl | hc
    · rcases hcov.right with rfl | hp
      · exact absurd rfl hcov.below.ne
      · exact .inr (.inr ⟨rfl, (hup p hp).mp hcov⟩)
    · rcases hcov.right with rfl | hp
      · exact .inr (.inl ⟨(hdown c hc).mp hcov, rfl⟩)
      · -- two old nodes, with nothing of the new one between them
        obtain ⟨hold, hcut⟩ := (covers_insert hc hp).mp hcov
        refine .inl ⟨hsame.mp hold, ?_⟩
        rintro ⟨hchild, hparent⟩
        exact hcut ⟨((hdown c hc).mpr hchild).below, ((hup p hp).mpr hparent).below⟩
  · rintro (⟨hold, hcut⟩ | ⟨hchild, rfl⟩ | ⟨rfl, hparent⟩)
    · refine (covers_insert hold.left hold.right).mpr ⟨hsame.mpr hold, ?_⟩
      rintro ⟨hcn, hnp⟩
      obtain ⟨hchild, hparent⟩ := covers_of_cut (hsame.mpr hold) hcn hnp
      exact hcut ⟨(hdown c hold.left).mp hchild, (hup p hold.right).mp hparent⟩
    · exact (hdown c ((hchildren c).mp hchild).1).mpr hchild
    · exact (hup p ((hparents p).mp hparent).1).mpr hparent

end Concat

theorem mem_foldl_erase {α : Type} (l : List α) (f : α → Edge) (edges : ExtTreeSet Edge)
    (edge : Edge) :
    edge ∈ l.foldl (fun edges x => edges.erase (f x)) edges ↔ edge ∈ edges ∧
      ∀ x ∈ l, f x ≠ edge := by
  induction l generalizing edges with
  | nil => simp
  | cons x l ih =>
    rw [foldl_cons, ih, mem_erase_eq, forall_mem_cons, and_comm (a := f x ≠ edge), and_assoc]

theorem mem_foldl_cut (children parents : List Nat) (edges : ExtTreeSet Edge) (edge : Edge) :
    edge ∈ children.foldl (fun edges child =>
      parents.foldl (fun edges parent => edges.erase { child, parent }) edges) edges ↔
      edge ∈ edges ∧ ¬ (edge.child ∈ children ∧ edge.parent ∈ parents) := by
  induction children generalizing edges with
  | nil => simp
  | cons child children ih =>
    rw [foldl_cons, ih, mem_foldl_erase]
    constructor
    · rintro ⟨⟨hedge, hone⟩, hrest⟩
      refine ⟨hedge, ?_⟩
      rintro ⟨hchild, hparent⟩
      rcases mem_cons.mp hchild with heq | hchild
      · exact hone edge.parent hparent (by rw [← heq])
      · exact hrest ⟨hchild, hparent⟩
    · rintro ⟨hedge, hnone⟩
      refine ⟨⟨hedge, ?_⟩, fun h => hnone ⟨mem_cons_of_mem child h.1, h.2⟩⟩
      rintro parent hparent rfl
      exact hnone ⟨mem_cons_self, hparent⟩

theorem mem_addNode {edge : Edge} : edge ∈ (hierarchy.addNode element parents children).edges ↔
    (edge ∈ hierarchy.edges ∧ ¬ (edge.child ∈ children ∧ edge.parent ∈ parents)) ∨
    (edge.child ∈ children ∧ edge.parent = hierarchy.members.length) ∨
    (edge.child = hierarchy.members.length ∧ edge.parent ∈ parents) := by
  unfold MutableHierarchy.addNode
  rw [ExtTreeSet.mem_insertMany_list, ExtTreeSet.mem_insertMany_list, mem_foldl_cut,
    contains_iff_mem, contains_iff_mem, mem_map, mem_map, or_assoc]
  simp only [ExtTreeSet.mem_toList]
  refine or_congr Iff.rfl (or_congr ?_ ?_)
  · constructor
    · rintro ⟨child, hchild, rfl⟩
      exact ⟨hchild, rfl⟩
    · rintro ⟨hchild, hparent⟩
      exact ⟨edge.child, hchild, by rw [← hparent]⟩
  · constructor
    · rintro ⟨parent, hparent, rfl⟩
      exact ⟨rfl, hparent⟩
    · rintro ⟨hchild, hparent⟩
      exact ⟨edge.parent, hparent, by rw [← hchild]⟩

theorem Built.addNode [Std.Refl le] (h : Built le problem s hierarchy)
    (helement : element ∈ problem.elements)
    (hparents : IsBoundary le hierarchy.nodes false element parents)
    (hchildren : IsBoundary le hierarchy.nodes true element children)
    (hnew : ∀ i ∈ numbers hierarchy.nodes, ¬ Equivalent le hierarchy.nodes element i) :
    Built le problem (insert element s) (hierarchy.addNode element parents children) := by
  have hnodes : memberLists (hierarchy.addNode element parents children).members =
      hierarchy.nodes ++ [[element]] := by
    unfold MutableHierarchy.addNode memberLists
    rw [map_append]
    rfl
  have hlength : hierarchy.nodes.length = hierarchy.members.length := length_memberLists _
  unfold nodes at *
  generalize hn : memberLists hierarchy.members = nodes at *
  have hold : ∀ (j : Nat) (node : List Nat), nodes[j]? = some node →
      (nodes ++ [[element]])[j]? = some node := fun j node hj => getElem?_concat_iff.mpr (.inl hj)
  have hp := h.partition
  have hd := h.diagram
  rw [hn] at hp hd
  refine ⟨?_, ?_, Set.forall_insert_of_forall h.subset helement, ?_, ?_⟩
  · rw [hnodes]
    exact hp.concat hnew
  · rw [hnodes]
    intro edge
    rw [mem_addNode, ← hlength, hd edge]
    exact (covers_concat hnew hparents hchildren).symm
  · obtain ⟨node, hnode, htop⟩ := h.top
    rw [hn] at hnode
    rw [hnodes]
    exact ⟨node, hold _ node hnode, htop⟩
  · obtain ⟨node, hnode, hbottom⟩ := h.bottom
    rw [hn] at hnode
    rw [hnodes]
    exact ⟨node, hold _ node hnode, hbottom⟩

/-! ### The whole step -/

theorem Built.wp_insert [Std.Refl le] [DecidableRel le] {oracle : Oracle} {r : Ambient τ}
    {control : OperationControl} {tester : Tester τ} (h : Built le problem s hierarchy)
    (hbounded : Bounded le problem) (hcontrol : NeverAborts control)
    (htester : Truthful le problem.elements tester) (hcount : problem.elements.length ≤ u32Max)
    (helement : element ∈ problem.elements) (hs : oracle.Sound le problem) (hc : oracle.Counted) :
    wp (hierarchy.insert control tester element)
      (fun hierarchy' s' => Built le problem (insert element s) hierarchy' ∧
        s'.1.Sound le problem ∧ s'.1.Counted) (fun e _ => Exceeded problem e) (oracle, r) := by
  refine wp_seq (h.wp_boundary hbounded hcontrol htester hcount helement hs hc) ?_
  rintro parents ⟨oracle', r'⟩ ⟨hparents, hs, hc⟩
  refine wp_seq (h.wp_boundary hbounded hcontrol htester hcount helement hs hc) ?_
  rintro children s' ⟨hchildren, hs, hc⟩
  -- either no node is of the class of the element or both boundaries are the one that is
  rcases boundaries_meet (P := fun i => i ∈ numbers hierarchy.nodes ∧
    Equivalent le hierarchy.nodes element i)
    (fun i hp hc => ⟨((hparents i).mp hp).1, ((hparents i).mp hp).2.1, ((hchildren i).mp hc).2.1⟩)
    (fun i hi => h.boundary_unique hparents hi.1 hi.2)
      (fun i hi => h.boundary_unique hchildren hi.1 hi.2) with
    ⟨hnone, hcommon⟩ | ⟨i, hown, hsame, hcommon⟩
  · rw [hcommon]
    exact wp_pure.mpr ⟨h.addNode helement hparents hchildren fun i hi heq =>
      hnone i ⟨hi, heq⟩, hs, hc⟩
  · obtain ⟨hi, heq⟩ := (hown i).mpr rfl
    rw [hcommon]
    refine wp_ensure_known ⟨hsame, rfl⟩ ?_
    refine wp_ensure_known (length_memberLists hierarchy.members ▸ hi) ?_
    exact wp_pure.mpr ⟨h.join helement hi heq, hs, hc⟩

end Insert

end PyHermit.Classification
