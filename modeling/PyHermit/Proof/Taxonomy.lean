import PyHermit.Proof.GraphPasses

/-!
# The exact taxonomy

What a hierarchy has to be: its nodes are the classes of the preorder, its edges the
covering pairs of the quotient order, everything in canonical order. The preorder determines
it (`IsTaxonomy.unique`), so both ways of computing it have to agree.

A `Partition` is a list of nodes that are the classes, in any order. Nodes are compared by
any of their members; `NodeLe` takes the first one. Freezing a partition with its covers
gives the taxonomy (`freeze_ok`), which passes the checks of the source
(`IsTaxonomy.wp_validate`).
-/

open Std Prog Cover List

namespace PyHermit.Classification

open NativeError

/-! ## Classes -/

/-- The nodes are the classes of `le` on `s`, each there once. -/
structure Partition (le : Nat → Nat → Prop) (s : Set Nat) (nodes : List (List Nat)) : Prop where
  nonempty : ∀ (i : Nat) (node : List Nat), nodes[i]? = some node → node ≠ []
  total : ∀ a ∈ s, ∃ (i : Nat) (node : List Nat), nodes[i]? = some node ∧ a ∈ node
  classes : ∀ (i : Nat) (node : List Nat), nodes[i]? = some node →
    ∀ a ∈ node, ∀ b, b ∈ node ↔ b ∈ s ∧ le a b ∧ le b a
  distinct : ∀ (i j : Nat) (node node' : List Nat) (a : Nat), nodes[i]? = some node →
    nodes[j]? = some node' → a ∈ node → a ∈ node' → i = j

/-- The first member of a node. -/
def point (nodes : List (List Nat)) (i : Nat) : Nat := (nodes.getD i []).headD 0

/-- The order of the nodes, by their first members. -/
def NodeLe (le : Nat → Nat → Prop) (nodes : List (List Nat)) (i j : Nat) : Prop :=
  le (point nodes i) (point nodes j)

def numbers (nodes : List (List Nat)) : Set Nat := { i | i < nodes.length }

theorem numbers_finite (nodes : List (List Nat)) : (numbers nodes).Finite := Set.finite_lt_nat _

variable {nodes : List (List Nat)}

theorem mem_numbers {i : Nat} {node : List Nat} (h : nodes[i]? = some node) : i ∈ numbers nodes :=
  (lt_of_getElem? h)

theorem exists_node {i : Nat} (h : i ∈ numbers nodes) : ∃ node, nodes[i]? = some node :=
  ⟨_, getElem?_eq_getElem h⟩

namespace Partition

variable {le : Nat → Nat → Prop} {s : Set Nat} {nodes : List (List Nat)} {i j a b : Nat}
  {node node' : List Nat} (h : Partition le s nodes)
include h

theorem point_mem (hi : nodes[i]? = some node) : point nodes i ∈ node := by
  unfold point
  rw [getD_eq_getElem?_getD, hi]
  cases hnode : node with
  | nil => exact absurd hnode (h.nonempty i node hi)
  | cons x xs => exact mem_cons_self

theorem mem_set (hi : nodes[i]? = some node) (ha : a ∈ node) : a ∈ s :=
  ((h.classes i node hi a ha a).mp ha).1

theorem same (hi : nodes[i]? = some node) (ha : a ∈ node) (hb : b ∈ node) : le a b ∧ le b a :=
  ((h.classes i node hi a ha b).mp hb).2

theorem antisymm :
    ∀ i ∈ numbers nodes, ∀ j ∈ numbers nodes, NodeLe le nodes i j →
      NodeLe le nodes j i → i = j := by
  intro i hi j hj hij hji
  obtain ⟨node, hnode⟩ := exists_node hi
  obtain ⟨node', hnode'⟩ := exists_node hj
  have hmem := h.point_mem hnode'
  have hsame : point nodes j ∈ node :=
    (h.classes i node hnode _ (h.point_mem hnode) _).mpr ⟨h.mem_set hnode' hmem, hij, hji⟩
  exact h.distinct i j node node' _ hnode hnode' hsame hmem

variable [IsTrans Nat le]

section
variable (hi : nodes[i]? = some node) (hj : nodes[j]? = some node') (ha : a ∈ node) (hb : b ∈ node')
include hi hj ha hb

theorem nodeLe_iff : NodeLe le nodes i j ↔ le a b := by
  have hpi := h.same hi ha (h.point_mem hi)
  have hpj := h.same hj hb (h.point_mem hj)
  constructor
  · intro hle
    exact trans_of le hpi.1 (trans_of le hle hpj.2)
  · intro hle
    exact trans_of le hpi.2 (trans_of le hle hpj.1)

theorem below_iff : Below (NodeLe le nodes) i j ↔ Below le a b := by
  unfold Below
  rw [h.nodeLe_iff hi hj ha hb, h.nodeLe_iff hj hi hb ha]

theorem covers_iff : Covers (NodeLe le nodes) (numbers nodes) i j ↔ Covers le s a b := by
  constructor
  · intro hcov
    refine ⟨h.mem_set hi ha, h.mem_set hj hb, (h.below_iff hi hj ha hb).mp hcov.below, ?_⟩
    intro c hc hac hcb
    obtain ⟨k, node'', hk, hck⟩ := h.total c hc
    exact hcov.between k (mem_numbers hk) ((h.below_iff hi hk ha hck).mpr hac)
      ((h.below_iff hk hj hck hb).mpr hcb)
  · intro hcov
    refine ⟨mem_numbers hi, mem_numbers hj, (h.below_iff hi hj ha hb).mpr hcov.below, ?_⟩
    intro k hk hik hkj
    obtain ⟨node'', hk⟩ := exists_node hk
    have hck := h.point_mem hk
    exact hcov.between _ (h.mem_set hk hck) ((h.below_iff hi hk ha hck).mp hik)
      ((h.below_iff hk hj hck hb).mp hkj)

end

theorem covers_iff_exists : Covers (NodeLe le nodes) (numbers nodes) i j ↔
    ∃ child parent, nodes[i]? = some child ∧ nodes[j]? = some parent ∧
      ∃ a ∈ child, ∃ b ∈ parent, Covers le s a b := by
  constructor
  · intro hcov
    obtain ⟨child, hchild⟩ := exists_node hcov.left
    obtain ⟨parent, hparent⟩ := exists_node hcov.right
    exact ⟨child, parent, hchild, hparent, _, h.point_mem hchild, _, h.point_mem hparent,
      (h.covers_iff hchild hparent (h.point_mem hchild) (h.point_mem hparent)).mp hcov⟩
  · rintro ⟨child, parent, hchild, hparent, a, ha, b, hb, hcov⟩
    exact (h.covers_iff hchild hparent ha hb).mpr hcov

end Partition

instance {le : Nat → Nat → Prop} [IsTrans Nat le] (nodes : List (List Nat)) :
    IsTrans Nat (NodeLe le nodes) :=
  ⟨fun _ _ _ h h' => trans_of le h h'⟩

instance {le : Nat → Nat → Prop} [Std.Refl le] (nodes : List (List Nat)) :
    Std.Refl (NodeLe le nodes) :=
  ⟨fun _ => refl_of le _⟩

/-! ## Canonical form -/

/-- The quotient of `le` on the elements, in canonical form. -/
structure IsTaxonomy (le : Nat → Nat → Prop) (elements : List Nat) (top bottom : Nat)
    (hierarchy : HierarchyIds) : Prop where
  /-- The nodes are the classes, -/
  nonempty : ∀ node ∈ hierarchy.nodes, node ≠ []
  total : ∀ a ∈ elements, ∃ node ∈ hierarchy.nodes, a ∈ node
  classes : ∀ node ∈ hierarchy.nodes, ∀ a ∈ node, ∀ b, b ∈ node ↔ b ∈ elements ∧ le a b ∧ le b a
  /-- the edges are the covering pairs of the classes, -/
  covers : ∀ edge, edge ∈ hierarchy.edges ↔ ∃ child parent, hierarchy.nodes[edge.child]? =
    some child ∧ hierarchy.nodes[edge.parent]? = some parent ∧
    ∃ a ∈ child, ∃ b ∈ parent, Covers le { x | x ∈ elements } a b
  /-- top and bottom are in their own classes' nodes, -/
  top : ∃ node, hierarchy.nodes[hierarchy.topNode]? = some node ∧ top ∈ node
  bottom : ∃ node, hierarchy.nodes[hierarchy.bottomNode]? = some node ∧ bottom ∈ node
  /-- and everything is in ascending order. -/
  nodes_ascending : hierarchy.nodes.Pairwise fun a b => compare a b = .lt
  members_ascending : ∀ node ∈ hierarchy.nodes, node.Pairwise (· < ·)
  edges_ascending : hierarchy.edges.Pairwise fun a b => compare a b = .lt

theorem ascending_iff {α : Type} [Ord α] [TransOrd α] {l : List α} :
    ascending l = true ↔ l.Pairwise fun a b => compare a b = .lt := by
  induction l with
  | nil => exact ⟨fun _ => .nil, fun _ => rfl⟩
  | cons a l ih =>
    cases l with
    | nil => exact ⟨fun _ => pairwise_singleton _ _, fun _ => rfl⟩
    | cons b l =>
      unfold ascending
      rw [Bool.and_eq_true, beq_iff_eq, ih]
      constructor
      · rintro ⟨hab, hrest⟩
        refine pairwise_cons.mpr ⟨forall_mem_cons.mpr ⟨hab, fun c hc => ?_⟩, hrest⟩
        exact TransCmp.lt_trans hab ((pairwise_cons.mp hrest).1 c hc)
      · intro h
        obtain ⟨hab, hrest⟩ := pairwise_cons.mp h
        exact ⟨hab b mem_cons_self, hrest⟩

section Ascending

variable {α : Type} [Ord α] [TransOrd α]

theorem nodup_of_ascending {l : List α} (h : l.Pairwise fun a b => compare a b = .lt) :
    l.Nodup := by
  refine h.imp ?_
  intro a b hab heq
  rw [heq, ReflOrd.compare_self] at hab
  cases hab

theorem eq_of_ascending {l l' : List α} (h : l.Pairwise fun a b => compare a b = .lt)
    (h' : l'.Pairwise fun a b => compare a b = .lt) (hmem : ∀ a, a ∈ l ↔ a ∈ l') : l = l' := by
  refine List.Perm.eq_of_pairwise ?_ h h'
    ((perm_ext_iff_of_nodup (nodup_of_ascending h) (nodup_of_ascending h')).mpr hmem)
  intro a b _ _ hab hba
  have hgt := OrientedCmp.gt_of_lt hab
  rw [hba] at hgt
  cases hgt

end Ascending

theorem pairwise_lt_iff {l : List Nat} :
    (l.Pairwise fun a b => compare a b = .lt) ↔ l.Pairwise (· < ·) := by
  simp only [Nat.compare_eq_lt]

namespace IsTaxonomy

variable {le : Nat → Nat → Prop} {elements : List Nat} {top bottom : Nat} {h h' : HierarchyIds}

section
variable (ht : IsTaxonomy le elements top bottom h)
include ht

theorem node_eq (ht' : IsTaxonomy le elements top bottom h')
    {node node' : List Nat} {a : Nat} (hnode : node ∈ h.nodes) (hnode' : node' ∈ h'.nodes)
    (ha : a ∈ node) (ha' : a ∈ node') : node = node' := by
  refine eq_of_ascending (pairwise_lt_iff.mpr (ht.members_ascending node hnode))
    (pairwise_lt_iff.mpr (ht'.members_ascending node' hnode')) ?_
  intro b
  rw [ht.classes node hnode a ha b, ht'.classes node' hnode' a ha' b]

theorem partition : Partition le { x | x ∈ elements } h.nodes := by
  refine ⟨?_, ?_, ?_, ?_⟩
  · intro i node hi
    exact ht.nonempty node (mem_of_getElem? hi)
  · intro a ha
    obtain ⟨node, hnode, hmem⟩ := ht.total a ha
    obtain ⟨i, hi⟩ := mem_iff_getElem?.mp hnode
    exact ⟨i, node, hi, hmem⟩
  · intro i node hi
    exact ht.classes node (mem_of_getElem? hi)
  · intro i j node node' a hi hj ha ha'
    have hnode := mem_of_getElem? hi
    have hnode' := mem_of_getElem? hj
    rw [← ht.node_eq ht hnode hnode' ha ha'] at hj
    exact (getElem?_inj (lt_of_getElem? hi)
      (nodup_of_ascending ht.nodes_ascending)).mp (hi.trans hj.symm)

theorem mem_nodes_of (ht' : IsTaxonomy le elements top bottom h') {node : List Nat}
    (hnode : node ∈ h.nodes) : node ∈ h'.nodes := by
  obtain ⟨a, ha⟩ := exists_mem_of_ne_nil node (ht.nonempty node hnode)
  obtain ⟨node', hnode', ha'⟩ := ht'.total a ((ht.classes node hnode a ha a).mp ha).1
  rw [ht.node_eq ht' hnode hnode' ha ha']
  exact hnode'

/-- The preorder determines its taxonomy. -/
theorem unique (ht' : IsTaxonomy le elements top bottom h') : h = h' := by
  have hnodes : h.nodes = h'.nodes := eq_of_ascending ht.nodes_ascending ht'.nodes_ascending
    fun node => ⟨ht.mem_nodes_of ht', ht'.mem_nodes_of ht⟩
  have hedges : h.edges = h'.edges := by
    refine eq_of_ascending ht.edges_ascending ht'.edges_ascending ?_
    intro edge
    rw [ht.covers, ht'.covers, hnodes]
  have hplace : ∀ {i j a : Nat}, (∃ node, h.nodes[i]? = some node ∧ a ∈ node) →
      (∃ node, h'.nodes[j]? = some node ∧ a ∈ node) → i = j := by
    rintro i j a ⟨node, hi, ha⟩ ⟨node', hj, ha'⟩
    rw [← hnodes] at hj
    exact ht.partition.distinct i j node node' a hi hj ha ha'
  have htop := hplace ht.top ht'.top
  have hbottom := hplace ht.bottom ht'.bottom
  cases h
  cases h'
  simp_all

end

end IsTaxonomy

/-! ## Freezing -/

def memberLists (members : List (ExtTreeSet Nat)) : List (List Nat) := members.map (·.toList)

variable {members : List (ExtTreeSet Nat)} {le : Nat → Nat → Prop} {s : Set Nat}

theorem mem_orderNodes {node : List Nat} {old : Nat} :
    (node, old) ∈ orderNodes members ↔ (memberLists members)[old]? = some node := by
  unfold orderNodes memberLists
  rw [(perm_insertionSort _ _).mem_iff, mem_map, getElem?_map]
  constructor
  · rintro ⟨⟨m, i⟩, hmem, heq⟩
    cases heq
    rw [mem_zipIdx_iff_getElem?] at hmem
    rw [hmem]
    rfl
  · intro h
    obtain ⟨m, hm, hnode⟩ := Option.map_eq_some_iff.mp h
    exact ⟨(m, old), mem_zipIdx_iff_getElem?.mpr hm, by rw [← hnode]⟩

theorem nodup_orderNodes (members : List (ExtTreeSet Nat)) :
    ((orderNodes members).map (·.2)).Nodup := by
  have hperm : ((orderNodes members).map (·.2)).Perm (List.range members.length) := by
    refine ((perm_insertionSort _ _).map _).trans ?_
    rw [map_map]
    show (members.zipIdx.map Prod.snd).Perm _
    rw [zipIdx_map_snd, range_eq_range']
  exact hperm.nodup_iff.mpr nodup_range

theorem length_orderNodes (members : List (ExtTreeSet Nat)) :
    (orderNodes members).length = members.length := by
  unfold orderNodes
  rw [length_insertionSort, length_map, length_zipIdx]

variable {α β : Type} {nodes' : List (List Nat)} {number : Nat → Nat}

theorem sorted_by [Ord β] [TransOrd β] (key : α → β) (l : List α) :
    (l.insertionSort fun a b => (compare (key a) (key b)).isLE).Pairwise
      fun a b => (compare (key a) (key b)).isLE := by
  have htotal : Std.Total fun a b : α => ((compare (key a) (key b)).isLE = true) := by
    refine ⟨fun a b => ?_⟩
    cases hab : compare (key a) (key b) with
    | lt | eq => exact .inl rfl
    | gt =>
      rw [OrientedCmp.lt_of_gt hab]
      exact .inr rfl
  have htrans : IsTrans α fun a b => ((compare (key a) (key b)).isLE = true) :=
    ⟨fun a b c hab hbc => TransCmp.isLE_trans hab hbc⟩
  exact pairwise_insertionSort _ _

/-- Sorted by a key that tells any two entries apart, a list goes up strictly. -/
theorem ascending_by [Ord β] [TransOrd β] [LawfulEqOrd β] (key : α → β) {l : List α}
    (hsorted : l.Pairwise fun a b => (compare (key a) (key b)).isLE)
    (hdistinct : l.Pairwise fun a b => key a ≠ key b) :
    l.Pairwise fun a b => compare (key a) (key b) = .lt := by
  refine (hsorted.and hdistinct).imp ?_
  rintro a b ⟨hle, hne⟩
  cases hcmp : compare (key a) (key b) with
  | lt => rfl
  | eq => exact absurd (Std.compare_eq_iff_eq.mp hcmp) hne
  | gt =>
    rw [hcmp] at hle
    cases hle

theorem renumber_aux {ordered : List (List Nat × Nat)} (k : Nat) (remap : List Nat)
    (hnodup : (ordered.map (·.2)).Nodup) (hrange : ∀ x ∈ ordered, x.2 < remap.length)
    (hcount : k + ordered.length ≤ u32Max + 1) :
    ∃ remap', (ordered.zipIdx k).foldlM (fun remap ((_, old), new) => do
        let new ← toU32 new "classification hierarchy node count exceeds u32"
        return remap.set old new) remap = .ok remap' ∧
      (∀ i x, ordered[i]? = some x → remap'.getD x.2 0 = k + i) ∧
      ∀ old, old ∉ ordered.map (·.2) → remap'.getD old 0 = remap.getD old 0 := by
  induction ordered generalizing k remap with
  | nil => exact ⟨remap, rfl, nofun, fun _ _ => rfl⟩
  | cons y ordered ih =>
    rw [map_cons, nodup_cons] at hnodup
    rw [length_cons] at hcount
    have hy := hrange y mem_cons_self
    obtain ⟨remap', hrun, hnew, hold⟩ := ih (k + 1) (remap.set y.2 k) hnodup.2
      (fun x hx => by rw [length_set]; exact hrange x (mem_cons_of_mem y hx)) (by omega)
    refine ⟨remap', ?_, ?_, ?_⟩
    · rw [zipIdx_cons, foldlM_cons]
      have hfits : toU32 k "classification hierarchy node count exceeds u32" = .ok k :=
        if_pos (by omega)
      exact bind_eq_ok.mpr ⟨_, bind_eq_ok.mpr ⟨k, hfits, rfl⟩, hrun⟩
    · intro i x hx
      cases i with
      | zero =>
        cases hx
        rw [hold y.2 hnodup.1, getD_set hy, if_pos rfl, Nat.add_zero]
      | succ i =>
        rw [hnew i x hx]
        omega
    · intro old hmem
      rw [map_cons, mem_cons, not_or] at hmem
      rw [hold old hmem.2, getD_set hy, if_neg fun h => hmem.1 h.symm]

theorem renumberNodes_ok (hcount : members.length ≤ u32Max + 1) :
    ∃ remap, renumberNodes (orderNodes members) = .ok remap ∧
      ∀ i node old, (orderNodes members)[i]? = some (node, old) → remap.getD old 0 = i := by
  have hrange : ∀ x ∈ orderNodes members, x.2 <
      (List.replicate (orderNodes members).length 0).length := by
    rintro ⟨node, old⟩ hx
    have hold := lt_of_getElem? (mem_orderNodes.mp hx)
    rw [length_replicate, length_orderNodes]
    unfold memberLists at hold
    rw [length_map] at hold
    exact hold
  obtain ⟨remap, hrun, hnew, -⟩ := renumber_aux 0 _ (nodup_orderNodes members) hrange
    (by rw [length_orderNodes]; omega)
  refine ⟨remap, hrun, ?_⟩
  intro i node old h
  rw [hnew i (node, old) h, Nat.zero_add]

/-- `nodes'` are the nodes in another order, `number` their new numbers. -/
structure Relabels (nodes nodes' : List (List Nat)) (number : Nat → Nat) : Prop where
  there : ∀ (old : Nat) (node : List Nat), nodes[old]? = some node → nodes'[number old]? = some node
  back : ∀ (new : Nat) (node : List Nat), nodes'[new]? = some node →
    ∃ old, nodes[old]? = some node ∧ number old = new

theorem Relabels.partition (h : Relabels nodes nodes' number) (hp : Partition le s nodes) :
    Partition le s nodes' := by
  refine ⟨?_, ?_, ?_, ?_⟩
  · intro i node hi
    obtain ⟨old, hold, -⟩ := h.back i node hi
    exact hp.nonempty old node hold
  · intro a ha
    obtain ⟨old, node, hold, hmem⟩ := hp.total a ha
    exact ⟨number old, node, h.there old node hold, hmem⟩
  · intro i node hi
    obtain ⟨old, hold, -⟩ := h.back i node hi
    exact hp.classes old node hold
  · intro i j node node' a hi hj ha ha'
    obtain ⟨old, hold, rfl⟩ := h.back i node hi
    obtain ⟨old', hold', rfl⟩ := h.back j node' hj
    rw [hp.distinct old old' node node' a hold hold' ha ha']

theorem Relabels.injective (h : Relabels nodes nodes' number)
    (hp : Partition le s nodes) {i j : Nat}
    (hi : i ∈ numbers nodes) (hj : j ∈ numbers nodes) (heq : number i = number j) : i = j := by
  obtain ⟨node, hnode⟩ := exists_node hi
  obtain ⟨node', hnode'⟩ := exists_node hj
  have hsame : node = node' := by
    have h1 := h.there i node hnode
    rw [heq, h.there j node' hnode'] at h1
    exact (Option.some.inj h1).symm
  rw [← hsame] at hnode'
  exact hp.distinct i j node node _ hnode hnode' (hp.point_mem hnode) (hp.point_mem hnode)

theorem relabels_orderNodes {remap : List Nat}
    (hremap : ∀ i node old, (orderNodes members)[i]? = some (node, old) → remap.getD old 0 = i) :
    Relabels (memberLists members) ((orderNodes members).map (·.1)) (remap.getD · 0) := by
  refine ⟨?_, ?_⟩
  · intro old node hold
    obtain ⟨i, hi⟩ := mem_iff_getElem?.mp (mem_orderNodes.mpr hold)
    rw [getElem?_map, hremap i node old hi, hi]
    rfl
  · intro new node hnew
    rw [getElem?_map] at hnew
    obtain ⟨⟨node', old⟩, hi, rfl⟩ := Option.map_eq_some_iff.mp hnew
    exact ⟨old, mem_orderNodes.mp (mem_of_getElem? hi), hremap new _ old hi⟩

/-- In the order of their members the nodes go up strictly. -/
theorem ascending_orderNodes (hp : Partition le s (memberLists members)) :
    ((orderNodes members).map (·.1)).Pairwise fun a b => compare a b = .lt := by
  rw [pairwise_map]
  refine ascending_by Prod.fst (sorted_by Prod.fst _) ?_
  have hnodup := nodup_orderNodes members
  rw [List.Nodup, pairwise_map] at hnodup
  refine hnodup.imp_of_mem ?_
  rintro ⟨node, i⟩ ⟨node', j⟩ hx hy hne heq
  -- two nodes with the same members are one
  have hi := mem_orderNodes.mp hx
  have hj := mem_orderNodes.mp hy
  dsimp only at heq
  rw [← heq] at hj
  exact hne (hp.distinct i j node node _ hi hj (hp.point_mem hi) (hp.point_mem hi))

/-- The covers of a partition. -/
def Diagram (le : Nat → Nat → Prop) (nodes : List (List Nat)) (edges : ExtTreeSet Edge) : Prop :=
  ∀ edge, edge ∈ edges ↔ Covers (NodeLe le nodes) (numbers nodes) edge.child edge.parent

/-- Freezing the classes and their covers gives the taxonomy. -/
theorem freeze_ok [IsTrans Nat le] {elements : List Nat} {top bottom : Nat}
    {edges : ExtTreeSet Edge} {topNode bottomNode : Nat}
    (hp : Partition le { x | x ∈ elements } (memberLists members))
    (hedges : Diagram le (memberLists members) edges)
    (htop : ∃ node, (memberLists members)[topNode]? = some node ∧ top ∈ node)
    (hbottom : ∃ node, (memberLists members)[bottomNode]? = some node ∧ bottom ∈ node)
    (hcount : members.length ≤ u32Max + 1) :
    ∃ hierarchy, freeze members edges topNode bottomNode = .ok hierarchy ∧
      IsTaxonomy le elements top bottom hierarchy ∧ hierarchy.nodes.length = members.length := by
  obtain ⟨remap, hrun, hremap⟩ := renumberNodes_ok hcount
  have hrel := relabels_orderNodes hremap
  have hp' := hrel.partition hp
  have hmap : ∀ edge ∈ edges.toList, edge.child ∈ numbers (memberLists members) ∧
      edge.parent ∈ numbers (memberLists members) := by
    intro edge hedge
    have hcov := (hedges edge).mp (ExtTreeSet.mem_toList.mp hedge)
    exact ⟨hcov.left, hcov.right⟩
  refine ⟨_, bind_eq_ok.mpr ⟨remap, hrun, rfl⟩, ⟨?_, ?_, ?_, ?_, ?_, ?_, ?_, ?_, ?_⟩, ?_⟩
  · intro node hnode
    obtain ⟨i, hi⟩ := mem_iff_getElem?.mp hnode
    exact hp'.nonempty i node hi
  · intro a ha
    obtain ⟨i, node, hi, hmem⟩ := hp'.total a ha
    exact ⟨node, mem_of_getElem? hi, hmem⟩
  · intro node hnode
    obtain ⟨i, hi⟩ := mem_iff_getElem?.mp hnode
    exact hp'.classes i node hi
  · -- a cover of the nodes in the old order is one in the new order, and the other way round
    intro edge
    rw [(perm_insertionSort _ _).mem_iff, mem_map]
    constructor
    · rintro ⟨old, hold, rfl⟩
      obtain ⟨child, parent, hchild, hparent, hcov⟩ :=
        hp.covers_iff_exists.mp ((hedges old).mp (ExtTreeSet.mem_toList.mp hold))
      exact ⟨child, parent, hrel.there _ _ hchild, hrel.there _ _ hparent, hcov⟩
    · rintro ⟨child, parent, hchild, hparent, hcov⟩
      obtain ⟨i, hi, hnumber⟩ := hrel.back _ _ hchild
      obtain ⟨j, hj, hnumber'⟩ := hrel.back _ _ hparent
      have hold := hp.covers_iff_exists.mpr ⟨child, parent, hi, hj, hcov⟩
      refine ⟨⟨i, j⟩, ExtTreeSet.mem_toList.mpr ((hedges ⟨i, j⟩).mpr hold), ?_⟩
      dsimp only at hnumber hnumber' ⊢
      rw [hnumber, hnumber']
  · obtain ⟨node, hnode, hmem⟩ := htop
    exact ⟨node, hrel.there topNode node hnode, hmem⟩
  · obtain ⟨node, hnode, hmem⟩ := hbottom
    exact ⟨node, hrel.there bottomNode node hnode, hmem⟩
  · exact ascending_orderNodes hp
  · intro node hnode
    obtain ⟨i, hi⟩ := mem_iff_getElem?.mp hnode
    obtain ⟨old, hold, -⟩ := hrel.back i node hi
    unfold memberLists at hold
    rw [getElem?_map] at hold
    obtain ⟨members', -, rfl⟩ := Option.map_eq_some_iff.mp hold
    exact pairwise_lt_iff.mp ExtTreeSet.ordered_toList
  · refine ascending_by id (sorted_by id _) ((perm_insertionSort _ _).nodup_iff.mpr
      (List.Nodup.map_on ?_ (nodup_of_ascending ExtTreeSet.ordered_toList)))
    intro edge hedge edge' hedge' heq
    obtain ⟨hchild, hparent⟩ := hmap edge hedge
    obtain ⟨hchild', hparent'⟩ := hmap edge' hedge'
    have hc := hrel.injective hp hchild hchild' (congrArg Edge.child heq)
    have hpar := hrel.injective hp hparent hparent' (congrArg Edge.parent heq)
    cases edge
    cases edge'
    simp_all
  · dsimp only
    rw [length_map, length_orderNodes]

/-! ## The checks of the source -/

theorem foldl_concat (l acc : List Nat) :
    l.foldl (fun parents parent => parents ++ [parent]) acc = acc ++ l := by
  induction l generalizing acc with
  | nil => rw [foldl_nil, append_nil]
  | cons a l ih =>
    rw [foldl_cons, ih, append_assoc]
    rfl

namespace IsTaxonomy

variable {le : Nat → Nat → Prop} {elements : List Nat} {top bottom : Nat} {h : HierarchyIds}
  {σ : Type} {E : NativeError → σ → Prop} {s : σ} (ht : IsTaxonomy le elements top bottom h)

include ht

theorem diagram [IsTrans Nat le] (edge : Edge) :
    edge ∈ h.edges ↔ Covers (NodeLe le h.nodes) (numbers h.nodes) edge.child edge.parent :=
  (ht.covers edge).trans ht.partition.covers_iff_exists.symm

theorem simple [IsTrans Nat le] : Simple h.nodes.length h.edges := by
  refine ⟨nodup_of_ascending ht.edges_ascending, ?_⟩
  intro edge hedge
  have hcov := (ht.diagram edge).mp hedge
  exact ⟨hcov.left, hcov.right, hcov.below.ne⟩

theorem wp_members : wp (h.nodes.foldlM (fun (members : ExtTreeSet Nat) node => do
        ensure (ascending node = true)
          (invariant "classification hierarchy node members are not canonical")
        ensure (∀ member ∈ node, member ∉ members)
          (invariant "classification hierarchy nodes do not partition their members")
        return members.insertMany node) ∅)
      (fun _ s' => s' = s) E s := by
  refine wp_imp (wp_foldlM (E := E) (fun (rest : List (List Nat)) (members : ExtTreeSet Nat) s' =>
      s' = s ∧ ∃ done, h.nodes = done ++ rest ∧ ∀ x, x ∈ members ↔ ∃ node ∈ done, x ∈ node)
    ?_ h.nodes ∅ s ?_) (fun _ _ hs => And.left hs)
  · rintro node rest members s' ⟨hs', done, hnodes, hmem⟩
    have hnode : h.nodes[done.length]? = some node := by
      rw [hnodes]
      simp
    refine wp_ensure_then (fun _ => ?_) fun hbad => ?_
    · refine wp_ensure_then (fun _ => ?_) fun hbad => ?_
      · refine wp_pure.mpr ⟨hs', done ++ [node], by rw [hnodes, append_assoc]; rfl, fun x => ?_⟩
        rw [ExtTreeSet.mem_insertMany_list, hmem]
        simp only [mem_append, mem_singleton, contains_iff_mem]
        constructor
        · rintro (⟨node', hnode', hx⟩ | hx)
          · exact ⟨node', .inl hnode', hx⟩
          · exact ⟨node, .inr rfl, hx⟩
        · rintro ⟨node', hnode' | rfl, hx⟩
          · exact .inl ⟨node', hnode', hx⟩
          · exact .inr hx
      · refine absurd ?_ hbad
        intro x hx hin
        obtain ⟨node', hnode', hx'⟩ := (hmem x).mp hin
        obtain ⟨i, hi⟩ := mem_iff_getElem?.mp hnode'
        have hlt := lt_of_getElem? hi
        have hi' : h.nodes[i]? = some node' := by
          rw [hnodes, getElem?_append_left hlt]
          exact hi
        have heq := ht.partition.distinct i done.length node' node x hi' hnode hx' hx
        omega
    · exact absurd (ascending_iff.mpr (pairwise_lt_iff.mpr
        (ht.members_ascending node (mem_of_getElem? hnode)))) hbad
  · exact ⟨rfl, [], rfl, fun x => by simp⟩

theorem below_of_edge [IsTrans Nat le] {i j : Nat} (hedge : ⟨i, j⟩ ∈ h.edges) :
    i ∈ numbers h.nodes ∧ j ∈ numbers h.nodes ∧ Below (NodeLe le h.nodes) i j := by
  have hcov := (ht.diagram ⟨i, j⟩).mp hedge
  exact ⟨hcov.left, hcov.right, hcov.below⟩

variable [IsTrans Nat le] [Std.Refl le]

theorem not_reaches {child target x : Nat} (htarget : target ∈ parentsOf h.edges child)
    (hx : x ∈ parentsOf h.edges child) (hne : x ≠ target) :
    ¬ Relation.ReflTransGen (fun y z => ⟨y, z⟩ ∈ h.edges) x target := by
  intro hpath
  have hcx := ht.below_of_edge (mem_parentsOf.mp hx)
  have hcov := (ht.diagram ⟨child, target⟩).mp (mem_parentsOf.mp htarget)
  have hle : NodeLe le h.nodes x target :=
    le_of_path (fun y z hyz => (ht.below_of_edge hyz).2.2.1) hpath
  have hback : NodeLe le h.nodes target x := by
    by_contra hback
    exact hcov.between x hcx.2.1 hcx.2.2 ⟨hle, hback⟩
  exact hne (ht.partition.antisymm x hcx.2.1 target hcov.right hle hback)

theorem wp_redundant {successors : List (List Nat)} (hlength : successors.length = h.nodes.length)
    (hsuccessors : ∀ node < h.nodes.length, successors.getD node [] = parentsOf h.edges node)
    {child target : Nat} (htarget : target ∈ parentsOf h.edges child) :
    wp (HierarchyIds.redundant successors (parentsOf h.edges child) target)
      (fun found s' => found = false ∧ s' = s) E s := by
  unfold HierarchyIds.redundant
  refine wp_imp (wp_search (fun x y => ⟨x, y⟩ ∈ h.edges) (Finset.range h.nodes.length)
    (fun x => (successors.getD x []).length) (J := fun _ s' => s' = s) (k := 0) paced_pure
    ?_ ?_ ?_ ?_ ?_ rfl) ?_
  · intro k s' current seen hcurrent hs'
    have hcurrent : current < h.nodes.length := Finset.mem_range.mp hcurrent
    refine wp_pure.mpr ⟨hs', by rw [length_reverse], ?_, ?_⟩
    · intro y hy
      rw [mem_reverse, hsuccessors current hcurrent] at hy
      exact mem_parentsOf.mp hy
    · intro y hy
      left
      rw [mem_reverse, hsuccessors current hcurrent]
      exact mem_parentsOf.mpr hy
  · intro x _ y hxy
    exact Finset.mem_range.mpr (ht.simple.valid _ hxy).2.1
  · intro x hx
    rw [mem_reverse, mem_filter] at hx
    exact Finset.mem_range.mpr (ht.simple.valid _ (mem_parentsOf.mp hx.1)).2.1
  · intro x hx
    exact absurd hx ExtTreeSet.not_mem_empty
  · rw [searchMeasure_empty, length_reverse, ← hlength, sum_getD successors [] List.length]
    omega
  · rintro found s' ⟨hs', hfound⟩
    refine ⟨?_, hs'⟩
    cases found with
    | false => rfl
    | true =>
      obtain ⟨x, hx, hpath⟩ := hfound.mp rfl
      rw [mem_reverse, mem_filter, decide_eq_true_eq] at hx
      exact absurd hpath (ht.not_reaches htarget hx.1 hx.2)

/-- A taxonomy passes the checks. -/
theorem wp_validate (hcount : h.nodes.length ≤ u32Max) :
    wp h.validate (fun _ s' => s' = s) E s := by
  obtain ⟨topNode, htopNode, htop⟩ := ht.top
  obtain ⟨bottomNode, hbottomNode, -⟩ := ht.bottom
  have htopLt := lt_of_getElem? htopNode
  have hbottomLt := lt_of_getElem? hbottomNode
  obtain ⟨successors, incoming, hlink, hlinked⟩ := linkEdges_ok ([] : List Nat)
    (fun parents parent => parents ++ [parent]) "classification hierarchy contains an invalid edge"
    "hierarchy in-degree overflow" ht.simple hcount
  have hsuccessors : ∀ node < h.nodes.length, successors.getD node [] = parentsOf h.edges node := by
    intro node hnode
    rw [hlinked.successors_eq node hnode, foldl_concat, nil_append]
  have hsome : h.nodes ≠ [] := ne_nil_of_length_pos (Nat.zero_lt_of_lt htopLt)
  -- the checks of the source, in their order
  refine wp_ensure_known ⟨hsome, ht.nonempty⟩ ?_
  refine wp_ensure_known (ascending_iff.mpr ht.nodes_ascending) ?_
  refine wp_seq ht.wp_members ?_
  rintro _ s' rfl
  refine wp_ask_known (if_pos hcount) ?_
  refine wp_ensure_known ⟨htopLt, hbottomLt⟩ ?_
  refine wp_ensure_known (ascending_iff.mpr ht.edges_ascending) ?_
  refine wp_ask_known hlink ?_
  refine wp_seq (wp_drain (J := fun _ r => r = s') (k := 0) paced_pure
    hlinked.incoming_length ?_ ?_ ?_ (Below (NodeLe le h.nodes)) ?_ rfl) ?_
  · intro child hchild
    rw [hsuccessors child hchild]
    exact ht.simple.nodup_parentsOf child
  · intro child hchild x hx
    rw [hsuccessors child hchild] at hx
    exact (ht.simple.valid _ (mem_parentsOf.mp hx)).2.1
  · intro x hx
    rw [hlinked.incoming_eq x hx, ht.simple.length_into]
    refine congrArg Finset.card (Finset.filter_congr ?_)
    intro child hchild
    rw [hsuccessors child (Finset.mem_range.mp hchild)]
  · intro child hchild x hx
    rw [hsuccessors child hchild] at hx
    exact (ht.below_of_edge (mem_parentsOf.mp hx)).2.2
  · rintro processed s'' ⟨hprocessed, rfl⟩
    refine wp_ensure_known hprocessed (wp_forM_mem (fun direct hdirect r hr => ?_) rfl)
    -- the lists are those of the direct parents, none of which is redundant
    obtain ⟨child, hchild⟩ := mem_iff_getElem?.mp hdirect
    have hparents := hsuccessors child (hlinked.successors_length ▸ lt_of_getElem? hchild)
    rw [getD_eq_getElem?_getD, hchild, Option.getD_some] at hparents
    rw [hparents]
    refine wp_ite (fun _ => wp_pure.mpr hr) fun _ => wp_forM_mem (fun target htarget r' hr' => ?_) hr
    refine wp_seq (ht.wp_redundant hlinked.successors_length hsuccessors htarget) ?_
    rintro found r ⟨hfound, rfl⟩
    exact wp_ensure (fun _ => hr') fun hbad => absurd hfound hbad

end IsTaxonomy

end PyHermit.Classification
