import PyHermit.Proof.Searched

/-!
# Classification from a complete told relation

When the told pairs generate the preorder, the hierarchy is built from them alone, without a
test. Their components are the classes (`Collected.partition`), the pairs between these are
the skeleton of the quotient order (`mem_quotientEdges`), and taking out every pair whose
ends stay connected leaves the covers (`wp_reduceQuotient`).
-/

open Std Prog Cover List

namespace PyHermit.Classification

open NativeError

variable {τ : Type}

/-! ## Indexes -/

/-- The told pairs and those of top, bottom and identity generate the preorder. -/
def Generates (le : Nat → Nat → Prop) (problem : ClassificationProblem) : Prop :=
  ∀ a ∈ problem.elements, ∀ b ∈ problem.elements, le a b ↔
    Relation.ReflTransGen (fun x y => ⟨x, y⟩ ∈ problem.known ∨ Trivial problem ⟨x, y⟩) a b

section Index

variable {elements : List Nat}

theorem indexById_iff (hnodup : elements.Nodup) {x i : Nat} :
    (ExtTreeMap.ofList elements.zipIdx : ExtTreeMap Nat Nat)[x]? = some i ↔
      elements[i]? = some x := by
  constructor
  · intro h
    exact mem_zipIdx_iff_getElem?.mp (mem_of_getElem?_ofList h)
  · intro h
    refine ExtTreeMap.getElem?_ofList_of_mem (k := x) Std.compare_self ?_
      (mem_zipIdx_iff_getElem?.mpr h)
    have hpair : (elements.zipIdx.map (·.1)).Pairwise (· ≠ ·) := by
      rw [zipIdx_map_fst]
      exact hnodup
    refine (pairwise_map.mp hpair).imp ?_
    intro a b hab heq
    exact hab (Std.compare_eq_iff_eq.mp heq)

/-- The told pairs by index. -/
structure Told (elements : List Nat) (known told : List Edge) : Prop where
  length_eq : told.length = known.length
  mem_iff : ∀ i j : Nat, ⟨i, j⟩ ∈ told ↔
    ∃ a b, elements[i]? = some a ∧ elements[j]? = some b ∧ ⟨a, b⟩ ∈ known

theorem mapM_indexEdge (hnodup : elements.Nodup) {known : List Edge}
    (hinside : ∀ edge ∈ known, Inside elements edge) :
    ∃ told, known.mapM (indexEdge (ExtTreeMap.ofList elements.zipIdx)) = .ok told ∧
      Told elements known told := by
  induction known with
  | nil => exact ⟨[], rfl, rfl, fun i j => by simp⟩
  | cons edge known ih =>
    obtain ⟨told, hrun, htold⟩ := ih fun e he => hinside e (mem_cons_of_mem edge he)
    obtain ⟨hchild, hparent⟩ := hinside edge mem_cons_self
    obtain ⟨i, hi⟩ := mem_iff_getElem?.mp hchild
    obtain ⟨j, hj⟩ := mem_iff_getElem?.mp hparent
    have hedge : indexEdge (ExtTreeMap.ofList elements.zipIdx) edge = .ok ⟨i, j⟩ := by
      unfold indexEdge
      rw [(indexById_iff hnodup).mpr hi, (indexById_iff hnodup).mpr hj]
      rfl
    refine ⟨⟨i, j⟩ :: told, ?_, ?_, ?_⟩
    · rw [mapM_cons]
      exact bind_eq_ok.mpr ⟨_, hedge, bind_eq_ok.mpr ⟨_, hrun, rfl⟩⟩
    · rw [length_cons, length_cons, htold.length_eq]
    · intro i' j'
      rw [mem_cons, htold.mem_iff]
      constructor
      · rintro (heq | ⟨a, b, ha, hb, hmem⟩)
        · cases heq
          exact ⟨edge.child, edge.parent, hi, hj, mem_cons_self⟩
        · exact ⟨a, b, ha, hb, mem_cons_of_mem edge hmem⟩
      · rintro ⟨a, b, ha, hb, hmem⟩
        rcases mem_cons.mp hmem with rfl | hmem
        · have hi' : i' = i := (getElem?_inj (lt_of_getElem? ha) hnodup).mp (ha.trans hi.symm)
          have hj' : j' = j := (getElem?_inj (lt_of_getElem? hb) hnodup).mp (hb.trans hj.symm)
          exact .inl (by rw [hi', hj'])
        · exact .inr ⟨a, b, ha, hb, hmem⟩

end Index

/-! ## Successor sets -/

section Successors

variable {sets sets' : List (ExtTreeSet Nat)} {p q : Nat → Nat → Prop} {n m : Nat}

theorem sum_size_modify {f : ExtTreeSet Nat → ExtTreeSet Nat}
    (hf : ∀ set, (f set).size ≤ set.size + n) {i : Nat} :
    ((sets.modify i f).map (·.size)).sum ≤ (sets.map (·.size)).sum + n := by
  induction sets generalizing i with
  | nil => simp
  | cons set sets ih =>
    cases i with
    | zero =>
      have hle := hf set
      simp only [modify_zero_cons, map_cons, sum_cons]
      omega
    | succ i =>
      have hle := @ih i
      simp only [modify_succ_cons, map_cons, sum_cons]
      omega

/-- Two lists of sets, the second with the pairs `p` added. -/
structure Grown (sets sets' : List (ExtTreeSet Nat)) (p : Nat → Nat → Prop) (n : Nat) : Prop where
  length_eq : sets'.length = sets.length
  mem_iff : ∀ i < sets.length, ∀ j, j ∈ sets'.getD i ∅ ↔ j ∈ sets.getD i ∅ ∨ p i j
  size_le : (sets'.map (·.size)).sum ≤ (sets.map (·.size)).sum + n

theorem Grown.refl (sets : List (ExtTreeSet Nat)) : Grown sets sets (fun _ _ => False) 0 :=
  ⟨rfl, fun _ _ _ => (or_iff_left id).symm, le_rfl⟩

theorem Grown.trans {sets'' : List (ExtTreeSet Nat)} (h : Grown sets sets' p n)
    (h' : Grown sets' sets'' q m) : Grown sets sets'' (fun i j => p i j ∨ q i j) (n + m) := by
  refine ⟨h'.length_eq.trans h.length_eq, ?_, ?_⟩
  · intro i hi j
    rw [h'.mem_iff i (h.length_eq ▸ hi) j, h.mem_iff i hi j, or_assoc]
  · have hle := h.size_le
    have hle' := h'.size_le
    omega

theorem Grown.congr (h : Grown sets sets' p n) (hpq : ∀ i < sets.length, ∀ j, p i j ↔ q i j)
    (hnm : n = m) : Grown sets sets' q m := by
  refine ⟨h.length_eq, ?_, hnm ▸ h.size_le⟩
  intro i hi j
  rw [h.mem_iff i hi j, hpq i hi j]

theorem grown_modify (sets : List (ExtTreeSet Nat)) (k x : Nat) :
    Grown sets (sets.modify k (·.insert x)) (fun i j => i = k ∧ j = x) 1 := by
  refine ⟨length_modify _ _ _, ?_, sum_size_modify fun _ => ExtTreeSet.size_insert_le⟩
  intro i hi j
  rw [getElem?_modify_getD hi]
  by_cases hik : k = i
  · rw [if_pos hik, mem_insert_eq]
    constructor
    · rintro (rfl | h)
      · exact .inr ⟨hik.symm, rfl⟩
      · exact .inl h
    · rintro (h | ⟨-, rfl⟩)
      · exact .inr h
      · exact .inl rfl
  · rw [if_neg hik]
    constructor
    · exact .inl
    · exact fun h => h.resolve_right fun hx => hik hx.1.symm

theorem grown_foldl {α : Type} (f : List (ExtTreeSet Nat) → α → List (ExtTreeSet Nat))
    (p : α → Nat → Nat → Prop) (hf : ∀ sets a, Grown sets (f sets a) (p a) n) (l : List α)
    (sets : List (ExtTreeSet Nat)) :
    Grown sets (l.foldl f sets) (fun i j => ∃ a ∈ l, p a i j) (n * l.length) := by
  induction l generalizing sets with
  | nil => exact (Grown.refl sets).congr (fun i _ j => by simp) rfl
  | cons a l ih =>
    refine ((hf sets a).trans (ih (f sets a))).congr (fun i _ j => ?_)
      (by rw [length_cons, Nat.mul_succ]; omega)
    rw [exists_mem_cons_iff]

theorem sum_size_replicate (count : Nat) :
    ((List.replicate count (∅ : ExtTreeSet Nat)).map (·.size)).sum = 0 := by
  induction count with
  | zero => rfl
  | succ count ih => rw [replicate_succ, map_cons, sum_cons, ExtTreeSet.size_empty, ih]

/-- What leads where: a told pair, or to itself, from the bottom, to the top. -/
theorem successorSets_spec (count topIndex bottomIndex : Nat) (told : List Edge) :
    (successorSets count topIndex bottomIndex told).length = count ∧
    (∀ i < count, ∀ j, j ∈ (successorSets count topIndex bottomIndex told).getD i ∅ ↔
      ⟨i, j⟩ ∈ told ∨ j = i ∨ (i = bottomIndex ∧ j < count) ∨ j = topIndex) ∧
    ((successorSets count topIndex bottomIndex told).map (·.size)).sum ≤ told.length +
      3 * count := by
  -- first the told pairs, then the three pairs that every index has
  have htold := grown_foldl (fun sets (edge : Edge) =>
    sets.modify edge.child (·.insert edge.parent))
    (fun edge i j => i = edge.child ∧ j = edge.parent) (fun sets edge => grown_modify sets _ _) told
    (List.replicate count (∅ : ExtTreeSet Nat))
  have hrest := grown_foldl (fun sets index =>
      ((sets.modify index (·.insert index)).modify bottomIndex (·.insert index)).modify index
        (·.insert topIndex)) _
    (fun sets index =>
      ((grown_modify sets index index).trans (grown_modify _ bottomIndex index)).trans
      (grown_modify _ index topIndex)) (List.range count)
    (told.foldl (fun sets edge => sets.modify edge.child (·.insert edge.parent))
      (List.replicate count (∅ : ExtTreeSet Nat)))
  have h := htold.trans hrest
  have hlength := h.length_eq
  have hsize := h.size_le
  rw [length_replicate] at hlength
  refine ⟨hlength, ?_, ?_⟩
  · intro i hi j
    refine (h.mem_iff i (by rw [length_replicate]; exact hi) j).trans ?_
    rw [getD_eq_getElem?_getD, getElem?_replicate, if_pos hi]
    simp only [Option.getD_some, ExtTreeSet.not_mem_empty, false_or, mem_range]
    constructor
    · rintro (⟨edge, hedge, rfl, rfl⟩ | ⟨index, hindex, (⟨rfl, rfl⟩ | ⟨rfl, rfl⟩) | ⟨rfl, rfl⟩⟩)
      · exact .inl hedge
      · exact .inr (.inl rfl)
      · exact .inr (.inr (.inl ⟨rfl, hindex⟩))
      · exact .inr (.inr (.inr rfl))
    · rintro (hedge | rfl | ⟨rfl, hj⟩ | rfl)
      · exact .inl ⟨⟨i, j⟩, hedge, rfl, rfl⟩
      · exact .inr ⟨j, hi, .inl (.inl ⟨rfl, rfl⟩)⟩
      · exact .inr ⟨j, hj, .inl (.inr ⟨rfl, rfl⟩)⟩
      · exact .inr ⟨i, hi, .inr ⟨rfl, rfl⟩⟩
  · rw [sum_size_replicate, length_range] at hsize
    unfold successorSets
    dsimp only at hsize ⊢
    omega

end Successors

/-! ## Components are classes -/

section Classes

variable {le : Nat → Nat → Prop} {problem : ClassificationProblem} {told : List Edge}
  {topIndex bottomIndex : Nat}

def successorLists (problem : ClassificationProblem) (topIndex bottomIndex : Nat)
    (told : List Edge) : List (List Nat) :=
  (successorSets problem.elements.length topIndex bottomIndex told).map (·.toList)

/-- What the indexes stand for. -/
structure Indexed (problem : ClassificationProblem) (topIndex bottomIndex : Nat)
    (told : List Edge) : Prop where
  canonical : Canonical problem
  top : problem.elements[topIndex]? = some problem.top
  bottom : problem.elements[bottomIndex]? = some problem.bottom
  pairs : Told problem.elements problem.known told

namespace Indexed

theorem length_lists : (successorLists problem topIndex bottomIndex told).length =
      problem.elements.length := by
  unfold successorLists
  rw [length_map, (successorSets_spec _ _ _ _).1]

theorem arrow_lists {i j : Nat} (hi : i < problem.elements.length) :
    Arrow (successorLists problem topIndex bottomIndex told) i j ↔ ⟨i, j⟩ ∈ told ∨ j = i ∨
      (i = bottomIndex ∧ j < problem.elements.length) ∨ j = topIndex := by
  rw [← (successorSets_spec _ _ _ _).2.1 i hi j]
  unfold Arrow successorLists
  rw [getD_eq_getElem?_getD, getElem?_map, getD_eq_getElem?_getD]
  cases (successorSets problem.elements.length topIndex bottomIndex told)[i]? with
  | none => exact iff_of_false not_mem_nil ExtTreeSet.not_mem_empty
  | some set => exact ExtTreeSet.mem_toList

section
variable (h : Indexed problem topIndex bottomIndex told)
include h

theorem nodup : problem.elements.Nodup :=
  nodup_of_ascending (pairwise_lt_iff.mpr h.canonical.elements)

theorem index_unique {i j a : Nat}
    (hi : problem.elements[i]? = some a) (hj : problem.elements[j]? = some a) : i = j :=
  (getElem?_inj (lt_of_getElem? hi) h.nodup).mp (hi.trans hj.symm)

theorem arrow_iff {i j a b : Nat} (hi : problem.elements[i]? = some a)
    (hj : problem.elements[j]? = some b) :
    Arrow (successorLists problem topIndex bottomIndex told) i j ↔
      (⟨a, b⟩ ∈ problem.known ∨ Trivial problem ⟨a, b⟩) := by
  rw [arrow_lists (lt_of_getElem? hi), h.pairs.mem_iff]
  constructor
  · rintro (⟨a', b', ha', hb', hedge⟩ | rfl | ⟨rfl, -⟩ | rfl)
    · cases hi.symm.trans ha'
      cases hj.symm.trans hb'
      exact .inl hedge
    · cases hi.symm.trans hj
      exact .inr ⟨⟨mem_of_getElem? hi, mem_of_getElem? hi⟩, .inr (.inr rfl)⟩
    · cases hi.symm.trans h.bottom
      exact .inr ⟨⟨mem_of_getElem? hi, mem_of_getElem? hj⟩, .inl rfl⟩
    · cases hj.symm.trans h.top
      exact .inr ⟨⟨mem_of_getElem? hi, mem_of_getElem? hj⟩, .inr (.inl rfl)⟩
  · rintro (hedge | ⟨-, heq⟩)
    · exact .inl ⟨a, b, hi, hj, hedge⟩
    dsimp only at heq
    rcases heq with rfl | rfl | rfl
    · exact .inr (.inr (.inl ⟨h.index_unique hi h.bottom, lt_of_getElem? hj⟩))
    · exact .inr (.inr (.inr (h.index_unique hj h.top)))
    · exact .inr (.inl (h.index_unique hj hi))

theorem ranged : Ranged (successorLists problem topIndex bottomIndex told) := by
  intro i j hij
  have hi := hij.lt
  rw [length_lists] at hi ⊢
  rcases (arrow_lists hi).mp hij with hedge | rfl | ⟨-, hj⟩ | rfl
  · obtain ⟨a, b, -, hb, -⟩ := (h.pairs.mem_iff i j).mp hedge
    exact lt_of_getElem? hb
  · exact hi
  · exact hj
  · exact lt_of_getElem? h.top

theorem reaches_iff (hgen : Generates le problem)
    {i j a b : Nat} (hi : problem.elements[i]? = some a) (hj : problem.elements[j]? = some b) :
    Relation.ReflTransGen (Arrow (successorLists problem topIndex bottomIndex told)) i j ↔
      le a b := by
  rw [hgen a (mem_of_getElem? hi) b (mem_of_getElem? hj)]
  constructor
  · intro hpath
    induction hpath generalizing b with
    | refl =>
      cases hi.symm.trans hj
      exact .refl
    | @tail x y hpath hstep ih =>
      obtain ⟨c, hc⟩ : ∃ c, problem.elements[x]? = some c := by
        have hlt := hstep.lt
        rw [length_lists] at hlt
        exact ⟨_, getElem?_eq_getElem hlt⟩
      exact (ih hc).tail ((h.arrow_iff hc hj).mp hstep)
  · intro hpath
    induction hpath generalizing j with
    | refl => rw [h.index_unique hi hj]
    | @tail x y hpath hstep ih =>
      have hx : x ∈ problem.elements := by
        rcases hstep with hstep | hstep
        · exact (h.canonical.inside _ hstep).1
        · exact hstep.1.1
      obtain ⟨k, hk⟩ := mem_iff_getElem?.mp hx
      exact (ih hk).tail ((h.arrow_iff hk hj).mpr hstep)

end

end Indexed

def Components.of (found : Components) (i : Nat) : Nat := found.componentByIndex.getD i 0

variable {found : Components}

/-- Both passes are done. -/
structure Condensed (problem : ClassificationProblem) (topIndex bottomIndex : Nat)
    (told : List Edge)
    (found : Components) : Prop extends Indexed problem topIndex bottomIndex told where
  collected : Collected problem.elements (successorLists problem topIndex bottomIndex told) found
  assigned : ∀ x < problem.elements.length, x ∈ found.assigned

namespace Condensed

section
variable (h : Condensed problem topIndex bottomIndex told found)
include h

variable {i c a : Nat}

theorem index (hi : i < problem.elements.length) :
    found.componentByIndex[i]? = some (found.of i) := by
  obtain ⟨c, hc⟩ := (h.collected.index i).mp (h.assigned i hi)
  unfold Components.of
  rw [ExtTreeMap.getD_eq_getD_getElem?, hc]
  rfl

theorem lt_of_index (hi : found.componentByIndex[i]? = some c) : i < problem.elements.length := by
  have hlt := h.collected.range i ((h.collected.index i).mpr ⟨c, hi⟩)
  rw [Indexed.length_lists] at hlt
  exact hlt

theorem mem_node {node : List Nat} (hnode : found.nodes[c]? = some node) (v : Nat) :
    v ∈ node ↔ ∃ i, problem.elements[i]? = some v ∧ found.of i = c := by
  unfold Components.nodes memberLists at hnode
  rw [getElem?_map] at hnode
  obtain ⟨set, hset, rfl⟩ := Option.map_eq_some_iff.mp hnode
  rw [ExtTreeSet.mem_toList, h.collected.members c set hset v]
  constructor
  · rintro ⟨i, hi, rfl⟩
    have hlt := h.lt_of_index hi
    refine ⟨i, ?_, ?_⟩
    · rw [getD_eq_getElem?_getD, getElem?_eq_getElem hlt]
      rfl
    · have hindex := h.index hlt
      rw [hi] at hindex
      exact (Option.some.inj hindex).symm
  · rintro ⟨i, hi, rfl⟩
    refine ⟨i, h.index (lt_of_getElem? hi), ?_⟩
    rw [getD_eq_getElem?_getD, hi]
    rfl

theorem node_of (hi : problem.elements[i]? = some a) :
    ∃ node, found.nodes[found.of i]? = some node ∧ a ∈ node := by
  have hlt := h.collected.bound i _ (h.index (lt_of_getElem? hi))
  have hnumber : found.of i ∈ numbers found.nodes := by
    rw [← length_memberLists] at hlt
    exact hlt
  obtain ⟨node, hnode⟩ := exists_node hnumber
  exact ⟨node, hnode, (h.mem_node hnode a).mpr ⟨i, hi, rfl⟩⟩

theorem of_eq_iff (hgen : Generates le problem)
    {j b : Nat} (hi : problem.elements[i]? = some a) (hj : problem.elements[j]? = some b) :
    found.of i = found.of j ↔ le a b ∧ le b a := by
  have hi' := lt_of_getElem? hi
  have hj' := lt_of_getElem? hj
  have hlinked := h.collected.linked i j _ (h.index hi') (h.assigned j hj')
  rw [h.index hj', Option.some.injEq, eq_comm] at hlinked
  rw [hlinked]
  unfold Digraph.Linked
  rw [h.reaches_iff hgen hi hj, h.reaches_iff hgen hj hi]

theorem partition (hgen : Generates le problem) :
    Partition le { x | x ∈ problem.elements } found.nodes := by
  refine ⟨?_, ?_, ?_, ?_⟩
  · -- a component has an index, and the element there is in the node
    intro c node hnode hnil
    have hlt := lt_of_getElem? hnode
    rw [length_memberLists] at hlt
    obtain ⟨i, hi⟩ := h.collected.inhabited c hlt
    have hi' := h.lt_of_index hi
    have hindex := h.index hi'
    rw [hi] at hindex
    have hmem := (h.mem_node hnode _).mpr ⟨i, getElem?_eq_getElem hi',
      (Option.some.inj hindex).symm⟩
    rw [hnil] at hmem
    exact not_mem_nil hmem
  · intro a ha
    obtain ⟨i, hi⟩ := mem_iff_getElem?.mp ha
    obtain ⟨node, hnode, hmem⟩ := h.node_of hi
    exact ⟨_, node, hnode, hmem⟩
  · intro c node hnode a ha b
    obtain ⟨i, hi, rfl⟩ := (h.mem_node hnode a).mp ha
    rw [h.mem_node hnode b]
    constructor
    · rintro ⟨j, hj, heq⟩
      exact ⟨mem_of_getElem? hj, (h.of_eq_iff hgen hi hj).mp heq.symm⟩
    · rintro ⟨hb, hab⟩
      obtain ⟨j, hj⟩ := mem_iff_getElem?.mp hb
      exact ⟨j, hj, ((h.of_eq_iff hgen hi hj).mpr hab).symm⟩
  · intro c c' node node' a hc hc' ha ha'
    obtain ⟨i, hi, rfl⟩ := (h.mem_node hc a).mp ha
    obtain ⟨j, hj, rfl⟩ := (h.mem_node hc' a).mp ha'
    rw [h.index_unique hi hj]

end

end Condensed

end Classes

/-! ## The quotient -/

section Quotient

theorem foldl_adds {α : Type} (f : ExtTreeSet Edge → α → ExtTreeSet Edge) (p : α → Edge → Prop)
    {n : Nat} (hmem : ∀ q a e, e ∈ f q a ↔ e ∈ q ∨ p a e) (hsize : ∀ q a, (f q a).size ≤ q.size + n)
    (l : List α) (q : ExtTreeSet Edge) :
    (∀ e, e ∈ l.foldl f q ↔ e ∈ q ∨ ∃ a ∈ l, p a e) ∧ (l.foldl f q).size ≤ q.size + n *
      l.length := by
  induction l generalizing q with
  | nil => exact ⟨fun e => by simp, le_rfl⟩
  | cons a l ih =>
    obtain ⟨hmem', hsize'⟩ := ih (f q a)
    refine ⟨?_, ?_⟩
    · intro e
      rw [foldl_cons, hmem' e, hmem q a e, exists_mem_cons_iff, or_assoc]
    · have hone := hsize q a
      rw [foldl_cons, length_cons, Nat.mul_succ]
      omega

variable {p : Prop} {e : Edge} {c : Nat}

theorem mem_ite_insert [Decidable p] {q : ExtTreeSet Edge} {edge : Edge} :
    e ∈ (if p then q.insert edge else q) ↔ e ∈ q ∨ (p ∧ edge = e) := by
  split
  · rename_i hp
    rw [mem_insert_eq]
    tauto
  · tauto

theorem size_ite_insert [Decidable p] {q : ExtTreeSet Edge} {edge : Edge} :
    (if p then q.insert edge else q).size ≤ q.size + 1 := by
  split
  · exact ExtTreeSet.size_insert_le
  · exact Nat.le_succ _

/-- The told pairs between components. -/
def ToldBetween (componentByIndex : ExtTreeMap Nat Nat) (told : List Edge) (c p : Nat) : Prop :=
  ∃ edge ∈ told, componentByIndex.getD edge.child 0 = c ∧ componentByIndex.getD edge.parent 0 = p

variable {componentByIndex : ExtTreeMap Nat Nat} {count bottom top : Nat} {told : List Edge}

theorem innerEdges_spec (c p : Nat) :
    ⟨c, p⟩ ∈ told.foldl (innerEdge componentByIndex bottom top) ∅ ↔
      Inner (ToldBetween componentByIndex told) bottom top c p := by
  rw [(foldl_adds (innerEdge componentByIndex bottom top) _ (fun _ _ _ => mem_ite_insert)
    (fun _ _ => size_ite_insert) told ∅).1]
  constructor
  · rintro (h | ⟨edge, hedge, ⟨hne, hb, ht⟩, heq⟩)
    · exact absurd h ExtTreeSet.not_mem_empty
    · cases heq
      exact ⟨⟨edge, hedge, rfl, rfl⟩, hne, hb, ht⟩
  · rintro ⟨⟨edge, hedge, rfl, rfl⟩, hne, hb, ht⟩
    exact .inr ⟨edge, hedge, ⟨hne, hb, ht⟩, rfl⟩

theorem size_innerEdges : (told.foldl (innerEdge componentByIndex bottom top) ∅).size ≤
      told.length := by
  have hsize := (foldl_adds (innerEdge componentByIndex bottom top) _ (fun _ _ _ => mem_ite_insert)
    (fun _ _ => size_ite_insert) told ∅).2
  rw [ExtTreeSet.size_empty] at hsize
  omega

variable {hasIncoming hasOutgoing : ExtTreeSet Nat}

theorem mem_outerEdge {q : ExtTreeSet Edge} :
    e ∈ outerEdge hasIncoming hasOutgoing bottom top q c ↔ e ∈ q ∨ (c ≠ bottom ∧ c ≠ top ∧
      ((c ∉ hasIncoming ∧ (⟨bottom, c⟩ : Edge) = e) ∨
        (c ∉ hasOutgoing ∧ (⟨c, top⟩ : Edge) = e))) := by
  unfold outerEdge
  split
  · tauto
  · rw [← ite_not (c ∈ hasOutgoing), mem_ite_insert, ← ite_not (c ∈ hasIncoming), mem_ite_insert]
    tauto

theorem size_outerEdge {q : ExtTreeSet Edge} :
    (outerEdge hasIncoming hasOutgoing bottom top q c).size ≤ q.size + 2 := by
  unfold outerEdge
  split
  · omega
  · rw [← ite_not (c ∈ hasOutgoing), ← ite_not (c ∈ hasIncoming)]
    refine size_ite_insert.trans ?_
    have hone := @size_ite_insert (¬ c ∈ hasIncoming) _ q ⟨bottom, c⟩
    omega

theorem foldl_outerEdge (l : List Nat) (q : ExtTreeSet Edge) :
    (∀ e, e ∈ l.foldl (outerEdge hasIncoming hasOutgoing bottom top) q ↔
      e ∈ q ∨ ∃ c ∈ l, c ≠ bottom ∧ c ≠ top ∧
        ((c ∉ hasIncoming ∧ (⟨bottom, c⟩ : Edge) = e) ∨
          (c ∉ hasOutgoing ∧ (⟨c, top⟩ : Edge) = e))) ∧
    (l.foldl (outerEdge hasIncoming hasOutgoing bottom top) q).size ≤ q.size + 2 * l.length :=
  foldl_adds (outerEdge hasIncoming hasOutgoing bottom top) _ (fun _ _ _ => mem_outerEdge)
    (fun _ _ => size_outerEdge) l q

theorem mem_ends {q : ExtTreeSet Edge} {f : Edge → Nat} :
    c ∈ ExtTreeSet.ofList (q.toList.map f) ↔ ∃ x y, (⟨x, y⟩ : Edge) ∈ q ∧ f ⟨x, y⟩ = c := by
  rw [ExtTreeSet.mem_ofList, contains_iff_mem, mem_map]
  constructor
  · rintro ⟨⟨x, y⟩, hedge, rfl⟩
    exact ⟨x, y, ExtTreeSet.mem_toList.mp hedge, rfl⟩
  · rintro ⟨x, y, hedge, rfl⟩
    exact ⟨_, ExtTreeSet.mem_toList.mpr hedge, rfl⟩

theorem outerEdges_spec {R : Nat → Nat → Prop} {q : ExtTreeSet Edge}
    (hq : ∀ c p, (⟨c, p⟩ : Edge) ∈ q ↔ Inner R bottom top c p) (c p : Nat) :
    ⟨c, p⟩ ∈ (List.range count).foldl (outerEdge (.ofList (q.toList.map (·.parent)))
        (.ofList (q.toList.map (·.child))) bottom top) q ↔
      Framed R { i | i < count } bottom top c p := by
  have hincoming : ∀ c, c ∈ ExtTreeSet.ofList (q.toList.map (·.parent)) ↔
      ∃ x, Inner R bottom top x c := by
    simp only [mem_ends, hq, exists_eq_right, implies_true]
  have houtgoing : ∀ c, c ∈ ExtTreeSet.ofList (q.toList.map (·.child)) ↔
      ∃ y, Inner R bottom top c y := by
    simp only [mem_ends, hq, exists_and_right, exists_eq_right, implies_true]
  rw [(foldl_outerEdge _ _).1, hq]
  simp only [hincoming, houtgoing, mem_range]
  constructor
  · rintro (h | ⟨d, hd, hb, ht, ⟨hnone, heq⟩ | ⟨hnone, heq⟩⟩)
    · exact .inner h
    · cases heq
      exact .low hd hb ht fun x hx => hnone ⟨x, hx⟩
    · cases heq
      exact .high hd hb ht fun y hy => hnone ⟨y, hy⟩
  · intro h
    cases h with
    | inner h => exact .inl h
    | low hy hb ht hnone => exact .inr ⟨p, hy, hb, ht, .inl ⟨fun ⟨x, hx⟩ => hnone x hx, rfl⟩⟩
    | high hx hb ht hnone => exact .inr ⟨c, hx, hb, ht, .inr ⟨fun ⟨y, hy⟩ => hnone y hy, rfl⟩⟩

/-- The edges of the quotient are its skeleton. -/
theorem mem_quotientEdges (hne : bottom ≠ top) (c p : Nat) :
    ⟨c, p⟩ ∈ quotientEdges componentByIndex count bottom top told ↔
      Skeleton (ToldBetween componentByIndex told) { i | i < count } bottom top c p := by
  unfold quotientEdges Skeleton
  rw [mem_ite_insert, outerEdges_spec innerEdges_spec]
  refine or_congr Iff.rfl ?_
  rw [and_assoc, ExtTreeSet.isEmpty_iff]
  constructor
  · rintro ⟨-, hempty, heq⟩
    cases heq
    refine ⟨?_, rfl, rfl⟩
    intro u v huv
    have hmem := (outerEdges_spec innerEdges_spec u v).mpr huv
    rw [hempty] at hmem
    exact ExtTreeSet.not_mem_empty hmem
  · rintro ⟨hnone, rfl, rfl⟩
    refine ⟨hne, ?_, rfl⟩
    refine ExtTreeSet.eq_empty_iff_forall_not_mem.mpr ?_
    rintro ⟨u, v⟩ hmem
    exact hnone u v ((outerEdges_spec innerEdges_spec u v).mp hmem)

theorem size_quotientEdges :
    (quotientEdges componentByIndex count bottom top told).size ≤ told.length + 2 * count + 1 := by
  unfold quotientEdges
  refine size_ite_insert.trans (Nat.succ_le_succ ?_)
  refine (foldl_outerEdge _ _).2.trans ?_
  rw [length_range]
  exact Nat.add_le_add_right size_innerEdges _

end Quotient

end PyHermit.Classification
