import Mathlib.Algebra.BigOperators.Group.Finset.Piecewise
import PyHermit.Proof.Condensed

/-!
# Reducing the quotient to its covers

The edges of the quotient are taken one after the other; an edge goes when its parent can
still be reached from its child without it. Between two edges, what is left lies between
the covers and the strict order, and the edges looked at and still there are covers
(`Reducing`). In the end only covers are left (`wp_reduceQuotient`).
-/

open Std Prog Cover List

namespace PyHermit.Classification

open NativeError

variable {τ : Type}

section Reduce

variable {control : OperationControl} {J : Nat → Nat × Ambient τ → Prop}
  {E : NativeError → Nat × Ambient τ → Prop} {successors : List (ExtTreeSet Nat)}

/-- An edge of the sets of successors. -/
def Leads (successors : List (ExtTreeSet Nat)) (c p : Nat) : Prop := p ∈ successors.getD c ∅

variable {c p start k : Nat} {s : Nat × Ambient τ}

theorem leads_iff_getElem? : Leads successors c p ↔ ∃ set, successors[c]? = some set ∧ p ∈ set :=
  getD_iff (P := (p ∈ ·)) ExtTreeSet.not_mem_empty

theorem Leads.lt (h : Leads successors c p) : c < successors.length := by
  obtain ⟨set, hset, -⟩ := leads_iff_getElem?.mp h
  exact lt_of_getElem? hset

/-! ## Reachability -/

theorem ofList_singleton (x : Nat) :
    (ExtTreeSet.ofList [x] : ExtTreeSet Nat) = (∅ : ExtTreeSet Nat).insert x := by
  refine ExtTreeSet.ext_mem fun y => ?_
  rw [ExtTreeSet.mem_ofList, contains_iff_mem, mem_singleton, mem_insert_eq, eq_comm]
  simp

/-- The search from a node takes at most as many rounds as there are edges. -/
theorem searchMeasure_start (hstart : start < successors.length) :
    searchMeasure (Finset.range successors.length) (fun x => (successors.getD x ∅).size)
      (successors.getD start ∅).toList.reverse
      (.ofList [start]) = (successors.map (·.size)).sum := by
  unfold searchMeasure
  rw [length_reverse, ExtTreeSet.length_toList, ofList_singleton,
    sum_unseen_insert (fun x => (successors.getD x ∅).size) (Finset.mem_range.mpr hstart)
      ExtTreeSet.not_mem_empty,
    Finset.filter_true_of_mem fun _ _ => ExtTreeSet.not_mem_empty, sum_getD successors ∅]

theorem wp_reachableIndices (hpaced : Paced (pollGraphStep control) J E) {target : Nat}
    (hrange : ∀ c p, Leads successors c p → p < successors.length)
    (hstart : start < successors.length) (hne : start ≠ target)
    (hroom : J (k + (successors.map (·.size)).sum) s) :
    wp (reachableIndices control successors start target) (fun found s' => J k s' ∧
      (found = true ↔ Relation.TransGen (Leads successors) start target)) E s := by
  have hmeasure := searchMeasure_start hstart
  unfold reachableIndices
  refine wp_imp (wp_search (Leads successors) (Finset.range successors.length)
    (fun x => (successors.getD x ∅).size) hpaced ?_ ?_ ?_ ?_ ?_ (k := k) ?_) ?_
  · exact fun k s current seen _ hroom => wp_pure.mpr ⟨hroom, unseen_spec _ seen⟩
  · intro x _ y hxy
    exact Finset.mem_range.mpr (hrange x y hxy)
  · intro x hx
    exact Finset.mem_range.mpr (hrange start x (ExtTreeSet.mem_toList.mp (mem_reverse.mp hx)))
  · intro x hx
    rw [ExtTreeSet.mem_ofList, contains_iff_mem, mem_singleton] at hx
    rw [hx]
    exact ⟨hne, fun y hy => .inr (mem_reverse.mpr (ExtTreeSet.mem_toList.mpr hy))⟩
  · rw [hmeasure]
    omega
  · rw [hmeasure]
    exact hroom
  · rintro found s' ⟨hroom', hfound⟩
    refine ⟨hroom', hfound.trans ?_⟩
    rw [Relation.TransGen.head'_iff]
    constructor
    · rintro ⟨x, hx, hpath⟩
      exact ⟨x, ExtTreeSet.mem_toList.mp (mem_reverse.mp hx), hpath⟩
    · rintro ⟨x, hx, hpath⟩
      exact ⟨x, mem_reverse.mpr (ExtTreeSet.mem_toList.mpr hx), hpath⟩

/-! ## One edge -/

theorem leads_erase {c' p' : Nat} :
    Leads (successors.modify c (·.erase p)) c' p' ↔ Leads successors c' p' ∧
      ¬ (c' = c ∧ p' = p) := by
  by_cases hlt : c' < successors.length
  · unfold Leads
    rw [getElem?_modify_getD hlt]
    by_cases hc : c = c'
    · rw [if_pos hc, mem_erase_eq]
      constructor
      · rintro ⟨hp, hmem⟩
        exact ⟨hmem, fun h => hp h.2.symm⟩
      · rintro ⟨hmem, hp⟩
        exact ⟨fun h => hp ⟨hc.symm, h.symm⟩, hmem⟩
    · rw [if_neg hc]
      exact ⟨fun h => ⟨h, fun h' => hc h'.1.symm⟩, And.left⟩
  · constructor
    · intro h
      have h' := h.lt
      rw [length_modify] at h'
      exact absurd h' hlt
    · exact fun h => absurd h.1.lt hlt

theorem sum_size_erase (successors : List (ExtTreeSet Nat)) (c p : Nat) :
    ((successors.modify c (·.erase p)).map (·.size)).sum ≤ (successors.map (·.size)).sum :=
  sum_size_modify (n := 0) fun _ => ExtTreeSet.size_erase_le

theorem modify_erase_insert (h : Leads successors c p) :
    (successors.modify c (·.erase p)).modify c (·.insert p) = successors := by
  refine ext_getElem? fun i => ?_
  rw [List.getElem?_modify, List.getElem?_modify]
  by_cases hi : c = i
  · obtain ⟨set, hset, h⟩ := leads_iff_getElem?.mp h
    rw [← hi, hset]
    simp only [if_true, Option.map_eq_map, Option.map_some, Option.some.injEq]
    refine ExtTreeSet.ext_mem fun x => ?_
    rw [ExtTreeSet.mem_insert, ExtTreeSet.mem_erase, Std.compare_eq_iff_eq, ne_eq,
      Std.compare_eq_iff_eq]
    constructor
    · rintro (rfl | ⟨-, hx⟩)
      · exact h
      · exact hx
    · intro hx
      by_cases hpx : p = x
      · exact .inl hpx
      · exact .inr ⟨hpx, hx⟩
  · simp [hi]

/-- Between two edges: `rest` is still to be looked at. -/
structure Reducing (r : Nat → Nat → Prop) (count q : Nat) (rest : List Edge)
    (successors : List (ExtTreeSet Nat)) : Prop where
  length_eq : successors.length = count
  below : ∀ c p, Leads successors c p → c ∈ { i | i < count } ∧ p ∈ { i | i < count } ∧ Below r c p
  covers : ∀ c p, Covers r { i | i < count } c p → Leads successors c p
  done : ∀ c p, Leads successors c p → ⟨c, p⟩ ∈ rest ∨ Covers r { i | i < count } c p
  todo : ∀ c p, ⟨c, p⟩ ∈ rest → Leads successors c p
  nodup : rest.Nodup
  size : (successors.map (·.size)).sum ≤ q

variable {r : Nat → Nat → Prop} {count q : Nat} {edge : Edge} {rest : List Edge}

section
variable [IsTrans Nat r] (h : Reducing r count q (edge :: rest) successors)
include h

theorem Reducing.drop
    (hpath : Relation.TransGen (Leads
      (successors.modify edge.child (·.erase edge.parent))) edge.child edge.parent) :
    Reducing r count q rest (successors.modify edge.child (·.erase edge.parent)) := by
  -- what is reached without the edge is not a cover
  have hnot : ¬ Covers r { i | i < count } edge.child edge.parent := by
    refine not_covers_of_path (fun c p hcp => h.below c p (leads_erase.mp hcp).1) ?_ hpath
    intro hcp
    exact (leads_erase.mp hcp).2 ⟨rfl, rfl⟩
  refine ⟨(length_modify _ _ _).trans h.length_eq, ?_, ?_, ?_, ?_, (nodup_cons.mp h.nodup).2,
    (sum_size_erase _ _ _).trans h.size⟩
  · intro c p hcp
    exact h.below c p (leads_erase.mp hcp).1
  · intro c p hcov
    refine leads_erase.mpr ⟨h.covers c p hcov, ?_⟩
    rintro ⟨rfl, rfl⟩
    exact hnot hcov
  · intro c p hcp
    obtain ⟨hcp, hne⟩ := leads_erase.mp hcp
    refine (h.done c p hcp).imp_left ?_
    intro hmem
    refine (mem_cons.mp hmem).resolve_left ?_
    rintro rfl
    exact hne ⟨rfl, rfl⟩
  · intro c p hmem
    refine leads_erase.mpr ⟨h.todo c p (mem_cons_of_mem edge hmem), ?_⟩
    rintro ⟨rfl, rfl⟩
    exact (nodup_cons.mp h.nodup).1 hmem

theorem Reducing.keep [Std.Refl r]
    (hanti : ∀ x ∈ { i | i < count }, ∀ y ∈ { i | i < count }, r x y → r y x → x = y)
    (hpath : ¬ Relation.TransGen (Leads (successors.modify edge.child (·.erase edge.parent)))
      edge.child edge.parent) :
    Reducing r count q rest successors := by
  obtain ⟨hchild, hparent, hbelow⟩ := h.below _ _ (h.todo edge.child edge.parent mem_cons_self)
  -- all other covers are still there, and they do not lead to the parent
  have hcover : Covers r { i | i < count } edge.child edge.parent := by
    have hunreached : ¬ Relation.ReflTransGen
      (Leads (successors.modify edge.child (·.erase edge.parent)))
        edge.child edge.parent := by
      intro hreach
      rcases Relation.reflTransGen_iff_eq_or_transGen.mp hreach with heq | hreach
      · exact hbelow.ne heq.symm
      · exact hpath hreach
    refine covers_of_not_path (Set.finite_lt_nat count) hanti ?_ hchild hparent hbelow hunreached
    intro c p hcov hne
    exact leads_erase.mpr ⟨h.covers c p hcov, hne⟩
  refine ⟨h.length_eq, h.below, h.covers, ?_, fun c p hmem =>
    h.todo c p (mem_cons_of_mem edge hmem), (nodup_cons.mp h.nodup).2, h.size⟩
  intro c p hcp
  rcases h.done c p hcp with hmem | hcov
  · rcases mem_cons.mp hmem with rfl | hmem
    · exact .inr hcover
    · exact .inl hmem
  · exact .inr hcov

end

theorem wp_reduceEdge [IsTrans Nat r] [Std.Refl r] (hpaced : Paced (pollGraphStep control) J E)
    (h : Reducing r count q (edge :: rest) successors)
    (hanti : ∀ x ∈ { i | i < count }, ∀ y ∈ { i | i < count }, r x y → r y x → x = y)
    (hroom : J (k + q) s) : wp (reduceEdge control successors edge) (fun successors' s' =>
      Reducing r count q rest successors' ∧ J k s') E s := by
  have hedge := h.todo edge.child edge.parent mem_cons_self
  obtain ⟨-, -, hbelow⟩ := h.below _ _ hedge
  have hlength : (successors.modify edge.child (·.erase edge.parent)).length = successors.length :=
    length_modify _ _ _
  refine wp_seq (wp_reachableIndices hpaced ?_ ?_ hbelow.ne (k := k) ?_) ?_
  · intro c p hcp
    rw [hlength, h.length_eq]
    exact (h.below c p (leads_erase.mp hcp).1).2.1
  · rw [hlength]
    exact hedge.lt
  · exact hpaced.le (Nat.add_le_add_left ((sum_size_erase _ _ _).trans h.size) k) hroom
  · rintro found s' ⟨hroom', hfound⟩
    refine wp_ite (fun hyes => ?_) fun hno => ?_
    · exact wp_pure.mpr ⟨h.drop (hfound.mp hyes), hroom'⟩
    · rw [modify_erase_insert hedge]
      exact wp_pure.mpr ⟨h.keep hanti fun hpath => hno (hfound.mpr hpath), hroom'⟩

/-! ## All edges -/

theorem mem_foldl_insert (l : List Nat) (set : ExtTreeSet Nat) (x : Nat) :
    x ∈ l.foldl (·.insert ·) set ↔ x ∈ set ∨ x ∈ l := by
  induction l generalizing set with
  | nil => simp
  | cons y l ih =>
    rw [foldl_cons, ih, mem_insert_eq, mem_cons, eq_comm]
    tauto

theorem size_foldl_insert (l : List Nat) (set : ExtTreeSet Nat) :
    (l.foldl (·.insert ·) set).size ≤ set.size + l.length := by
  induction l generalizing set with
  | nil => exact le_rfl
  | cons y l ih =>
    have hone := @ExtTreeSet.size_insert_le _ _ set _ y
    have hrest := ih (set.insert y)
    rw [foldl_cons, length_cons]
    omega

/-- Every edge is among the successors of one node. -/
theorem sum_length_parentsOf {edges : List Edge} (hvalid : ∀ edge ∈ edges, edge.child < count) :
    ∑ i ∈ Finset.range count, (parentsOf edges i).length = edges.length := by
  induction edges with
  | nil =>
    refine Finset.sum_eq_zero ?_
    intro i _
    rfl
  | cons edge edges ih =>
    have hone : ∀ i, (parentsOf (edge :: edges) i).length =
        (if edge.child = i then 1 else 0) + (parentsOf edges i).length := by
      intro i
      unfold parentsOf
      by_cases hi : edge.child = i
      · simp [hi, Nat.add_comm]
      · simp [hi]
    simp only [hone]
    rw [Finset.sum_add_distrib, ih fun e he =>
      hvalid e (mem_cons_of_mem edge he), Finset.sum_ite_eq,
      if_pos (Finset.mem_range.mpr (hvalid edge mem_cons_self)), length_cons, Nat.add_comm]

section Start

variable {edges : ExtTreeSet Edge} {incoming : List Nat}

variable (h : Linked (∅ : ExtTreeSet Nat) (·.insert ·) count edges.toList successors incoming)
  (hsimple : Simple count edges.toList)
include h hsimple

theorem Linked.leads_iff {c p : Nat} : Leads successors c p ↔ ⟨c, p⟩ ∈ edges := by
  have hlisted : ∀ hc : c < count, Leads successors c p ↔ ⟨c, p⟩ ∈ edges := by
    intro hc
    unfold Leads
    rw [h.successors_eq c hc, mem_foldl_insert, mem_parentsOf, ExtTreeSet.mem_toList]
    simp
  constructor
  · intro hleads
    exact (hlisted (h.successors_length ▸ hleads.lt)).mp hleads
  · intro hedge
    exact (hlisted (hsimple.valid _ (ExtTreeSet.mem_toList.mpr hedge)).1).mpr hedge

theorem Linked.reducing
    (hbelow : ∀ c p, ⟨c, p⟩ ∈ edges → c ∈ { i | i < count } ∧ p ∈ { i | i < count } ∧ Below r c p)
    (hcovers : ∀ c p, Covers r { i | i < count } c p → ⟨c, p⟩ ∈ edges) :
    Reducing r count edges.size edges.toList successors := by
  have hleads : ∀ c p, Leads successors c p ↔ ⟨c, p⟩ ∈ edges := fun _ _ => h.leads_iff hsimple
  refine ⟨h.successors_length, ?_, ?_, ?_, ?_, hsimple.nodup, ?_⟩
  · intro c p hcp
    exact hbelow c p ((hleads c p).mp hcp)
  · intro c p hcov
    exact (hleads c p).mpr (hcovers c p hcov)
  · intro c p hcp
    exact .inl (ExtTreeSet.mem_toList.mpr ((hleads c p).mp hcp))
  · intro c p hmem
    exact (hleads c p).mpr (ExtTreeSet.mem_toList.mp hmem)
  · rw [← sum_getD successors ∅, h.successors_length, ← ExtTreeSet.length_toList,
      ← sum_length_parentsOf fun edge hedge => (hsimple.valid edge hedge).1]
    refine Finset.sum_le_sum ?_
    intro i hi
    rw [h.successors_eq i (Finset.mem_range.mp hi)]
    refine (size_foldl_insert _ _).trans (Nat.le_of_eq ?_)
    rw [ExtTreeSet.size_empty, Nat.zero_add]

end Start

theorem mem_reducedEdges {c p : Nat} :
    (⟨c, p⟩ : Edge) ∈ ExtTreeSet.ofList (successors.zipIdx.flatMap fun (parents, child) =>
      parents.toList.map fun parent => ({ child, parent } : Edge)) ↔ Leads successors c p := by
  rw [ExtTreeSet.mem_ofList, contains_iff_mem, mem_flatMap, leads_iff_getElem?]
  constructor
  · rintro ⟨⟨parents, child⟩, hmem, hedge⟩
    obtain ⟨parent, hparent, heq⟩ := mem_map.mp hedge
    cases heq
    exact ⟨parents, mem_zipIdx_iff_getElem?.mp hmem, ExtTreeSet.mem_toList.mp hparent⟩
  · rintro ⟨set, hset, h⟩
    exact ⟨(set, c), mem_zipIdx_iff_getElem?.mpr hset,
      mem_map.mpr ⟨p, ExtTreeSet.mem_toList.mpr h, rfl⟩⟩

/-- Reducing edges between the covers and the strict order leaves the covers. -/
theorem wp_reduceQuotient [IsTrans Nat r] [Std.Refl r] (hpaced : Paced (pollGraphStep control) J E)
    {edges : ExtTreeSet Edge} (hcount : count ≤ u32Max)
    (hanti : ∀ x ∈ { i | i < count }, ∀ y ∈ { i | i < count }, r x y → r y x → x = y)
    (hbelow : ∀ c p, (⟨c, p⟩ : Edge) ∈ edges →
      c ∈ { i | i < count } ∧ p ∈ { i | i < count } ∧ Below r c p)
    (hcovers : ∀ c p, Covers r { i | i < count } c p → (⟨c, p⟩ : Edge) ∈ edges) {k : Nat}
    {s : Nat × Ambient τ} (hroom : J (k + edges.size * edges.size + count) s) :
    wp (reduceQuotient control count edges) (fun reduced s' =>
      (∀ edge, edge ∈ reduced ↔ Covers r { i | i < count } edge.child edge.parent) ∧
      J k s') E s := by
  have hsimple : Simple count edges.toList := by
    refine ⟨nodup_of_ascending ExtTreeSet.ordered_toList, ?_⟩
    intro edge hedge
    obtain ⟨hc, hp, hb⟩ := hbelow edge.child edge.parent (ExtTreeSet.mem_toList.mp hedge)
    exact ⟨hc, hp, hb.ne⟩
  obtain ⟨successors, incoming, hlink, hlinked⟩ := linkEdges_ok (∅ : ExtTreeSet Nat) (·.insert ·)
    "classification quotient contains an invalid edge" "classification quotient in-degree overflow"
    hsimple hcount
  have hleads : ∀ c p, Leads successors c p ↔ ⟨c, p⟩ ∈ edges := fun _ _ => hlinked.leads_iff hsimple
  have hlist : ∀ c p, p ∈ (successors.getD c ∅).toList ↔ ⟨c, p⟩ ∈ edges := fun c p =>
    ExtTreeSet.mem_toList.trans (hleads c p)
  refine wp_ask_known hlink ?_
  refine wp_seq (wp_drain hpaced hlinked.incoming_length ?_ ?_ ?_ (Below r) ?_ hroom) ?_
  · intro child _
    exact nodup_of_ascending ExtTreeSet.ordered_toList
  · intro child _ x hx
    exact (hbelow child x ((hlist child x).mp hx)).2.1
  · intro x hx
    rw [hlinked.incoming_eq x hx, hsimple.length_into x]
    congr 1
    refine Finset.filter_congr ?_
    intro child _
    rw [mem_parentsOf, ExtTreeSet.mem_toList, hlist child x]
  · intro child _ x hx
    exact (hbelow child x ((hlist child x).mp hx)).2.2
  · rintro processed s' ⟨hprocessed, hroom'⟩
    refine wp_ensure_known hprocessed ?_
    -- the edges one by one, each with room for a search
    refine wp_seq (wp_foldlM (fun (rest : List Edge) successors s' =>
      Reducing r count edges.size rest successors ∧
        J (k + edges.size * rest.length) s') ?_ _ _ _ ?_) ?_
    · rintro edge rest successors s' ⟨hreducing, hroom⟩
      rw [length_cons, Nat.mul_succ, ← Nat.add_assoc] at hroom
      exact wp_reduceEdge hpaced hreducing hanti hroom
    · refine ⟨hlinked.reducing hsimple hbelow hcovers, ?_⟩
      rw [ExtTreeSet.length_toList]
      exact hroom'
    · rintro successors' s'' ⟨hreducing, hroom''⟩
      refine wp_pure.mpr ⟨?_, hpaced.le (Nat.le_add_right _ _) hroom''⟩
      rintro ⟨c, p⟩
      rw [mem_reducedEdges]
      exact ⟨fun h => (hreducing.done c p h).resolve_left not_mem_nil, hreducing.covers c p⟩

end Reduce

end PyHermit.Classification
