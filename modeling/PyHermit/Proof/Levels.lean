import PyHermit.Proof.Components
import PyHermit.Proof.Taxonomy

/-!
# Searching a hierarchy level by level

A boundary search tests whole levels of candidates, which share what has been proven. On
nodes whose neighbours are the covers of an order, it ends on the least nodes of the upper
set that the tests decide. Classification and the queries on a finished hierarchy search
like that, each in both directions.
-/

open Std Prog Cover List

namespace PyHermit.Classification

open MutableHierarchy

variable {ε ρ : Type} {r : Nat → Nat → Prop} {s : Set Nat} {P : Nat → Prop} {t n : Nat}

theorem size_le {visited : ExtTreeSet Nat} (h : ∀ i ∈ visited, i < n) : visited.size ≤ n := by
  rw [← ExtTreeSet.length_toList, ← length_range (n := n)]
  refine (List.Nodup.subperm (nodup_of_ascending ExtTreeSet.ordered_toList) ?_).length_le
  intro i hi
  exact mem_range.mpr (h i (ExtTreeSet.mem_toList.mp hi))

theorem lt_size_insertMany {s : ExtTreeSet Nat} {l : List Nat} {x : Nat} (hx : x ∈ l)
    (hnew : x ∉ s) : s.size < (s.insertMany l).size := by
  rw [← ExtTreeSet.length_toList, ← ExtTreeSet.length_toList]
  have hnodup : (x :: s.toList).Nodup :=
    nodup_cons.mpr ⟨fun h => hnew (ExtTreeSet.mem_toList.mp h),
      nodup_of_ascending ExtTreeSet.ordered_toList⟩
  refine (List.Nodup.subperm hnodup ?_).length_le
  intro y hy
  rw [ExtTreeSet.mem_toList, ExtTreeSet.mem_insertMany_list, contains_iff_mem]
  rcases mem_cons.mp hy with rfl | hy
  · exact .inr hx
  · exact .inl (ExtTreeSet.mem_toList.mp hy)

theorem mem_insertMany_toList {s t : ExtTreeSet Nat} {x : Nat} :
    x ∈ s.insertMany t.toList ↔ x ∈ s ∨ x ∈ t := by
  rw [ExtTreeSet.mem_insertMany_list, contains_iff_mem, ExtTreeSet.mem_toList]

theorem mem_neighbours_iff {hierarchy : MutableHierarchy} {upward : Bool} {i c : Nat} :
    c ∈ hierarchy.neighbours upward i ↔
      (if upward = true then ⟨i, c⟩ else ⟨c, i⟩ : Edge) ∈ hierarchy.edges := by
  unfold neighbours
  rw [ExtTreeSet.mem_ofList, contains_iff_mem, mem_filterMap]
  simp only [ExtTreeSet.mem_toList]
  cases upward with
  | true | false =>
    refine ⟨?_, fun hedge => ⟨_, hedge, by simp⟩⟩
    rintro ⟨⟨child, parent⟩, hedge, heq⟩
    simp only [true_and, Bool.true_eq_false, Bool.false_eq_true, false_and, if_false,
      Option.ite_none_right_eq_some, Option.some_inj] at heq
    obtain ⟨rfl, rfl⟩ := heq
    exact hedge

/-- The boundaries of an element meet in its own node, which is then alone in both. -/
theorem boundaries_meet {parents children : ExtTreeSet Nat}
    (hmeet : ∀ i, i ∈ parents → i ∈ children → P i) (hparents : ∀ i, P i → ∀ j, j ∈ parents ↔ j = i)
    (hchildren : ∀ i, P i → ∀ j, j ∈ children ↔ j = i) :
    ((∀ i, ¬ P i) ∧ (parents ∩ children).toList = []) ∨
      ∃ i, (∀ j, P j ↔ j = i) ∧ parents = children ∧ (parents ∩ children).toList = [i] := by
  by_cases hown : ∃ i, P i
  · obtain ⟨i, hi⟩ := hown
    refine .inr ⟨i, fun j => ⟨fun hj => ((hparents j hj i).mp ((hparents i hi i).mpr rfl)).symm,
      fun hj => hj ▸ hi⟩,
      ExtTreeSet.ext_mem fun j => (hparents i hi j).trans (hchildren i hi j).symm, ?_⟩
    have hnodup := nodup_of_ascending (parents ∩ children).ordered_toList
    refine perm_singleton.mp ((perm_ext_iff_of_nodup hnodup (nodup_singleton i)).mpr ?_)
    intro j
    rw [ExtTreeSet.mem_toList, ExtTreeSet.mem_inter_iff, hparents i hi, hchildren i hi, and_self,
      mem_singleton]
  · refine .inl ⟨not_exists.mp hown, eq_nil_iff_forall_not_mem.mpr ?_⟩
    intro i hi
    obtain ⟨hp, hc⟩ := ExtTreeSet.mem_inter_iff.mp (ExtTreeSet.mem_toList.mp hi)
    exact hown ⟨i, hmeet i hp hc⟩

/-- The search ends on the least nodes with `P`, if the tests decide `P`. -/
theorem wp_levels [IsTrans Nat r] [Std.Refl r] {enter : ExtTreeSet Nat → EStateM ε ρ Unit}
    {neighbours : Nat → ExtTreeSet Nat} {test : List Nat → EStateM ε ρ (List Bool)} {I : ρ → Prop}
    {E : ε → ρ → Prop} {spent : ε} {x : ρ} (hs : ∀ i ∈ s, i < n)
    (hanti : ∀ x ∈ s, ∀ y ∈ s, r x y → r y x → x = y) (ht : t ∈ s) (hgreatest : ∀ x ∈ s, r x t)
    (hup : ∀ x y, P x → r x y → P y) (hP : P t)
    (hneighbours : ∀ i c, c ∈ neighbours i ↔ Covers r s c i)
    (henter : ∀ frontier x, (∀ i ∈ frontier, i ∈ s) → I x → wp (enter frontier) (fun _ => I) E x)
    (htest : ∀ candidates x, (∀ c ∈ candidates, c ∈ s) → I x →
      wp (test candidates) (fun answers x' =>
      (∃ answer : Nat → Bool, answers = candidates.map answer ∧
        ∀ c ∈ candidates, answer c = true ↔ P c) ∧
      I x') E x) (hI : I x) :
    wp (searchLevels spent enter neighbours test n t)
      (fun boundary x' => (∀ i, i ∈ boundary ↔ Least r s P i) ∧ I x') E x := by
  refine wp_loop (fun (state : Boundary) x => Descent r s P t { i | i ∈ state.frontier }
      { i | i ∈ state.visited } { i | i ∈ state.provenTrue } { i | i ∈ state.boundary } ∧ I x)
    (fun state => n - state.visited.size) ?_ _ _ _ ?_ ?_
  · rintro state x ⟨hd, hI⟩
    have hinside : ∀ i, i ∈ state.visited ∨ i ∈ state.frontier → i ∈ s := fun i hi =>
      (hd.inside i ((hd.mem_found i).mpr hi)).1
    refine wp_ite (fun hempty => ?_) fun hsome => ?_
    · have hnone : { i | i ∈ state.frontier } = (∅ : Set Nat) := by
        simp [ExtTreeSet.isEmpty_iff.mp hempty]
      rw [hnone] at hd
      exact wp_pure.mpr ⟨hd.done ((Set.finite_lt_nat n).subset hs) hanti ht hup hgreatest, hI⟩
    · refine wp_seq (henter _ x (fun i hi => hinside i (.inr hi)) hI) ?_
      intro _ x' hI'
      dsimp only
      generalize hcands : ExtTreeSet.ofList ((((state.frontier.toList.map fun node =>
        (node, neighbours node)).flatMap (·.2.toList)).filter (· ∉ state.visited))) = candidates
      have hcandidates : ∀ c, c ∈ candidates ↔ c ∉ state.visited ∧
          ∃ i ∈ state.frontier, Covers r s c i := by
        intro c
        simp [← hcands, hneighbours, and_comm]
      have hin : ∀ c ∈ candidates.toList, c ∈ s := by
        intro c hc
        obtain ⟨-, i, -, hcov⟩ := (hcandidates c).mp (ExtTreeSet.mem_toList.mp hc)
        exact hcov.left
      -- the answers pick out the candidates with `P`
      refine wp_seq (htest _ x' hin hI') ?_
      rintro answers x'' ⟨⟨answer, rfl, hanswer⟩, hI''⟩
      rw [filter_zip_map]
      have htrue : ∀ c, c ∈ candidates.toList.filter answer ↔
          (c ∉ state.visited ∧ ∃ i ∈ state.frontier, Covers r s c i) ∧ P c := by
        intro c
        rw [mem_filter, ← hcandidates, ExtTreeSet.mem_toList]
        exact and_congr_right fun hc => hanswer c (ExtTreeSet.mem_toList.mpr hc)
      generalize candidates.toList.filter answer = trues at htrue ⊢
      refine wp_pure.mpr ⟨⟨?_, hI''⟩, ?_⟩
      · convert hd.round (T := { c | c ∈ trues }) htrue using 1
        · ext i
          simp
        · ext i
          simp
        · ext i
          simp
        · ext i
          simp [hneighbours]
      · -- the nodes of the frontier are visited for the first time
        have hfrontier : state.frontier.toList ≠ [] := by
          intro hnil
          exact hsome (ExtTreeSet.isEmpty_iff.mpr (ExtTreeSet.toList_eq_nil_iff.mp hnil))
        obtain ⟨i, hi⟩ := exists_mem_of_ne_nil _ hfrontier
        have hgrows := lt_size_insertMany hi (hd.fresh i (ExtTreeSet.mem_toList.mp hi))
        have hle : (state.visited.insertMany state.frontier.toList).size ≤ n :=
          size_le fun i hi => hs i (hinside i (mem_insertMany_toList.mp hi))
        dsimp only
        omega
  · refine ⟨?_, hI⟩
    convert Descent.start (r := r) ht hP using 1 <;> simp
  · dsimp only
    omega

end PyHermit.Classification
