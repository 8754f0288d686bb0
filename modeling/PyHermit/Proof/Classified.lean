import Mathlib.Tactic.Linarith
import PyHermit.Proof.Reduced

/-!
# Classification returns the taxonomy

Both modes put together. Searching with a truthful tester and building from a complete
told relation each return the one taxonomy of the preorder (`classifyIds_exact`); what can
go wrong instead is that a limit is exceeded, and with enough room that does not happen.
-/

open Std Prog Cover List

namespace PyHermit.Classification

open NativeError

variable {τ : Type} {le : Nat → Nat → Prop} {problem : ClassificationProblem}
  {control : OperationControl}

/-! ## Steps -/

/-- Room for `k` more steps, with the tester untouched. -/
def StepRoom (problem : ClassificationProblem) (tester : τ) (k : Nat)
    (s : Nat × Ambient τ) : Prop :=
  s.1 + k ≤ stepBound problem ∧ s.2.tester = tester

theorem paced_pollGraphStep (hcontrol : NeverAborts control) (tester : τ) :
    Paced (pollGraphStep control) (StepRoom problem tester) (fun e _ => Exceeded problem e) := by
  refine ⟨?_, ?_⟩
  · rintro k ⟨steps, r⟩ ⟨hroom, htester⟩
    refine wp_ask_then ?_ ?_
    · intro next hnext
      have hvalue := increment64_ok hnext
      refine wp_modify_then.mpr (wp_ite (fun _ => ?_) fun _ => ?_)
      · refine wp_outside.mpr (wp_imp (wp_pollNow hcontrol) ?_)
        intro _ r' hr'
        refine ⟨?_, hr'.trans htester⟩
        omega
      · refine wp_pure.mpr ⟨?_, htester⟩
        omega
    · intro e he
      unfold increment64 at he
      split at he
      · cases he
      · rename_i hfull
        cases he
        refine ⟨?_, .inr rfl⟩
        intro hroomy
        have hsteps := hroomy.steps
        omega
  · rintro k ⟨steps, r⟩ ⟨hroom, htester⟩
    refine ⟨?_, htester⟩
    omega

theorem steps_le (k n c m q : Nat) (hc : c ≤ n) (hm : m ≤ k + 3 * n) (hq : q ≤ k + 2 * c + 1) :
    0 + q * q + c + n + (n + m) ≤ (k + 3 * n + 2) ^ 2 := by
  nlinarith

/-! ## The complete mode -/

section Complete

variable {told : List Edge} {topIndex bottomIndex : Nat} {found : Components}
  {E : NativeError → Nat × Ambient τ → Prop} {J : Nat → Nat × Ambient τ → Prop}

namespace Condensed

theorem numbers_eq : numbers found.nodes = { i | i < found.components.length } := by
  unfold numbers
  rw [length_memberLists]

variable (h : Condensed problem topIndex bottomIndex told found)
include h

theorem of_mem {i a : Nat} (hi : problem.elements[i]? = some a) :
    found.of i ∈ numbers found.nodes := by
  obtain ⟨node, hnode, -⟩ := h.node_of hi
  exact mem_numbers hnode

theorem path_between {i j : Nat}
    (hpath : Relation.ReflTransGen (Arrow (successorLists problem topIndex bottomIndex told)) i j) :
    Relation.ReflTransGen (fun x y => ToldBetween found.componentByIndex told x y ∨
      (y ∈ numbers found.nodes ∧ x = found.of bottomIndex) ∨
      (x ∈ numbers found.nodes ∧ y = found.of topIndex)) (found.of i) (found.of j) := by
  induction hpath with
  | refl => exact .refl
  | @tail x y _ hstep ih =>
    have hx := hstep.lt
    have hy := h.ranged x y hstep
    rw [Indexed.length_lists] at hx hy
    have hxa := getElem?_eq_getElem hx
    have hyb := getElem?_eq_getElem hy
    rcases (h.arrow_iff hxa hyb).mp hstep with hknown | ⟨-, heq⟩
    · exact ih.tail (.inl ⟨⟨x, y⟩, (h.pairs.mem_iff x y).mpr ⟨_, _, hxa, hyb, hknown⟩, rfl, rfl⟩)
    · dsimp only at heq
      rcases heq with heq | heq | heq
      · rw [heq] at hxa
        rw [h.index_unique hxa h.bottom] at ih
        exact ih.tail (.inr (.inl ⟨h.of_mem hyb, rfl⟩))
      · rw [heq] at hyb
        rw [h.index_unique hyb h.top]
        exact ih.tail (.inr (.inr ⟨h.of_mem hxa, rfl⟩))
      · rw [heq] at hxa
        rw [h.index_unique hyb hxa]
        exact ih

variable (hgen : Generates le problem)
include hgen

theorem exists_of {c : Nat} (hc : c ∈ numbers found.nodes) :
    ∃ i a, problem.elements[i]? = some a ∧ found.of i = c := by
  obtain ⟨node, hnode⟩ := exists_node hc
  obtain ⟨i, hi, hof⟩ := (h.mem_node hnode _).mp ((h.partition hgen).point_mem hnode)
  exact ⟨i, _, hi, hof⟩

variable [IsTrans Nat le]

theorem nodeLe_of
    {i j a b : Nat} (hi : problem.elements[i]? = some a) (hj : problem.elements[j]? = some b) :
    NodeLe le found.nodes (found.of i) (found.of j) ↔ le a b := by
  obtain ⟨node, hnode, ha⟩ := h.node_of hi
  obtain ⟨node', hnode', hb⟩ := h.node_of hj
  exact (h.partition hgen).nodeLe_iff hnode hnode' ha hb

variable (hb : Bounded le problem)
include hb

theorem frame : Frame (ToldBetween found.componentByIndex told) (NodeLe le found.nodes)
      (numbers found.nodes) (found.of bottomIndex) (found.of topIndex) := by
  refine ⟨(h.partition hgen).antisymm, ?_, h.of_mem h.bottom, h.of_mem h.top, ?_, ?_, ?_⟩
  · rintro c p ⟨⟨i, j⟩, hedge, rfl, rfl⟩
    obtain ⟨a, b, hi, hj, hknown⟩ := (h.pairs.mem_iff i j).mp hedge
    refine ⟨h.of_mem hi, h.of_mem hj, (h.nodeLe_of hgen hi hj).mpr ?_⟩
    rw [hgen a (mem_of_getElem? hi) b (mem_of_getElem? hj)]
    exact .single (.inl hknown)
  · intro c hc
    obtain ⟨i, a, hi, rfl⟩ := h.exists_of hgen hc
    exact (h.nodeLe_of hgen h.bottom hi).mpr (hb.bottom a (mem_of_getElem? hi))
  · intro c hc
    obtain ⟨i, a, hi, rfl⟩ := h.exists_of hgen hc
    exact (h.nodeLe_of hgen hi h.top).mpr (hb.top a (mem_of_getElem? hi))
  · intro heq
    exact hb.proper ((h.of_eq_iff hgen h.bottom h.top).mp heq).2

theorem skeleton_of_covers {c p : Nat}
    (hcov : Covers (NodeLe le found.nodes) (numbers found.nodes) c p) :
    Skeleton (ToldBetween found.componentByIndex told) (numbers found.nodes)
      (found.of bottomIndex) (found.of topIndex) c p := by
  obtain ⟨i, a, hi, rfl⟩ := h.exists_of hgen hcov.left
  obtain ⟨j, b, hj, rfl⟩ := h.exists_of hgen hcov.right
  have hle := (h.nodeLe_of hgen hi hj).mp hcov.below.1
  have hpath := h.path_between ((h.reaches_iff hgen hi hj).mpr hle)
  have hskeleton := (h.frame hgen hb).skeleton_generates (numbers_finite _) hpath
  rcases Relation.reflTransGen_iff_eq_or_transGen.mp hskeleton with heq | hskeleton
  · exact absurd heq.symm hcov.below.ne
  · exact hcov.of_generates (fun x y hxy => (h.frame hgen hb).skeleton_below hxy) hskeleton

variable [Std.Refl le]

theorem wp_reduced (hpaced : Paced (pollGraphStep control) J E)
    (hcount : found.components.length ≤ u32Max) {k q : Nat} {s : Nat × Ambient τ}
    (hq : (quotientEdges found.componentByIndex found.components.length (found.of bottomIndex)
      (found.of topIndex) told).size ≤ q)
    (hroom : J (k + q * q + found.components.length) s) :
    wp (reduceQuotient control found.components.length (quotientEdges found.componentByIndex
        found.components.length (found.of bottomIndex) (found.of topIndex) told))
      (fun reduced s' => Diagram le found.nodes reduced ∧ J k s') E s := by
  have hframe := h.frame hgen hb
  have hskeleton : ∀ c p, ⟨c, p⟩ ∈ quotientEdges found.componentByIndex found.components.length
      (found.of bottomIndex) (found.of topIndex) told ↔
      Skeleton (ToldBetween found.componentByIndex told) (numbers found.nodes)
        (found.of bottomIndex) (found.of topIndex) c p := by
    intro c p
    rw [numbers_eq]
    exact mem_quotientEdges hframe.proper c p
  have hsquare := Nat.mul_le_mul hq hq
  refine wp_imp (wp_reduceQuotient (r := NodeLe le found.nodes) hpaced hcount ?_ ?_ ?_
    (hpaced.le (show k + _ * _ + _ ≤ _ by omega) hroom)) ?_
  · rw [← numbers_eq]
    exact hframe.anti
  · intro c p hedge
    rw [← numbers_eq]
    exact hframe.skeleton_below ((hskeleton c p).mp hedge)
  · intro c p hcov
    rw [← numbers_eq] at hcov
    exact (hskeleton c p).mpr (h.skeleton_of_covers hgen hb hcov)
  · rintro reduced s' ⟨hreduced, hroom'⟩
    refine ⟨?_, hroom'⟩
    intro edge
    rw [numbers_eq]
    exact hreduced edge

end Condensed

theorem estimateInitialMemory_le {n m k : Nat} (hm : m ≤ k) :
    estimateInitialMemory n m ≤ 28 * n + 32 * k := by
  unfold estimateInitialMemory saturate
  omega

section
variable (h : Indexed problem topIndex bottomIndex told)
  (hpaced : Paced (pollGraphStep control) J E) {k : Nat} {s : Nat × Ambient τ}
include h hpaced

theorem Indexed.wp_finish (hroom : J (k + (problem.elements.length +
      ((successorSets problem.elements.length topIndex bottomIndex told).map (·.size)).sum)) s) :
    wp ((List.range problem.elements.length).foldlM (finishFrom control
        ((successorSets problem.elements.length topIndex bottomIndex told).map (·.toList))) (∅, []))
      (fun state s' => (Digraph.Finishing (Arrow (successorLists problem topIndex bottomIndex told))
        [] state.2 ∧ ∀ x, x ∈ state.2 ↔ x < problem.elements.length) ∧ J k s') E s := by
  have hlength := @Indexed.length_lists problem told topIndex bottomIndex
  have hedges : ((successorLists problem topIndex bottomIndex told).map List.length).sum =
      ((successorSets problem.elements.length topIndex bottomIndex told).map (·.size)).sum := by
    unfold successorLists
    rw [map_map]
    congr 1
    refine map_congr_left fun set _ => ?_
    exact ExtTreeSet.length_toList
  have hpass := wp_finishAll (k := k) (s := s) hpaced h.ranged
    (by rw [hlength, hedges]; exact hroom)
  rw [hlength] at hpass
  refine wp_imp hpass ?_
  rintro state s' ⟨hfinishing, hall, hroom'⟩
  exact ⟨⟨hfinishing, hall⟩, hroom'⟩

theorem Indexed.wp_collect {finished : List Nat}
    (hfinished :
      Digraph.Finishing (Arrow (successorLists problem topIndex bottomIndex told)) [] finished ∧
      ∀ x, x ∈ finished ↔ x < problem.elements.length) (hroom : J (k + problem.elements.length) s) :
    wp (finished.reverse.foldlM (collectFrom control problem.elements (predecessorLists
        ((successorSets problem.elements.length topIndex bottomIndex told).map (·.toList)))) {})
      (fun found s' => Condensed problem topIndex bottomIndex told found ∧ J k s') E s := by
  have hlength := @Indexed.length_lists problem told topIndex bottomIndex
  refine wp_imp (wp_collectAll hpaced hfinished.1 ?_ (k := k) ?_) ?_
  · rw [hlength]
    exact hfinished.2
  · rw [hlength]
    exact hroom
  rintro found s' ⟨hcollected, hassigned, hroom'⟩
  rw [hlength] at hassigned
  exact ⟨⟨h, hcollected, hassigned⟩, hroom'⟩

end

/-- From a complete told relation the taxonomy is built, and the tester is left alone. -/
theorem wp_buildCompleteHierarchy [IsTrans Nat le] [Std.Refl le] (hcan : Canonical problem)
    (hb : Bounded le problem) (hgen : Generates le problem) (hcontrol : NeverAborts control)
    (hcount : problem.elements.length ≤ u32Max) {r : Ambient τ} :
    wp (buildCompleteHierarchy control problem.elements problem.top problem.bottom
        problem.known problem.limits)
      (fun hierarchy s' => IsTaxonomy le problem.elements problem.top problem.bottom hierarchy ∧
        s'.2.tester = r.tester) (fun e _ => Exceeded problem e) (0, r) := by
  have hnodup : problem.elements.Nodup := nodup_of_ascending (pairwise_lt_iff.mpr hcan.elements)
  obtain ⟨topIndex, htop⟩ := mem_iff_getElem?.mp hcan.top
  obtain ⟨bottomIndex, hbottom⟩ := mem_iff_getElem?.mp hcan.bottom
  obtain ⟨told, hrun, htold⟩ := mapM_indexEdge hnodup hcan.inside
  have hindexed : Indexed problem topIndex bottomIndex told := ⟨hcan, htop, hbottom, htold⟩
  obtain ⟨-, -, hsum⟩ := successorSets_spec problem.elements.length topIndex bottomIndex told
  rw [htold.length_eq] at hsum
  have hpaced := @paced_pollGraphStep τ problem control hcontrol r.tester
  unfold buildCompleteHierarchy
  dsimp only
  rw [(indexById_iff hnodup).mpr htop, (indexById_iff hnodup).mpr hbottom]
  refine wp_ask_known hrun ?_
  refine wp_bind.mpr (wp_checkCount (fun _ => ?_) fun hover e he => ?_)
  · refine wp_bind.mpr (wp_outside.mpr (wp_imp (wp_observe hcontrol _) ?_))
    intro _ r' hr'
    have hroom : StepRoom problem r.tester _ (0, r') :=
      ⟨(Nat.zero_add _).le.trans (steps_le _ _ _ _ _ le_rfl hsum le_rfl), hr'⟩
    -- the two passes leave the components, which are the classes
    refine wp_seq (hindexed.wp_finish hpaced hroom) ?_
    rintro ⟨visited, finished⟩ s1 ⟨hfinished, hroom1⟩
    refine wp_seq (hindexed.wp_collect hpaced hfinished hroom1) ?_
    rintro found s2 ⟨hcondensed, hroom2⟩
    have hpartition := hcondensed.partition hgen
    have hclasses := hpartition.length_le
    rw [length_memberLists] at hclasses
    have hsize : (quotientEdges found.componentByIndex found.components.length
        (found.of bottomIndex) (found.of topIndex) told).size ≤
          problem.known.length + 2 * problem.elements.length + 1 := by
      refine size_quotientEdges.trans ?_
      rw [htold.length_eq]
      omega
    have hindexed : ∀ i ∈ List.range problem.elements.length,
        i ∈ found.componentByIndex := fun i hi =>
      ExtTreeMap.mem_iff_isSome_getElem?.mpr
        (Option.isSome_iff_exists.mpr ⟨_, hcondensed.index (mem_range.mp hi)⟩)
    -- their edges are reduced to the covers
    refine wp_ensure_known hindexed (wp_seq (hcondensed.wp_reduced hgen hb hpaced (by omega) hsize
      (hpaced.le (Nat.add_le_add_left hclasses _) hroom2)) ?_)
    rintro reduced s3 ⟨hdiagram, hroom3⟩
    obtain ⟨hierarchy, hfreeze, htaxonomy, hnodes⟩ := freeze_ok hpartition hdiagram
      (hcondensed.node_of htop) (hcondensed.node_of hbottom) (by omega)
    unfold Components.of at hfreeze
    refine wp_ask_known hfreeze (wp_seq (htaxonomy.wp_validate (by omega)) ?_)
    intro _ s4 hs4
    refine wp_pure.mpr ⟨htaxonomy, ?_⟩
    rw [hs4]
    exact hroom3.2
  · -- the relations are too large for the memory limit
    refine ⟨fun hroomy => ?_, .inl he⟩
    have hle := @estimateInitialMemory_le problem.elements.length _ _ hsum
    have hmemory := hroomy.relations
    omega

end Complete

/-! ## Both modes -/

section
variable [Std.Refl le] (hcan : Canonical problem) (hb : Bounded le problem)
include hcan hb

/-- Canonical inputs pass the checks, if there are not too many elements. -/
theorem validateInputs_ok (hmax : problem.elements.length ≤ problem.limits.maxElements.toNat) :
    validateInputs problem.elements problem.top problem.bottom problem.known problem.limits =
      .ok () := by
  refine bind_eq_ok.mpr ⟨(), ensure_eq_ok.mpr ⟨hcan.two_le hb, ?_⟩,
    bind_eq_ok.mpr ⟨(), ensure_eq_ok.mpr hmax,
    bind_eq_ok.mpr ⟨(), ensure_eq_ok.mpr ⟨hb.top_ne_bottom, hcan.top, hcan.bottom⟩,
    bind_eq_ok.mpr ⟨(), ensure_eq_ok.mpr (ascending_iff.mpr hcan.known),
      ensure_eq_ok.mpr hcan.inside⟩⟩⟩⟩
  exact ascending_iff.mpr (pairwise_lt_iff.mpr hcan.elements)

theorem validateInputs_error {e : NativeError}
    (h : validateInputs problem.elements problem.top problem.bottom problem.known problem.limits =
      .error e) : Exceeded problem e := by
  have hmax : ¬ problem.elements.length ≤ problem.limits.maxElements.toNat := by
    intro hmax
    rw [validateInputs_ok hcan hb hmax] at h
    cases h
  refine ⟨fun hroomy => hmax hroomy.elements, .inl ?_⟩
  have hfirst : 2 ≤ problem.elements.length ∧ ascending problem.elements = true :=
    ⟨hcan.two_le hb, ascending_iff.mpr (pairwise_lt_iff.mpr hcan.elements)⟩
  unfold validateInputs at h
  rw [show ensure (2 ≤ problem.elements.length ∧ ascending problem.elements = true)
    (wire "classification elements must be sorted, unique, and contain top and bottom") =
      .ok () from ensure_eq_ok.mpr hfirst] at h
  unfold checkCount ensure at h
  rw [if_neg hmax] at h
  cases h
  rfl

theorem wp_classifyIds
    (hlimits : problem.limits.validate = .ok ()) (hcontrol : NeverAborts control)
    {tester : Tester τ} {Q : ClassificationResult → Ambient τ → Prop} {s : Ambient τ}
    (hcomplete : problem.knownComplete = true → problem.elements.length ≤ u32Max →
      ∀ r : Ambient τ, r.tester = s.tester →
      wp (withLocal 0 (buildCompleteHierarchy control problem.elements problem.top problem.bottom
        problem.known problem.limits))
        (fun hierarchy r' => ∀ statistics, Q ⟨hierarchy, statistics⟩ r')
        (fun e _ => Exceeded problem e) r)
    (hsearch : problem.knownComplete = false → problem.elements.length ≤ u32Max →
      ∀ (oracle : Oracle) (r : Ambient τ),
      Oracle.new problem.elements (seedRelations problem) problem.mode problem.limits = .ok oracle →
      wp (withLocal oracle (classifyBySearch problem control tester)) Q
        (fun e _ => Exceeded problem e) r)
    (hnew : ∃ oracle, Oracle.new problem.elements (seedRelations problem) problem.mode
      problem.limits = .ok oracle) :
    wp (classifyIds problem control tester) Q (fun e _ => Exceeded problem e) s := by
  refine wp_seq (wp_pollNow hcontrol) ?_
  intro _ s1 hs1
  refine wp_ask_known hlimits ?_
  refine wp_ask_then ?_ fun e he => validateInputs_error hcan hb he
  intro _ hinputs
  obtain ⟨_, -, hrest⟩ := bind_eq_ok.mp hinputs
  obtain ⟨_, hmax, -⟩ := bind_eq_ok.mp hrest
  have hcount : problem.elements.length ≤ u32Max := by
    have hle := ensure_eq_ok.mp hmax
    have hbits := problem.limits.maxElements.toNat_lt
    unfold u32Max
    omega
  refine wp_ite (fun hmode => ?_) fun hmode => ?_
  · refine wp_seq (hcomplete hmode hcount s1 hs1) ?_
    intro hierarchy s2 hQ
    exact wp_ask_known (if_pos hcount) (wp_pure.mpr (hQ _))
  · obtain ⟨hseeds, hsize⟩ := seedRelations_spec hcan
    obtain ⟨oracle, horacle⟩ := hnew
    refine wp_bind.mpr (wp_checkCount (fun _ => ?_) fun hover e he => ?_)
    · refine wp_bind.mpr (wp_checkCount (fun _ => ?_) fun hover e he => ?_)
      · refine wp_seq (wp_observe hcontrol _) ?_
        intro _ s2 _
        exact wp_ask_known horacle (hsearch (Bool.eq_false_of_not_eq_true hmode) hcount
          oracle s2 horacle)
      · refine ⟨fun hroomy => ?_, .inl he⟩
        have hle := @estimateInitialMemory_le problem.elements.length _ _ hsize
        have hmemory := hroomy.relations
        omega
    · refine ⟨fun hroomy => ?_, .inl he⟩
      have hallowed := hroomy.seeds
      omega

end

/-- Classification returns the exact taxonomy of a preorder: the search mode with a tester
that answers for it, and the mode for complete told pairs, which does not depend on the
tester at all, when they generate it. There is only one taxonomy, so the two agree. Both
can only fail because a limit leaves too little room. -/
theorem classifyIds_exact [IsTrans Nat le] [Std.Refl le] [DecidableRel le]
    (hcan : Canonical problem) (hlimits : problem.limits.validate = .ok ())
    (hb : Bounded le problem) (hholds : Holds le problem) (hcontrol : NeverAborts control)
    (tester : Tester τ) (s : Ambient τ) :
    (problem.knownComplete = false → Truthful le problem.elements tester →
      wp (classifyIds problem control tester)
        (fun result _ => IsTaxonomy le problem.elements problem.top problem.bottom result.hierarchy)
        (fun e _ => Exceeded problem e) s) ∧
    (problem.knownComplete = true → Generates le problem →
      wp (classifyIds problem control tester)
        (fun result s' =>
          IsTaxonomy le problem.elements problem.top problem.bottom result.hierarchy ∧
          s'.tester = s.tester) (fun e _ => Exceeded problem e) s ∧
      ∀ other : Tester τ, classifyIds problem control other s =
      classifyIds problem control tester s) ∧
    ∀ hierarchy hierarchy', IsTaxonomy le problem.elements problem.top problem.bottom hierarchy →
      IsTaxonomy le problem.elements problem.top problem.bottom hierarchy' →
      hierarchy = hierarchy' := by
  have hseeds : ∀ edge ∈ seedRelations problem, Inside problem.elements edge ∧
      le edge.child edge.parent := by
    intro edge hedge
    rcases (seedRelations_spec hcan).1 edge hedge with hedge | hedge
    · exact ⟨hcan.inside edge hedge, hholds edge hedge⟩
    · exact ⟨hedge.1, hedge.le hb⟩
  obtain ⟨oracle, horacle, hsound, hcounted⟩ := Oracle.new_sound hseeds
  refine ⟨?_, ?_, fun _ _ h h' => h.unique h'⟩
  · intro hmode htester
    refine wp_classifyIds hcan hb hlimits hcontrol (fun hbad => ?_) ?_ ⟨oracle, horacle⟩
    · rw [hmode] at hbad
      cases hbad
    · intro _ hcount oracle' r hrun
      rw [horacle] at hrun
      cases hrun
      exact wp_withLocal.mpr (wp_classifyBySearch hcan hb hcontrol htester hcount hsound hcounted)
  · intro hmode hgen
    refine ⟨wp_classifyIds hcan hb hlimits hcontrol ?_ (fun hbad => ?_) ⟨oracle, horacle⟩, ?_⟩
    · intro _ hcount r hr
      refine wp_withLocal.mpr (wp_imp (wp_buildCompleteHierarchy hcan hb hgen hcontrol hcount) ?_)
      rintro hierarchy s' ⟨htaxonomy, htester⟩ statistics
      exact ⟨htaxonomy, htester.trans hr⟩
    · rw [hmode] at hbad
      cases hbad
    · intro other
      unfold classifyIds
      simp only [hmode, if_true]

/-- The divisors of six, for either mode. -/
def divisors (complete : Bool) : ClassificationProblem where
  elements := [1, 2, 3, 6]
  top := 6
  bottom := 1
  known := [⟨2, 6⟩]
  knownComplete := complete
  mode := .quasiOrder
  limits := .default

/-- A control without a deadline. -/
def calm : OperationControl := ⟨fun _ => .ok (), fun _ _ => .ok ()⟩

def divides : Tester Unit :=
  fun edges => return edges.map fun edge => decide (edge.child ∣ edge.parent)

variable (complete : Bool)

theorem divisors_canonical : Canonical (divisors complete) := by
  refine ⟨?_, ?_, ?_, ?_, ?_⟩
  all_goals
    try unfold Inside
    decide +revert

theorem divisors_bounded : Bounded (· ∣ ·) (divisors complete) := by
  refine ⟨?_, ?_, ?_⟩ <;> decide +revert

theorem divisors_roomy : Roomy (divisors complete) := by
  refine ⟨?_, ?_, ?_, ?_, ?_, ?_⟩ <;> decide +kernel +revert

theorem divisors_holds : Holds (· ∣ ·) (divisors complete) := by
  unfold Holds
  decide +revert

theorem divisors_generates : Generates (· ∣ ·) (divisors true) := by
  have hsteps : ∀ a ∈ [1, 2, 3, 6], ∀ b ∈ [1, 2, 3, 6], a ∣ b → a = 1 ∨ b = 6 ∨ a = b := by decide
  intro a ha b hb
  refine ⟨fun hdvd => .single (.inr ⟨⟨ha, hb⟩, hsteps a ha b hb hdvd⟩), fun hpath => ?_⟩
  clear hb
  induction hpath with
  | refl => exact dvd_refl a
  | tail _ hstep ih =>
    refine ih.trans (hstep.elim (fun hknown => ?_) fun htrivial => ?_)
    · exact divisors_holds true _ hknown
    · exact htrivial.le (divisors_bounded true)

/-- With room enough, classification returns. The second half of `h` may be anything. -/
theorem Roomy.returns (hroomy : Roomy problem)
    {Q : ClassificationResult → Ambient τ → Prop} {P : Prop} {tester : Tester τ} {s : Ambient τ}
    (h : wp (classifyIds problem control tester) Q (fun e _ => Exceeded problem e) s ∧ P) :
    ∃ result s', classifyIds problem control tester s = .ok result s' ∧ Q result s' :=
  wp_returns (wp_fail h.1 fun _ _ he => he.1 hroomy)

/-- Both modes classify them. -/
theorem classifyIds_divisors :
    (∃ result s', classifyIds (divisors false) calm divides ⟨0, ()⟩ = .ok result s' ∧
      IsTaxonomy (· ∣ ·) [1, 2, 3, 6] 6 1 result.hierarchy) ∧
    ∃ result s', classifyIds (divisors true) calm divides ⟨0, ()⟩ = .ok result s' ∧
      IsTaxonomy (· ∣ ·) [1, 2, 3, 6] 6 1 result.hierarchy ∧ s'.tester = () := by
  have hcalm : NeverAborts calm := ⟨fun _ => rfl, fun _ _ => rfl⟩
  have hexact := fun complete => classifyIds_exact (divisors_canonical complete) rfl
    (divisors_bounded complete) (divisors_holds complete) hcalm divides ⟨0, ()⟩
  exact ⟨(divisors_roomy false).returns ⟨(hexact false).1 rfl fun _ s _ => ⟨s, rfl⟩, trivial⟩,
    (divisors_roomy true).returns ((hexact true).2.1 rfl divisors_generates)⟩

/-- The divisors of six in another order. -/
def divisorsReversed : ClassificationProblem := { divisors false with elements := [6, 3, 2, 1] }

/-- Elements in an order other than the ascending one are refused. -/
theorem classifyIds_reversed : divisorsReversed.elements.Nodup ∧ Bounded (· ∣ ·) divisorsReversed ∧
    Holds (· ∣ ·) divisorsReversed ∧ Truthful (· ∣ ·) divisorsReversed.elements divides ∧
    classifyIds divisorsReversed calm divides ⟨0, ()⟩ = .error
      (wire "classification elements must be sorted, unique, and contain top and bottom")
      ⟨1, ()⟩ := by
  refine ⟨by decide, ⟨by decide, by decide, by decide⟩, ?_, fun _ s _ => ⟨s, rfl⟩, rfl⟩
  unfold Holds
  decide

end PyHermit.Classification
