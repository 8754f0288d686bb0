import PyHermit.Proof.Installed

/-!
# What strengthening a disjunction asserts again

When a disjunction comes to rest on fewer branches, `install_disjunction` asserts the
choices of its live branches again. It asks the kernel for them by source identifier alone.
Branches of the other kinds keep the number of an atom or of a predicate in the same field,
so their selected numbers are taken for atoms too (`installDisjunction_reasserts` says
exactly when that does no harm).
-/

open Std Prog List

namespace PyHermit

open TableauKernel

def Branch.selected (branch : Branch) : Option Nat := branch.alternatives[branch.nextAlternative]?

namespace RuleEngine

variable (engine : RuleEngine) (k : TableauKernel)

/-- The atoms that are dispatched when the disjunction is strengthened, each with its dependency. -/
def reasserted (disjunctionId : Nat) (dependency : DependencySet) : List (Nat × DependencySet) :=
  (k.branchChoicesForSource disjunctionId).map fun (level, atomId) => (atomId, dependency.add level)

/-- The atom is what a live branch over the disjunction has selected, and the dependency
rests on that branch. -/
def IsChoice (disjunctionId atomId : Nat) (dependency : DependencySet) : Prop :=
  ∃ branch ∈ k.branches, branch.choiceKind = .groundDisjunction ∧ branch.sourceId = disjunctionId ∧
    branch.selected = some atomId ∧ branch.level ∈ dependency

/-- No branch of another kind has the number of the disjunction as its source, unless the
number it has selected is at the same time the choice of a branch over the disjunction. -/
def Apart (disjunctionId : Nat) (dependency : DependencySet) : Prop :=
  ∀ branch ∈ k.branches, branch.choiceKind ≠ .groundDisjunction → branch.sourceId = disjunctionId →
    ∀ atomId, branch.selected = some atomId →
    IsChoice k disjunctionId atomId (dependency.add branch.level)

variable {engine} {k : TableauKernel} {disjunctionId : Nat} {dependency : DependencySet}

theorem mem_reasserted {call : Nat × DependencySet} :
    call ∈ reasserted k disjunctionId dependency ↔ ∃ branch ∈ k.branches, branch.sourceId =
      disjunctionId ∧ branch.selected = some call.1 ∧ call.2 = dependency.add branch.level := by
  unfold reasserted branchChoicesForSource
  simp only [mem_map, mem_filterMap, mem_filter, decide_eq_true_iff, Option.map_eq_some_iff]
  constructor
  · rintro ⟨_, ⟨branch, ⟨hbranch, hsource⟩, atomId, hselected, rfl⟩, rfl⟩
    exact ⟨branch, hbranch, hsource, hselected, rfl⟩
  · rintro ⟨branch, hbranch, hsource, hselected, hdependency⟩
    exact ⟨_, ⟨branch, ⟨hbranch, hsource⟩, call.1, hselected, rfl⟩, by rw [← hdependency]⟩

/-- Strengthening leaves levels, sources and selected alternatives as they are. -/
theorem branchChoicesForSource_strengthened {k' : TableauKernel}
    (h : k'.branches = k.branches.map (strengthened disjunctionId dependency)) (sourceId : Nat) :
    k'.branchChoicesForSource sourceId = k.branchChoicesForSource sourceId := by
  have hsame : ∀ branch, (strengthened disjunctionId dependency branch).sourceId = branch.sourceId ∧
      (strengthened disjunctionId dependency branch).alternatives = branch.alternatives ∧
      (strengthened disjunctionId dependency branch).nextAlternative = branch.nextAlternative ∧
      (strengthened disjunctionId dependency branch).level = branch.level := by
    intro branch
    unfold strengthened
    split <;> exact ⟨rfl, rfl, rfl, rfl⟩
  unfold branchChoicesForSource
  rw [h, filter_map, filterMap_map]
  have hfilter : ((fun branch : Branch => decide (branch.sourceId = sourceId)) ∘
      strengthened disjunctionId dependency) = fun branch =>
        decide (branch.sourceId = sourceId) := by
    funext branch
    rw [Function.comp_apply, (hsame branch).1]
  rw [hfilter]
  refine filterMap_congr ?_
  intro branch _
  obtain ⟨-, halternatives, hnext, hlevel⟩ := hsame branch
  rw [Function.comp_apply, halternatives, hnext, hlevel]

theorem branches_strengthened {s s' : RuleState}
    (h : onKernel (strengthenDisjunction disjunctionId dependency) s = .ok true s') :
    s'.kernel.branches = s.kernel.branches.map (strengthened disjunctionId dependency) := by
  have hwp : wp (onKernel (strengthenDisjunction disjunctionId dependency))
      (fun done s' => done = true →
        s'.kernel.branches = s.kernel.branches.map (strengthened disjunctionId dependency))
      (fun _ _ => True) s := by
    refine wp_zoom.mpr (wp_strengthenDisjunction (fun _ => trivial)
      (fun hno => absurd hno Bool.false_ne_true) ?_)
    intro t record _ _ _ _ _ _
    rfl
  exact wp_ok hwp h rfl

/-- **Strengthening a disjunction asserts the choices of its own branches again**, and nothing
else, exactly if the live branches of the other kinds keep clear of its number. -/
theorem installDisjunction_reasserts {s s' : RuleState} {atoms ordered : List GroundAtom}
    (hordered : engine.orderDisjuncts s.kernel.state.nodes atoms = .ok ordered)
    (hknown : knownDisjunction s (ordered.destutter (· ≠ ·)) = some disjunctionId)
    (hstrengthened : onKernel (strengthenDisjunction disjunctionId dependency) s = .ok true s') :
    engine.installDisjunction atoms dependency s =
      (do (reasserted s.kernel disjunctionId dependency).forM fun call => do
            let _ ← engine.dispatchAtom call.1 call.2
          return false) s' ∧
    ((∀ call ∈ reasserted s.kernel disjunctionId dependency,
      IsChoice s.kernel disjunctionId call.1 call.2) ↔
      Apart s.kernel disjunctionId dependency) := by
  constructor
  · have hchoices : s'.kernel.branchChoicesForSource disjunctionId =
        s.kernel.branchChoicesForSource disjunctionId :=
      branchChoicesForSource_strengthened (branches_strengthened hstrengthened) disjunctionId
    have hobserve : observe (engine.orderDisjuncts ·.nodes atoms) s = .ok ordered s := by
      have hread : engine.orderDisjuncts ((polledLens.comp kernelLens).get s).state.nodes atoms =
        .ok ordered :=
        hordered
      unfold observe onKernel zoom readState ask
      dsimp only
      rw [hread]
      rfl
    unfold installDisjunction
    rw [bind_run hobserve, bind_run (show (get : RuleM RuleState) s = .ok s s from rfl), hknown]
    dsimp only
    unfold strengthenKnown reasserted
    rw [bind_assoc, bind_run hstrengthened, if_pos rfl, bind_assoc,
      bind_run (show (get : RuleM RuleState) s' = .ok s' s' from rfl), hchoices, forM_map]
  · constructor
    · intro hall branch hbranch _ hsource atomId hselected
      exact hall (atomId, dependency.add branch.level)
        (mem_reasserted.mpr ⟨branch, hbranch, hsource, hselected, rfl⟩)
    · rintro hapart ⟨atomId, support⟩ hcall
      obtain ⟨branch, hbranch, hsource, hselected, rfl⟩ := mem_reasserted.mp hcall
      by_cases hkind : branch.choiceKind = .groundDisjunction
      · exact ⟨branch, hbranch, hkind, hsource, hselected, DependencySet.mem_add.mpr (.inl rfl)⟩
      · exact hapart branch hbranch hkind hsource atomId hselected

end RuleEngine

/-! ## A choice of another branch -/

namespace ReassertedSample

open InstalledSample

/-- Branch over 0 ∨ 1 (disjunction 0); on that branch derive 2 ∨ 3 (disjunction 1), and
reuse a node for the at-least predicate 1, which opens a branch with source 1. -/
def reusing : RuleState :=
  final (RuleEngine.onKernel (pushExistentialReuseBranch ⟨0, 1⟩ 1 [onBranch] onBranch))
    (after [.initializeEngine, head 0 1 .empty, .processNextDisjunction, head 2 3 onBranch])

/-- Deriving 2 ∨ 3 without the branch strengthens disjunction 1, and asserts atom 0, which is
no disjunct of it, for the branch that reuses a node. -/
theorem foreign_choice :
    (engine.orderDisjuncts reusing.kernel.state.nodes [atom 2, atom 3]).toOption =
        some [atom 2, atom 3] ∧
      RuleEngine.knownDisjunction reusing ([atom 2, atom 3].destutter (· ≠ ·)) = some 1 ∧
      returned (RuleEngine.onKernel (strengthenDisjunction 1 .empty)) reusing = some true ∧
      RuleEngine.reasserted reusing.kernel 1 .empty = [(0, DependencySet.empty.add 1)] ∧
      ¬ RuleEngine.IsChoice reusing.kernel 1 0 (DependencySet.empty.add 1) := by
  unfold RuleEngine.IsChoice
  decide +kernel

/-- Branches over both disjunctions, and no other. -/
def branching : RuleState :=
  after [.initializeEngine, head 0 1 .empty, .processNextDisjunction, head 2 3 onBranch,
    .processNextDisjunction]

/-- Here atom 2 is asserted again, the choice of the branch over 2 ∨ 3. -/
theorem own_choice : RuleEngine.reasserted branching.kernel 1 .empty =
    [(2, DependencySet.empty.add 1)] ∧ ∀ call ∈ RuleEngine.reasserted branching.kernel 1 .empty,
      RuleEngine.IsChoice branching.kernel 1 call.1 call.2 := by
  have hordered : (engine.orderDisjuncts branching.kernel.state.nodes [atom 2, atom 3]).toOption =
      some [atom 2, atom 3] := by decide +kernel
  have hknown : RuleEngine.knownDisjunction branching ([atom 2, atom 3].destutter (· ≠ ·)) =
      some 1 := by
    decide +kernel
  have hstrengthened : returned (RuleEngine.onKernel (strengthenDisjunction 1 .empty)) branching =
      some true := by
    decide +kernel
  have hkinds : ∀ branch ∈ branching.kernel.branches, branch.choiceKind =
    .groundDisjunction := by decide +kernel
  refine ⟨by decide +kernel, ?_⟩
  generalize branching = s at *
  cases hresult : engine.orderDisjuncts s.kernel.state.nodes [atom 2, atom 3] with
  | error e =>
    rw [hresult] at hordered
    cases hordered
  | ok ordered =>
    rw [hresult] at hordered
    cases hordered
    refine (RuleEngine.installDisjunction_reasserts hresult hknown
      (eq_ok_of_returned hstrengthened)).2.mpr ?_
    intro branch hbranch hkind
    exact absurd (hkinds branch hbranch) hkind

end ReassertedSample

end PyHermit
