import PyHermit.Rules.Program
import PyHermit.Store.Kernel

/-!
# Merging nodes with their subtrees

`MergingManager` (`merging/mod.rs`): two nodes found equal are merged in one transaction.
The subtrees of the one that disappears are pruned, its pending existentials go to the
other, and a known inequality between the two is a clash.

What runs above the kernel also polls for cancellation. A program takes the answers as a
parameter and counts its polls in the state: the answer of the i-th poll is arbitrary.
-/

open Std Prog

namespace PyHermit

open NativeError TableauKernel

/-! ## Polling -/

/-- The kernel, and how often cancellation has been polled. -/
structure Polled where
  kernel : TableauKernel
  polls : Nat

abbrev PolledM := EStateM NativeError Polled

/-- The answer of each poll. -/
abbrev Cancellation := Nat → Except NativeError Unit

def kernelLens : Lens Polled TableauKernel where
  get := (·.kernel)
  put s k := { s with kernel := k }

def onKernel {α : Type} (m : KernelM α) : PolledM α := zoom kernelLens m

def poll (cancellation : Cancellation) : PolledM Unit := do
  let s ← get
  set { s with polls := s.polls + 1 }
  ask fun _ => cancellation s.polls

/-- `kernel.atomic` around a program that also polls. -/
def atomically {α : Type} (m : PolledM α) : PolledM α :=
  orUndo (fun before after => { after with kernel := rollBack before.kernel after.kernel }) m

/-! ## The manager -/

structure MergeResult where
  representative : NodeHandle
  merged : Option NodeHandle
  pruned : List NodeHandle
  clashed : Bool

/-- The inequality predicate of each sort. -/
structure MergingManager where
  inequalityBySort : TermSort → Option Nat

/-- The dependency of least rank, the first of them. -/
def minDependency : List DependencySet → Option DependencySet
  | [] => none
  | first :: rest =>
    some (rest.foldl (fun best d => if d.rankCmp best = .lt then d else best) first)

def rankPriority (rank : Nat × Nat × Nat) : List Int := [rank.1, rank.2.1, rank.2.2]

/-- Ranks are compared lexicographically. -/
def rankLE (a b : Nat × Nat × Nat) : Bool :=
  ((compare a.1 b.1).then ((compare a.2.1 b.2.1).then (compare a.2.2 b.2.2))).isLE

namespace MergingManager

/-- `MergingManager::new`: at most one inequality per sort. -/
def new (program : RuleProgram) : Except NativeError MergingManager := do
  let inequalities := program.predicates.filter (·.kind = .inequality)
  inequalities.zipIdx.forM fun (predicate, index) => do
    ensure (predicate.argumentSorts ≠ []) (invariant "inequality predicate has no sort")
    ensure (∀ earlier ∈ inequalities.take index,
        earlier.argumentSorts.head? ≠ predicate.argumentSorts.head?)
      (wire "a rule program cannot contain two inequalities for one term sort")
  return ⟨fun sort => (inequalities.find? (·.argumentSorts.head? = some sort)).map (·.predicateId)⟩

variable (manager : MergingManager)

/-- A stored inequality between the two is a clash. -/
def inequalityClash (left right : NodeHandle) (sort : NodeSort) (support : DependencySet) :
    KernelM (Option MergeResult) := do
  match manager.inequalityBySort sort.termSort with
  | none => return none
  | some predicateId =>
    let leftRank ← readState (·.nodes.nodeRank left)
    let rightRank ← readState (·.nodes.nodeRank right)
    let (first, second) := if rankLE leftRank rightRank then (left, right) else (right, left)
    let bindings : ExtTreeMap Nat NodeHandle := ExtTreeMap.ofList [(0, first), (1, second)]
    let rows ← readState (·.candidateFactIds predicateId bindings)
    if rows = [] then return none else
      let facts ← readState fun st => rows.mapM st.fact
      match minDependency (facts.flatMap (·.supports)) with
      | none => throw (invariant "inequality row has no dependency support")
      | some inequality =>
        let _ ← installClash .equalityInequality (.union [support, inequality])
          (ExtTreeSet.ofList rows).toList none
        return some { representative := left, merged := none, pruned := [], clashed := true }

/-- Prune the subtrees of the merge source, polling before each. -/
def pruneChildren (cancellation : Cancellation) : List NodeHandle → PolledM (List NodeHandle)
  | [] => return []
  | child :: rest => do
    poll cancellation
    let pruned ← onKernel (pruneSubtreeInTransaction child)
    return pruned ++ (← pruneChildren cancellation rest)

/-- What is left of a merge once the source's subtrees are gone. -/
def absorbSource (source target : NodeHandle) (pending : List Nat) (support : DependencySet) :
    KernelM Unit := do
  pending.forM fun existentialId => markExistential target existentialId true
  let representative ← mergeNodesInTransaction source target support
  ensure (representative = target)
    (invariant "state merge orientation changed after it was selected")
  let rank ← readState (·.nodes.nodeRank target)
  let node ← readState (·.nodes.requireActive target)
  if node.unprocessedExistentials.isEmpty then pure ()
  else enqueueNode .existentialCandidates target (rankPriority rank)
  enqueueNode .blockingInvalidations target (rankPriority rank)

def mergeInner (cancellation : Cancellation) (left right : NodeHandle)
    (dependency : DependencySet) : PolledM MergeResult := do
  let (leftRep, leftPath) ← onKernel (readState (·.nodes.canonicalHandle left))
  let (rightRep, rightPath) ← onKernel (readState (·.nodes.canonicalHandle right))
  let support := DependencySet.union [dependency, leftPath, rightPath]
  if leftRep = rightRep then
    return { representative := leftRep, merged := none, pruned := [], clashed := false }
  else
    let sort ← onKernel (readState (·.nodes.nodeSort leftRep))
    let rightSort ← onKernel (readState (·.nodes.nodeSort rightRep))
    ensure (rightSort = sort) (invariant "cannot merge object and concrete nodes")
    match ← onKernel (manager.inequalityClash leftRep rightRep sort support) with
    | some result => return result
    | none =>
      let (target, source) ← onKernel (readState (·.nodes.mergeOrientation leftRep rightRep))
      let children ← onKernel (readState (·.nodes.directChildren source))
      let node ← onKernel (readState (·.nodes.requireActive source))
      let pruned ← pruneChildren cancellation children
      onKernel (absorbSource source target node.unprocessedExistentials.toList support)
      return { representative := target, merged := some source, pruned, clashed := false }

/-- `merge`: all of it in one transaction, with a poll before and after. -/
def merge (cancellation : Cancellation) (left right : NodeHandle) (dependency : DependencySet) :
    PolledM MergeResult := do
  poll cancellation
  atomically do
    let result ← mergeInner manager cancellation left right dependency
    poll cancellation
    return result

end MergingManager

end PyHermit
