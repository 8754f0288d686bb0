import PyHermit.Engine.Merging

/-!
# Branching on ground disjunctions

`DisjunctionBrancher` (`branching/mod.rs`): take the next disjunction and branch on what
is left of it; on a clash, go back to the branch it rests on and try the next alternative,
or blame what that branch rested on in turn.

The brancher reaches atoms through `GroundAtomAccess` only, a record of programs over a
state `σ` that contains the kernel.
-/

open Std Prog

namespace PyHermit

open NativeError TableauKernel

inductive BranchTransition where
  | noWork | satisfied | deterministic | branched | advanced | exhausted | unsat
  deriving DecidableEq

/-- How the brancher sees atoms (`GroundAtomAccess`). -/
structure GroundAtomAccess (σ : Type) where
  /-- The kernel within the owner's state. -/
  polled : Lens σ Polled
  atomIsSatisfied : σ → Nat → Except NativeError Bool
  atomRefutationDependency : σ → Nat → Except NativeError (Option DependencySet)
  dispatchAtom : Nat → DependencySet → EStateM NativeError σ Bool

def NativeError.display (e : NativeError) : String := e.code ++ ": " ++ e.message

/-- `reset_to_operation_root` after a failure; `what` names the failed operation. -/
def recoverTo {σ α : Type} (kernel : Lens σ TableauKernel) (what : String)
    (m : EStateM NativeError σ α) : EStateM NativeError σ α := fun s =>
  match m s with
  | .ok a s' => .ok a s'
  | .error e s' =>
    match zoom kernel resetToOperationRoot s' with
    | .ok _ s'' => .error e s''
    | .error e' s'' =>
      .error (invariant (what ++ " operation recovery failed after " ++ e.code ++ ": " ++
        e'.display)) s''

namespace DisjunctionBrancher

section

variable {σ : Type} (access : GroundAtomAccess σ) (cancellation : Cancellation)

def kernel : Lens σ TableauKernel := access.polled.comp kernelLens

def onKernel {α : Type} (m : KernelM α) : EStateM NativeError σ α := zoom (kernel access) m

def poll : EStateM NativeError σ Unit := zoom access.polled (PyHermit.poll cancellation)

/-- Whether some atom of the list holds already, polling before each. -/
def anySatisfied : List Nat → EStateM NativeError σ Bool
  | [] => return false
  | atomId :: rest => do
    poll access cancellation
    if ← ask (access.atomIsSatisfied · atomId) then return true
    else anySatisfied rest

/-- The atoms not refuted, and the dependencies of the refutations. -/
def splitRefuted : List Nat → EStateM NativeError σ (List Nat × List DependencySet)
  | [] => return ([], [])
  | atomId :: rest => do
    poll access cancellation
    let refutation ← ask (access.atomRefutationDependency · atomId)
    let (remaining, dependencies) ← splitRefuted rest
    match refutation with
    | some dependency => return (remaining, dependency :: dependencies)
    | none => return (atomId :: remaining, dependencies)

/-- What to do about a disjunction, depending on how many of its atoms are left. -/
def branchOn (disjunctionId : Nat) (combined : DependencySet) :
    List Nat → EStateM NativeError σ BranchTransition
  | [] => do
    let _ ← onKernel access (installClash .emptyHead combined [disjunctionId] none)
    poll access cancellation
    return .deterministic
  | [atomId] => do
    let _ ← access.dispatchAtom atomId combined
    poll access cancellation
    return .deterministic
  | first :: rest => do
    let level ← onKernel access (pushBranch .groundDisjunction (first :: rest)
      disjunctionId combined)
    let _ ← access.dispatchAtom first (combined.add level)
    poll access cancellation
    return .branched

def processNextInner : EStateM NativeError σ BranchTransition := do
  poll access cancellation
  match ← onKernel access takeDisjunction with
  | none =>
    poll access cancellation
    return .noWork
  | some disjunctionId =>
    let record ← onKernel access (readState (·.disjunction disjunctionId))
    if ← anySatisfied access cancellation record.disjunctIds then
      poll access cancellation
      return .satisfied
    else
      let (remaining, dependencies) ← splitRefuted access cancellation record.disjunctIds
      branchOn access cancellation disjunctionId
        (.union (record.baseDependency :: dependencies)) remaining

def processNext : EStateM NativeError σ BranchTransition :=
  recoverTo (kernel access) "branch" (processNextInner access cancellation)

variable (learning : Bool)

/-- The branch to go back to: with learning the highest one the clash rests on. -/
def target (k : TableauKernel) (clash : Clash) : Option Nat :=
  if learning then clash.dependency.maximum else k.highestBranchLevel

def resolveClashInner : EStateM NativeError σ BranchTransition := do
  poll access cancellation
  let k ← onKernel access get
  match k.state.clash with
  | none => return .noWork
  | some clash =>
    match target learning k clash with
    | none => return .unsat
    | some target =>
      let branch ← onKernel access (ask (·.branch target))
      let withoutLevel := clash.dependency.without target
      let alternative ← onKernel access (advanceBranch target withoutLevel)
      poll access cancellation
      match alternative with
      | some atomId =>
        let current ← onKernel access (ask (·.branch target))
        let _ ← access.dispatchAtom atomId (current.baseDependency.add target)
        poll access cancellation
        return .advanced
      | none =>
        let learned := DependencySet.union [branch.learnedDependency, withoutLevel]
        let propagated := DependencySet.union [branch.initialBaseDependency, learned, withoutLevel]
        let _ ← onKernel access (installClash .emptyHead propagated [branch.sourceId] none)
        poll access cancellation
        return .exhausted

def resolveClash : EStateM NativeError σ BranchTransition :=
  recoverTo (kernel access) "branch" (resolveClashInner access cancellation learning)

/-- The rounds of `resolve_until_choice_or_unsat`: at most `fuel` of them, and `none` if
that was not enough. -/
def resolveRounds (learning : Bool) : Nat → EStateM NativeError σ (Option BranchTransition)
  | 0 => return none
  | fuel + 1 => do
    let transition ← resolveClash access cancellation learning
    if transition ≠ .exhausted then return some transition
    else resolveRounds learning fuel

/-- `resolve_until_choice_or_unsat`. A round that does not end the loop drops a branch, so
there is one round per branch and one more. -/
def resolveUntilChoiceOrUnsat : EStateM NativeError σ BranchTransition := do
  let k ← onKernel access get
  match ← resolveRounds access cancellation learning (k.branches.length + 1) with
  | some transition => return transition
  | none => throw (invariant "the branch loop did not end")

end

end DisjunctionBrancher

end PyHermit
