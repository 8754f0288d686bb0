import PyHermit.Store.Kernel

/-!
# Runs of the kernel

The mutators as data, and the kernels a client can bring about with them. A client calls
mutators, and goes on whether they return or fail; it may wrap any of this in `atomic`, and
it may keep a clone of the kernel and restore it in full.
-/

open Std Prog

namespace PyHermit

open TableauKernel

/-- A mutator with its arguments. -/
inductive KernelOp where
  | beginOperation
  | createNode (kind : NodeKind) (parent : Option NodeHandle) (isOwlNamedIndividual : Bool)
      (sourceIndividualId nominalLevel cardinalityTag : Option Nat)
  | retireNode (handle : NodeHandle)
  | markExistential (handle : NodeHandle) (existentialId : Nat) (pending : Bool)
  | setBlocked (handle : NodeHandle) (blocker : Option NodeHandle) (directly : Bool)
  | addFact (predicateId : Nat) (arguments : List NodeHandle) (dependency : DependencySet)
      (core : Bool) (provenanceId : Option Nat)
  | prepareNextDelta
  | pushBranch (choiceKind : ChoiceKind) (alternatives : List Nat) (sourceId : Nat)
      (baseDependency : DependencySet)
  | backtrackTo (level : Nat)
  | advanceBranch (level : Nat) (learnedDependency : DependencySet)
  | resetToOperationRoot
  | mergeNodes (left right : NodeHandle) (dependency : DependencySet)
  | mergeNodesInTransaction (left right : NodeHandle) (dependency : DependencySet)
  | pruneSubtree (root : NodeHandle)
  | pruneSubtreeInTransaction (root : NodeHandle)
  | addDisjunction (disjunctIds : List Nat) (dependency : DependencySet)
  | takeDisjunction
  | strengthenDisjunction (disjunctionId : Nat) (dependency : DependencySet)
  | installClash (kind : ClashKind) (dependency : DependencySet) (participants : List Nat)
      (provenanceId : Option Nat)
  | enqueueInteger (queue : IntegerQueue) (value : Nat) (priority : List Int)
  | takeInteger (queue : IntegerQueue)
  | enqueueNode (queue : NodeQueue) (value : NodeHandle) (priority : List Int)
  | takeExistentialCandidate
  | setExistentialReuseNode (fillerPredicateId : Nat) (node : NodeHandle)
  | removeExistentialReuseNode (fillerPredicateId : Nat)
  | setExistentialReuseDisabled (predicateId : Nat) (disabled : Bool)
  | pushExistentialReuseBranch (root : NodeHandle) (predicateId : Nat)
      (supports : List DependencySet) (baseDependency : DependencySet)
  | removeExistentialReuseBranch (level : Nat)
  | promoteCoreFact (rowId : Nat)
  | rescheduleExistentials (node : NodeHandle)

/-- The call, without its result. -/
def KernelOp.run : KernelOp → KernelM Unit
  | beginOperation => TableauKernel.beginOperation
  | createNode kind parent named individual level tag =>
    discard (TableauKernel.createNode kind parent named individual level tag)
  | retireNode handle => TableauKernel.retireNode handle
  | markExistential handle id pending => TableauKernel.markExistential handle id pending
  | setBlocked handle blocker directly => TableauKernel.setBlocked handle blocker directly
  | addFact predicate arguments dependency core provenance =>
    discard (TableauKernel.addFactDetailed predicate arguments dependency core provenance)
  | prepareNextDelta => TableauKernel.prepareNextDelta
  | pushBranch kind alternatives source base =>
    discard (TableauKernel.pushBranch kind alternatives source base)
  | backtrackTo level => TableauKernel.backtrackTo level
  | advanceBranch level learned => discard (TableauKernel.advanceBranch level learned)
  | resetToOperationRoot => TableauKernel.resetToOperationRoot
  | mergeNodes left right dependency => discard (TableauKernel.mergeNodes left right dependency)
  | mergeNodesInTransaction left right dependency =>
    discard (TableauKernel.mergeNodesInTransaction left right dependency)
  | pruneSubtree root => discard (TableauKernel.pruneSubtree root)
  | pruneSubtreeInTransaction root => discard (TableauKernel.pruneSubtreeInTransaction root)
  | addDisjunction disjuncts dependency =>
    discard (TableauKernel.addDisjunction disjuncts dependency)
  | takeDisjunction => discard TableauKernel.takeDisjunction
  | strengthenDisjunction id dependency =>
    discard (TableauKernel.strengthenDisjunction id dependency)
  | installClash kind dependency participants provenance =>
    discard (TableauKernel.installClash kind dependency participants provenance)
  | enqueueInteger queue value priority => TableauKernel.enqueueInteger queue value priority
  | takeInteger queue => discard (TableauKernel.takeInteger queue)
  | enqueueNode queue value priority => TableauKernel.enqueueNode queue value priority
  | takeExistentialCandidate => discard TableauKernel.takeExistentialCandidate
  | setExistentialReuseNode filler node => TableauKernel.setExistentialReuseNode filler node
  | removeExistentialReuseNode filler => TableauKernel.removeExistentialReuseNode filler
  | setExistentialReuseDisabled predicate disabled =>
    TableauKernel.setExistentialReuseDisabled predicate disabled
  | pushExistentialReuseBranch root predicate supports base =>
    discard (TableauKernel.pushExistentialReuseBranch root predicate supports base)
  | removeExistentialReuseBranch level => TableauKernel.removeExistentialReuseBranch level
  | promoteCoreFact rowId => TableauKernel.promoteCoreFact rowId
  | rescheduleExistentials node => TableauKernel.rescheduleExistentials node

/-- `Run call undo k k'`: `k'` can be brought about from `k`. `call` restricts which
mutators are called where, `undo before after` which transactions are rolled back. A
transaction that succeeds leaves no trace of its own. -/
inductive Run (call : KernelOp → TableauKernel → Prop)
    (undo : TableauKernel → TableauKernel → Prop) : TableauKernel → TableauKernel → Prop where
  | refl {k : TableauKernel} : Run call undo k k
  | op {k k' : TableauKernel} {o : KernelOp} : Run call undo k k' → call o k' →
      Run call undo k (final o.run k')
  | rollBack {k before after : TableauKernel} : Run call undo k before →
      Run call undo before after → undo before after → Run call undo k (rollBack before after)
  | restoreFull {k before after : TableauKernel} : Run call undo k before →
      Run call undo before after → Run call undo k (after.restoreFullCheckpoint before)

variable {call : KernelOp → TableauKernel → Prop} {undo : TableauKernel → TableauKernel → Prop}
  {k : TableauKernel}

/-- An invariant of every call and every restoration is an invariant of runs. -/
theorem Run.induct {I : TableauKernel → Prop} (hop : ∀ k o, I k → call o k → I (final o.run k))
    (hback : ∀ before after, I before → I after → undo before after →
      I (TableauKernel.rollBack before after))
    (hfull : ∀ before after, I before → I after → I (after.restoreFullCheckpoint before))
    {k' : TableauKernel} (hrun : Run call undo k k') (hk : I k) : I k' := by
  induction hrun with
  | refl => exact hk
  | op _ hcall ih => exact hop _ _ (ih hk) hcall
  | rollBack _ _ hundo ih1 ih2 => exact hback _ _ (ih1 hk) (ih2 (ih1 hk)) hundo
  | restoreFull _ _ ih1 ih2 => exact hfull _ _ (ih1 hk) (ih2 (ih1 hk))

theorem Run.trans {k' k'' : TableauKernel} (h : Run call undo k k') (h' : Run call undo k' k'') :
    Run call undo k k'' := by
  induction h' with
  | refl => exact h
  | op _ hcall ih => exact .op (ih h) hcall
  | rollBack _ hinner hundo ih _ => exact .rollBack (ih h) hinner hundo
  | restoreFull _ hinner ih _ => exact .restoreFull (ih h) hinner

def runCalls (k : TableauKernel) (calls : List KernelOp) : TableauKernel :=
  calls.foldl (fun k o => final o.run k) k

/-- Each call of the sequence is made where it is allowed. -/
def Allowed (call : KernelOp → TableauKernel → Prop) : TableauKernel → List KernelOp → Prop
  | _, [] => True
  | k, o :: rest => call o k ∧ Allowed call (final o.run k) rest

theorem Run.of_calls {calls : List KernelOp} (h : Allowed call k calls) :
    Run call undo k (runCalls k calls) := by
  induction calls generalizing k with
  | nil => exact .refl
  | cons o rest ih => exact (Run.op .refl h.1).trans (ih h.2)

/-- A transaction whose operation fails once its work is done, as one that runs
out of time at its last poll. -/
def abandon (m : KernelM Unit) (e : NativeError) : KernelM Unit := atomic (do m; throw e)

/-- It is rolled back from wherever it got to. -/
theorem final_abandon {m : KernelM Unit} {e : NativeError} :
    final (abandon m e) k = rollBack k (final m k) := by
  have hbind : (do m; throw e : KernelM Unit) k = EStateM.bind m (fun _ => throw e) k := rfl
  unfold final abandon atomic orUndo
  rw [hbind]
  unfold EStateM.bind
  cases m k <;> rfl

/-! ## Runs that keep every clone

`Run` restores a clone only at the end of the stretch that began with it. A course
remembers every kernel it went through, and may go back to any of them at any time; this
covers nested transactions, which go back to where they began. -/

/-- The saved states a call goes back to. -/
def KernelOp.restored : KernelOp → TableauKernel → List MutableState
  | backtrackTo level, k | advanceBranch level _, k =>
    k.branches[level]?.toList.map (·.snapshot.state)
  | resetToOperationRoot, k => [k.operationRoot.state]
  | _, _ => []

/-- The handle a call returns, if it is a `create_node`. -/
def KernelOp.created : KernelOp → TableauKernel → Option NodeHandle
  | createNode kind parent named individual level tag, k =>
    returned (TableauKernel.createNode kind parent named individual level tag) k
  | _, _ => none

/-- The kernel, the kernels before it, and the handles `create_node` returned so far. -/
structure Course where
  current : TableauKernel
  past : List TableauKernel
  created : List NodeHandle

def Course.start : Course := ⟨.new, [], []⟩

/-- One step of a course; `may` restricts which saved states are restored. -/
inductive Course.Step (may : MutableState → Prop) : Course → Course → Prop where
  | call {c : Course} {o : KernelOp} : (∀ st ∈ o.restored c.current, may st) →
      Step may c ⟨final o.run c.current, c.current :: c.past,
        (o.created c.current).toList ++ c.created⟩
  | rollBack {c : Course} {before : TableauKernel} : before ∈ c.current :: c.past →
      may before.state → Step may c ⟨rollBack before c.current, c.current :: c.past, c.created⟩
  | restoreFull {c : Course} {before : TableauKernel} : before ∈ c.current :: c.past →
      may before.state →
      Step may c ⟨c.current.restoreFullCheckpoint before, c.current :: c.past, c.created⟩

/-- The courses that can follow. -/
def Course.Leads (may : MutableState → Prop) : Course → Course → Prop :=
  Relation.ReflTransGen (Step may)

end PyHermit
