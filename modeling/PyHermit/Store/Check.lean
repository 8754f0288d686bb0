import PyHermit.Store.State

/-!
# What the kernel says about itself

`check_invariants` recomputes what the redundant parts of the state should be and
compares; `logical_value` is the part of the state an observer may rely on. Both are
translated section by section.
-/

open Std Prog

namespace PyHermit

open NativeError

/-! ## `check_invariants` -/

def emptySlots (nodes : Arena) : ExtTreeSet Nat :=
  ExtTreeSet.ofList (nodes.zipIdx.filterMap fun (node, index) =>
    if node.isNone then some index else none)

namespace MutableState

variable (st : MutableState)

/-- Parent and depth of one node. -/
def checkTree (node : Node) : Except NativeError Unit :=
  if node.kind = .tree then
    match node.parent with
    | none => .error (invariant "tree node lacks a parent")
    | some parent => do
      let parentNode ← st.nodes.requireNode parent
      ensure (node.treeDepth = parentNode.treeDepth + 1)
        (invariant "tree node depth is inconsistent")
  else
    ensure (node.parent = none ∧ node.treeDepth = 0)
      (invariant "non-tree node has parent or nonzero depth")

variable (highest : Nat)

/-- The representative of one node: present and resolving to another active node for a
merged node, absent for every other. -/
def checkRepresentative (node : Node) : Except NativeError Unit :=
  if node.lifecycle = .merged then
    match node.representative with
    | none => .error (invariant "merged node lacks a representative")
    | some representative => do
      let resolved ← st.nodes.representative representative
      ensure (resolved.1 ≠ node.handle ∧ (st.nodes.requireActive resolved.1).isOk ∧
          node.mergeDependency.maximum.all (· ≤ highest))
        (invariant "merged node representative is invalid")
  else ensure (node.representative = none) (invariant "nonmerged node carries a representative")

def checkBlocker (node : Node) : Except NativeError Unit :=
  match node.blocker with
  | none => .ok ()
  | some blocker =>
    if node.sort ≠ .object then .error (invariant "blocking relation has data sort")
    else do
      let blockerNode ← st.nodes.requireActive blocker
      ensure (blockerNode.sort = .object) (invariant "blocking relation has data sort")

/-- One round of the node loop; the accumulator holds the creation IDs met so far. -/
def checkNode (seen : ExtTreeSet Nat) (index : Nat) (node : Node) :
    Except NativeError (ExtTreeSet Nat) := do
  ensure (node.handle.slot = index ∧ node.handle.generation ≤ st.generations.getD index 0 ∧
      node.creationId ∉ seen ∧ node.creationCheckpoint ≤ highest)
    (invariant "node handle, generation, or creation ID is inconsistent")
  st.checkTree node
  ensure (node.sort = node.kind.sort) (invariant "node kind and sort disagree")
  st.checkRepresentative highest node
  st.checkBlocker node
  return seen.insert node.creationId

def checkNodeLoop (highest : Nat) :
    ExtTreeSet Nat → List (Option Node × Nat) → Except NativeError Unit
  | _, [] => .ok ()
  | seen, (none, _) :: rest => checkNodeLoop highest seen rest
  | seen, (some node, index) :: rest => do
    let seen ← st.checkNode highest seen index node
    checkNodeLoop highest seen rest

/-- The node section of `check_invariants`. -/
def checkNodes : Except NativeError Unit := do
  ensure (emptySlots st.nodes = st.freeSlots ∧ st.nodes.length = st.generations.length)
    (invariant "node arena free list or generation table is inconsistent")
  st.checkNodeLoop highest ∅ st.nodes.zipIdx

/-- No support may rest on a future level or be dominated by another. -/
def checkSupports (supports : List DependencySet) : Except NativeError Unit :=
  supports.forM fun left => do
    ensure (left.maximum.all (· ≤ highest))
      (invariant "fact support references a future branch level")
    ensure (∀ right ∈ supports, left ≠ right → left.isSubsetOf right = false)
      (invariant "fact retains a dominated support")

/-- One round of the fact loop; the accumulator is the index rebuilt so far. -/
def checkFact (rebuilt : FactIndexes) (entry : FactRow × Nat) : Except NativeError FactIndexes :=
  let (row, index) := entry
  if row.rowId ≠ index then .error (invariant "fact row ID disagrees with position")
  else if row.active = false then .ok rebuilt
  else do
    ensure (row.key ∉ rebuilt.byKey ∧ row.supports ≠ [])
      (invariant "active facts are duplicated or unsupported")
    ensure (row.derivationGeneration ≤ st.writeGeneration)
      (invariant "fact derivation generation exceeds the current delta generation")
    checkSupports highest row.supports
    ensure (DependencySet.sortDependencies row.supports = row.supports)
      (invariant "fact supports are not canonical")
    ensure (∀ argument ∈ row.key.arguments, (st.nodes.requireActive argument).isOk)
      (invariant "active fact references an inactive node")
    return rebuilt.file row.key row.rowId

def checkFacts : Except NativeError Unit := do
  let rebuilt ← st.facts.zipIdx.foldlM (st.checkFact highest) .empty
  ensure (rebuilt = st.indexes) (invariant "fact indexes differ from exact reconstruction")
  ensure (st.readGeneration ≤ st.writeGeneration)
    (invariant "delta write generation precedes read generation")

/-- The active disjunctions nobody has branched on, as the queue should list them. -/
def pendingDisjunctions : List QueueValue :=
  (st.disjunctions.filter fun record => record.active && !record.processed).map
    fun record => .integer record.disjunctionId

def checkQueues : Except NativeError Unit := do
  st.deltaRows.checkInvariants
  st.annotatedEqualities.checkInvariants
  st.existentialCandidates.checkInvariants
  st.disjunctionQueue.checkInvariants
  st.datatypeComponents.checkInvariants
  st.blockingInvalidations.checkInvariants

def checkDisjunctions : Except NativeError Unit := do
  ensure (st.disjunctionQueue.values = st.pendingDisjunctions)
    (invariant "ground-disjunction queue differs from records")
  ensure (∀ record ∈ st.disjunctions, record.active →
      record.creationCheckpoint ≤ highest ∧ record.baseDependency.maximum.all (· ≤ highest))
    (invariant "ground disjunction references a future branch level")

end MutableState

namespace TableauKernel

variable (k : TableauKernel)

/-- A reuse record belongs to a live merge branch over its predicate. -/
def reuseRecordConsistent (level : Nat) (record : ExistentialReuseRecord) : Bool :=
  (k.state.nodes.canonicalHandle record.root).isOk && !record.supports.isEmpty &&
    record.supports.all (fun support => support.maximum.all (· < level)) &&
    match k.branches[level]? with
    | none => false
    | some branch => branch.choiceKind = .merge && branch.sourceId = record.predicateId

def checkBranches : Except NativeError Unit :=
  ensure (∀ entry ∈ k.branches.zipIdx, entry.1.level = entry.2 ∧
      entry.1.nextAlternative < entry.1.alternatives.length ∧
      entry.1.checkpoint.trailLength ≤ k.trailLength)
    (invariant "branch metadata is inconsistent")

def checkInvariants : Except NativeError Unit := do
  let highest := k.highestBranchLevel.getD 0
  k.state.checkNodes highest
  k.state.checkFacts highest
  k.state.checkQueues
  k.state.checkDisjunctions highest
  ensure (∀ entry ∈ k.state.existentialReuseBranches.toList,
      k.reuseRecordConsistent entry.1 entry.2 = true)
    (invariant "existential reuse branch state is inconsistent")
  ensure (k.state.clash.all fun clash => clash.dependency.maximum.all (· ≤ highest))
    (invariant "clash references a future branch level")
  k.checkBranches

end TableauKernel

/-! ## `logical_value` -/

/-- What `logical_value` shows of a branch: neither its snapshot nor its initial base. -/
structure BranchValue where
  alternatives : List Nat
  baseDependency : DependencySet
  checkpoint : CheckpointMeta
  choiceKind : ChoiceKind
  learnedDependency : DependencySet
  level : Nat
  nextAlternative : Nat
  sourceId : Nat
  deriving DecidableEq

def Branch.logicalValue (b : Branch) : BranchValue where
  alternatives := b.alternatives
  baseDependency := b.baseDependency
  checkpoint := b.checkpoint
  choiceKind := b.choiceKind
  learnedDependency := b.learnedDependency
  level := b.level
  nextAlternative := b.nextAlternative
  sourceId := b.sourceId

/-- A node's value is the node without its creation checkpoint. -/
def Node.logicalValue (node : Node) : Node := { node with creationCheckpoint := 0 }

/-- The observable state. Facts are the active rows, nodes the ones not retired. -/
structure LogicalValue where
  branches : List BranchValue
  clash : Option Clash
  readGeneration : Nat
  writeGeneration : Nat
  disjunctions : List GroundDisjunction
  facts : List FactRow
  nodes : List Node
  annotatedEqualities : List Nat
  blockingInvalidations : List NodeHandle
  datatypeComponents : List Nat
  deltaRows : List Nat
  disjunctionQueue : List Nat
  existentialCandidates : List NodeHandle
  deriving DecidableEq

def StableQueue.integerValues (q : StableQueue) : List Nat :=
  q.values.filterMap fun value => match value with
    | .integer value => some value
    | .node _ => none

def StableQueue.nodeValues (q : StableQueue) : List NodeHandle :=
  q.values.filterMap fun value => match value with
    | .node handle => some handle
    | .integer _ => none

def TableauKernel.logicalValue (k : TableauKernel) : LogicalValue where
  branches := k.branches.map (·.logicalValue)
  clash := k.state.clash
  readGeneration := k.state.readGeneration
  writeGeneration := k.state.writeGeneration
  disjunctions := k.state.disjunctions
  facts := k.state.facts.filter (·.active)
  nodes := (k.state.nodes.liveNodes.filter (·.lifecycle ≠ .retired)).map (·.logicalValue)
  annotatedEqualities := k.state.annotatedEqualities.integerValues
  blockingInvalidations := k.state.blockingInvalidations.nodeValues
  datatypeComponents := k.state.datatypeComponents.integerValues
  deltaRows := k.state.deltaRows.integerValues
  disjunctionQueue := k.state.disjunctionQueue.integerValues
  existentialCandidates := k.state.existentialCandidates.nodeValues

end PyHermit
