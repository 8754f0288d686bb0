import PyHermit.Store.Check

/-!
# The kernel's mutators

Every `&mut self` method of `TableauKernel`, as a program over the kernel. A method that
fails keeps what it had already written, as in the source; those that promise more
(`merge_nodes`, `prune_subtree`, `atomic`) restore a snapshot, and a snapshot holds the
mutable state but not the branch stack.
-/

open Std Prog

namespace PyHermit

open NativeError

abbrev KernelM := EStateM NativeError TableauKernel

def readState {α : Type} (f : MutableState → Except NativeError α) : KernelM α :=
  ask fun k => f k.state

def modifyState (f : MutableState → MutableState) : KernelM Unit :=
  modify fun k => { k with state := f k.state }

/-- An active node as it enters the arena. -/
def Node.fresh (handle : NodeHandle) (creationId : Nat) (kind : NodeKind)
    (parent : Option NodeHandle) (treeDepth creationCheckpoint : Nat) (isOwlNamedIndividual : Bool)
    (sourceIndividualId nominalLevel cardinalityTag : Option Nat) : Node :=
  { handle, creationId, kind, sort := kind.sort, lifecycle := .active, parent, treeDepth
    creationCheckpoint, isOwlNamedIndividual, sourceIndividualId
    representative := none, mergeDependency := .empty
    blocker := none, directlyBlocked := false, blockingGeneration := 0
    unprocessedExistentials := ∅, nominalLevel, cardinalityTag }

variable (st : MutableState)

def MutableState.updateNode (slot : Nat) (f : Node → Node) : MutableState :=
  { st with nodes := st.nodes.modify slot (Option.map f) }

def MutableState.updateFact (rowId : Nat) (f : FactRow → FactRow) : MutableState :=
  { st with facts := st.facts.modify rowId f }

/-- A row with one more support: dominated supports go, and the row may become core or
gain a provenance. -/
def FactRow.absorb (row : FactRow) (support : DependencySet) (core : Bool)
    (provenanceId : Option Nat) : FactRow :=
  { row with
    supports :=
      if row.supports.any (·.isSubsetOf support) then row.supports
      else DependencySet.sortDependencies
        (row.supports.filter (fun value => !support.isSubsetOf value) ++ [support])
    core := row.core || core
    provenanceIds := match provenanceId with
      | some value => row.provenanceIds.insert value
      | none => row.provenanceIds }

/-- Append a row for a key no active row has, and file it. -/
def MutableState.insertRow (key : FactKey) (support : DependencySet) (core : Bool)
    (provenanceId : Option Nat) : MutableState :=
  let row : FactRow :=
    { rowId := st.facts.length, key, supports := [support], core, active := true
      derivationGeneration := st.writeGeneration
      provenanceIds := match provenanceId with
        | some value => (∅ : ExtTreeSet Nat).insert value
        | none => ∅ }
  { st with facts := st.facts ++ [row], indexes := st.indexes.file key row.rowId }

/-- The active nodes whose blocker a test selects. -/
def Arena.blockedBy (arena : Arena) (p : NodeHandle → Bool) : List NodeHandle :=
  (arena.liveNodes.filter fun node => node.lifecycle = .active && node.blocker.any p).map (·.handle)

/-- The active nodes at or below a root. -/
def Arena.subtree (arena : Arena) (root : NodeHandle) : Except NativeError (List Node) :=
  arena.liveNodes.filterM fun node =>
    if node.lifecycle ≠ .active then pure false
    else if node.handle = root then pure true
    else arena.hasAncestor node root

namespace TableauKernel

/-- `record_mutation`: one more entry on the trail. -/
def recordMutation : KernelM Unit := do
  let length ← ask fun k => increment64 k.trailLength "trail length overflow"
  modify fun k => { k with trailLength := length }

def nextCheckpointSequence : KernelM Unit := do
  let sequence ← ask fun k => increment64 k.checkpointSequence "checkpoint sequence overflow"
  modify fun k => { k with checkpointSequence := sequence }

/-- `Vec::resize`. -/
def resize {α : Type} (l : List α) (length : Nat) (fill : α) : List α :=
  (l ++ List.replicate (length - l.length) fill).take length

/-- `restore`: back to the snapshot, except that slots stay allocated and generations
never go down. -/
def restore (k : TableauKernel) (snapshot : StateCheckpoint) : TableauKernel :=
  let current := k.state.generations
  let length := max snapshot.state.generations.length current.length
  let nodes := resize snapshot.state.nodes length none
  { k with
    state := { snapshot.state with
      nodes := nodes
      generations := List.zipWith max (resize snapshot.state.generations length 0)
        (resize current length 0)
      freeSlots := emptySlots nodes }
    trailLength := snapshot.trailLength }

/-- Undo a failed run: the state it started from, in the kernel it left behind. -/
def rollBack (before after : TableauKernel) : TableauKernel := after.restore before.snapshot

/-- `atomic`: a failed operation leaves the state as it was. -/
def atomic {α : Type} (operation : KernelM α) : KernelM α := orUndo rollBack operation

def beginOperation : KernelM Unit := do
  let k ← get
  ensure (k.branches = []) (wire "cannot replace the operation root while branches survive")
  nextCheckpointSequence
  modify fun k => { k with operationRoot := k.snapshot }

/-! ## Nodes -/

/-- The depth of a new node, and whether its parent may have it. -/
def newNodeDepth (arena : Arena) (kind : NodeKind) (parent : Option NodeHandle) :
    Except NativeError Nat :=
  if kind = .tree then
    match parent with
    | none => .error (wire "tree nodes require a parent")
    | some parent => do
      let parentNode ← arena.requireActive parent
      ensure (parentNode.sort = .object) (wire "tree node parent must have object sort")
      increment32 parentNode.treeDepth "tree depth overflow"
  else do
    ensure (parent = none) (wire "root, NI, and concrete nodes cannot have a parent")
    return 0

/-- Take the first free slot, or open a new one at the end of the arena. -/
def takeSlot : KernelM Nat := do
  let k ← get
  match k.state.freeSlots.toList.head? with
  | some slot =>
    modifyState fun st => { st with freeSlots := st.freeSlots.erase slot }
    return slot
  | none =>
    let slot ← readState fun st => toU32 st.nodes.length "node arena exceeds u32 slots"
    modifyState fun st =>
      { st with nodes := st.nodes ++ [none], generations := st.generations ++ [0] }
    return slot

def createNode (kind : NodeKind) (parent : Option NodeHandle) (isOwlNamedIndividual : Bool)
    (sourceIndividualId nominalLevel cardinalityTag : Option Nat) : KernelM NodeHandle := do
  let treeDepth ← readState fun st => newNodeDepth st.nodes kind parent
  ensure (isOwlNamedIndividual = true → kind = .root ∧ sourceIndividualId ≠ none)
    (wire "only source named-individual roots may carry the named guard")
  let slot ← takeSlot
  let generation ← readState fun st =>
    increment32 (st.generations.getD slot 0) "node generation overflow"
  modifyState fun st => { st with generations := st.generations.set slot generation }
  let handle : NodeHandle := ⟨slot, generation⟩
  let k ← get
  let creationId := k.state.nextCreationId
  let next ← ask fun _ => increment32 creationId "node creation ID overflow"
  modifyState fun st => { st with nextCreationId := next }
  let node := Node.fresh handle creationId kind parent treeDepth (k.highestBranchLevel.getD 0)
    isOwlNamedIndividual sourceIndividualId nominalLevel cardinalityTag
  modifyState fun st => { st with nodes := st.nodes.set slot (some node) }
  recordMutation
  return handle

variable (handle : NodeHandle)

def retireNode : KernelM Unit := do
  let _ ← readState (·.nodes.requireNode handle)
  let k ← get
  ensure ((k.state.indexes.byNode.getD handle ∅).isEmpty)
    (wire "cannot retire a node referenced by an active fact")
  ensure (∀ node ∈ k.state.nodes.liveNodes, node.handle ≠ handle →
      node.parent ≠ some handle ∧ node.representative ≠ some handle ∧ node.blocker ≠ some handle)
    (wire "cannot retire a node that remains structurally referenced")
  modifyState fun st =>
    { st with nodes := st.nodes.set handle.slot none, freeSlots := st.freeSlots.insert handle.slot }
  recordMutation

/-- `mark_existential`: note an existential of a node as pending or done. -/
def markExistential (existentialId : Nat) (pending : Bool) : KernelM Unit := do
  let node ← readState (·.nodes.requireActive handle)
  if (decide (existentialId ∈ node.unprocessedExistentials)) = pending then return () else
    modifyState (·.updateNode handle.slot fun node =>
      { node with unprocessedExistentials :=
          if pending then node.unprocessedExistentials.insert existentialId
          else node.unprocessedExistentials.erase existentialId })
    recordMutation

/-- Bump a node's blocking generation; what was written before an overflow stays. -/
def bumpBlockingGeneration : KernelM Unit := do
  let node ← readState (·.nodes.requireNode handle)
  let generation ← ask fun _ => increment32 node.blockingGeneration "blocking generation overflow"
  modifyState (·.updateNode handle.slot fun node => { node with blockingGeneration := generation })

/-- Reject a node of data sort with the given message. -/
def requireObject (arena : Arena) (handle : NodeHandle) (message : String) :
    Except NativeError Unit := do
  let node ← arena.requireActive handle
  ensure (node.sort ≠ .data) (wire message)

def setBlocked (blocker : Option NodeHandle) (directly : Bool) : KernelM Unit := do
  readState (requireObject ·.nodes handle "concrete nodes cannot be blocked")
  match blocker with
  | none => pure ()
  | some value => readState (requireObject ·.nodes value "a concrete node cannot be a blocker")
  modifyState (·.updateNode handle.slot fun node =>
    { node with blocker := blocker, directlyBlocked := blocker.isSome && directly })
  bumpBlockingGeneration handle
  recordMutation

/-! ## Facts -/

def addFactDetailed (predicateId : Nat) (arguments : List NodeHandle) (dependency : DependencySet)
    (core : Bool) (provenanceId : Option Nat) : KernelM FactAddOutcome := do
  ensure (arguments ≠ []) (wire "fact rows must have positive arity")
  ensure (arguments.length ≤ u32Max) (wire "fact arity exceeds u32 positions")
  ask (·.validateDependency dependency)
  let resolved ← readState fun st => arguments.mapM st.nodes.canonicalHandle
  let support := DependencySet.union (dependency :: resolved.map (·.2))
  let key : FactKey := ⟨predicateId, resolved.map (·.1)⟩
  let k ← get
  match k.state.indexes.byKey[key]? with
  | some rowId =>
    match k.state.facts[rowId]? with
    | none => throw (invariant "fact index references a missing row")
    | some row =>
      let row' := row.absorb support core provenanceId
      modifyState (·.updateFact rowId fun _ => row')
      if row' = row then pure () else recordMutation
      return { rowId, created := false, supportChanged := row'.supports ≠ row.supports }
  | none =>
    let rowId ← readState fun st => toU32 st.facts.length "fact store exceeds u32 rows"
    modifyState (·.insertRow key support core provenanceId)
    recordMutation
    return { rowId, created := true, supportChanged := true }

def addFact (predicateId : Nat) (arguments : List NodeHandle) (dependency : DependencySet)
    (core : Bool) (provenanceId : Option Nat) : KernelM Nat :=
  (·.rowId) <$> addFactDetailed predicateId arguments dependency core provenanceId

def byNodeLens : Lens FactIndexes (Index NodeHandle Nat) where
  get := (·.byNode)
  put indexes index := { indexes with byNode := index }

def byPredicateLens : Lens FactIndexes (Index Nat Nat) where
  get := (·.byPredicate)
  put indexes index := { indexes with byPredicate := index }

def byPositionLens : Lens FactIndexes (Index PositionKey Nat) where
  get := (·.byPosition)
  put indexes index := { indexes with byPosition := index }

/-- Take a row out of the bucket of one index. -/
def unfile {κ : Type} [Ord κ] [TransOrd κ] (field : Lens FactIndexes (Index κ Nat)) (key : κ)
    (rowId : Nat) (absent : String) : KernelM Unit := do
  let k ← get
  match (field.get k.state.indexes).remove key rowId with
  | none => throw (invariant absent)
  | some index => modifyState fun st => { st with indexes := field.put st.indexes index }

def deactivateFact (rowId : Nat) : KernelM Unit := do
  let row ← readState (·.fact rowId)
  if row.active = false then return () else
    modifyState fun st =>
      { st with indexes := { st.indexes with byKey := st.indexes.byKey.erase row.key } }
    unfile byPredicateLens row.key.predicateId rowId "fact row is absent from predicate index"
    row.key.positionKeys.forM fun position =>
      unfile byPositionLens position rowId "fact row is absent from positional index"
    row.key.uniqueArguments.forM fun argument =>
      unfile byNodeLens argument rowId "fact row is absent from node incidence index"
    modifyState (·.updateFact rowId fun row => { row with active := false })
    recordMutation

def prepareNextDelta : KernelM Unit := do
  let k ← get
  if k.state.writeGeneration = k.state.readGeneration then pure ()
  else modifyState fun st => { st with readGeneration := st.writeGeneration }
  let next ← readState fun st => increment32 st.writeGeneration "delta generation overflow"
  modifyState fun st => { st with writeGeneration := next }
  recordMutation

/-! ## Branches -/

/-- `is_unique`: no value occurs twice. -/
def isUnique (values : List Nat) : Bool := (ExtTreeSet.ofList values).size = values.length

def pushBranch (choiceKind : ChoiceKind) (alternatives : List Nat) (sourceId : Nat)
    (baseDependency : DependencySet) : KernelM Nat := do
  ensure (2 ≤ alternatives.length ∧ isUnique alternatives = true)
    (wire "a branch requires at least two unique alternatives")
  let k ← get
  ensure (k.state.clash = none) (wire "cannot create a branch while a clash is installed")
  let level ← ask fun k => toU32 k.branches.length "branch count exceeds u32"
  ensure (baseDependency.maximum.all (· < level))
    (wire "branch dependency references its own or a future level")
  nextCheckpointSequence
  modify fun k =>
    { k with branches := k.branches ++ [
      { level, choiceKind
        checkpoint := ⟨k.checkpointSequence, k.trailLength, s!"branch-{level}"⟩
        snapshot := k.snapshot
        alternatives, sourceId, baseDependency
        initialBaseDependency := baseDependency
        nextAlternative := 0, learnedDependency := .empty }] }
  return level

def backtrackTo (level : Nat) : KernelM Unit := do
  let branch ← ask (·.branch level)
  modify fun k =>
    { k.restore branch.snapshot with branches := k.branches.take (level + 1) }
  ask (·.checkInvariants)

/-- The branch after its current alternative failed. -/
def advanced (branch : Branch) (learnedDependency : DependencySet) : Branch :=
  { branch with
    baseDependency := branch.initialBaseDependency
    learnedDependency := .union [branch.learnedDependency, learnedDependency]
    nextAlternative := branch.nextAlternative + 1 }

/-- Backtrack to a branch and move to its next alternative; an exhausted branch goes. -/
def advanceBranch (level : Nat) (learnedDependency : DependencySet) : KernelM (Option Nat) := do
  backtrackTo level
  let k ← get
  match k.branches[level]? with
  | none => throw (invariant "branch disappeared after backtrack")
  | some branch =>
    let branch' := advanced branch learnedDependency
    modify fun k => { k with branches := k.branches.set level branch' }
    match branch'.alternatives[branch'.nextAlternative]? with
    | none =>
      modify fun k => { k with branches := k.branches.dropLast }
      return none
    | some current =>
      ask (·.checkInvariants)
      return some current

def resetToOperationRoot : KernelM Unit := do
  modify fun k => { k.restore k.operationRoot with branches := [] }
  ask (·.checkInvariants)

/-- Back to an earlier clone of the kernel, branch stack included; the checkpoint
sequence never goes down. -/
def restoreFullCheckpoint (k checkpoint : TableauKernel) : TableauKernel :=
  { k.restore checkpoint.snapshot with
    branches := checkpoint.branches
    operationRoot := checkpoint.operationRoot
    checkpointSequence := max k.checkpointSequence checkpoint.checkpointSequence }

/-! ## Merging and pruning -/

/-- Restate one row of the merge source over the target, then drop it. -/
def mergeRow (source target : NodeHandle) (combined : DependencySet) (rowId : Nat) :
    KernelM Unit := do
  let row ← readState (·.fact rowId)
  if row.active = false then return () else
    let arguments := row.key.arguments.map fun value => if value = source then target else value
    row.supports.forM fun support => do
      let _ ← addFact row.key.predicateId arguments (.union [support, combined]) row.core none
    let minimal ← ask fun _ => row.minimalDependency
    row.provenanceIds.toList.forM fun provenance => do
      let _ ← addFact row.key.predicateId arguments (.union [minimal, combined]) row.core
        (some provenance)
    deactivateFact rowId

/-- Merge `source` into `target`: nobody is blocked by it any more, its facts are
restated, and it becomes a pointer. -/
def mergeInto (source target : NodeHandle) (combined : DependencySet) : KernelM NodeHandle := do
  nextCheckpointSequence
  let k ← get
  (k.state.nodes.blockedBy (· = source)).forM fun handle => setBlocked handle none false
  let k ← get
  (k.state.indexes.byNode.getD source ∅).toList.forM (mergeRow source target combined)
  let _ ← readState (·.nodes.requireNode source)
  modifyState (·.updateNode source.slot fun node =>
    { node with
      lifecycle := .merged, representative := some target, mergeDependency := combined
      blocker := none, directlyBlocked := false })
  bumpBlockingGeneration source
  recordMutation
  return target

variable (left right : NodeHandle) (dependency : DependencySet)

def mergeNodesInner : KernelM NodeHandle := do
  let (leftRep, leftPath) ← readState (·.nodes.representative left)
  let (rightRep, rightPath) ← readState (·.nodes.representative right)
  let combined := DependencySet.union [dependency, leftPath, rightPath]
  if leftRep = rightRep then return leftRep else
    let leftNode ← readState (·.nodes.requireActive leftRep)
    let rightNode ← readState (·.nodes.requireActive rightRep)
    ensure (leftNode.sort = rightNode.sort) (invariant "cannot merge object and concrete nodes")
    let (target, source) ← readState (·.nodes.mergeDirection leftNode rightNode)
    mergeInto source.handle target.handle combined

/-- Merge inside an established transaction. -/
def mergeNodesInTransaction : KernelM NodeHandle := do
  ask (·.validateDependency dependency)
  mergeNodesInner left right dependency

def mergeNodes : KernelM NodeHandle := do
  ask (·.validateDependency dependency)
  atomic (mergeNodesInner left right dependency)

/-- Deepest first, then by creation: the order in which a subtree is pruned. -/
def pruneOrder (a b : Node) : Bool :=
  ((compare b.treeDepth a.treeDepth).then (compare a.creationId b.creationId)).isLE

def pruneNode (node : Node) : KernelM Unit := do
  let _ ← readState (·.nodes.requireNode node.handle)
  modifyState (·.updateNode node.handle.slot fun node =>
    { node with lifecycle := .pruned, blocker := none, directlyBlocked := false })
  bumpBlockingGeneration node.handle
  recordMutation

variable (root : NodeHandle)

def pruneSubtreeInner : KernelM (List NodeHandle) := do
  nextCheckpointSequence
  let below ← readState (·.nodes.subtree root)
  let affected := below.insertionSort fun a b => pruneOrder a b
  let handles := affected.map (·.handle)
  let k ← get
  (k.state.nodes.blockedBy (· ∈ handles)).forM fun handle => setBlocked handle none false
  let k ← get
  let rowIds := ExtTreeSet.ofList (handles.flatMap fun handle =>
    (k.state.indexes.byNode.getD handle ∅).toList)
  rowIds.toList.forM deactivateFact
  affected.forM pruneNode
  return handles

/-- Prune inside an established transaction. -/
def pruneSubtreeInTransaction : KernelM (List NodeHandle) := do
  let _ ← readState (·.nodes.requireActive root)
  pruneSubtreeInner root

def pruneSubtree : KernelM (List NodeHandle) := do
  let _ ← readState (·.nodes.requireActive root)
  atomic (pruneSubtreeInner root)

/-! ## Disjunctions and clashes -/

def disjunctionQueueLens : Lens MutableState StableQueue where
  get := (·.disjunctionQueue)
  put st q := { st with disjunctionQueue := q }

/-- Put a value into one of the queues; `true` when it was not there yet. -/
def enqueueOn (field : Lens MutableState StableQueue) (value : QueueValue) (priority : List Int) :
    KernelM Bool := do
  let (added, queue) ← readState fun st => (field.get st).enqueue value priority
  modifyState fun st => field.put st queue
  return added

/-- Take the first value out of one of the queues. -/
def popFrom (field : Lens MutableState StableQueue) : KernelM (Option QueueValue) := do
  let k ← get
  match (field.get k.state).pop with
  | none => return none
  | some (value, queue) =>
    modifyState fun st => field.put st queue
    return some value

def addDisjunction (disjunctIds : List Nat) (dependency : DependencySet) : KernelM Nat := do
  ensure (disjunctIds ≠ [] ∧ isUnique disjunctIds = true)
    (wire "ground disjunct identifiers must be nonempty and unique")
  ask (·.validateDependency dependency)
  let disjunctionId ← readState fun st =>
    toU32 st.disjunctions.length "disjunction store exceeds u32"
  let k ← get
  modifyState fun st =>
    { st with disjunctions := st.disjunctions ++ [
      { disjunctionId, disjunctIds, baseDependency := dependency
        creationCheckpoint := k.highestBranchLevel.getD 0, active := true, processed := false }] }
  recordMutation
  let _ ← enqueueOn disjunctionQueueLens (.integer disjunctionId) [disjunctionId]
  recordMutation
  return disjunctionId

/-- The loop of `take_disjunction`; each round pops one entry, so `fuel` entries suffice. -/
def takeDisjunctionLoop : Nat → KernelM (Option Nat)
  | 0 => return none
  | fuel + 1 => do
    match ← popFrom disjunctionQueueLens with
    | none => return none
    | some value =>
      recordMutation
      match value with
      | .node _ => throw (invariant "disjunction queue contains a node handle")
      | .integer disjunctionId =>
        let k ← get
        match k.state.disjunctions[disjunctionId]? with
        | none => throw (invariant "disjunction queue references a missing record")
        | some record =>
          if record.active = false ∨ record.processed = true then takeDisjunctionLoop fuel
          else
            modifyState fun st =>
              { st with disjunctions :=
                  st.disjunctions.modify disjunctionId fun record =>
                    { record with processed := true } }
            recordMutation
            return some disjunctionId

def takeDisjunction : KernelM (Option Nat) := do
  let k ← get
  takeDisjunctionLoop (k.state.disjunctionQueue.entries.size + 1)

/-- Lower the dependency of an active disjunction, and of the live branches over it. -/
def strengthenDisjunction (disjunctionId : Nat) (dependency : DependencySet) : KernelM Bool := do
  ask (·.validateDependency dependency)
  let current ← readState (·.disjunction disjunctionId)
  if current.active = false ∨ (current.baseDependency.rankCmp dependency).isLE = true then
    return false
  else
    recordMutation
    modifyState fun st =>
      { st with disjunctions :=
          st.disjunctions.modify disjunctionId fun record =>
            { record with baseDependency := dependency } }
    modify fun k =>
      { k with branches := k.branches.map fun branch =>
          if branch.choiceKind = .groundDisjunction ∧ branch.sourceId = disjunctionId then
            { branch with baseDependency := dependency }
          else branch }
    return true

def installClash (kind : ClashKind) (dependency : DependencySet) (participants : List Nat)
    (provenanceId : Option Nat) : KernelM Bool := do
  ensure (participants.Pairwise (· < ·)) (wire "clash participants must be ascending and unique")
  ask (·.validateDependency dependency)
  let candidate : Clash := { kind, dependency, participants, provenanceId }
  let k ← get
  if k.state.clash.any (fun current => selectClash current candidate = current) = true then
    return false
  else
    modifyState fun st => { st with clash := some candidate }
    recordMutation
    return true

/-! ## Queues -/

inductive IntegerQueue where
  | deltaRows | annotatedEqualities | datatypeComponents

inductive NodeQueue where
  | existentialCandidates | blockingInvalidations

def IntegerQueue.lens : IntegerQueue → Lens MutableState StableQueue
  | .deltaRows => ⟨(·.deltaRows), fun st q => { st with deltaRows := q },
      fun _ _ => rfl, fun _ => rfl, fun _ _ _ => rfl⟩
  | .annotatedEqualities =>
    ⟨(·.annotatedEqualities), fun st q => { st with annotatedEqualities := q },
      fun _ _ => rfl, fun _ => rfl, fun _ _ _ => rfl⟩
  | .datatypeComponents => ⟨(·.datatypeComponents), fun st q => { st with datatypeComponents := q },
      fun _ _ => rfl, fun _ => rfl, fun _ _ _ => rfl⟩

def NodeQueue.lens : NodeQueue → Lens MutableState StableQueue
  | .existentialCandidates =>
    ⟨(·.existentialCandidates), fun st q => { st with existentialCandidates := q },
      fun _ _ => rfl, fun _ => rfl, fun _ _ _ => rfl⟩
  | .blockingInvalidations =>
    ⟨(·.blockingInvalidations), fun st q => { st with blockingInvalidations := q },
      fun _ _ => rfl, fun _ => rfl, fun _ _ _ => rfl⟩

def enqueueInteger (queue : IntegerQueue) (value : Nat) (priority : List Int) : KernelM Unit := do
  let added ← enqueueOn queue.lens (.integer value) priority
  if added then recordMutation else pure ()

def takeInteger (queue : IntegerQueue) : KernelM (Option Nat) := do
  match ← popFrom queue.lens with
  | none => return none
  | some value =>
    recordMutation
    match value with
    | .integer value => return some value
    | .node _ => throw (invariant "integer queue contains a node handle")

def enqueueNode (queue : NodeQueue) (value : NodeHandle) (priority : List Int) : KernelM Unit := do
  let _ ← readState (·.nodes.requireNode value)
  let added ← enqueueOn queue.lens (.node value) priority
  if added then recordMutation else pure ()

def takeExistentialCandidate : KernelM (Option NodeHandle) := do
  match ← popFrom (NodeQueue.lens .existentialCandidates) with
  | none => return none
  | some value =>
    recordMutation
    match value with
    | .node handle => return some handle
    | .integer _ => throw (invariant "existential queue contains an integer")

/-! ## Existential reuse -/

def setExistentialReuseNode (fillerPredicateId : Nat) (node : NodeHandle) : KernelM Unit := do
  let _ ← readState (·.nodes.requireActive node)
  let k ← get
  modifyState fun st =>
    { st with existentialReuseNodes := st.existentialReuseNodes.insert fillerPredicateId node }
  if k.state.existentialReuseNodes[fillerPredicateId]? = some node then pure () else recordMutation

def removeExistentialReuseNode (fillerPredicateId : Nat) : KernelM Unit := do
  let k ← get
  modifyState fun st =>
    { st with existentialReuseNodes := st.existentialReuseNodes.erase fillerPredicateId }
  if fillerPredicateId ∈ k.state.existentialReuseNodes then recordMutation else pure ()

def setExistentialReuseDisabled (predicateId : Nat) (disabled : Bool) : KernelM Unit := do
  let k ← get
  modifyState fun st =>
    { st with existentialReuseDisabled :=
        if disabled then st.existentialReuseDisabled.insert predicateId
        else st.existentialReuseDisabled.erase predicateId }
  if decide (predicateId ∈ k.state.existentialReuseDisabled) = disabled then pure ()
  else recordMutation

/-- `supports.sort(); supports.dedup()`. -/
def canonicalSupports (supports : List DependencySet) : List DependencySet :=
  (supports.insertionSort fun a b => (compare a.levels b.levels).isLE).destutter (· ≠ ·)

def pushExistentialReuseBranch (root : NodeHandle) (predicateId : Nat)
    (supports : List DependencySet) (baseDependency : DependencySet) : KernelM Nat := do
  let _ ← readState (·.nodes.requireActive root)
  ensure (supports ≠ []) (wire "an existential reuse branch requires support")
  supports.forM fun support => ask (·.validateDependency support)
  ask (·.validateDependency baseDependency)
  let level ← ask fun k => toU32 k.branches.length "branch count exceeds u32"
  let k ← get
  ensure (level ∉ k.state.existentialReuseBranches)
    (invariant "existential reuse branch level is already occupied")
  modifyState fun st =>
    { st with existentialReuseBranches :=
        st.existentialReuseBranches.insert level ⟨root, predicateId, canonicalSupports supports⟩ }
  recordMutation
  -- the full checkpoint is taken before the record was written
  orUndo (fun _ after => after.restoreFullCheckpoint k) do
    let created ← pushBranch .merge [0, 1] predicateId baseDependency
    ensure (created = level) (invariant "existential reuse branch received an unexpected level")
    return created

def removeExistentialReuseBranch (level : Nat) : KernelM Unit := do
  let k ← get
  modifyState fun st =>
    { st with existentialReuseBranches := st.existentialReuseBranches.erase level }
  if level ∈ k.state.existentialReuseBranches then recordMutation else pure ()

/-! ## What blocking writes -/

def promoteCoreFact (rowId : Nat) : KernelM Unit := do
  let k ← get
  match k.state.facts[rowId]? with
  | none => throw (wire "fact row ID is unavailable")
  | some row =>
    ensure (row.active = true) (wire "cannot promote an inactive fact row")
    if row.core then return () else
      modifyState (·.updateFact rowId fun row => { row with core := true })
      recordMutation

def rescheduleExistentials (node : NodeHandle) : KernelM Unit := do
  let record ← readState (·.nodes.requireActive node)
  if record.unprocessedExistentials.isEmpty then return () else
    let (creationId, slot, generation) ← readState (·.nodes.nodeRank node)
    enqueueNode .existentialCandidates node [creationId, slot, generation]

end TableauKernel

end PyHermit
