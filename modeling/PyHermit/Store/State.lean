import PyHermit.Lib.Index
import PyHermit.Model

/-!
# The tableau state

The data of `store/state.rs` and everything that reads it: the node arena, the fact rows
with their four indexes, the queues, the branch stack, and the kernel around them. Choice
kinds, clash kinds and queue names are strings in the source, rejected when unknown; here
they are enumerations.
-/

open Std Prog

namespace PyHermit

open NativeError

/-! ## Rows, queues, branches -/

/-- One node of the completion graph. -/
structure Node where
  handle : NodeHandle
  creationId : Nat
  kind : NodeKind
  sort : NodeSort
  lifecycle : NodeLifecycle
  parent : Option NodeHandle
  treeDepth : Nat
  creationCheckpoint : Nat
  isOwlNamedIndividual : Bool
  sourceIndividualId : Option Nat
  representative : Option NodeHandle
  mergeDependency : DependencySet
  blocker : Option NodeHandle
  directlyBlocked : Bool
  blockingGeneration : Nat
  unprocessedExistentials : ExtTreeSet Nat
  nominalLevel : Option Nat
  cardinalityTag : Option Nat
  deriving DecidableEq

/-- A predicate applied to canonical arguments. -/
@[ext] structure FactKey where
  predicateId : Nat
  arguments : List NodeHandle
  deriving DecidableEq

instance : Ord FactKey := ⟨compareLex (compareOn (·.predicateId)) (compareOn (·.arguments))⟩

instance : TransOrd FactKey :=
  inferInstanceAs (TransCmp (compareLex (compareOn FactKey.predicateId)
    (compareOn FactKey.arguments)))

instance : LawfulEqOrd FactKey := ⟨fun h => (Prog.eq_of_compareLex h).elim FactKey.ext⟩

/-- The key of the positional index, `(predicate_id, position, argument)`. -/
structure PositionKey where
  predicateId : Nat
  position : Nat
  argument : NodeHandle

instance : Ord PositionKey :=
  ⟨compareLex (compareOn (·.predicateId))
    (compareLex (compareOn (·.position)) (compareOn (·.argument)))⟩

instance : TransOrd PositionKey :=
  inferInstanceAs (TransCmp (compareLex (compareOn PositionKey.predicateId)
    (compareLex (compareOn PositionKey.position) (compareOn PositionKey.argument))))

instance : LawfulEqOrd PositionKey where
  eq_of_compare {a b} h := by
    have h' : (compare a.predicateId b.predicateId).then
        ((compare a.position b.position).then (compare a.argument b.argument)) = .eq := h
    rw [Ordering.then_eq_eq, Ordering.then_eq_eq, Std.compare_eq_iff_eq, Std.compare_eq_iff_eq,
      Std.compare_eq_iff_eq] at h'
    cases a
    cases b
    simp_all

def FactKey.positionKeys (key : FactKey) : List PositionKey :=
  key.arguments.zipIdx.map fun (argument, position) => ⟨key.predicateId, position, argument⟩

/-- The distinct arguments of a fact, in handle order. -/
def FactKey.uniqueArguments (key : FactKey) : List NodeHandle :=
  (ExtTreeSet.ofList key.arguments).toList

/-- A derived fact with the minimal dependency sets that support it. -/
structure FactRow where
  rowId : Nat
  key : FactKey
  supports : List DependencySet
  core : Bool
  active : Bool
  derivationGeneration : Nat
  provenanceIds : ExtTreeSet Nat
  deriving DecidableEq

/-- The first support of least rank (`minimal_dependency`). -/
def FactRow.minimalDependency (row : FactRow) : Except NativeError DependencySet :=
  match row.supports with
  | [] => .error (invariant "active fact row has no support")
  | first :: rest => .ok (rest.foldl (fun best d => if d.rankCmp best = .lt then d else best) first)

/-- What `add_fact` did. -/
structure FactAddOutcome where
  rowId : Nat
  created : Bool
  supportChanged : Bool

/-- The four indexes of the active rows: by key, node, predicate, and position. -/
structure FactIndexes where
  byKey : ExtTreeMap FactKey Nat
  byNode : Index NodeHandle Nat
  byPredicate : Index Nat Nat
  byPosition : Index PositionKey Nat
  deriving DecidableEq

def FactIndexes.empty : FactIndexes := ⟨∅, ∅, ∅, ∅⟩

/-- File a row in all four indexes. -/
def FactIndexes.file (indexes : FactIndexes) (key : FactKey) (rowId : Nat) : FactIndexes where
  byKey := indexes.byKey.insert key rowId
  byNode := indexes.byNode.addAll key.uniqueArguments rowId
  byPredicate := indexes.byPredicate.add key.predicateId rowId
  byPosition := indexes.byPosition.addAll key.positionKeys rowId

inductive QueueValue where
  | integer (value : Nat)
  | node (handle : NodeHandle)
  deriving DecidableEq

/-- The derived order of the enumeration: integers first, then nodes by handle. -/
def QueueValue.code : QueueValue → List Nat
  | .integer value => [0, value]
  | .node handle => [1, handle.slot, handle.generation]

instance : Ord QueueValue := ⟨compareOn QueueValue.code⟩

instance : TransOrd QueueValue := inferInstanceAs (TransCmp (compareOn QueueValue.code))

instance : LawfulEqOrd QueueValue where
  eq_of_compare {a b} h := by
    have h' : compare a.code b.code = .eq := h
    rw [Std.compare_eq_iff_eq] at h'
    cases a <;> cases b <;> simp [QueueValue.code] at h'
    · rw [h']
    · rename_i x y
      cases x
      cases y
      simp_all

/-- A queue ordered by explicit priorities, without duplicate members. -/
structure StableQueue where
  entries : ExtTreeMap (List Int) QueueValue
  members : ExtTreeSet QueueValue

namespace StableQueue

def empty : StableQueue := ⟨∅, ∅⟩

variable (q : StableQueue)

/-- Whether the value was added, and the queue afterwards. A present value is not
added again; a priority may be used once. -/
def enqueue (value : QueueValue) (priority : List Int) : Except NativeError (Bool × StableQueue) :=
  if value ∈ q.members then .ok (false, q)
  else if priority ∈ q.entries then
    .error (wire "queue priorities must uniquely include a stable identifier")
  else .ok (true, ⟨q.entries.insert priority value, q.members.insert value⟩)

/-- The value of least priority, and the queue without it. -/
def pop : Option (QueueValue × StableQueue) :=
  q.entries.toList.head?.map fun (priority, value) =>
    (value, ⟨q.entries.erase priority, q.members.erase value⟩)

def values : List QueueValue := q.entries.toList.map (·.2)

def checkInvariants : Except NativeError Unit :=
  let values := ExtTreeSet.ofList q.values
  ensure (values.size = q.entries.size ∧ values = q.members)
    (invariant "queue priorities and membership are inconsistent")

end StableQueue

/-- A disjunction over interned ground atoms, waiting for a choice. -/
structure GroundDisjunction where
  disjunctionId : Nat
  disjunctIds : List Nat
  baseDependency : DependencySet
  creationCheckpoint : Nat
  active : Bool
  processed : Bool
  deriving DecidableEq

/-- The kinds of clash, in the alphabetical order of their names. -/
inductive ClashKind where
  | asymmetricRole | bottom | datatypeUnsatisfiable | disjointRoles | emptyHead
  | equalityInequality | impossibleCardinality | irreflexiveRole | positiveNegativeAtom
  deriving DecidableEq

structure Clash where
  kind : ClashKind
  dependency : DependencySet
  participants : List Nat
  provenanceId : Option Nat
  deriving DecidableEq

/-- `clash_rank`: the dependency rank, then kind, participants and provenance. -/
def Clash.rankCmp (a b : Clash) : Ordering :=
  (a.dependency.rankCmp b.dependency).then ((compare a.kind.ctorIdx b.kind.ctorIdx).then
    ((compare a.participants b.participants).then (compare a.provenanceId b.provenanceId)))

/-- Which of two clashes to keep: the one resting on fewer levels. -/
def selectClash (current candidate : Clash) : Clash :=
  if current.dependency.isSubsetOf candidate.dependency then current
  else if candidate.dependency.isSubsetOf current.dependency then candidate
  else if (current.rankCmp candidate).isLE then current
  else candidate

structure ExistentialReuseRecord where
  root : NodeHandle
  predicateId : Nat
  supports : List DependencySet

/-- The node arena: a slot is empty or holds a node. -/
abbrev Arena := List (Option Node)

/-- Everything a branch restores. -/
structure MutableState where
  nodes : Arena
  generations : List Nat
  freeSlots : ExtTreeSet Nat
  nextCreationId : Nat
  facts : List FactRow
  indexes : FactIndexes
  readGeneration : Nat
  writeGeneration : Nat
  disjunctions : List GroundDisjunction
  clash : Option Clash
  deltaRows : StableQueue
  annotatedEqualities : StableQueue
  existentialCandidates : StableQueue
  disjunctionQueue : StableQueue
  datatypeComponents : StableQueue
  blockingInvalidations : StableQueue
  existentialReuseNodes : ExtTreeMap Nat NodeHandle
  existentialReuseDisabled : ExtTreeSet Nat
  existentialReuseBranches : ExtTreeMap Nat ExistentialReuseRecord

def MutableState.new : MutableState where
  nodes := []
  generations := []
  freeSlots := ∅
  nextCreationId := 0
  facts := []
  indexes := .empty
  readGeneration := 0
  writeGeneration := 0
  disjunctions := []
  clash := none
  deltaRows := .empty
  annotatedEqualities := .empty
  existentialCandidates := .empty
  disjunctionQueue := .empty
  datatypeComponents := .empty
  blockingInvalidations := .empty
  existentialReuseNodes := ∅
  existentialReuseDisabled := ∅
  existentialReuseBranches := ∅

structure StateCheckpoint where
  state : MutableState
  trailLength : Nat

structure CheckpointMeta where
  sequence : Nat
  trailLength : Nat
  label : String
  deriving DecidableEq

inductive ChoiceKind where
  | groundDisjunction | merge | datatype
  deriving DecidableEq

/-- A choice point: the state to return to, and how far its alternatives are tried. -/
structure Branch where
  level : Nat
  choiceKind : ChoiceKind
  checkpoint : CheckpointMeta
  snapshot : StateCheckpoint
  alternatives : List Nat
  sourceId : Nat
  baseDependency : DependencySet
  initialBaseDependency : DependencySet
  nextAlternative : Nat
  learnedDependency : DependencySet

/-- The kernel: the current state, the branch stack, and the state an operation
started from. -/
structure TableauKernel where
  state : MutableState
  branches : List Branch
  operationRoot : StateCheckpoint
  trailLength : Nat
  checkpointSequence : Nat

def TableauKernel.new : TableauKernel where
  state := .new
  branches := []
  operationRoot := ⟨.new, 0⟩
  trailLength := 0
  checkpointSequence := 1

/-! ## Reads -/

/-- A row is active, of the predicate, and carries each bound argument. -/
def FactRow.fits (row : FactRow) (predicateId : Nat) (bindings : List (Nat × NodeHandle)) : Bool :=
  row.active && row.key.predicateId == predicateId &&
    bindings.all fun (position, handle) => row.key.arguments[position]? == some handle

/-- The part of `merge_rank` that depends on what the node is. -/
def Node.mergeKindRank (node : Node) : Nat :=
  if node.isOwlNamedIndividual then 0
  else match node.kind with
    | .ni => 1
    | .root => 2
    | .tree => 3
    | .concrete => 4

/-- `merge_rank`, compared: kind, nominal level (`1 << 31` when absent), creation. -/
def Node.mergeRankCmp (a b : Node) : Ordering :=
  (compare a.mergeKindRank b.mergeKindRank).then
    ((compare (a.nominalLevel.getD (2 ^ 31)) (b.nominalLevel.getD (2 ^ 31))).then
      (compare a.creationId b.creationId))

namespace Arena

variable (arena : Arena) (handle : NodeHandle)

/-- The node behind a handle, in whatever lifecycle but `Retired`. -/
def requireNode : Except NativeError Node :=
  match arena[handle.slot]? with
  | some (some node) =>
    if node.handle.generation ≠ handle.generation ∨ node.lifecycle = .retired then
      .error (wire "stale native node handle")
    else .ok node
  | _ => .error (wire "stale native node handle")

def requireActive : Except NativeError Node := do
  let node ← arena.requireNode handle
  ensure (node.lifecycle = .active) (wire "node is not active")
  return node

/-- The loop of `representative`. A chain visits each node of the arena at most once
before `seen` stops it, so the arena's length bounds the number of rounds. -/
def representativeLoop : Nat → Node → List NodeHandle → List DependencySet →
    Except NativeError (NodeHandle × DependencySet)
  | 0, _, _, _ => .error (invariant "cycle in node representative relation")
  | fuel + 1, node, seen, dependencies =>
    match node.representative with
    | none => .ok (node.handle, .union dependencies)
    | some representative =>
      if node.handle ∈ seen then .error (invariant "cycle in node representative relation")
      else do
        let next ← arena.requireNode representative
        representativeLoop fuel next (node.handle :: seen) (node.mergeDependency :: dependencies)

/-- The node a handle has been merged into, with the dependencies of the merges. -/
def representative : Except NativeError (NodeHandle × DependencySet) := do
  let node ← arena.requireNode handle
  arena.representativeLoop (arena.length + 1) node [] []

def canonicalHandle : Except NativeError (NodeHandle × DependencySet) := do
  let result ← arena.representative handle
  let _ ← arena.requireActive result.1
  return result

/-- The loop of `has_ancestor`, bounded like `representativeLoop`. -/
def hasAncestorLoop (ancestor : NodeHandle) : Nat → Option NodeHandle → List NodeHandle →
    Except NativeError Bool
  | _, none, _ => .ok false
  | 0, some _, _ => .error (invariant "cycle in tree parent relation")
  | fuel + 1, some value, seen =>
    if value = ancestor then .ok true
    else if value ∈ seen then .error (invariant "cycle in tree parent relation")
    else do
      let node ← arena.requireNode value
      hasAncestorLoop ancestor fuel node.parent (value :: seen)

def hasAncestor (node : Node) (ancestor : NodeHandle) : Except NativeError Bool :=
  arena.hasAncestorLoop ancestor (arena.length + 1) node.parent []

/-- The nodes of the arena, in slot order. -/
def liveNodes : List Node := arena.filterMap id

/-- The active nodes a test selects, ordered by creation. -/
def activeHandlesWhere (p : Node → Bool) : List NodeHandle :=
  let selected := arena.liveNodes.filter fun node => node.lifecycle = .active && p node
  (selected.insertionSort fun a b =>
    ((compare a.creationId b.creationId).then (compare a.handle b.handle)).isLE).map (·.handle)

def activeNodeHandles : List NodeHandle := arena.activeHandlesWhere fun _ => true

def directChildren (parent : NodeHandle) : Except NativeError (List NodeHandle) := do
  let _ ← arena.requireActive parent
  return arena.activeHandlesWhere fun node => node.parent = some parent

def nodeSort : Except NativeError NodeSort :=
  return (← arena.requireActive handle).sort

/-- `(creation_id, slot, generation)`. -/
def nodeRank : Except NativeError (Nat × Nat × Nat) := do
  let node ← arena.requireActive handle
  return (node.creationId, handle.slot, handle.generation)

/-- `merge_direction`: an ancestor absorbs its descendant; otherwise the lower rank
absorbs the other. Returns target and source. -/
def mergeDirection (left right : Node) : Except NativeError (Node × Node) := do
  let leftBelow ← arena.hasAncestor left right.handle
  if leftBelow then return (right, left) else
    let rightBelow ← arena.hasAncestor right left.handle
    if rightBelow then return (left, right)
    else return if (left.mergeRankCmp right).isLE then (left, right) else (right, left)

def mergeOrientation (left right : NodeHandle) : Except NativeError (NodeHandle × NodeHandle) := do
  let leftNode ← arena.requireActive left
  let rightNode ← arena.requireActive right
  let (target, source) ← arena.mergeDirection leftNode rightNode
  return (target.handle, source.handle)

end Arena

namespace MutableState

variable (st : MutableState)

def fact (rowId : Nat) : Except NativeError FactRow :=
  match st.facts[rowId]? with
  | some row => .ok row
  | none => .error (wire "fact row ID is unavailable")

def activeFactIds : List Nat := (st.facts.filter (·.active)).map (·.rowId)

/-- The smallest bucket among the predicate's and the bound positions' (`none` when a
bound position has no bucket at all). -/
def smallestBucket (predicateId : Nat) : List (Nat × NodeHandle) → ExtTreeSet Nat →
    Except NativeError (Option (ExtTreeSet Nat))
  | [], smallest => .ok (some smallest)
  | (position, handle) :: rest, smallest => do
    let _ ← st.nodes.requireActive handle
    match st.indexes.byPosition[(⟨predicateId, position, handle⟩ : PositionKey)]? with
    | none => .ok none
    | some rows =>
      smallestBucket predicateId rest (if rows.size < smallest.size then rows else smallest)

/-- The rows of a bucket that fit, in order. -/
def fittingRows (predicateId : Nat) (bindings : List (Nat × NodeHandle)) :
    List Nat → Except NativeError (List Nat)
  | [] => .ok []
  | rowId :: rest => do
    let row ← st.fact rowId
    let found ← fittingRows predicateId bindings rest
    return if row.fits predicateId bindings then rowId :: found else found

/-- The active rows of a predicate with the given arguments at the given positions. -/
def candidateFactIds (predicateId : Nat) (bindings : ExtTreeMap Nat NodeHandle) :
    Except NativeError (List Nat) :=
  match st.indexes.byPredicate[predicateId]? with
  | none => .ok []
  | some predicateRows => do
    match ← st.smallestBucket predicateId bindings.toList predicateRows with
    | none => .ok []
    | some smallest => st.fittingRows predicateId bindings.toList smallest.toList

def factsForNode (handle : NodeHandle) : Except NativeError (List FactRow) := do
  let _ ← st.nodes.requireActive handle
  (st.indexes.byNode.getD handle ∅).toList.mapM st.fact

/-- All rows, active or not, of one key. -/
def factHistory (predicateId : Nat) (arguments : List NodeHandle) : List FactRow :=
  st.facts.filter fun row => row.key.predicateId = predicateId && row.key.arguments = arguments

def disjunction (disjunctionId : Nat) : Except NativeError GroundDisjunction :=
  match st.disjunctions[disjunctionId]? with
  | some record => .ok record
  | none => .error (wire "ground-disjunction ID is unavailable")

end MutableState

namespace TableauKernel

variable (k : TableauKernel)

def highestBranchLevel : Option Nat := k.branches.getLast?.map (·.level)

/-- A dependency may only rest on live branches. -/
def validateDependency (dependency : DependencySet) : Except NativeError Unit :=
  match dependency.maximum, k.highestBranchLevel with
  | none, _ => .ok ()
  | some _, none => .error (wire "dependency references a future branch level")
  | some maximum, some highest =>
    ensure (maximum ≤ highest) (wire "dependency references a future branch level")

def branch (level : Nat) : Except NativeError Branch :=
  match k.branches[level]? with
  | some branch => .ok branch
  | none => .error (wire "branch level is unavailable")

/-- The live branches over a source, with their current alternatives. -/
def branchChoicesForSource (sourceId : Nat) : List (Nat × Nat) :=
  (k.branches.filter (·.sourceId = sourceId)).filterMap fun branch =>
    branch.alternatives[branch.nextAlternative]?.map fun current => (branch.level, current)

def snapshot : StateCheckpoint := ⟨k.state, k.trailLength⟩

end TableauKernel

end PyHermit
