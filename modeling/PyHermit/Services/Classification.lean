import PyHermit.Lib.Loop
import PyHermit.Model

/-!
# Building a class or property hierarchy

`services/classification.rs`: the taxonomy of a finite set of compiled IDs from the
answers of a subsumption tester. The search mode inserts the IDs one at a time into a
growing hierarchy: two boundary searches find the parents and the children of the new ID,
and the edges between these are cut. When the told pairs are known to be complete the
hierarchy is built from them alone: strongly connected components, the quotient, and its
transitive reduction.

A pair `(child, parent)` of the source is an `Edge`, a vector of flags the set of the indexes
it is set at, a frontier used as a stack a list with its top at the head. Loops run on a
budget of rounds that covers every run. The i-th answer of the control is arbitrary, and so
is what the tester does with its own state.
-/

open Std Prog

namespace PyHermit

open NativeError

/-! ## Control -/

/-- How often the control was consulted, and the state of the tester. -/
structure Ambient (τ : Type) where
  consulted : Nat
  tester : τ

abbrev AmbientM (τ : Type) := EStateM NativeError (Ambient τ)

variable {τ σ : Type}

def Ambient.consult (answer : Nat → Except NativeError Unit) : AmbientM τ Unit := do
  let s ← get
  set { s with consulted := s.consulted + 1 }
  ask fun _ => answer s.consulted

def OperationControl.pollNow (control : OperationControl) : AmbientM τ Unit :=
  Ambient.consult control.poll

def OperationControl.observe (control : OperationControl) (bytes : Nat) : AmbientM τ Unit :=
  Ambient.consult fun i => control.observeMemory i bytes

namespace Classification

/-! ## Pairs -/

/-- A pair of a child and a parent, ordered lexicographically. -/
@[ext] structure Edge where
  child : Nat
  parent : Nat
  deriving DecidableEq

instance : Ord Edge := ⟨compareLex (compareOn (·.child)) (compareOn (·.parent))⟩

instance : TransOrd Edge :=
  inferInstanceAs (TransCmp (compareLex (compareOn Edge.child) (compareOn Edge.parent)))

instance : LawfulEqOrd Edge := ⟨fun h => (Prog.eq_of_compareLex h).elim Edge.ext⟩

/-- `values.windows(2)` finds no pair that fails to go up. -/
def ascending {α : Type} [Ord α] : List α → Bool
  | a :: b :: rest => (compare a b == .lt) && ascending (b :: rest)
  | _ => true

/-- The error of a loop that outlives its budget; no run meets it. -/
def endless : NativeError := invariant "a loop did not end within its budget"

/-! ## Limits and results -/

inductive ClassificationMode where
  | deterministic | quasiOrder
  deriving DecidableEq

structure ClassificationLimits where
  maxElements : UInt32
  maxSeedRelations : UInt64
  maxSemanticTests : UInt64
  maxMemoryBytes : UInt64

def ClassificationLimits.default : ClassificationLimits :=
  ⟨5000000, 20000000, 100000000, 2 * 1024 * 1024 * 1024⟩

def ClassificationLimits.validate (limits : ClassificationLimits) : Except NativeError Unit := do
  ensure (2 ≤ limits.maxElements.toNat)
    (wire "classification max_elements must retain top and bottom")
  ensure (limits.maxSeedRelations ≠ 0 ∧ limits.maxSemanticTests ≠ 0 ∧ limits.maxMemoryBytes ≠ 0)
    (wire "classification resource limits must be strictly positive")

def checkCount (limit : String) (observed allowed : Nat) : Except NativeError Unit :=
  ensure (observed ≤ allowed)
    (resourceLimit ("native classification resource limit exceeded: " ++ limit) limit
      observed allowed)

/-- `saturating_add` and `saturating_mul` on `u64` stop at its maximum. -/
def saturate (value : Nat) : Nat := min value u64Max

/-- A `u32` with an empty set, and four pairs, in bytes. -/
def estimateInitialMemory (elements relations : Nat) : Nat :=
  saturate (saturate (elements * (4 + 24)) + saturate (relations * (8 * 4)))

def estimateOracleMemory (known cache possible : Nat) : Nat :=
  saturate (saturate (saturate (known * (8 * 2)) + saturate (cache * (12 * 2)))
    + saturate (possible * (8 * 2)))

/-- The canonical hierarchy; edges point from child to parent. -/
structure HierarchyIds where
  nodes : List (List Nat)
  edges : List Edge
  topNode : Nat
  bottomNode : Nat

structure ClassificationStatistics where
  elements : Nat
  semanticTests : Nat
  batches : Nat
  cacheHits : Nat
  knownSubsumptions : Nat
  possibleSubsumptions : Nat

structure ClassificationResult where
  hierarchy : HierarchyIds
  statistics : ClassificationStatistics

structure ClassificationProblem where
  elements : List Nat
  top : Nat
  bottom : Nat
  known : List Edge
  knownComplete : Bool
  mode : ClassificationMode
  limits : ClassificationLimits

/-! ## Graph passes -/

def linkEdge {β : Type} (add : β → Nat → β) (invalid overflow : String) (count : Nat)
    (state : List β × List Nat) (edge : Edge) : Except NativeError (List β × List Nat) := do
  ensure (edge.child < count ∧ edge.parent < count ∧ edge.child ≠ edge.parent) (invariant invalid)
  let degree ← increment32 (state.2.getD edge.parent 0) overflow
  return (state.1.modify edge.child (add · edge.parent), state.2.set edge.parent degree)

/-- The adjacency of the edges and the number of edges into each node. -/
def linkEdges {β : Type} (empty : β) (add : β → Nat → β) (invalid overflow : String) (count : Nat)
    (edges : List Edge) : Except NativeError (List β × List Nat) :=
  edges.foldlM (linkEdge add invalid overflow count)
    (List.replicate count empty, List.replicate count 0)

/-- One edge into `successor` is done with; the last one releases it. -/
def release (underflow : String) (state : List Nat × List Nat) (successor : Nat) :
    Except NativeError (List Nat × List Nat) :=
  match state.2.getD successor 0 with
  | 0 => .error (invariant underflow)
  | degree + 1 =>
    .ok (if degree = 0 then state.1 ++ [successor] else state.1, state.2.set successor degree)

/-- The nodes that come off the frontier when each node waits for all edges into it. -/
def drain (tick : EStateM NativeError σ Unit) (underflow : String) (successors : Nat → List Nat)
    (incoming : List Nat) : EStateM NativeError σ Nat :=
  loop endless (fun (frontier, incoming, processed) =>
      match frontier with
      | [] => return .done processed
      | node :: rest => do
        tick
        let (frontier, incoming) ← ask fun _ =>
          (successors node).foldlM (release underflow) (rest, incoming)
        return .again (frontier, incoming, processed + 1))
    (incoming.length + 1)
    ((List.range incoming.length).filter (incoming.getD · 0 = 0), incoming, 0)

/-- Depth-first search: is `target` found from the stack `frontier`, past the nodes `seen`?
`expand` is what a node not seen before puts on the stack. -/
def search (tick : EStateM NativeError σ Unit)
    (expand : Nat → ExtTreeSet Nat → EStateM NativeError σ (List Nat)) (target budget : Nat)
    (frontier : List Nat) (seen : ExtTreeSet Nat) : EStateM NativeError σ Bool :=
  loop endless (fun (frontier, seen) =>
      match frontier with
      | [] => return .done false
      | current :: rest => do
        tick
        if current = target then return .done true
        else if current ∈ seen then return .again (rest, seen)
        else
          let next ← expand current (seen.insert current)
          return .again (next ++ rest, seen.insert current))
    budget (frontier, seen)

/-! ## The canonical form -/

namespace HierarchyIds

/-- Another direct parent of the child reaches `target`: the edge to it is redundant. -/
def redundant (successors : List (List Nat)) (direct : List Nat) (target : Nat) :
    EStateM NativeError σ Bool :=
  let others := direct.filter (· ≠ target)
  search (pure ()) (fun current _ => return (successors.getD current []).reverse) target
    (others.length + (successors.map List.length).sum + 1) others.reverse ∅

/-- `HierarchyIds::validate`. -/
def validate (hierarchy : HierarchyIds) : EStateM NativeError σ Unit := do
  ensure (hierarchy.nodes ≠ [] ∧ ∀ node ∈ hierarchy.nodes, node ≠ [])
    (invariant "classification hierarchy contains an empty node or no nodes")
  ensure (ascending hierarchy.nodes) (invariant "classification hierarchy nodes are not canonical")
  let _ ← hierarchy.nodes.foldlM (fun (members : ExtTreeSet Nat) node => do
      ensure (ascending node) (invariant "classification hierarchy node members are not canonical")
      ensure (∀ member ∈ node, member ∉ members)
        (invariant "classification hierarchy nodes do not partition their members")
      return members.insertMany node) ∅
  let count ← ask fun _ => toU32 hierarchy.nodes.length
    "classification hierarchy node count exceeds u32"
  ensure (hierarchy.topNode < count ∧ hierarchy.bottomNode < count)
    (invariant "classification top or bottom references an absent node")
  ensure (ascending hierarchy.edges) (invariant "classification hierarchy edges are not canonical")
  let (successors, incoming) ← ask fun _ => linkEdges [] (fun parents parent => parents ++ [parent])
    "classification hierarchy contains an invalid edge" "hierarchy in-degree overflow" count
    hierarchy.edges
  let processed ← drain (pure ()) "hierarchy in-degree accounting underflow" (successors.getD · [])
    incoming
  ensure (processed = count) (invariant "classification hierarchy contains a cycle")
  successors.forM fun direct =>
    if direct.length < 2 then pure ()
    else direct.forM fun target => do
      let found ← redundant successors direct target
      ensure (found = false)
        (invariant "classification hierarchy edges are not transitively reduced")

end HierarchyIds

/-- The nodes in the order of their members, with their old numbers. -/
def orderNodes (members : List (ExtTreeSet Nat)) : List (List Nat × Nat) :=
  (members.zipIdx.map fun (node, old) => (node.toList, old)).insertionSort
    fun left right => (compare left.1 right.1).isLE

/-- The new number of each node. -/
def renumberNodes (ordered : List (List Nat × Nat)) : Except NativeError (List Nat) :=
  ordered.zipIdx.foldlM (fun remap ((_, old), new) => do
      let new ← toU32 new "classification hierarchy node count exceeds u32"
      return remap.set old new)
    (List.replicate ordered.length 0)

/-- The canonical form of nodes and edges (`freeze`, `freeze_partition`). -/
def freeze (members : List (ExtTreeSet Nat)) (edges : ExtTreeSet Edge) (topNode bottomNode : Nat) :
    Except NativeError HierarchyIds := do
  let ordered := orderNodes members
  let remap ← renumberNodes ordered
  let renumbered := edges.toList.map fun edge =>
    ({ child := remap.getD edge.child 0, parent := remap.getD edge.parent 0 } : Edge)
  return { nodes := ordered.map (·.1)
           edges := renumbered.insertionSort fun left right => (compare left right).isLE
           topNode := remap.getD topNode 0
           bottomNode := remap.getD bottomNode 0 }

/-! ## Complete told relations -/

/-- A program that counts graph steps. -/
abbrev GraphM (τ : Type) := EStateM NativeError (Nat × Ambient τ)

variable (control : OperationControl)

/-- `poll_graph_step`: every 1024th step polls. -/
def pollGraphStep : GraphM τ Unit := do
  let steps ← ask fun s => increment64 s.1 "classification graph-step counter overflow"
  modify fun s => (steps, s.2)
  if steps % 1024 = 0 then outside control.pollNow else pure ()

/-- The two nodes of a told pair. -/
def indexEdge (indexById : ExtTreeMap Nat Nat) (edge : Edge) : Except NativeError Edge := do
  let some child := indexById[edge.child]? | .error (invariant "classification child disappeared")
  let some parent := indexById[edge.parent]?
    | .error (invariant "classification parent disappeared")
  return { child, parent }

/-- The successors of each element: what is told of it, itself and the top; for the bottom
everything. -/
def successorSets (count topIndex bottomIndex : Nat) (told : List Edge) : List (ExtTreeSet Nat) :=
  let sets := told.foldl (fun sets edge => sets.modify edge.child (·.insert edge.parent))
    (List.replicate count (∅ : ExtTreeSet Nat))
  (List.range count).foldl (fun sets index =>
      ((sets.modify index (·.insert index)).modify bottomIndex (·.insert index)).modify index
        (·.insert topIndex))
    sets

/-- The first pass: depth-first from each node in turn, noting nodes as they finish. -/
def finishFrom (successors : List (List Nat))
    (state : ExtTreeSet Nat × List Nat) (start : Nat) : GraphM τ (ExtTreeSet Nat × List Nat) :=
  if start ∈ state.1 then return state
  else
    loop endless (fun (stack, visited, finished) =>
        match stack with
        | [] => return .done (visited, finished)
        | (node, offset) :: rest => do
          pollGraphStep control
          match (successors.getD node [])[offset]? with
          | some successor =>
            let stack := (node, offset + 1) :: rest
            if successor ∈ visited then return .again (stack, visited, finished)
            else return .again ((successor, 0) :: stack, visited.insert successor, finished)
          | none => return .again (rest, visited, finished ++ [node]))
      (successors.length + (successors.map List.length).sum + 1)
      ([(start, 0)], state.1.insert start, state.2)

/-- The sets of predecessors, as lists in the order of the children. -/
def predecessorLists (successors : List (List Nat)) : List (List Nat) :=
  successors.zipIdx.foldl (fun lists (parents, child) =>
      parents.foldl (fun lists parent => lists.modify parent (· ++ [child])) lists)
    (List.replicate successors.length [])

/-- The components found so far: the flags of the assigned nodes, the sets of members, and
the component of each node. -/
structure Components where
  assigned : ExtTreeSet Nat := ∅
  components : List (ExtTreeSet Nat) := []
  componentByIndex : ExtTreeMap Nat Nat := ∅

/-- A node met for the first time is assigned and put on the stack. -/
def pushUnassigned (state : List Nat × ExtTreeSet Nat) (node : Nat) : List Nat × ExtTreeSet Nat :=
  if node ∈ state.2 then state else (node :: state.1, state.2.insert node)

/-- The second pass: everything unassigned that leads to `start` is one component. -/
def collectFrom (elements : List Nat) (predecessors : List (List Nat))
    (state : Components) (start : Nat) : GraphM τ Components :=
  if start ∈ state.assigned then return state
  else do
    let (assigned, component, componentByIndex) ←
      loop endless (fun (stack, assigned, component, componentByIndex) =>
          match stack with
          | [] => return .done (assigned, component, componentByIndex)
          | node :: rest => do
            pollGraphStep control
            let (stack, assigned) := (predecessors.getD node []).reverse.foldl pushUnassigned
              (rest, assigned)
            return .again (stack, assigned, component.insert (elements.getD node 0),
              componentByIndex.insert node state.components.length))
        (predecessors.length + 1)
        ([start], state.assigned.insert start, (∅ : ExtTreeSet Nat), state.componentByIndex)
    return { assigned, components := state.components ++ [component], componentByIndex }

/-- A told pair between two components, unless the bottom or the top settles it. -/
def innerEdge (componentByIndex : ExtTreeMap Nat Nat) (bottom top : Nat)
    (quotient : ExtTreeSet Edge) (edge : Edge) : ExtTreeSet Edge :=
  let child := componentByIndex.getD edge.child 0
  let parent := componentByIndex.getD edge.parent 0
  if child ≠ parent ∧ child ≠ bottom ∧ parent ≠ top then quotient.insert { child, parent }
  else quotient

/-- The bottom under a component with nothing below it, the top over one with nothing above. -/
def outerEdge (hasIncoming hasOutgoing : ExtTreeSet Nat) (bottom top : Nat)
    (quotient : ExtTreeSet Edge) (component : Nat) : ExtTreeSet Edge :=
  if component = bottom ∨ component = top then quotient
  else
    let quotient :=
      if component ∈ hasIncoming then quotient
      else quotient.insert { child := bottom, parent := component }
    if component ∈ hasOutgoing then quotient
    else quotient.insert { child := component, parent := top }

/-- The edges between components, with the bottom and the top put around the middle. -/
def quotientEdges (componentByIndex : ExtTreeMap Nat Nat) (count bottom top : Nat)
    (told : List Edge) : ExtTreeSet Edge :=
  let inner : ExtTreeSet Edge := told.foldl (innerEdge componentByIndex bottom top) ∅
  let hasIncoming : ExtTreeSet Nat := ExtTreeSet.ofList (inner.toList.map (·.parent))
  let hasOutgoing : ExtTreeSet Nat := ExtTreeSet.ofList (inner.toList.map (·.child))
  let outer := (List.range count).foldl (outerEdge hasIncoming hasOutgoing bottom top) inner
  if bottom ≠ top ∧ outer.isEmpty then outer.insert { child := bottom, parent := top } else outer

def reachableIndices (successors : List (ExtTreeSet Nat)) (start target : Nat) : GraphM τ Bool :=
  let next (node : Nat) := (successors.getD node ∅).toList
  search (pollGraphStep control)
    (fun current seen => return (next current).filter (· ∉ seen)) target
    ((next start).length + (successors.map (·.size)).sum + 1) (next start).reverse (.ofList [start])

/-- An edge stays only if its parent cannot be reached from its child without it. -/
def reduceEdge (successors : List (ExtTreeSet Nat)) (edge : Edge) :
    GraphM τ (List (ExtTreeSet Nat)) := do
  let without := successors.modify edge.child (·.erase edge.parent)
  if ← reachableIndices control without edge.child edge.parent then return without
  else return without.modify edge.child (·.insert edge.parent)

def reduceQuotient (nodeCount : Nat) (edges : ExtTreeSet Edge) : GraphM τ (ExtTreeSet Edge) := do
  let (successors, incoming) ← ask fun _ => linkEdges (∅ : ExtTreeSet Nat) (·.insert ·)
    "classification quotient contains an invalid edge" "classification quotient in-degree overflow"
    nodeCount edges.toList
  let processed ← drain (pollGraphStep control) "classification in-degree underflow"
    (fun node => (successors.getD node ∅).toList) incoming
  ensure (processed = nodeCount) (invariant "classification quotient relation contains a cycle")
  let successors ← edges.toList.foldlM (reduceEdge control) successors
  return ExtTreeSet.ofList (successors.zipIdx.flatMap fun (parents, child) =>
    parents.toList.map fun parent => ({ child, parent } : Edge))

def buildCompleteHierarchy (elements : List Nat) (top bottom : Nat)
    (semanticEdges : List Edge) (limits : ClassificationLimits) : GraphM τ HierarchyIds := do
  let count := elements.length
  let indexById : ExtTreeMap Nat Nat := ExtTreeMap.ofList elements.zipIdx
  let some topIndex := indexById[top]? | throw (invariant "classification top disappeared")
  let some bottomIndex := indexById[bottom]? | throw (invariant "classification bottom disappeared")
  let told ← ask fun _ => semanticEdges.mapM (indexEdge indexById)
  let sets := successorSets count topIndex bottomIndex told
  let estimated := estimateInitialMemory count (sets.map (·.size)).sum
  ask fun _ => checkCount "max_memory_bytes" estimated limits.maxMemoryBytes.toNat
  outside (control.observe estimated)
  let successors := sets.map (·.toList)
  let (_, finished) ← (List.range count).foldlM (finishFrom control successors) (∅, [])
  let found ← finished.reverse.foldlM
    (collectFrom control elements (predecessorLists successors)) {}
  ensure (∀ index ∈ List.range count, index ∈ found.componentByIndex)
    (invariant "classification SCC traversal omitted an element")
  let bottomComponent := found.componentByIndex.getD bottomIndex 0
  let topComponent := found.componentByIndex.getD topIndex 0
  let quotient := quotientEdges found.componentByIndex found.components.length bottomComponent
    topComponent told
  let reduced ← reduceQuotient control found.components.length quotient
  let hierarchy ← ask fun _ => freeze found.components reduced topComponent bottomComponent
  hierarchy.validate
  return hierarchy

/-! ## The oracle -/

/-- The tester: one answer per pair, from whatever state it is in. -/
abbrev Tester (τ : Type) := List Edge → AmbientM τ (List Bool)

structure Oracle where
  elements : List Nat
  known : ExtTreeSet Edge
  successors : ExtTreeMap Nat (ExtTreeSet Nat)
  cache : ExtTreeMap Edge Bool
  possible : ExtTreeSet Edge := ∅
  mode : ClassificationMode
  limits : ClassificationLimits
  semanticTests : Nat := 0
  batches : Nat := 0
  cacheHits : Nat := 0

abbrev OracleM (τ : Type) := EStateM NativeError (Oracle × Ambient τ)

namespace Oracle

/-- One told pair among the successors. -/
def addSuccessor (successors : ExtTreeMap Nat (ExtTreeSet Nat)) (edge : Edge) :
    Except NativeError (ExtTreeMap Nat (ExtTreeSet Nat)) :=
  match successors[edge.child]? with
  | none => .error (invariant "known child is absent")
  | some parents => .ok (successors.insert edge.child (parents.insert edge.parent))

def new (elements : List Nat) (known : ExtTreeSet Edge) (mode : ClassificationMode)
    (limits : ClassificationLimits) : Except NativeError Oracle := do
  let successors : ExtTreeMap Nat (ExtTreeSet Nat) :=
    ExtTreeMap.ofList (elements.map fun value => (value, ∅))
  let successors ← known.toList.foldlM addSuccessor successors
  return { elements, known, successors, mode, limits
           cache := ExtTreeMap.ofList (known.toList.map fun relation => (relation, true)) }

def childCounts (oracle : Oracle) : ExtTreeMap Nat Nat :=
  oracle.known.toList.foldl (fun (counts : ExtTreeMap Nat Nat) edge =>
      match counts[edge.child]? with
      | none => counts
      | some count => counts.insert edge.child (count + 1))
    (ExtTreeMap.ofList (oracle.elements.map fun element => (element, 0)))

variable (control : OperationControl)

/-- `is_known`: the parent is reached from the child over known pairs. -/
def isKnown (edge : Edge) : OracleM τ Bool := do
  let (oracle, _) ← get
  search (pure ())
    (fun current visited => do
      if visited.size % 1024 = 0 then outside control.pollNow else pure ()
      match oracle.successors[current]? with
      | none => throw (invariant "classification closure reached an absent element")
      | some successors => return successors.toList.filter (· ∉ visited))
    edge.parent ((oracle.successors.toList.map (·.2.size)).sum + 2) [edge.child] ∅

def addKnown (relation : Edge) : OracleM τ Unit := do
  let (oracle, _) ← get
  ensure (oracle.cache[relation]? ≠ some false)
    (invariant "classification tester returned contradictory subsumption results")
  match oracle.successors[relation.child]? with
  | none =>
    zoom innerLens (modify fun oracle => { oracle with known := oracle.known.insert relation })
    throw (invariant "classification child disappeared")
  | some parents =>
    zoom innerLens (modify fun oracle =>
      { oracle with
        known := oracle.known.insert relation
        successors := oracle.successors.insert relation.child (parents.insert relation.parent)
        possible := oracle.possible.erase relation
        cache := oracle.cache.insert relation true })

/-- The relations of a batch that neither the cache nor the known pairs answer. -/
def findMissing : List Edge → List Edge → OracleM τ (List Edge)
  | missing, [] => return missing
  | missing, relation :: rest => do
    let (oracle, _) ← get
    if relation ∈ oracle.cache then
      zoom innerLens (modify fun oracle => { oracle with cacheHits := oracle.cacheHits + 1 })
      findMissing missing rest
    else if ← isKnown control relation then
      zoom innerLens (modify fun oracle => { oracle with
        cache := oracle.cache.insert relation true, cacheHits := oracle.cacheHits + 1 })
      findMissing missing rest
    else if relation ∈ missing then findMissing missing rest
    else findMissing (missing ++ [relation]) rest

/-- Enter one answer of the tester. -/
def record (relation : Edge) (entailed : Bool) : OracleM τ Unit := do
  zoom innerLens (modify fun oracle =>
    { oracle with cache := oracle.cache.insert relation entailed
                  possible := oracle.possible.erase relation })
  if entailed then addKnown relation else pure ()

/-- Put the missing relations to the tester. -/
def testMissing (tester : Tester τ) (missing : List Edge) : OracleM τ Unit := do
  let (oracle, _) ← get
  let observed := oracle.semanticTests + missing.length
  ensure (observed ≤ u64Max) (invariant "semantic-test counter overflow")
  ask fun _ => checkCount "max_semantic_tests" observed oracle.limits.maxSemanticTests.toNat
  if oracle.mode = .quasiOrder then
    zoom innerLens (modify fun oracle =>
      { oracle with possible := oracle.possible.insertMany missing })
  else pure ()
  let outcomes ← outside (tester missing)
  ensure (outcomes.length = missing.length)
    (invariant "classification tester returned the wrong result count")
  zoom innerLens (modify fun oracle => { oracle with semanticTests := observed })
  let batches ← ask fun s => increment64 s.1.batches "classification batch counter overflow"
  zoom innerLens (modify fun oracle => { oracle with batches })
  (missing.zip outcomes).forM fun (relation, entailed) => record relation entailed
  let (oracle, _) ← get
  let memory := estimateOracleMemory oracle.known.size oracle.cache.size oracle.possible.size
  ask fun _ => checkCount "max_memory_bytes" memory oracle.limits.maxMemoryBytes.toNat
  outside (control.observe memory)
  outside control.pollNow

/-- `evaluate`: the answer to each relation, testing what is not known yet. -/
def evaluate (tester : Tester τ) (relations : List Edge) : OracleM τ (List Bool) := do
  outside control.pollNow
  let missing ← findMissing control [] relations
  if missing = [] then pure () else testMissing control tester missing
  ask fun s => relations.mapM fun relation =>
    match s.1.cache[relation]? with
    | none => .error (invariant "classification oracle failed to cache a result")
    | some outcome => .ok outcome

end Oracle

/-! ## Inserting one element at a time -/

structure MutableHierarchy where
  topNode : Nat
  bottomNode : Nat
  members : List (ExtTreeSet Nat)
  edges : ExtTreeSet Edge

namespace MutableHierarchy

def new (top bottom : Nat) : MutableHierarchy :=
  { topNode := 0
    bottomNode := 1
    members := [.ofList [top], .ofList [bottom]]
    edges := .ofList [(⟨1, 0⟩ : Edge)] }

variable (control : OperationControl) (tester : Tester τ) (hierarchy : MutableHierarchy)

def representative (node : Nat) : Except NativeError Nat :=
  match hierarchy.members[node]?.bind (·.min?) with
  | none => .error (invariant "classification hierarchy node is empty")
  | some member => .ok member

/-- The nodes one edge away, upward or downward. -/
def neighbours (upward : Bool) (node : Nat) : ExtTreeSet Nat :=
  ExtTreeSet.ofList (hierarchy.edges.toList.filterMap fun edge =>
    if upward = true ∧ edge.child = node then some edge.parent
    else if upward = false ∧ edge.parent = node then some edge.child
    else none)

/-- What the search of one boundary has found. -/
structure Boundary where
  frontier : ExtTreeSet Nat
  visited : ExtTreeSet Nat
  provenTrue : ExtTreeSet Nat
  boundary : ExtTreeSet Nat

/-- One level of a boundary search: all untested neighbours of the frontier are tested together. -/
def levelRound {ε ρ : Type} (enter : ExtTreeSet Nat → EStateM ε ρ Unit)
    (neighbours : Nat → ExtTreeSet Nat)
    (test : List Nat → EStateM ε ρ (List Bool)) (state : Boundary) :
    EStateM ε ρ (Round Boundary (ExtTreeSet Nat)) := do
  if state.frontier.isEmpty then return .done state.boundary
  else
    enter state.frontier
    let candidatesByNode := state.frontier.toList.map fun node => (node, neighbours node)
    let candidates : ExtTreeSet Nat := ExtTreeSet.ofList
      ((candidatesByNode.flatMap (·.2.toList)).filter (· ∉ state.visited))
    let candidates := candidates.toList
    let outcomes ← test candidates
    let trueCandidates := ((candidates.zip outcomes).filter (·.2)).map (·.1)
    let provenTrue := state.provenTrue.insertMany trueCandidates
    let visited := state.visited.insertMany state.frontier.toList
    return .again
      { frontier := ExtTreeSet.ofList (trueCandidates.filter (· ∉ visited))
        visited
        provenTrue
        boundary := state.boundary.insertMany ((candidatesByNode.filter fun (_, nodeCandidates) =>
          nodeCandidates.toList.all (· ∉ provenTrue)).map (·.1)) }

/-- The levels down from `start`, at most one for each of `count` nodes and one more. -/
def searchLevels {ε ρ : Type} (spent : ε) (enter : ExtTreeSet Nat → EStateM ε ρ Unit)
    (neighbours : Nat → ExtTreeSet Nat) (test : List Nat → EStateM ε ρ (List Bool))
    (count start : Nat) :
    EStateM ε ρ (ExtTreeSet Nat) :=
  loop spent (levelRound enter neighbours test) (count + 1)
    { frontier := .ofList [start]
      visited := ∅
      provenTrue := .ofList [start]
      boundary := ∅ }

/-- The pair to test for a node. -/
def relationTo (upward : Bool) (element node : Nat) : Except NativeError Edge := do
  let representative ← hierarchy.representative node
  return if upward then { child := representative, parent := element }
    else { child := element, parent := representative }

/-- `boundary`: the last true nodes on the way from `start`. -/
def boundary (start : Nat) (upward : Bool) (element : Nat) : OracleM τ (ExtTreeSet Nat) :=
  searchLevels endless (fun _ => outside control.pollNow) (hierarchy.neighbours upward)
    (fun candidates => do
      let relations ← ask fun _ => candidates.mapM (hierarchy.relationTo upward element)
      Oracle.evaluate control tester relations)
    hierarchy.members.length start

/-- A node of its own for `element`, between its children and its parents. -/
def addNode (element : Nat) (parents children : ExtTreeSet Nat) : MutableHierarchy :=
  let node := hierarchy.members.length
  let cut : ExtTreeSet Edge := children.toList.foldl (fun edges child =>
      parents.toList.foldl (fun edges parent => edges.erase { child, parent }) edges)
    hierarchy.edges
  { hierarchy with
    members := hierarchy.members ++ [.ofList [element]]
    edges := (cut.insertMany (children.toList.map fun child =>
      ({ child, parent := node } : Edge))).insertMany
      (parents.toList.map fun parent => ({ child := node, parent } : Edge)) }

def insert (element : Nat) : OracleM τ MutableHierarchy := do
  let parents ← hierarchy.boundary control tester hierarchy.topNode false element
  let children ← hierarchy.boundary control tester hierarchy.bottomNode true element
  match (parents ∩ children).toList with
  | [] => return hierarchy.addNode element parents children
  | common :: others =>
    ensure (parents = children ∧ others = [])
      (invariant "subsumption relation violated hierarchy-search invariants")
    ensure (common < hierarchy.members.length) (invariant "classification node disappeared")
    return { hierarchy with members := hierarchy.members.modify common (·.insert element) }

end MutableHierarchy

/-! ## Classification -/

def validateInputs (elements : List Nat) (top bottom : Nat) (known : List Edge)
    (limits : ClassificationLimits) : Except NativeError Unit := do
  ensure (2 ≤ elements.length ∧ ascending elements)
    (wire "classification elements must be sorted, unique, and contain top and bottom")
  checkCount "max_elements" elements.length limits.maxElements.toNat
  ensure (top ≠ bottom ∧ top ∈ elements ∧ bottom ∈ elements)
    (wire "classification requires distinct top and bottom IDs from the element domain")
  ensure (ascending known) (wire "known classification relations must be sorted and unique")
  ensure (∀ edge ∈ known, edge.child ∈ elements ∧ edge.parent ∈ elements)
    (wire "known classification relation references an absent element")

/-- The pairs that hold of every element. -/
def seedElement (top bottom : Nat) (seed : ExtTreeSet Edge) (element : Nat) : ExtTreeSet Edge :=
  ((seed.insert { child := bottom, parent := element }).insert
    { child := element, parent := top }).insert { child := element, parent := element }

variable (problem : ClassificationProblem)

/-- The told pairs with those of top, bottom and identity. -/
def seedRelations : ExtTreeSet Edge :=
  problem.elements.foldl (seedElement problem.top problem.bottom) (ExtTreeSet.ofList problem.known)

/-- The elements between top and bottom, those with few known parents first. -/
def insertionOrder (oracle : Oracle) : List Nat :=
  let counts := oracle.childCounts
  let key (value : Nat) := ({ child := counts.getD value 0, parent := value } : Edge)
  (problem.elements.filter fun value => value ≠ problem.top ∧ value ≠ problem.bottom).insertionSort
    fun left right => (compare (key left) (key right)).isLE

/-- The search mode, once the oracle is set up. -/
def classifyBySearch (control : OperationControl)
    (tester : Tester τ) : OracleM τ ClassificationResult := do
  let (oracle, _) ← get
  let hierarchy ← (insertionOrder problem oracle).zipIdx.foldlM
    (fun (hierarchy : MutableHierarchy) (element, offset) => do
      if offset % 1024 = 0 then outside control.pollNow else pure ()
      hierarchy.insert control tester element)
    (MutableHierarchy.new problem.top problem.bottom)
  let frozen ← ask fun _ =>
    freeze hierarchy.members hierarchy.edges hierarchy.topNode hierarchy.bottomNode
  frozen.validate
  let elements ← ask fun _ => toU32 problem.elements.length
    "classification element count exceeds u32"
  let (oracle, _) ← get
  return { hierarchy := frozen
           statistics :=
            { elements
              semanticTests := oracle.semanticTests
              batches := oracle.batches
              cacheHits := oracle.cacheHits
              knownSubsumptions := oracle.known.size
              possibleSubsumptions := oracle.possible.size } }

def classifyIds (control : OperationControl) (tester : Tester τ) :
    AmbientM τ ClassificationResult := do
  control.pollNow
  ask fun _ => problem.limits.validate
  ask fun _ => validateInputs problem.elements problem.top problem.bottom problem.known
    problem.limits
  if problem.knownComplete then
    let hierarchy ← withLocal 0 (buildCompleteHierarchy control problem.elements problem.top
      problem.bottom problem.known problem.limits)
    let elements ← ask fun _ => toU32 problem.elements.length
      "classification element count exceeds u32"
    return { hierarchy
             statistics :=
              { elements
                semanticTests := 0
                batches := 0
                cacheHits := 0
                knownSubsumptions := problem.known.length
                possibleSubsumptions := 0 } }
  else
    let seed := seedRelations problem
    ask fun _ => checkCount "max_seed_relations" seed.size problem.limits.maxSeedRelations.toNat
    let estimated := estimateInitialMemory problem.elements.length seed.size
    ask fun _ => checkCount "max_memory_bytes" estimated problem.limits.maxMemoryBytes.toNat
    control.observe estimated
    let oracle ← ask fun _ => Oracle.new problem.elements seed problem.mode problem.limits
    withLocal oracle (classifyBySearch problem control tester)

end Classification

end PyHermit
