import Mathlib.Data.List.MinMax
import PyHermit.Services.Classification

/-!
# Positions of expressions in a public hierarchy

`services/classification.py` on a hierarchy that has been built: where an expression that is
not one of its members stands. Two searches over the edges, down from the top and up from the
bottom, ask a subsumption tester about whole levels at a time; they end on the parents and
the children of the expression, and a node in both is its own class. From that position
`_position_nodes` answers the queries for super- and subclasses.

The members are values of any type, ordered by their canonical bytes (`key`). The searches
are those of the native classification, with other tests.
-/

open Std Prog

namespace PyHermit.Placement

open Classification MutableHierarchy

/-- The exceptions the queries raise, with their texts. -/
inductive PyError
  | runtimeError (message : String)
  | indexError (message : String)
  | valueError (message : String)
  /-- A loop used up its budget of rounds. -/
  | endless

/-- `Hierarchy`: the members of a node stand in the order they are iterated in. -/
structure Hierarchy (T : Type) where
  nodes : List (List T)
  edges : ExtTreeSet Edge
  topNode : Nat
  bottomNode : Nat

structure Position where
  parents : ExtTreeSet Nat
  children : ExtTreeSet Nat
  equivalent : Option Nat

variable {T κ σ : Type}

/-- `_representative`: the first of the values with the least key. -/
def representative [LinearOrder κ] (key : T → κ) (values : List T) : Except PyError T :=
  (values.argmin key).elim (.error (.valueError "min() iterable argument is empty")) .ok

/-- The check of `zip(..., strict=True)`. -/
def zipStrict {α β : Type} (xs : List α) (ys : List β) : Except PyError Unit := do
  ensure (xs.length ≤ ys.length) (PyError.valueError "zip() argument 2 is shorter than argument 1")
  ensure (ys.length ≤ xs.length) (PyError.valueError "zip() argument 2 is longer than argument 1")

namespace Hierarchy

variable (g : Hierarchy T)

/-! ## The nodes around a node -/

/-- The other ends of the edges that leave a node in one direction. -/
def neighbours : Bool → Nat → ExtTreeSet Nat :=
  MutableHierarchy.neighbours
    { topNode := g.topNode, bottomNode := g.bottomNode, members := [], edges := g.edges }

/-- `hierarchy.nodes[node]`. -/
def members (node : Nat) : Except PyError (List T) :=
  (g.nodes[node]?).elim (.error (.indexError "tuple index out of range")) .ok

def requireNode (node : Nat) : Except PyError Unit :=
  ensure (node < g.nodes.length) (PyError.indexError "hierarchy node index out of range")

/-- `direct_supernodes` and `direct_subnodes`. -/
def directNodes (upward : Bool) (node : Nat) : EStateM PyError σ (ExtTreeSet Nat) := do
  ask fun _ => g.requireNode node
  return g.neighbours upward node

/-- One node is taken from the frontier, and its neighbours not reached before are put on it. -/
def closureRound (upward : Bool) : List Nat × ExtTreeSet Nat →
    EStateM PyError σ (Round (List Nat × ExtTreeSet Nat) (ExtTreeSet Nat))
  | ([], reached) => return .done reached
  | (current :: frontier, reached) =>
    return .again ((g.neighbours upward current).toList.foldl pushUnassigned (frontier, reached))

/-- `_closure`, which is `ancestors` and `descendants`. -/
def closure (upward : Bool) (node : Nat) : EStateM PyError σ (ExtTreeSet Nat) := do
  ask fun _ => g.requireNode node
  loop .endless (g.closureRound upward) (g.nodes.length + 2) ([node], ∅)

/-- `supernodes` and `subnodes`. -/
def relatedNodes (upward direct : Bool) (node : Nat) : EStateM PyError σ (ExtTreeSet Nat) :=
  if direct then g.directNodes upward node else g.closure upward node

/-! ## Searching for a position -/

section Search

variable [LinearOrder κ] (key : T → κ) (tester : List (T × T) → EStateM PyError σ (List Bool))
  (element : T) (upward : Bool)

/-- The pair that is tested for a candidate. -/
def pair (candidate : Nat) : Except PyError (T × T) := do
  let node ← g.members candidate
  let representative ← representative key node
  return if upward then (representative, element) else (element, representative)

/-- The outcomes for a level of candidates. -/
def outcomes (candidates : List Nat) : EStateM PyError σ (List Bool) := do
  let pairs ← ask fun _ => candidates.mapM (g.pair key element upward)
  let outcomes ← tester pairs
  ask fun _ => zipStrict candidates outcomes
  return outcomes

/-- Where a search starts. -/
def start : Nat := if upward then g.bottomNode else g.topNode

def semanticBoundary : EStateM PyError σ (ExtTreeSet Nat) :=
  searchLevels .endless (fun frontier => ask fun _ => frontier.toList.forM g.requireNode)
    (g.neighbours upward) (g.outcomes key tester element upward) g.nodes.length (g.start upward)

def semanticPosition : EStateM PyError σ Position := do
  let parents ← g.semanticBoundary key tester element false
  let children ← g.semanticBoundary key tester element true
  let common := (parents ∩ children).toList
  ensure (common = [] ∨ (parents = children ∧ common.length = 1))
    (PyError.runtimeError "semantic query violated hierarchy-position invariants")
  return { parents, children, equivalent := common.head? }

end Search

/-- The answer of the queries for equivalents. -/
def equivalents (position : Position) : Except PyError (List T) :=
  position.equivalent.elim (.ok []) g.members

/-- `_position_nodes`; the queries for classes have its body inlined. -/
def positionNodes (position : Position) (upward direct : Bool) :
    EStateM PyError σ (ExtTreeSet Nat) :=
  match position.equivalent with
  | some node => g.relatedNodes upward direct node
  | none =>
    let selected := if upward then position.parents else position.children
    if direct then return selected
    else selected.toList.foldlM (fun found node => do
      let related ← g.closure upward node
      return found.insertMany related.toList) selected

end Hierarchy

end PyHermit.Placement
