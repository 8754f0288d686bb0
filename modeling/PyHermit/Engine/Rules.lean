import PyHermit.Engine.Branching
import PyHermit.Rules.Joins

/-!
# The rule engine

`RuleEngine` (`rules/engine.rs`): saturate the facts under the clauses of a program, one
generation after another, and turn heads with several open atoms into ground disjunctions.
A `RuleEngine` is what does not change after it is built, `RuleState` what does, with the
kernel. The registry of checkpoints is left out: no operation here makes or uses one.

Dispatching an atom can merge nodes, and a merge dispatches the rows of the surviving node
again. The source recurses without a bound; here `depth` bounds the nesting, and every
statement is for all depths.
-/

open Std Prog

namespace PyHermit

open NativeError TableauKernel

instance : Ord GroundAtom := ⟨compareLex (compareOn (·.predicateId)) (compareOn (·.arguments))⟩

instance : TransOrd GroundAtom :=
  inferInstanceAs (TransCmp (compareLex (compareOn GroundAtom.predicateId)
    (compareOn GroundAtom.arguments)))

instance : LawfulEqOrd GroundAtom := ⟨fun h => (Prog.eq_of_compareLex h).elim GroundAtom.ext⟩

def GroundAtom.new (predicateId : Nat) (arguments : List NodeHandle) :
    Except NativeError GroundAtom := do
  ensure (arguments ≠ []) (wire "ground rule atoms must have positive arity")
  return { predicateId, arguments }

/-! ## State -/

/-- Ghost: a disjunction about to be registered, the identifier it is going to have, and
the registry as it is before. No program reads it. -/
structure Registration where
  disjunctionId : Nat
  keys : ExtTreeMap (List GroundAtom) Nat

/-- The kernel and what the engine keeps beside it. -/
structure RuleState where
  polled : Polled
  atomIds : ExtTreeMap GroundAtom Nat
  atoms : List GroundAtom
  disjunctionKeys : ExtTreeMap (List GroundAtom) Nat
  initialized : Bool
  /-- Ghost: the registrations so far. -/
  registrations : List Registration

def RuleState.new (kernel : TableauKernel) : RuleState where
  polled := ⟨kernel, 0⟩
  atomIds := ∅
  atoms := []
  disjunctionKeys := ∅
  initialized := false
  registrations := []

abbrev RuleState.kernel (s : RuleState) : TableauKernel := s.polled.kernel

abbrev RuleM := EStateM NativeError RuleState

def polledLens : Lens RuleState Polled where
  get := (·.polled)
  put s polled := { s with polled }

structure RuleEngine where
  program : RuleProgram
  joinProgram : JoinProgram
  sourceNodes : ExtTreeMap Nat NodeHandle
  dataNodes : ExtTreeMap Nat NodeHandle
  learning : Bool
  merger : MergingManager
  limits : RuleLimits
  /-- How deep dispatches nest. -/
  depth : Nat

def RuleEngine.withLimits (program : RuleProgram)
    (sourceNodes dataNodes : ExtTreeMap Nat NodeHandle)
    (limits : RuleLimits) (learning : Bool) (depth : Nat) : Except NativeError RuleEngine := do
  let limits ← RuleLimits.new limits.maxJoinSteps limits.maxMatchesPerGeneration
    limits.cancellationInterval
  let joinProgram ← compileJoinProgram program
  let merger ← MergingManager.new program
  return { program, joinProgram, sourceNodes, dataNodes, learning, merger, limits, depth }

structure AppliedDelta where
  processedRows : Nat
  ruleMatches : Nat

structure PendingAnnotatedEquality where
  actionId : Nat
  atom : GroundAtom
  supports : List DependencySet
  provenanceIds : List Nat

def PendingAnnotatedEquality.new (actionId : Nat) (atom : GroundAtom)
    (supports : List DependencySet)
    (provenanceIds : List Nat) : Except NativeError PendingAnnotatedEquality := do
  ensure (supports ≠ []) (invariant "annotated equality action has no dependency support")
  return { actionId, atom
           supports := (supports.insertionSort fun d e => (compare d.levels e.levels).isLE).dedup
           provenanceIds := (ExtTreeSet.ofList provenanceIds).toList }

namespace RuleEngine

/-! ## Reading atoms -/

def isUnordered (kind : PredicateKind) : Bool :=
  kind ∈ [.equality, .inequality, .orderingGuard, .annotatedEquality]

/-- The arguments of an unordered pair, the one of lower rank first. -/
def rankOrdered (arena : Arena) : List NodeHandle → Except NativeError (List NodeHandle)
  | first :: second :: rest => do
    let firstRank ← arena.nodeRank first
    let secondRank ← arena.nodeRank second
    if rankLE firstRank secondRank then return first :: second :: rest
    else return second :: first :: rest
  | arguments => .ok arguments

/-- `fact_dependency`: the least support of a fact, if it is there. -/
def factDependency (state : MutableState) (predicateId : Nat) (arguments : List NodeHandle) :
    Except NativeError (Option DependencySet) := do
  let bindings := ExtTreeMap.ofList (arguments.zipIdx.map fun (argument, position) =>
    (position, argument))
  let rows ← (← state.candidateFactIds predicateId bindings).mapM state.fact
  return minDependency (rows.flatMap (·.supports))

/-- The least support of the opposite fact, if the predicate has an opposite. -/
def oppositeDependency (state : MutableState) (predicate : RulePredicate)
    (arguments : List NodeHandle) : Except NativeError (Option DependencySet) :=
  match predicate.oppositePredicateId with
  | some opposite => factDependency state opposite arguments
  | none => .ok none

section

variable (engine : RuleEngine)

/-- An atom over representatives, and what the merges behind them rest on. -/
def canonicalAtom (arena : Arena) (atom : GroundAtom) :
    Except NativeError (GroundAtom × DependencySet) := do
  engine.program.validateGroundAtom atom
  let predicate ← engine.program.predicate atom.predicateId
  let canonical ← (atom.arguments.zip predicate.argumentSorts).mapM fun (handle, sort) => do
    let (representative, path) ← arena.canonicalHandle handle
    ensure ((← arena.nodeSort representative) = sort.nodeSort)
      (invariant "ground atom argument has the wrong node sort")
    return (representative, path)
  let arguments ←
    if isUnordered predicate.kind then rankOrdered arena (canonical.map (·.1))
    else pure (canonical.map (·.1))
  let atom ← GroundAtom.new atom.predicateId arguments
  return (atom, .union (canonical.map (·.2)))

def termNode (bindings : Bindings) : Term → Except NativeError NodeHandle
  | .var key =>
    match bindings[key]? with
    | some handle => .ok handle
    | none => .error (invariant "head variable is absent from the join substitution")
  | .individual individualId =>
    match engine.sourceNodes[individualId]? with
    | some handle => .ok handle
    | none => .error (invariant "compiled individual has no tableau node")
  | .dataConstant _ dataIdentityId =>
    match engine.dataNodes[dataIdentityId]? with
    | some handle => .ok handle
    | none => .error (invariant "compiled data identity has no tableau node")

def groundAtom (arena : Arena) (bindings : Bindings) (atom : RuleAtom) :
    Except NativeError (GroundAtom × DependencySet) := do
  let resolved ← atom.arguments.mapM fun term => do
    arena.canonicalHandle (← engine.termNode bindings term)
  let ground ← GroundAtom.new atom.predicateId (resolved.map (·.1))
  let (grounded, canonicalDependency) ← engine.canonicalAtom arena ground
  return (grounded, .union [.union (resolved.map (·.2)), canonicalDependency])

def atomIsSatisfiedImpl (state : MutableState) (atom : GroundAtom) : Except NativeError Bool := do
  let (normalized, _) ← engine.canonicalAtom state.nodes atom
  let kind ← engine.program.predicateKind normalized.predicateId
  if kind = .equality then return decide (normalized.arguments[0]? = normalized.arguments[1]?)
  else return (← factDependency state normalized.predicateId normalized.arguments).isSome

def atomRefutationImpl (state : MutableState) (atom : GroundAtom) :
    Except NativeError (Option DependencySet) := do
  let (normalized, path) ← engine.canonicalAtom state.nodes atom
  let predicate ← engine.program.predicate normalized.predicateId
  if predicate.kind = .inequality ∧ normalized.arguments[0]? = normalized.arguments[1]? then
    return some path
  else
    return (← oppositeDependency state predicate normalized.arguments).map fun dependency =>
      .union [path, dependency]

/-- The order in which disjuncts are tried. -/
structure DisjunctRank where
  kindRank : Nat
  kind : PredicateKind
  predicateId : Nat
  ranks : List (Nat × Nat × Nat)

def rankTriple (rank : Nat × Nat × Nat) : List Nat := [rank.1, rank.2.1, rank.2.2]

instance : Ord DisjunctRank :=
  ⟨compareLex (compareOn (·.kindRank)) (compareLex (compareOn (·.kind.ctorIdx))
    (compareLex (compareOn (·.predicateId)) (compareOn (·.ranks.map rankTriple))))⟩

instance : TransOrd DisjunctRank :=
  inferInstanceAs (TransCmp (compareLex (compareOn DisjunctRank.kindRank)
    (compareLex (compareOn fun r : DisjunctRank => r.kind.ctorIdx)
      (compareLex (compareOn DisjunctRank.predicateId)
        (compareOn fun r : DisjunctRank => r.ranks.map rankTriple)))))

def kindRank : PredicateKind → Nat
  | .equality => 0
  | .annotatedEquality => 1
  | .inequality => 2
  | .concept | .negatedConcept | .nominal | .negatedNominal => 3
  | _ => 4

def disjunctRank (arena : Arena) (atom : GroundAtom) : Except NativeError DisjunctRank := do
  let kind ← engine.program.predicateKind atom.predicateId
  let ranks ← atom.arguments.mapM arena.nodeRank
  return { kindRank := kindRank kind, kind, predicateId := atom.predicateId, ranks }

def orderDisjuncts (arena : Arena) (atoms : List GroundAtom) :
    Except NativeError (List GroundAtom) := do
  let ranked ← atoms.mapM fun atom => return (← engine.disjunctRank arena atom, atom)
  return (ranked.insertionSort fun a b =>
    (compareLex (compareOn (·.1)) (compareOn (·.2)) a b).isLE).map (·.2)

def singleAtomClashKind (atom : GroundAtom) : Except NativeError ClashKind := do
  let predicate ← engine.program.predicate atom.predicateId
  if predicate.kind = .equality ∨ predicate.kind = .inequality then return .equalityInequality
  else if predicate.oppositePredicateId.isSome then return .positiveNegativeAtom
  else return .emptyHead

/-- Whether some atom of the list holds already. -/
def headSatisfied (state : MutableState) : List GroundAtom → Except NativeError Bool
  | [] => return false
  | atom :: rest => do
    if ← engine.atomIsSatisfiedImpl state atom then return true
    else headSatisfied state rest

/-- The atoms not refuted, and what the refutations of the others rest on. -/
def openAtoms (state : MutableState) :
    List GroundAtom → Except NativeError (List GroundAtom × List DependencySet)
  | [] => return ([], [])
  | atom :: rest => do
    let refutation ← engine.atomRefutationImpl state atom
    let (remaining, dependencies) ← openAtoms state rest
    match refutation with
    | some dependency => return (remaining, dependency :: dependencies)
    | none => return (atom :: remaining, dependencies)

/-- What `apply_ground_head` finds out before it acts. -/
structure OpenHead where
  remaining : List GroundAtom
  support : DependencySet
  singleOriginal : Option GroundAtom

/-- What to call the clash of a head whose atoms are all refuted. -/
def refutedHeadKind (head : OpenHead) : Except NativeError ClashKind :=
  match head.singleOriginal with
  | some atom => engine.singleAtomClashKind atom
  | none => .ok .emptyHead

/-- The first half of `apply_ground_head`: `none` if the head is satisfied. -/
def openHead (state : MutableState) (atoms : List GroundAtom) (dependency : DependencySet) :
    Except NativeError (Option OpenHead) := do
  let canonicalized ← atoms.mapM (engine.canonicalAtom state.nodes)
  let normalized ← engine.orderDisjuncts state.nodes
    (ExtTreeSet.ofList (canonicalized.map (·.1))).toList
  if ← engine.headSatisfied state normalized then return none
  else
    let (remaining, refutations) ← engine.openAtoms state normalized
    return some {
      remaining
      support := .union (dependency :: canonicalized.map (·.2) ++ refutations)
      singleOriginal := if normalized.length = 1 then normalized.head? else none }

/-- `fixed_data_values_differ`: both nodes carry fixed data values, and no common one. -/
def fixedDataValuesDiffer (arena : Arena) (left right : NodeHandle) : Except NativeError Bool := do
  let left := (← arena.canonicalHandle left).1
  let right := (← arena.canonicalHandle right).1
  let identities ← engine.dataNodes.toList.mapM fun (identity, handle) => do
    return (identity, (← arena.canonicalHandle handle).1)
  let leftIdentities := (identities.filter (·.2 = left)).map (·.1)
  let rightIdentities := (identities.filter (·.2 = right)).map (·.1)
  return !leftIdentities.isEmpty && !rightIdentities.isEmpty &&
    leftIdentities.all (· ∉ rightIdentities)

/-! ## Dispatch -/

def onKernel {α : Type} (m : KernelM α) : RuleM α := zoom (polledLens.comp kernelLens) m

def observe {α : Type} (f : MutableState → Except NativeError α) : RuleM α := onKernel (readState f)

def poll (cancellation : Cancellation) : RuleM Unit := zoom polledLens (PyHermit.poll cancellation)

def pollWith : Option Cancellation → RuleM Unit
  | some cancellation => poll cancellation
  | none => return ()

def hasClash : RuleM Bool := return (← get).kernel.state.clash.isSome

def atomForId (s : RuleState) (atomId : Nat) : Except NativeError GroundAtom :=
  match s.atoms[atomId]? with
  | some atom => .ok atom
  | none => .error (invariant "ground disjunction references an absent atom")

/-- The identifier of an atom, a new one if it has none. -/
def atomId (atom : GroundAtom) : RuleM Nat := do
  let s ← get
  match s.atomIds[atom]? with
  | some identifier => return identifier
  | none =>
    let identifier ← ask fun _ => toU32 s.atoms.length "ground-atom registry exceeds u32 IDs"
    ask fun _ => engine.program.validateGroundAtom atom
    set { s with atoms := s.atoms ++ [atom], atomIds := s.atomIds.insert atom identifier }
    return identifier

/-- Add a fact once with each of its provenances. -/
def addExtensionAtom (atom : GroundAtom) (dependency : DependencySet) (core : Bool)
    (provenanceIds : List Nat) : KernelM Bool := do
  let provenance := (ExtTreeSet.ofList provenanceIds).toList
  let outcome ← addFactDetailed atom.predicateId atom.arguments dependency core provenance.head?
  provenance.tail.forM fun provenanceId => do
    let _ ← addFact atom.predicateId atom.arguments dependency core (some provenanceId)
  return outcome.created || outcome.supportChanged

/-- An argument of a binary ground atom, where the source indexes the arguments. -/
def argumentOf (atom : GroundAtom) (position : Nat) : Except NativeError NodeHandle :=
  match atom.arguments[position]? with
  | some handle => .ok handle
  | none => .error (invariant "ground atom argument index is out of bounds")

section

-- The recursive call: dispatch an atom with dependency, core flag and provenance.
variable (dispatch : GroundAtom → DependencySet → Bool → List Nat → RuleM Bool)

def dataInequality : Option Nat :=
  ((engine.program.predicates.filter fun predicate =>
    predicate.kind = .inequality && predicate.argumentSorts = [.data, .data]).map
      (·.predicateId)).getLast?

/-- The other end and the supports of the opposite role facts from the same node. -/
def oppositeTargets (opposite : Nat) (source : NodeHandle) (state : MutableState) :
    Except NativeError (List (NodeHandle × List DependencySet × Bool)) := do
  (← state.candidateFactIds opposite (ExtTreeMap.ofList [(0, source)])).mapM fun rowId => do
    let row ← state.fact rowId
    let target ← argumentOf ⟨row.key.predicateId, row.key.arguments⟩ 1
    return (target, row.supports, row.core)

def deriveConcreteRoleInequalities (atom : GroundAtom) (opposite : Nat) (dependency : DependencySet)
    (core : Bool) (provenanceIds : List Nat) : RuleM Unit := do
  let source ← ask fun _ => argumentOf atom 0
  let target ← ask fun _ => argumentOf atom 1
  let candidates ← observe (oppositeTargets opposite source)
  candidates.forM fun (other, supports, oppositeCore) => do
    match engine.dataInequality with
    | none =>
      let differ ← observe (engine.fixedDataValuesDiffer ·.nodes target other)
      ensure (differ = true)
        (invariant "non-fixed data-role negation requires a compiled inequality predicate")
    | some predicateId =>
      supports.forM fun support => do
        let inequality ← ask fun _ => GroundAtom.new predicateId [target, other]
        let _ ← dispatch inequality (.union [dependency, support]) (core || oppositeCore)
          provenanceIds

/-- Dispatch every support of the rows in turn, until there is a clash. -/
def redispatch (cancellation : Option Cancellation) : List FactRow → RuleM Bool
  | [] => return false
  | row :: rest => do
    pollWith cancellation
    let ground ← ask fun _ => GroundAtom.new row.key.predicateId row.key.arguments
    if ← supportsLoop ground row row.supports then return true
    else redispatch cancellation rest
where
  supportsLoop (ground : GroundAtom) (row : FactRow) : List DependencySet → RuleM Bool
    | [] => return false
    | support :: rest => do
      let _ ← dispatch ground support row.core row.provenanceIds.toList
      if ← hasClash then return true
      else supportsLoop ground row rest

/-- Merge, then dispatch the rows of the survivor again. Without a control no poll can
fail. -/
def mergeNodesSemantic (left right : NodeHandle) (dependency : DependencySet)
    (cancellation : Option Cancellation) : RuleM MergeResult := do
  let result ← zoom polledLens
    (engine.merger.merge (cancellation.getD fun _ => .ok ()) left right dependency)
  if result.clashed ∨ result.merged = none then return result
  else
    let rows ← observe (·.factsForNode result.representative)
    if ← redispatch dispatch cancellation rows then return { result with clashed := true }
    else return result

def dispatchEquality (atom : GroundAtom) (dependency : DependencySet) (core : Bool)
    (provenanceIds : List Nat) : RuleM Bool := do
  let left ← ask fun _ => argumentOf atom 0
  let right ← ask fun _ => argumentOf atom 1
  if ← observe (engine.fixedDataValuesDiffer ·.nodes left right) then
    let atomId ← engine.atomId atom
    onKernel (installClash .equalityInequality dependency [atomId] provenanceIds.head?)
  else
    let predicate ← ask fun _ => engine.program.predicate atom.predicateId
    match ← observe (oppositeDependency · predicate [left, right]) with
    | some inequality =>
      let atomId ← engine.atomId atom
      onKernel (installClash .equalityInequality (.union [dependency, inequality]) [atomId]
        provenanceIds.head?)
    | none =>
      if left ≠ right then
        let result ← engine.mergeNodesSemantic dispatch left right dependency none
        if result.clashed then return true
        else
          let reflexive ← ask fun _ =>
            GroundAtom.new atom.predicateId [result.representative, result.representative]
          let _ ← onKernel (addExtensionAtom reflexive dependency core provenanceIds)
          return true
      else
        let reflexive ← ask fun _ => GroundAtom.new atom.predicateId [left, left]
        onKernel (addExtensionAtom reflexive dependency core provenanceIds)

variable (predicate : RulePredicate)

/-- The opposite fact, where there is one, makes a clash with the atom. -/
def contradict (atom : GroundAtom) (dependency : DependencySet)
    (provenanceIds : List Nat) : RuleM Bool := do
  match ← observe (oppositeDependency · predicate atom.arguments) with
  | none => return false
  | some refutation =>
    let atomId ← engine.atomId atom
    let _ ← onKernel (installClash .positiveNegativeAtom (.union [dependency, refutation]) [atomId]
      provenanceIds.head?)
    return true

/-- A node is not unequal to itself. -/
def clashOnIrreflexive (atom : GroundAtom) (dependency : DependencySet)
    (provenanceIds : List Nat) : RuleM Unit := do
  if predicate.kind = .inequality ∧ atom.arguments[0]? = atom.arguments[1]? then
    let atomId ← engine.atomId atom
    let _ ← onKernel (installClash .equalityInequality dependency [atomId] provenanceIds.head?)
  else return ()

/-- A data role fact separates its target from those of the opposite facts. -/
def separateTargets (atom : GroundAtom) (dependency : DependencySet)
    (core : Bool) (provenanceIds : List Nat) : RuleM Unit :=
  match predicate.oppositePredicateId with
  | some opposite =>
    if predicate.kind = .dataRole ∨ predicate.kind = .negatedDataRole then
      engine.deriveConcreteRoleInequalities dispatch atom opposite dependency core provenanceIds
    else return ()
  | none => return ()

/-- An at-least atom is work for the existential manager. -/
def scheduleExistential (atom : GroundAtom) : RuleM Unit := do
  if predicate.kind = .atLeastObject ∨ predicate.kind = .atLeastData then
    let root ← ask fun _ => argumentOf atom 0
    onKernel (markExistential root atom.predicateId true)
    let rank ← observe (·.nodes.nodeRank root)
    onKernel (enqueueNode .existentialCandidates root (rankPriority rank))
  else return ()

/-- The last branch of `dispatch_normalized`: a fact, and what it clashes with or calls
for. -/
def dispatchFact (atom : GroundAtom) (dependency : DependencySet)
    (core : Bool) (provenanceIds : List Nat) : RuleM Bool := do
  let changed ← onKernel (addExtensionAtom atom dependency core provenanceIds)
  engine.clashOnIrreflexive predicate atom dependency provenanceIds
  let contradicted ← engine.contradict predicate atom dependency provenanceIds
  if contradicted then
    scheduleExistential predicate atom
    return changed
  else
    engine.separateTargets dispatch predicate atom dependency core provenanceIds
    scheduleExistential predicate atom
    return changed

def dispatchNormalized (atom : GroundAtom) (dependency : DependencySet) (core : Bool)
    (provenanceIds : List Nat) : RuleM Bool := do
  let predicate ← ask fun _ => engine.program.predicate atom.predicateId
  match predicate.kind with
  | .orderingGuard => throw (invariant "ordering guards cannot be dispatched as heads")
  | .equality => engine.dispatchEquality dispatch atom dependency core provenanceIds
  | .annotatedEquality =>
    let atomId ← engine.atomId atom
    let changed ← onKernel (addExtensionAtom atom dependency core provenanceIds)
    onKernel (enqueueInteger .annotatedEqualities atomId [(atomId : Int)])
    return changed
  | _ => engine.dispatchFact dispatch predicate atom dependency core provenanceIds

end

/-- `dispatch_ground_atom` with at most `depth` dispatches inside one another. -/
def dispatchNested : Nat → GroundAtom → DependencySet → Bool → List Nat → RuleM Bool
  | 0, _, _, _, _ => throw (invariant "dispatches are nested too deep")
  | depth + 1, atom, dependency, core, provenanceIds => do
    let (normalized, path) ← observe (engine.canonicalAtom ·.nodes atom)
    engine.dispatchNormalized (dispatchNested depth) normalized (.union [dependency, path]) core
      provenanceIds

def dispatchGroundAtom (atom : GroundAtom) (dependency : DependencySet) (core : Bool)
    (provenanceIds : List Nat) : RuleM Bool :=
  engine.dispatchNested engine.depth atom dependency core provenanceIds

def dispatchAtom (atomId : Nat) (dependency : DependencySet) : RuleM Bool := do
  let atom ← ask (atomForId · atomId)
  engine.dispatchGroundAtom atom dependency false []

/-- How the brancher sees the atoms of the engine. -/
def access : GroundAtomAccess RuleState where
  polled := polledLens
  atomIsSatisfied s atomId := do
    engine.atomIsSatisfiedImpl s.kernel.state (← atomForId s atomId)
  atomRefutationDependency s atomId := do
    engine.atomRefutationImpl s.kernel.state (← atomForId s atomId)
  dispatchAtom := engine.dispatchAtom

/-! ## Heads -/

/-- Let a disjunction rest on one more dependency, and with it the branches that chose
from it. -/
def strengthenKnown (disjunctionId : Nat) (dependency : DependencySet) : RuleM Unit := do
  if ← onKernel (strengthenDisjunction disjunctionId dependency) then
    let choices := (← get).kernel.branchChoicesForSource disjunctionId
    choices.forM fun (level, atomId) => do
      let _ ← engine.dispatchAtom atomId (dependency.add level)
  else return ()

variable (atoms : List GroundAtom) (dependency : DependencySet)

/-- Enter a new disjunction into the kernel and the registry. -/
def registerDisjunction : RuleM Bool := do
  let identifiers ← atoms.mapM engine.atomId
  -- ghost
  modify fun s => { s with
    registrations := s.registrations ++ [⟨s.kernel.state.disjunctions.length, s.disjunctionKeys⟩] }
  let disjunctionId ← onKernel (addDisjunction identifiers dependency)
  modify fun s => { s with disjunctionKeys := s.disjunctionKeys.insert atoms disjunctionId }
  return true

/-- The record the registry has for the atoms, if it is there and active. -/
def knownDisjunction (s : RuleState) (atoms : List GroundAtom) : Option Nat :=
  match s.disjunctionKeys[atoms]? with
  | none => none
  | some disjunctionId =>
    match s.kernel.state.disjunction disjunctionId with
    | .ok record => if record.active then some disjunctionId else none
    | .error _ => none

/-- A disjunction the registry knows is strengthened; a dead key is dropped, and the
disjunction registered anew. -/
def installDisjunction : RuleM Bool := do
  let ordered ← observe (engine.orderDisjuncts ·.nodes atoms)
  let atoms := ordered.destutter (· ≠ ·)
  match knownDisjunction (← get) atoms with
  | some disjunctionId =>
    engine.strengthenKnown disjunctionId dependency
    return false
  | none =>
    modify fun s => { s with disjunctionKeys := s.disjunctionKeys.erase atoms }
    engine.registerDisjunction atoms dependency

def applyGroundHead (provenanceIds participantIds : List Nat) : RuleM Bool := do
  match ← observe (engine.openHead · atoms dependency) with
  | none => return false
  | some head =>
    match head.remaining with
    | [] =>
      let kind ← ask fun _ => engine.refutedHeadKind head
      onKernel (installClash kind head.support (ExtTreeSet.ofList participantIds).toList
        provenanceIds.head?)
    | [atom] =>
      engine.dispatchNormalized (engine.dispatchNested engine.depth) atom head.support false
        provenanceIds
    | remaining => engine.installDisjunction remaining head.support

def applyMatch (matched : JoinMatch) : RuleM Bool := do
  let clause ← ask fun _ => engine.program.clause matched.clauseId
  let bindings : Bindings := ExtTreeMap.ofList (matched.bindings.map fun b => (b.key, b.node))
  let heads ← observe fun state => clause.head.mapM (engine.groundAtom state.nodes bindings)
  engine.applyGroundHead (heads.map (·.1)) (.union (matched.dependency :: heads.map (·.2)))
    clause.provenanceIds matched.premiseRowIds

/-! ## Generations -/

/-- `remaining_join_limits`: the join steps left in this generation. -/
def remainingJoinLimits (limits : RuleLimits) (completedSteps : Nat) :
    Except NativeError RuleLimits := do
  ensure (completedSteps ≤ limits.maxJoinSteps)
    (invariant "completed join steps exceed the configured limit")
  ensure (limits.maxJoinSteps - completedSteps ≠ 0)
    (resourceLimit "hyperresolution join-step limit exceeded" "max_join_steps"
      (min (completedSteps + 1) u64Max) limits.maxJoinSteps)
  RuleLimits.new (limits.maxJoinSteps - completedSteps) limits.maxMatchesPerGeneration
    limits.cancellationInterval

/-- Insertion into the context of an error. -/
def setContext (key value : String) : List (String × String) → List (String × String)
  | [] => [(key, value)]
  | (k, v) :: rest =>
    if key < k then (key, value) :: (k, v) :: rest
    else if key = k then (key, value) :: rest
    else (k, v) :: setContext key value rest

/-- `adjust_join_limit`: what an evaluator ran into, in terms of the whole generation. -/
def adjustJoinLimit (completedSteps : Nat) (limits : RuleLimits) (e : NativeError) : NativeError :=
  if e.kind = .resource ∧ e.context.lookup "limit" = some "max_join_steps" then
    let observed := ((e.context.lookup "observed").bind (·.toNat?)).getD 1
    { e with
      context := setContext "allowed" (toString limits.maxJoinSteps)
        (setContext "observed" (toString (min (completedSteps + observed) u64Max)) e.context) }
  else e

/-- Run an evaluator on the kernel as it is; the answer comes with its number of steps. -/
def evaluate {α : Type} (cancellation : Cancellation) (completedSteps : Nat)
    (m : JoinView → JoinM α) : RuleM (α × Nat) := do
  let limits ← ask fun _ => remainingJoinLimits engine.limits completedSteps
  poll cancellation
  fun s =>
    match m ⟨engine.program, s.kernel.state, engine.sourceNodes, engine.dataNodes, limits⟩
        ⟨s.polled.polls, 0, 0, 0, ∅⟩ with
    | .ok a j => .ok (a, j.steps) { s with polled := { s.polled with polls := j.polls } }
    | .error e j =>
      .error (adjustJoinLimit completedSteps engine.limits e)
        { s with polled := { s.polled with polls := j.polls } }

/-- What a generation has done so far. -/
structure DeltaProgress where
  applied : List (Nat × List VariableBinding × DependencySet)
  matchCount : Nat
  joinSteps : Nat

def DeltaProgress.start : DeltaProgress := ⟨[], 0, 0⟩

/-- Count one more match against the limit of the generation. -/
def countMatch (matchCount : Nat) (overflow : String) : Except NativeError Nat := do
  let matchCount ← increment64 matchCount overflow
  ensure (matchCount ≤ engine.limits.maxMatchesPerGeneration)
    (resourceLimit "hyperresolution match limit exceeded" "max_matches_per_generation" matchCount
      engine.limits.maxMatchesPerGeneration)
  return matchCount

/-- Apply the matches of one plan and row, each once a generation, until there is a clash. -/
def applyMatches (cancellation : Cancellation) :
    List JoinMatch → DeltaProgress → RuleM DeltaProgress
  | [], progress => return progress
  | matched :: rest, progress => do
    poll cancellation
    let key := (matched.clauseId, matched.bindings, matched.dependency)
    if key ∈ progress.applied then applyMatches cancellation rest progress
    else
      let matchCount ← ask fun _ =>
        engine.countMatch progress.matchCount "native rule-match counter overflow"
      let progress := { progress with applied := key :: progress.applied, matchCount }
      let _ ← engine.applyMatch matched
      if ← hasClash then return progress
      else applyMatches cancellation rest progress

/-- The plans a row triggers, until the row is gone or there is a clash. -/
def runPlans (cancellation : Cancellation) (rowId : Nat) :
    List ClauseJoinPlan → DeltaProgress → RuleM DeltaProgress
  | [], progress => return progress
  | plan :: rest, progress => do
    let row ← observe (·.fact rowId)
    if row.active = false ∨ (← hasClash) then return progress
    else
      let (found, localSteps) ← engine.evaluate cancellation progress.joinSteps fun view =>
        view.indexedMatches cancellation plan rowId
      ensure (progress.joinSteps + localSteps ≤ u64Max)
        (invariant "native join-step counter overflow")
      let progress := { progress with joinSteps := progress.joinSteps + localSteps }
      runPlans cancellation rowId rest (← engine.applyMatches cancellation found progress)

variable (cancellation : Cancellation)

def runRow (progress : DeltaProgress) (rowId : Nat) : RuleM DeltaProgress := do
  poll cancellation
  let row ← observe (·.fact rowId)
  if row.active = false then return progress
  else
    engine.runPlans cancellation rowId
      (engine.joinProgram.forPredicate row.key.predicateId) progress

/-- The active rows of the generation being read. -/
def deltaRows : RuleM (List Nat) := do
  let state := (← get).kernel.state
  let rows ← state.activeFactIds.zipIdx.filterM fun (rowId, index) => do
    pollWith (if index % engine.limits.cancellationInterval = 0 then some cancellation else none)
    let row ← observe (·.fact rowId)
    return decide (row.derivationGeneration = state.readGeneration)
  return rows.map (·.1)

def applyNextDeltaInner : RuleM AppliedDelta := do
  poll cancellation
  onKernel prepareNextDelta
  let rows ← engine.deltaRows cancellation
  let progress ← rows.foldlM (engine.runRow cancellation) .start
  poll cancellation
  return { processedRows := rows.length, ruleMatches := progress.matchCount }

def applyNextDelta : RuleM AppliedDelta := do
  ensure ((← get).initialized = true)
    (wire "native hyperresolution engine must be initialized first")
  recoverTo (polledLens.comp kernelLens) "rule" (engine.applyNextDeltaInner cancellation)

/-! ## Setting up -/

/-- The last equality predicate of the sort. -/
def equalityOf (sort : TermSort) : Option Nat :=
  ((engine.program.predicates.filter fun predicate =>
    predicate.kind = .equality && predicate.argumentSorts.head? = some sort).map
      (·.predicateId)).getLast?

def seedReflexiveEqualities : RuleM Unit := do
  (← get).kernel.state.nodes.activeNodeHandles.forM fun handle => do
    let sort ← observe (·.nodes.nodeSort handle)
    match engine.equalityOf sort.termSort with
    | none => return ()
    | some predicateId =>
      let atom ← ask fun _ => GroundAtom.new predicateId [handle, handle]
      let _ ← onKernel (addExtensionAtom atom .empty true [])

/-- Apply the matches of an unconditional clause; the answer tells if there is a clash. -/
def applyUnconditional (cancellation : Cancellation) : List JoinMatch → Nat → RuleM (Nat × Bool)
  | [], matchCount => return (matchCount, false)
  | matched :: rest, matchCount => do
    poll cancellation
    let matchCount ← ask fun _ =>
      engine.countMatch matchCount "native unconditional-match counter overflow"
    let _ ← engine.applyMatch matched
    if ← hasClash then return (matchCount, true)
    else applyUnconditional cancellation rest matchCount

def fireClauses (cancellation : Cancellation) : List Nat → Nat → Nat → RuleM Unit
  | [], _, _ => return ()
  | clauseId :: rest, joinSteps, matchCount => do
    poll cancellation
    let (found, localSteps) ← engine.evaluate cancellation joinSteps fun view =>
      view.naiveMatches cancellation clauseId false
    ensure (joinSteps + localSteps ≤ u64Max) (invariant "native join-step counter overflow")
    let (matchCount, clashed) ← engine.applyUnconditional cancellation found matchCount
    if clashed then return ()
    else fireClauses cancellation rest (joinSteps + localSteps) matchCount

def fireUnconditional : RuleM Unit :=
  engine.fireClauses cancellation engine.joinProgram.unconditionalClauseIds 0 0

def initializeInner : RuleM Unit := do
  observe fun state => validateNodeMaps state.nodes engine.sourceNodes engine.dataNodes
  engine.seedReflexiveEqualities
  engine.fireUnconditional cancellation
  onKernel (ask (·.checkInvariants))
  onKernel beginOperation

def initializeEngine : RuleM Unit := do
  ensure ((← get).initialized = false) (wire "native hyperresolution engine is already initialized")
  poll cancellation
  onKernel beginOperation
  recoverTo (polledLens.comp kernelLens) "rule" (engine.initializeInner cancellation)
  modify fun s => { s with initialized := true }

/-- The reflexive equality of a node created later. -/
def registerNode (handle : NodeHandle) (dependency : DependencySet) : RuleM Bool := do
  let sort ← observe (·.nodes.nodeSort handle)
  match engine.equalityOf sort.termSort with
  | none => return false
  | some predicateId =>
    let atom ← ask fun _ => GroundAtom.new predicateId [handle, handle]
    engine.dispatchGroundAtom atom dependency true []

def takePendingAnnotatedEquality : RuleM (Option PendingAnnotatedEquality) := do
  match ← onKernel (takeInteger .annotatedEqualities) with
  | none => return none
  | some actionId =>
    let atom ← ask (atomForId · actionId)
    let kind ← ask fun _ => engine.program.predicateKind atom.predicateId
    ensure (kind = .annotatedEquality)
      (invariant "annotated-equality queue references a different predicate kind")
    let rows := (← get).kernel.state.factHistory atom.predicateId atom.arguments
    ask fun _ => some <$> PendingAnnotatedEquality.new actionId atom (rows.flatMap (·.supports))
      (rows.flatMap (·.provenanceIds.toList))

/-! ## Disjunctions -/

def processNextDisjunction : RuleM BranchTransition :=
  DisjunctionBrancher.processNext engine.access cancellation

def resolveClash : RuleM BranchTransition :=
  DisjunctionBrancher.resolveUntilChoiceOrUnsat engine.access cancellation engine.learning

end

end RuleEngine

end PyHermit
