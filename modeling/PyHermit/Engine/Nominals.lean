import PyHermit.Engine.Rules

/-!
# Nominal introduction

`NominalIntroductionManager` (`nominals/mod.rs`): an annotated equality `x ≈ y @ root` whose
nodes are not both named says that they are one of the few role successors of a nominal.
The manager takes these equalities off their queue; those with a choice become branches,
one for each of the new root nodes the successor may turn out to be.

A failed step rolls the kernel back and restores the manager's own state, but not the
engine's registries.
-/

open Std Prog

namespace PyHermit

open NativeError TableauKernel

structure NominalLimits where
  maxBranchChoices : Nat
  maxActionsPerRun : Nat
  choices_pos : 0 < maxBranchChoices
  actions_pos : 0 < maxActionsPerRun

/-- A new root stands for one of the successors an annotation counts. -/
structure NominalRootKey where
  root : NodeHandle
  predicateId : Nat
  roleId : Nat
  fillerPredicateId : Nat
  cardinality : Nat
  level : Nat

namespace NominalRootKey

/-- The numbers of a key, in the order of its fields. -/
def numbers (key : NominalRootKey) : List Nat :=
  [key.predicateId, key.roleId, key.fillerPredicateId, key.cardinality, key.level]

instance : Ord NominalRootKey := ⟨compareLex (compareOn (·.root)) (compareOn (·.numbers))⟩

instance : TransOrd NominalRootKey :=
  inferInstanceAs (TransCmp (compareLex (compareOn NominalRootKey.root)
    (compareOn NominalRootKey.numbers)))

end NominalRootKey

/-- A field of a predicate that has to be there. -/
def required (value : Option Nat) (label : String) : Except NativeError Nat :=
  match value with
  | some value => .ok value
  | none => .error (invariant (label ++ " is absent"))

def NominalRootKey.new (root : NodeHandle) (predicate : RulePredicate) (level : Nat) :
    Except NativeError NominalRootKey := do
  ensure (predicate.kind = .annotatedEquality)
    (wire "nominal root keys require an annotated equality predicate")
  let cardinality ← required predicate.cardinality "annotation cardinality"
  ensure (level ≠ 0 ∧ level ≤ cardinality)
    (wire "nominal root level must lie within the annotation cardinality")
  let roleId ← required predicate.roleId "annotation role"
  let fillerPredicateId ← required predicate.fillerPredicateId "annotation filler"
  return {
    root, predicateId := predicate.predicateId, roleId, fillerPredicateId, cardinality, level }

inductive NominalEvent where
  | ignoredPruned | forgotAnnotation | branchCreated | branchAdvanced | branchExhausted
  | rootCreated | rootReused | targetMerged | otherMerged

structure NominalTraceEvent where
  sequence : Nat
  event : NominalEvent
  actionId : Nat
  predicateId : Nat
  dependency : DependencySet
  handles : List NodeHandle
  choice : Option Nat

/-- What a branch of the manager is about. -/
structure BranchContext where
  actionId : Nat
  predicateId : Nat
  root : NodeHandle
  target : NodeHandle
  other : NodeHandle
  cardinality : Nat
  provenanceIds : List Nat
  traceCheckpoint : Nat

/-- The engine with its kernel, and what the manager keeps. -/
structure NominalState where
  rules : RuleState
  roots : ExtTreeMap NominalRootKey NodeHandle
  branchContexts : ExtTreeMap Nat BranchContext
  trace : List NominalTraceEvent

abbrev NominalState.kernel (s : NominalState) : TableauKernel := s.rules.kernel

def NominalState.new (rules : RuleState) : NominalState := ⟨rules, ∅, ∅, []⟩

abbrev NominalM := EStateM NativeError NominalState

def rulesLens : Lens NominalState RuleState where
  get := (·.rules)
  put s rules := { s with rules }

/-! ## Reading the nodes of an annotation -/

/-- The representatives of the handles with their paths; `none` if a node is gone. -/
def Arena.canonicalAll (arena : Arena) :
    List NodeHandle → Except NativeError (Option (List (NodeHandle × DependencySet)))
  | [] => .ok (some [])
  | handle :: rest =>
    match arena.requireNode handle with
    | .error _ => .ok none
    | .ok node =>
      if node.lifecycle = .pruned ∨ node.lifecycle = .retired then .ok none
      else do
        let resolved ← arena.canonicalHandle handle
        let others ← arena.canonicalAll rest
        return others.map (resolved :: ·)

/-- Of three nodes, the first two by rank. -/
def Arena.sortPair (arena : Arena) : List NodeHandle → Except NativeError (List NodeHandle)
  | [first, second, root] => do
    let secondRank ← arena.nodeRank second
    let firstRank ← arena.nodeRank first
    if rankLE firstRank secondRank then return [first, second, root]
    else return [second, first, root]
  | handles => .ok handles

/-- `canonical_nodes`: representatives, and what the dependency comes to with their paths. -/
def canonicalNodes (arena : Arena) (handles : List NodeHandle) (dependency : DependencySet)
    (sortPair : Bool) : Except NativeError (Option (List NodeHandle × DependencySet)) := do
  match ← arena.canonicalAll handles with
  | none => return none
  | some resolved =>
    let canonical ←
      if sortPair then arena.sortPair (resolved.map (·.1)) else pure (resolved.map (·.1))
    return some (canonical, .union (dependency :: resolved.map (·.2)))

/-- An annotation says no more than the equality. -/
def canForgetCanonical (arena : Arena) (first second root : NodeHandle) :
    Except NativeError Bool := do
  let firstNode ← arena.requireActive first
  let secondNode ← arena.requireActive second
  let rootNode ← arena.requireActive root
  return firstNode.parent.isNone || secondNode.parent.isNone || rootNode.parent.isSome ||
    (decide (firstNode.parent = some root) && decide (secondNode.parent = some root))

/-- The nodes of an annotation, where the source indexes the list. -/
def threeNodes : List NodeHandle → Except NativeError (NodeHandle × NodeHandle × NodeHandle)
  | [first, second, root] => .ok (first, second, root)
  | _ => .error (invariant "annotated equality argument index is out of bounds")

/-- Which of the two is identified first: the one that is not a child of the root. -/
def orientedPair (arena : Arena) (first second root : NodeHandle) :
    Except NativeError (NodeHandle × NodeHandle) := do
  let node ← arena.requireActive first
  if node.parent = some root then return (second, first) else return (first, second)

def annotationPredicate (engine : RuleEngine) (predicateId : Nat) :
    Except NativeError RulePredicate := do
  let predicate ← engine.program.predicate predicateId
  ensure (predicate.kind = .annotatedEquality ∧ predicate.cardinality.isSome ∧
      predicate.roleId.isSome ∧ predicate.fillerPredicateId.isSome)
    (invariant "pending nominal action has incomplete annotated-equality metadata")
  return predicate

/-- The least support of a pending annotation. -/
def actionSupport (pending : PendingAnnotatedEquality) : Except NativeError DependencySet :=
  match minDependency pending.supports with
  | some support => .ok support
  | none => .error (invariant "nominal action has no support")

namespace NominalIntroductionManager

/-! ## Plumbing -/

def onEngine {α : Type} (m : RuleM α) : NominalM α := zoom rulesLens m

def onKernel {α : Type} (m : KernelM α) : NominalM α := onEngine (RuleEngine.onKernel m)

def observe {α : Type} (f : Arena → Except NativeError α) : NominalM α :=
  ask fun s => f s.kernel.state.nodes

def poll (cancellation : Cancellation) : NominalM Unit := onEngine (RuleEngine.poll cancellation)

/-- Run `m`; if it fails, roll the kernel back and restore the manager. -/
def atomically {α : Type} (m : NominalM α) : NominalM α :=
  orUndo (fun before after => { after with
    rules := { after.rules with polled := { after.rules.polled with
      kernel := rollBack before.kernel after.kernel } }
    roots := before.roots
    branchContexts := before.branchContexts
    trace := before.trace }) m

def record (event : NominalEvent) (actionId predicateId : Nat) (dependency : DependencySet)
    (handles : List NodeHandle) (choice : Option Nat) : NominalM Unit :=
  modify fun s => { s with
    trace := s.trace ++ [
      { sequence := s.trace.length, event, actionId, predicateId, dependency, handles, choice }] }

def recordContext (event : NominalEvent) (context : BranchContext) (dependency : DependencySet)
    (handles : List NodeHandle) (choice : Option Nat) : NominalM Unit :=
  record event context.actionId context.predicateId dependency handles choice

def purgeUnavailableRoots : NominalM Unit :=
  modify fun s => { s with
    roots := s.roots.filter fun _ handle => (s.kernel.state.nodes.canonicalHandle handle).isOk }

/-! ## Roots -/

/-- The scan of `find_root_key`: of the keys that agree but for the root, those that stand
for the same root, and those to drop because their root or node is gone. Keys come in
order, so the first match is the least. -/
def matchingKeys (arena : Arena) (root : NodeHandle) (direct : NominalRootKey) :
    List (NominalRootKey × NodeHandle) → List NominalRootKey × List NominalRootKey
  | [] => ([], [])
  | (candidate, stored) :: rest =>
    let (found, dropped) := matchingKeys arena root direct rest
    if candidate.numbers ≠ direct.numbers then (found, dropped)
    else
      match arena.canonicalHandle candidate.root, arena.canonicalHandle stored with
      | .ok (candidateRoot, _), .ok _ =>
        if candidateRoot = root then (candidate :: found, dropped) else (found, dropped)
      | _, _ => (found, candidate :: dropped)

def findRootKey (root : NodeHandle) (predicate : RulePredicate) (level : Nat) :
    NominalM (Option (NominalRootKey × NodeHandle)) := do
  let direct ← ask fun _ => NominalRootKey.new root predicate level
  let s ← get
  let arena := s.kernel.state.nodes
  match s.roots[direct]? with
  | some stored =>
    if (arena.canonicalHandle stored).isOk then return some (direct, stored)
    else scan arena direct (s.roots.erase direct)
  | none => scan arena direct s.roots
where
  scan (arena : Arena) (direct : NominalRootKey) (roots : ExtTreeMap NominalRootKey NodeHandle) :
      NominalM (Option (NominalRootKey × NodeHandle)) := do
    let (found, dropped) := matchingKeys arena root direct roots.toList
    modify fun s => { s with roots := dropped.foldl (·.erase ·) roots }
    return found.head?.bind fun key => roots[key]?.map (key, ·)

section

variable (engine : RuleEngine)

/-- The new root a choice stands for, created if need be. -/
def getOrCreateRoot (root : NodeHandle) (predicate : RulePredicate) (level : Nat)
    (dependency : DependencySet) (context : BranchContext) :
    NominalM (NodeHandle × DependencySet) := do
  match ← findRootKey root predicate level with
  | some (_, stored) =>
    let (representative, path) ← observe (·.canonicalHandle stored)
    let support := DependencySet.union [dependency, path]
    recordContext .rootReused context support [root, representative] (some level)
    return (representative, support)
  | none =>
    let key ← ask fun _ => NominalRootKey.new root predicate level
    let created ← onKernel (createNode .ni none false none (some level)
      (some predicate.predicateId))
    let _ ← onEngine (engine.registerNode created dependency)
    modify fun s => { s with roots := s.roots.insert key created }
    recordContext .rootCreated context dependency [root, created] (some level)
    return (created, dependency)

/-- `engine.merge_nodes_semantic` with the manager's token. -/
def mergeNodes (cancellation : Cancellation) (left right : NodeHandle)
    (dependency : DependencySet) : NominalM MergeResult :=
  onEngine (engine.mergeNodesSemantic (engine.dispatchNested engine.depth) left right dependency
    (some cancellation))

/-- The second half of `apply_choice`: the other node follows, unless it is gone. -/
def mergeOther (cancellation : Cancellation) (context : BranchContext) (choice : Nat)
    (other niRoot : NodeHandle) (support : DependencySet) : NominalM Unit := do
  let s ← get
  match s.kernel.state.nodes.requireNode other with
  | .error _ => return ()
  | .ok otherNode =>
    if otherNode.lifecycle = .pruned then return ()
    else
      let (otherRep, otherPath) ← observe (·.canonicalHandle other)
      let (niRep, niPath) ← observe (·.canonicalHandle niRoot)
      let otherSupport := DependencySet.union [support, otherPath, niPath]
      let result ← mergeNodes engine cancellation otherRep niRep otherSupport
      recordContext .otherMerged context otherSupport [otherRep, niRep, result.representative]
        (some choice)

def applyChoice (cancellation : Cancellation) (context : BranchContext) (choice : Nat)
    (dependency : DependencySet) : NominalM Unit := do
  poll cancellation
  let predicate ← ask fun _ => annotationPredicate engine context.predicateId
  match ← observe (canonicalNodes · [context.target, context.other, context.root]
    dependency false) with
  | none => return ()
  | some (nodes, support) =>
    let (target, other, root) ← ask fun _ => threeNodes nodes
    let (niRoot, support) ← getOrCreateRoot engine root predicate choice support context
    let result ← mergeNodes engine cancellation target niRoot support
    recordContext .targetMerged context support [target, niRoot, result.representative]
      (some choice)
    if result.clashed then return ()
    else
      poll cancellation
      mergeOther engine cancellation context choice other niRoot support

variable (limits : NominalLimits)

/-- An annotation with a choice: open a branch over the new roots and take the first. -/
def branchOver (cancellation : Cancellation) (context : BranchContext)
    (dependency : DependencySet) : NominalM BranchTransition := do
  ensure (context.cardinality ≤ limits.maxBranchChoices)
    (resourceLimit "nominal-introduction cardinality exceeds the branch-choice limit"
      "max_branch_choices" context.cardinality limits.maxBranchChoices)
  let owned := (← get).branchContexts[context.actionId]?.isSome
  modify fun s => { s with branchContexts := s.branchContexts.insert context.actionId context }
  ensure (owned = false) (invariant "annotated equality already owns a nominal branch")
  let level ← onKernel (pushBranch .merge (List.range' 1 context.cardinality)
    context.actionId dependency)
  recordContext .branchCreated context dependency
    [context.root, context.target, context.other] (some 1)
  applyChoice engine cancellation context 1 (dependency.add level)
  return .branched

/-- What to do about an annotation over nodes that are all there. -/
def introduce (cancellation : Cancellation) (pending : PendingAnnotatedEquality)
    (predicate : RulePredicate) (first second root : NodeHandle) (dependency : DependencySet) :
    NominalM BranchTransition := do
  if ← observe (canForgetCanonical · first second root) then
    let _ ← mergeNodes engine cancellation first second dependency
    record NominalEvent.forgotAnnotation pending.actionId pending.atom.predicateId dependency
      [first, second, root] none
    return .deterministic
  else
    let (target, other) ← observe (orientedPair · first second root)
    let cardinality ← ask fun _ => required predicate.cardinality "annotation cardinality"
    let context : BranchContext :=
      { actionId := pending.actionId, predicateId := predicate.predicateId, root, target, other
        cardinality, provenanceIds := pending.provenanceIds
        traceCheckpoint := (← get).trace.length }
    if cardinality = 1 then
      applyChoice engine cancellation context 1 dependency
      return .deterministic
    else branchOver engine limits cancellation context dependency

def processNextInner (cancellation : Cancellation) : NominalM BranchTransition := do
  poll cancellation
  purgeUnavailableRoots
  match ← onEngine engine.takePendingAnnotatedEquality with
  | none => return .noWork
  | some pending =>
    poll cancellation
    let predicate ← ask fun _ => annotationPredicate engine pending.atom.predicateId
    let support ← ask fun _ => actionSupport pending
    match ← observe (canonicalNodes · pending.atom.arguments support true) with
    | none =>
      record .ignoredPruned pending.actionId pending.atom.predicateId support
        pending.atom.arguments none
      return .satisfied
    | some (nodes, dependency) =>
      let (first, second, root) ← ask fun _ => threeNodes nodes
      introduce engine limits cancellation pending predicate first second root dependency

def processNext (cancellation : Cancellation) : NominalM BranchTransition :=
  atomically (processNextInner engine limits cancellation)

/-- The loop of `process_all`: at most `fuel` more actions. -/
def processLoop (cancellation : Cancellation) : Nat → Nat → NominalM Nat
  | 0, processed =>
    throw (resourceLimit "nominal-introduction action limit exceeded" "max_actions_per_run"
      (min (processed + 1) u64Max) limits.maxActionsPerRun)
  | fuel + 1, processed => do
    if (← processNext engine limits cancellation) = .noWork then return processed
    else
      let processed ← ask fun _ => increment64 processed "nominal action counter overflow"
      processLoop cancellation fuel processed

def processAll (cancellation : Cancellation) : NominalM Nat :=
  processLoop engine limits cancellation limits.maxActionsPerRun 0

/-! ## Clashes -/

/-- After the branch moved on: take its next choice, or blame what the branch rested on. -/
def resume (cancellation : Cancellation) (clash : Clash) (withoutLevel : DependencySet)
    (branch : Branch) (context : BranchContext) : Option Nat → NominalM BranchTransition
  | some choice => do
    let dependency := if choice = context.cardinality then withoutLevel else clash.dependency
    recordContext .branchAdvanced context dependency [context.root, context.target, context.other]
      (some choice)
    applyChoice engine cancellation context choice dependency
    return .advanced
  | none => do
    modify fun s => { s with branchContexts := s.branchContexts.erase context.actionId }
    let propagated := DependencySet.union [branch.baseDependency, branch.learnedDependency,
      withoutLevel]
    let _ ← onKernel (installClash .impossibleCardinality propagated [context.actionId]
      context.provenanceIds.head?)
    recordContext .branchExhausted context propagated
      [context.root, context.target, context.other] none
    return .exhausted

def resolveClashInner (cancellation : Cancellation) : NominalM BranchTransition := do
  poll cancellation
  let s ← get
  match s.kernel.state.clash with
  | none => return .noWork
  | some clash =>
    match clash.dependency.maximum with
    | none => return .unsat
    | some level =>
      let branch ← ask fun s => s.kernel.branch level
      match s.branchContexts[branch.sourceId]? with
      | none => return .noWork
      | some context =>
        if branch.choiceKind ≠ .merge then return .noWork
        else
          let withoutLevel := clash.dependency.without level
          let alternative ← onKernel (advanceBranch level withoutLevel)
          poll cancellation
          purgeUnavailableRoots
          modify fun s => { s with trace := s.trace.take context.traceCheckpoint }
          resume engine cancellation clash withoutLevel branch context alternative

def resolveClash (cancellation : Cancellation) : NominalM BranchTransition :=
  atomically (resolveClashInner engine cancellation)

end

end NominalIntroductionManager

end PyHermit
