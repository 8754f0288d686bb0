import PyHermit.Engine.Merging
import PyHermit.Rules.Plans

/-!
# Joins

`IndexedJoinEvaluator` and `NaiveJoinEvaluator` (`rules/joins.rs`). The first follows a
plan from one new row through the predicate and position indexes; the second tries every
substitution of active nodes for the variables of a clause, and every active row for each
of its atoms. Both collect their matches in one map, keyed by bindings and dependency. An
evaluator only reads the kernel; its own state is its counters, the number of polls, and the
matches found so far.
-/

open Std Prog

namespace PyHermit

open NativeError

/-! ## Matches -/

structure VariableBinding where
  key : VariableKey
  node : NodeHandle
  deriving DecidableEq

instance : Ord VariableBinding := ⟨compareLex (compareOn (·.key)) (compareOn (·.node))⟩

instance : TransOrd VariableBinding :=
  inferInstanceAs (TransCmp (compareLex (compareOn VariableBinding.key)
    (compareOn VariableBinding.node)))

abbrev Bindings := ExtTreeMap VariableKey NodeHandle

def freezeBindings (bindings : Bindings) : List VariableBinding :=
  bindings.toList.map fun (key, node) => { key, node }

/-- One way to satisfy the body of a clause. -/
structure JoinMatch where
  clauseId : Nat
  deltaBodyIndex : Nat
  bindings : List VariableBinding
  dependency : DependencySet
  premiseRowIds : List Nat

/-- Premises are kept sorted and without repetition. -/
def JoinMatch.new (clauseId deltaBodyIndex : Nat) (bindings : List VariableBinding)
    (dependency : DependencySet) (premiseRowIds : List Nat) : Except NativeError JoinMatch := do
  ensure (bindings.IsChain fun a b => compare a.key b.key = .lt)
    (wire "join bindings must be uniquely sorted by variable")
  return { clauseId, deltaBodyIndex, bindings, dependency
           premiseRowIds := (ExtTreeSet.ofList premiseRowIds).toList }

/-- Matches are told apart by bindings and dependency. -/
structure MatchKey where
  bindings : List VariableBinding
  reversedLevels : List Nat

instance : Ord MatchKey := ⟨compareLex (compareOn (·.bindings)) (compareOn (·.reversedLevels))⟩

instance : TransOrd MatchKey :=
  inferInstanceAs (TransCmp (compareLex (compareOn MatchKey.bindings)
    (compareOn MatchKey.reversedLevels)))

def JoinMatch.matchKey (candidate : JoinMatch) : MatchKey :=
  ⟨candidate.bindings, candidate.dependency.levels.reverse⟩

/-! ## The evaluator -/

/-- Bounds on the work of one generation, all positive. -/
structure RuleLimits where
  maxJoinSteps : Nat
  maxMatchesPerGeneration : Nat
  cancellationInterval : Nat

def RuleLimits.new (maxJoinSteps maxMatchesPerGeneration cancellationInterval : Nat) :
    Except NativeError RuleLimits := do
  ensure (maxJoinSteps ≠ 0 ∧ maxMatchesPerGeneration ≠ 0 ∧ cancellationInterval ≠ 0)
    (wire "rule limits must be strictly positive")
  return { maxJoinSteps, maxMatchesPerGeneration, cancellationInterval }

def RuleLimits.default : RuleLimits where
  maxJoinSteps := 10000000
  maxMatchesPerGeneration := 2000000
  cancellationInterval := 256

/-- What an evaluator borrows. -/
structure JoinView where
  program : RuleProgram
  state : MutableState
  sourceNodes : ExtTreeMap Nat NodeHandle
  dataNodes : ExtTreeMap Nat NodeHandle
  limits : RuleLimits

/-- What an evaluator changes. -/
structure JoinState where
  polls : Nat
  steps : Nat
  pollWork : Nat
  matchesEmitted : Nat
  found : ExtTreeMap MatchKey JoinMatch

abbrev JoinM := EStateM NativeError JoinState

/-- A read of what the evaluator borrows. -/
def consult {α : Type} (result : Except NativeError α) : JoinM α := ask fun _ => result

def validateNodeMaps (arena : Arena) (sourceNodes dataNodes : ExtTreeMap Nat NodeHandle) :
    Except NativeError Unit := do
  sourceNodes.toList.forM fun (_, handle) => do
    let (canonical, _) ← arena.canonicalHandle handle
    ensure ((← arena.nodeSort canonical) = TermSort.object.nodeSort)
      (wire "source individual map contains a non-object node")
  dataNodes.toList.forM fun (_, handle) => do
    let (canonical, _) ← arena.canonicalHandle handle
    ensure ((← arena.nodeSort canonical) = TermSort.data.nodeSort)
      (wire "data identity map contains a non-data node")

def RuleClause.bodyVariables (clause : RuleClause) : List VariableKey :=
  (ExtTreeSet.ofList (clause.body.flatMap (·.variableKeys))).toList

namespace JoinView

variable (view : JoinView)

abbrev arena : Arena := view.state.nodes

/-! ### Terms and handles -/

/-- The node of a constant, as `resolved_constant` looks it up, and how errors name it. -/
def constantNode : Term → Except NativeError (Option NodeHandle × String)
  | .individual individualId =>
    .ok (view.sourceNodes[individualId]?, "individual ID " ++ toString individualId)
  | .dataConstant _ dataIdentityId =>
    .ok (view.dataNodes[dataIdentityId]?, "data identity ID " ++ toString dataIdentityId)
  | .var _ => .error (invariant "unbound variables cannot resolve as constants")

def resolvedConstant (term : Term) : Except NativeError (NodeHandle × DependencySet) := do
  match ← view.constantNode term with
  | (none, name) => throw (invariant ("compiled " ++ name ++ " has no tableau node"))
  | (some handle, name) =>
    let (representative, dependency) ← view.arena.canonicalHandle handle
    ensure ((← view.arena.nodeSort representative) = term.sort.nodeSort)
      (invariant ("compiled " ++ name ++ " maps to the wrong node sort"))
    return (representative, dependency)

/-- The node a term stands for, unless it is an unbound variable. -/
def resolvedTerm (bindings : Bindings) (term : Term) :
    Except NativeError (Option (NodeHandle × DependencySet)) :=
  match term.variableKey with
  | some key =>
    match bindings[key]? with
    | none => .ok none
    | some handle => some <$> view.arena.canonicalHandle handle
  | none => some <$> view.resolvedConstant term

/-- The loop of `unify_handles`; `dependencies` are those collected so far. -/
def unifyArguments : List (Term × NodeHandle) → Bindings → List DependencySet →
    Except NativeError (Option (Bindings × DependencySet))
  | [], bindings, dependencies => return some (bindings, .union dependencies)
  | (term, rawHandle) :: rest, bindings, dependencies => do
    let (representative, path) ← view.arena.canonicalHandle rawHandle
    if (← view.arena.nodeSort representative) ≠ term.sort.nodeSort then
      return none
    else match term.variableKey with
      | some key =>
        if bindings[key]? ≠ none ∧ bindings[key]? ≠ some representative then return none
        else unifyArguments rest (bindings.insert key representative) (path :: dependencies)
      | none =>
        let (expected, constantDependency) ← view.resolvedConstant term
        if expected ≠ representative then return none
        else unifyArguments rest bindings (constantDependency :: path :: dependencies)

variable (atom : RuleAtom)

/-- The bindings under which an atom is the given row, if any. -/
def unifyHandles (handles : List NodeHandle) (bindings : Bindings) :
    Except NativeError (Option (Bindings × DependencySet)) :=
  if atom.arguments.length ≠ handles.length then .ok none
  else view.unifyArguments (atom.arguments.zip handles) bindings []

def bindUnresolved (term : Term) (handle : NodeHandle) (bindings : Bindings) :
    Except NativeError (Option Bindings) :=
  match term.variableKey with
  | none => .ok none
  | some key => do
    if (← view.arena.nodeSort handle) ≠ key.sort.nodeSort then return none
    else return some (bindings.insert key handle)

/-- The bound positions of an atom, for the index lookup. -/
def lookupBindings (bindings : Bindings) :
    Except NativeError (ExtTreeMap Nat NodeHandle × DependencySet) := do
  let resolved ← atom.arguments.mapM (view.resolvedTerm bindings)
  let known := resolved.zipIdx.filterMap fun (value, position) =>
    value.map fun (handle, dependency) => (position, handle, dependency)
  return (known.foldl (fun lookup (position, handle, _) => lookup.insert position handle) ∅,
    .union (known.map fun (_, _, dependency) => dependency))

/-- An argument of a binary atom, where the source indexes the arguments. -/
def argument (atom : RuleAtom) (position : Nat) : Except NativeError Term :=
  match atom.arguments[position]? with
  | some term => .ok term
  | none => .error (invariant "atom argument index is out of bounds")

def guardTerm (position : Nat) (bindings : Bindings) :
    Except NativeError (NodeHandle × DependencySet) := do
  match ← view.resolvedTerm bindings (← argument atom position) with
  | some resolved => return resolved
  | none => throw (invariant "ordering guard was scheduled before its variables bound")

/-- The guard holds when its arguments are in strict rank order. -/
def orderingGuard (bindings : Bindings) :
    Except NativeError (Option (Bindings × DependencySet)) := do
  let left ← view.guardTerm atom 0 bindings
  let right ← view.guardTerm atom 1 bindings
  if rankLE (← view.arena.nodeRank right.1) (← view.arena.nodeRank left.1) then return none
  else return some (bindings, .union [left.2, right.2])

/-- Which generations an atom of the plan sees: older ones only before the delta atom. -/
def inPlanView (derivationGeneration : Nat) (plan : ClauseJoinPlan) (bodyIndex : Nat) : Bool :=
  if bodyIndex < plan.deltaBodyIndex then derivationGeneration < view.state.readGeneration
  else derivationGeneration ≤ view.state.readGeneration

/-! ### Counters -/

section

variable (cancellation : Cancellation)

def pollCancellation : JoinM Unit := do
  let s ← get
  set { s with polls := s.polls + 1 }
  consult (cancellation s.polls)

def pollInner : JoinM Unit := do
  let s ← get
  let pollWork ← consult (increment64 s.pollWork "join poll counter overflow")
  set { s with pollWork }
  if pollWork % view.limits.cancellationInterval = 0 then pollCancellation cancellation

def tickJoin : JoinM Unit := do
  let s ← get
  let steps ← consult (increment64 s.steps "join-step counter overflow")
  set { s with steps }
  ensure (steps ≤ view.limits.maxJoinSteps)
    (resourceLimit "hyperresolution join-step limit exceeded" "max_join_steps" steps
      view.limits.maxJoinSteps)
  view.pollInner cancellation

/-- Keep a match; of two with the same key the one with the smaller premises. -/
def insertMatch (candidate : JoinMatch) : JoinM Unit := do
  let s ← get
  match s.found[candidate.matchKey]? with
  | some previous =>
    if compare candidate.premiseRowIds previous.premiseRowIds = .lt then
      set { s with found := s.found.insert candidate.matchKey candidate }
  | none =>
    let observed ← consult (increment64 s.matchesEmitted "join-match counter overflow")
    ensure (observed ≤ view.limits.maxMatchesPerGeneration)
      (resourceLimit "hyperresolution match limit exceeded" "max_matches_per_generation" observed
        view.limits.maxMatchesPerGeneration)
    set { s with
      matchesEmitted := observed
      found := s.found.insert candidate.matchKey candidate }

/-! ### Indexed joins -/

/-- A row that may satisfy an atom, its arguments in one orientation. -/
structure FactCandidate where
  rowId : Nat
  handles : List NodeHandle
  lookupDependency : DependencySet

/-- The rows of a lookup that the atom may see. -/
def visibleRows (plan : ClauseJoinPlan) (bodyIndex : Nat) (rowIds : List Nat) : JoinM (List Nat) :=
  rowIds.filterM fun rowId => do
    view.pollInner cancellation
    let row ← consult (view.state.fact rowId)
    return view.inPlanView row.derivationGeneration plan bodyIndex

variable (atom : RuleAtom) (bindings : Bindings)

def relationCandidates (plan : ClauseJoinPlan) (bodyIndex : Nat) : JoinM (List FactCandidate) := do
  let (lookup, lookupDependency) ← consult (view.lookupBindings atom bindings)
  let rowIds ← consult (view.state.candidateFactIds atom.predicateId lookup)
  let rowIds ← view.visibleRows cancellation plan bodyIndex rowIds
  rowIds.mapM fun rowId => do
    let row ← consult (view.state.fact rowId)
    return { rowId, handles := row.key.arguments, lookupDependency }

/-- The lookups for an inequality: a row is stored in rank order only, so with one known
argument both positions are tried. -/
def inequalityQueries : List (Option (NodeHandle × DependencySet)) →
    Except NativeError (List (ExtTreeMap Nat NodeHandle))
  | [some (left, _), some (right, _)] => do
    if rankLE (← view.arena.nodeRank left) (← view.arena.nodeRank right) then
      return [ExtTreeMap.ofList [(0, left), (1, right)]]
    else return [ExtTreeMap.ofList [(0, right), (1, left)]]
  | [some (handle, _), none] | [none, some (handle, _)] =>
    .ok [ExtTreeMap.ofList [(0, handle)], ExtTreeMap.ofList [(1, handle)]]
  | [none, none] => .ok [∅]
  | _ => .error (invariant "inequality predicate does not have binary arity")

/-- The orientations of one inequality row that unify with the atom. -/
def orientedCandidates (dependency : DependencySet) (rowId : Nat) : JoinM (List FactCandidate) := do
  let row ← consult (view.state.fact rowId)
  let orientations := (ExtTreeSet.ofList [row.key.arguments, row.key.arguments.reverse]).toList
  let orientations ← orientations.filterM fun handles => do
    view.pollInner cancellation
    return (← consult (view.unifyHandles atom handles bindings)).isSome
  return orientations.map fun handles => { rowId, handles, lookupDependency := dependency }

def inequalityCandidates (plan : ClauseJoinPlan)
    (bodyIndex : Nat) : JoinM (List FactCandidate) := do
  let resolved ← consult (atom.arguments.mapM (view.resolvedTerm bindings))
  let dependency := DependencySet.union (resolved.filterMap (·.map (·.2)))
  let queries ← consult (view.inequalityQueries resolved)
  let rowIds ← queries.mapM fun query => do
    view.visibleRows cancellation plan bodyIndex
      (← consult (view.state.candidateFactIds atom.predicateId query))
  let candidates ← (ExtTreeSet.ofList rowIds.flatten).toList.mapM
    (view.orientedCandidates cancellation atom bindings dependency)
  return candidates.flatten

def equalityCandidates : JoinM (List (Bindings × DependencySet)) := do
  let first ← consult (argument atom 0)
  let second ← consult (argument atom 1)
  match ← consult (view.resolvedTerm bindings first),
    ← consult (view.resolvedTerm bindings second) with
  | some left, some right =>
    if left.1 ≠ right.1 then return []
    else return [(bindings, .union [left.2, right.2])]
  | some (handle, dependency), none =>
    return (← consult (view.bindUnresolved second handle bindings)).toList.map (·, dependency)
  | none, some (handle, dependency) =>
    return (← consult (view.bindUnresolved first handle bindings)).toList.map (·, dependency)
  | none, none =>
    match first.variableKey, second.variableKey with
    | some firstKey, some secondKey =>
      let handles ← view.arena.activeNodeHandles.filterM fun handle => do
        view.pollInner cancellation
        return decide ((← consult (view.arena.nodeSort handle)) = firstKey.sort.nodeSort)
      return handles.map fun handle =>
        ((bindings.insert firstKey handle).insert ⟨firstKey.sort, secondKey.variableId⟩ handle,
          .empty)
    | _, _ => throw (invariant "unresolved equality constants are absent from node maps")

/-- The supports of a row, of which an active row has some. -/
def rowSupports (row : FactRow) (message : String) : Except NativeError (List DependencySet) := do
  ensure (row.supports ≠ []) (invariant message)
  return row.supports

def joinSteps (plan : ClauseJoinPlan) (clause : RuleClause) :
    List JoinStep → Bindings → DependencySet → List Nat → JoinM Unit
  | [], bindings, dependency, rowIds => do
    view.tickJoin cancellation
    let candidate ← consult (JoinMatch.new plan.clauseId plan.deltaBodyIndex
      (freezeBindings bindings) dependency rowIds)
    view.insertMatch candidate
  | step :: rest, bindings, dependency, rowIds => do
    view.tickJoin cancellation
    let atom ← consult (clause.bodyAtom step.bodyIndex "join body index is out of bounds")
    let kind ← consult (view.program.predicateKind atom.predicateId)
    if kind = .orderingGuard then
      match ← consult (view.orderingGuard atom bindings) with
      | some (nextBindings, guardDependency) =>
        joinSteps plan clause rest nextBindings (.union [dependency, guardDependency]) rowIds
      | none => return ()
    else if kind = .equality then
      (← view.equalityCandidates cancellation atom bindings).forM
        fun (nextBindings, equalityDependency) => do
          view.pollInner cancellation
          joinSteps plan clause rest nextBindings (.union [dependency, equalityDependency]) rowIds
    else
      let candidates ←
        if kind = .inequality then
          view.inequalityCandidates cancellation atom bindings plan step.bodyIndex
        else view.relationCandidates cancellation atom bindings plan step.bodyIndex
      candidates.forM fun candidate => do
        view.pollInner cancellation
        match ← consult (view.unifyHandles atom candidate.handles bindings) with
        | none => return ()
        | some (nextBindings, unificationDependency) =>
          let row ← consult (view.state.fact candidate.rowId)
          let supports ← consult (rowSupports row "active fact row has no dependency support")
          supports.forM fun support => do
            view.pollInner cancellation
            joinSteps plan clause rest nextBindings
              (.union [dependency, candidate.lookupDependency, unificationDependency, support])
              (rowIds ++ [candidate.rowId])

/-- `validate_plan` of the evaluator. -/
def validatePlan (plan : ClauseJoinPlan) : Except NativeError Unit := do
  let clause ← view.program.clause plan.clauseId
  let trigger ← clause.bodyAtom plan.deltaBodyIndex "delta body index is out of bounds"
  ensure ((← view.program.predicateKind trigger.predicateId).canTrigger = true)
    (wire "ordering guards cannot designate a delta atom")
  ensure (plan.steps.length + 1 = clause.body.length)
    (wire "join plan must cover every body atom exactly once")
  ensure (plan.bodyIndices.Nodup ∧ ∀ step ∈ plan.steps, step.bodyIndex < clause.body.length)
    (wire "join plan contains a duplicate or dangling body index")

/-- Start collecting, run, and hand over what was found. -/
def collecting (m : JoinM Unit) : JoinM (List JoinMatch) := do
  modify fun s => { s with found := ∅ }
  m
  pollCancellation cancellation
  return (← get).found.toList.map (·.2)

/-- The matches of a plan whose delta atom is the given row. -/
def indexedMatches (plan : ClauseJoinPlan) (deltaRowId : Nat) : JoinM (List JoinMatch) := do
  pollCancellation cancellation
  consult (view.validatePlan plan)
  let clause ← consult (view.program.clause plan.clauseId)
  let trigger ← consult (clause.bodyAtom plan.deltaBodyIndex "delta body index is out of bounds")
  let deltaRow ← consult (view.state.fact deltaRowId)
  if deltaRow.active = false ∨ deltaRow.derivationGeneration ≠ view.state.readGeneration ∨
      deltaRow.key.predicateId ≠ trigger.predicateId then return []
  else
    match ← consult (view.unifyHandles trigger deltaRow.key.arguments ∅) with
    | none => return []
    | some (bindings, seedDependency) =>
      let supports ← consult (rowSupports deltaRow
        "active delta fact row has no dependency support")
      collecting cancellation <| supports.forM fun support => do
        view.pollInner cancellation
        view.joinSteps cancellation plan clause plan.steps bindings
          (.union [seedDependency, support]) [deltaRowId]

/-! ### The naive oracle -/

/-- Whether a row satisfies an atom whose variables are all bound. -/
def rowSatisfies (atom : RuleAtom) (handles : List NodeHandle) (kind : PredicateKind)
    (bindings : Bindings) : Except NativeError Bool := do
  if (← view.unifyHandles atom handles bindings).isSome then return true
  else if kind ≠ .inequality then return false
  else return (← view.unifyHandles atom handles.reverse bindings).isSome

/-- The rows that satisfy an atom: all active ones are looked at. -/
def satisfyingRows (atom : RuleAtom) (kind : PredicateKind) (bindings : Bindings) :
    JoinM (List Nat) :=
  view.state.activeFactIds.filterM fun rowId => do
    view.pollInner cancellation
    let row ← consult (view.state.fact rowId)
    if row.key.predicateId = atom.predicateId then
      consult (view.rowSatisfies atom row.key.arguments kind bindings)
    else return false

/-- For each atom the rows that satisfy it, or `none` if some atom has none. Virtual atoms
contribute a dependency and no row. -/
def rowsByAtom (bindings : Bindings) : List RuleAtom →
    JoinM (Option (List (List (Option Nat)) × List DependencySet))
  | [] => return some ([], [])
  | atom :: rest => do
    let kind ← consult (view.program.predicateKind atom.predicateId)
    if kind = .orderingGuard then
      match ← consult (view.orderingGuard atom bindings) with
      | none => return none
      | some (_, dependency) =>
        return (← rowsByAtom bindings rest).map fun (rows, dependencies) =>
          ([none] :: rows, dependency :: dependencies)
    else if kind = .equality then
      match ← view.equalityCandidates cancellation atom bindings with
      | [] => return none
      | (_, dependency) :: _ =>
        return (← rowsByAtom bindings rest).map fun (rows, dependencies) =>
          ([none] :: rows, dependency :: dependencies)
    else
      match ← view.satisfyingRows cancellation atom kind bindings with
      | [] => return none
      | row :: matching =>
        return (← rowsByAtom bindings rest).map fun (rows, dependencies) =>
          ((row :: matching).map some :: rows, dependencies)

/-- One support of each selected row. -/
def enumerateSupports (clause : RuleClause) (bindings : Bindings) (selected : List Nat)
    (dependency : DependencySet) : List Nat → List DependencySet → JoinM Unit
  | [], supports => do
    view.pollInner cancellation
    let combined := DependencySet.union [dependency, .union supports]
    let candidate ← consult (JoinMatch.new clause.clauseId 0 (freezeBindings bindings)
      combined selected)
    view.insertMatch candidate
  | rowId :: rest, supports => do
    view.pollInner cancellation
    let row ← consult (view.state.fact rowId)
    (← consult (rowSupports row "active fact row has no dependency support")).forM fun support =>
      enumerateSupports clause bindings selected dependency rest (supports ++ [support])

/-- Whether one of the rows is of the generation being read. -/
def anyNew : List Nat → Except NativeError Bool
  | [] => return false
  | rowId :: rest => do
    if (← view.state.fact rowId).derivationGeneration = view.state.readGeneration then return true
    else anyNew rest

/-- One row for each atom. -/
def enumerateRowChoices (clause : RuleClause) (bindings : Bindings) (requireNew : Bool)
    (dependency : DependencySet) : List (List (Option Nat)) → List Nat → JoinM Unit
  | [], selected => do
    view.pollInner cancellation
    let rejected ← if requireNew then (!·) <$> consult (view.anyNew selected) else pure false
    if rejected then return ()
    else view.enumerateSupports cancellation clause bindings selected dependency selected []
  | rows :: rest, selected => do
    view.pollInner cancellation
    rows.forM fun row =>
      enumerateRowChoices clause bindings requireNew dependency rest (selected ++ row.toList)

def evaluateAssignment (clause : RuleClause) (bindings : Bindings) (requireNew : Bool) :
    JoinM Unit := do
  match ← view.rowsByAtom cancellation bindings clause.body with
  | none => return ()
  | some (rows, virtualDependencies) =>
    view.enumerateRowChoices cancellation clause bindings requireNew
      (.union virtualDependencies) rows []

/-- One node for each variable. -/
def enumerateAssignments (clause : RuleClause) (requireNew : Bool) :
    List (VariableKey × List NodeHandle) → Bindings → JoinM Unit
  | [], bindings => do
    view.tickJoin cancellation
    view.evaluateAssignment cancellation clause bindings requireNew
  | (key, domain) :: rest, bindings => do
    view.tickJoin cancellation
    domain.forM fun handle => do
      view.pollInner cancellation
      enumerateAssignments clause requireNew rest (bindings.insert key handle)

def domain (sort : TermSort) : JoinM (List NodeHandle) :=
  view.arena.activeNodeHandles.filterM fun handle => do
    view.pollInner cancellation
    return decide ((← consult (view.arena.nodeSort handle)) = sort.nodeSort)

def naiveMatches (clauseId : Nat) (requireNew : Bool) : JoinM (List JoinMatch) := do
  pollCancellation cancellation
  let clause ← consult (view.program.clause clauseId)
  let domains ← clause.bodyVariables.mapM fun key =>
    return (key, ← view.domain cancellation key.sort)
  collecting cancellation (view.enumerateAssignments cancellation clause requireNew domains ∅)

end

end JoinView

end PyHermit
