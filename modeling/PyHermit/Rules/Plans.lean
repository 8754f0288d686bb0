import PyHermit.Rules.Program

/-!
# Join plans

`compile_join_program` (`rules/plans.rs`): for every body atom that can be triggered by a new
row, a greedy order in which to evaluate the other atoms of the clause. Virtual filters with
unbound variables come last and atoms with many bound variables come first.
-/

open Std Prog

namespace PyHermit

open NativeError

/-- One atom other than the trigger, in evaluation order. -/
structure JoinStep where
  bodyIndex : Nat
  boundPositions : List Nat

def JoinStep.new (bodyIndex : Nat) (boundPositions : List Nat) : Except NativeError JoinStep := do
  ensure (strictlySorted boundPositions = true)
    (wire "join-step bound positions must be sorted and unique")
  return { bodyIndex, boundPositions }

/-- One clause with one of its body atoms designated as the delta atom. -/
structure ClauseJoinPlan where
  clauseId : Nat
  deltaBodyIndex : Nat
  steps : List JoinStep

/-- The body atoms a plan goes through, the delta atom first. -/
def ClauseJoinPlan.bodyIndices (plan : ClauseJoinPlan) : List Nat :=
  plan.deltaBodyIndex :: plan.steps.map (·.bodyIndex)

def ClauseJoinPlan.new (clauseId deltaBodyIndex : Nat) (steps : List JoinStep) :
    Except NativeError ClauseJoinPlan := do
  let plan : ClauseJoinPlan := { clauseId, deltaBodyIndex, steps }
  ensure plan.bodyIndices.Nodup (wire "join-plan body indices must be unique")
  return plan

/-! ## One plan -/

def RuleAtom.variableKeys (atom : RuleAtom) : List VariableKey :=
  atom.arguments.filterMap (·.variableKey)

/-- The derived order of atoms. -/
def RuleAtom.cmp (a b : RuleAtom) : Ordering :=
  (compare a.predicateId b.predicateId).then (terms a.arguments b.arguments)
where
  terms : List Term → List Term → Ordering
    | [], [] => .eq
    | [], _ :: _ => .lt
    | _ :: _, [] => .gt
    | s :: ss, t :: ts => (s.cmp t).then (terms ss ts)

/-- What the planner compares (`PlanRank`). -/
structure PlanRank where
  unreadyFilter : Bool
  boundCount : Nat
  unboundCount : Nat
  joinRank : Nat
  atom : RuleAtom

/-- Smaller is better, except for the number of bound variables. -/
def PlanRank.cmp (a b : PlanRank) : Ordering :=
  (compare a.unreadyFilter b.unreadyFilter).then <|
    (compare b.boundCount a.boundCount).then <|
      (compare a.unboundCount b.unboundCount).then <|
        (compare a.joinRank b.joinRank).then (a.atom.cmp b.atom)

section

variable (program : RuleProgram) (clause : RuleClause)

/-- A body atom, where the source indexes the body. -/
def RuleClause.bodyAtom (bodyIndex : Nat) (dangling : String) : Except NativeError RuleAtom :=
  match clause.body[bodyIndex]? with
  | some atom => .ok atom
  | none => .error (wire dangling)

def planRank (bound : ExtTreeSet VariableKey) (bodyIndex : Nat) : Except NativeError PlanRank := do
  let atom ← clause.bodyAtom bodyIndex "join body index is out of bounds"
  let predicate ← program.predicate atom.predicateId
  let keys := (ExtTreeSet.ofList atom.variableKeys).toList
  let unboundCount := (keys.filter (· ∉ bound)).length
  ensure (bodyIndex ∈ clause.joinOrder) (invariant "validated join order lost one body index")
  return {
    unreadyFilter := predicate.kind.isVirtualFilter && unboundCount ≠ 0
    boundCount := (keys.filter (· ∈ bound)).length
    unboundCount
    joinRank := clause.joinOrder.idxOf bodyIndex
    atom }

/-- The remaining atom of the smallest rank; the first one, if there are several. -/
def selectAtom (bound : ExtTreeSet VariableKey) :
    Option (Nat × PlanRank) → List Nat → Except NativeError (Option (Nat × PlanRank))
  | selected, [] => return selected
  | selected, bodyIndex :: rest => do
    let rank ← planRank program clause bound bodyIndex
    match selected with
    | none => selectAtom bound (some (bodyIndex, rank)) rest
    | some (_, selectedRank) =>
      selectAtom bound (if rank.cmp selectedRank = .lt then some (bodyIndex, rank)
        else selected) rest

/-- The positions of an atom that are constants or bound variables. -/
def boundPositions (bound : ExtTreeSet VariableKey) (atom : RuleAtom) : List Nat :=
  (atom.arguments.zipIdx.filter fun (argument, _) =>
    match argument.variableKey with
    | none => true
    | some key => decide (key ∈ bound)).map (·.2)

/-- The planning loop: `fuel` is the number of remaining atoms. -/
def planSteps : Nat → ExtTreeSet VariableKey → List Nat → Except NativeError (List JoinStep)
  | 0, _, _ => return []
  | fuel + 1, bound, remaining => do
    match ← selectAtom program clause bound none remaining with
    | none => throw (invariant "join planner could not select an atom")
    | some (bodyIndex, rank) =>
      let step ← JoinStep.new bodyIndex (boundPositions bound rank.atom)
      let steps ← planSteps fuel (bound.insertMany rank.atom.variableKeys)
        (remaining.erase bodyIndex)
      return step :: steps

def compileClausePlan (trigger : Nat) : Except NativeError ClauseJoinPlan := do
  let triggerAtom ← clause.bodyAtom trigger "delta body index is out of bounds"
  let remaining := (List.range clause.body.length).erase trigger
  let steps ← planSteps program clause remaining.length
    (ExtTreeSet.ofList triggerAtom.variableKeys) remaining
  ClauseJoinPlan.new clause.clauseId trigger steps

end

/-! ## All plans -/

/-- Every plan with the predicate of its delta atom, by clause and delta atom, and the
clauses no row can trigger. -/
structure JoinProgram where
  plans : List (Nat × ClauseJoinPlan)
  unconditionalClauseIds : List Nat

/-- The plans a new row of the predicate triggers. -/
def JoinProgram.forPredicate (joins : JoinProgram) (predicateId : Nat) : List ClauseJoinPlan :=
  (joins.plans.filter (·.1 = predicateId)).map (·.2)

def ClauseJoinPlan.check (program : RuleProgram) (plan : ClauseJoinPlan) :
    Except NativeError Unit := do
  let clause ← program.clause plan.clauseId
  let delta ← clause.bodyAtom plan.deltaBodyIndex "delta body index is out of bounds"
  ensure ((← program.predicateKind delta.predicateId).canTrigger = true)
    (wire "ordering guards cannot designate a delta atom")
  ensure (plan.steps.length + 1 = clause.body.length)
    (wire "join plan must cover every body atom exactly once")
  plan.steps.zipIdx.forM fun (step, index) => do
    ensure (step.bodyIndex ∉ plan.bodyIndices.take (index + 1))
      (wire "join-plan body indices must be unique")
    let atom ← clause.bodyAtom step.bodyIndex "join body index is out of bounds"
    ensure (∀ position ∈ step.boundPositions, position < atom.arguments.length)
      (wire "join-step bound position is out of bounds")

/-- A plan under the predicate of its delta atom, once it is validated. -/
def ClauseJoinPlan.indexed (program : RuleProgram) (plan : ClauseJoinPlan) :
    Except NativeError (Nat × ClauseJoinPlan) := do
  plan.check program
  let clause ← program.clause plan.clauseId
  let delta ← clause.bodyAtom plan.deltaBodyIndex "delta body index is out of bounds"
  return (delta.predicateId, plan)

section

variable (program : RuleProgram)

/-- Whether a new row can trigger the atom. -/
def RuleProgram.triggerable (atom : RuleAtom) : Bool :=
  match program.predicateKind atom.predicateId with
  | .ok kind => kind.canTrigger
  | .error _ => false

def JoinProgram.new (plans : List ClauseJoinPlan) (unconditionalClauseIds : List Nat) :
    Except NativeError JoinProgram := do
  ensure (plans.IsChain fun p q => p.clauseId < q.clauseId ∨
      p.clauseId = q.clauseId ∧ p.deltaBodyIndex < q.deltaBodyIndex)
    (wire "join plans must be uniquely sorted")
  ensure (strictlySorted unconditionalClauseIds = true)
    (wire "unconditional clause IDs must be sorted and unique")
  let plans ← plans.mapM (·.indexed program)
  unconditionalClauseIds.forM fun clauseId => do
    let clause ← program.clause clauseId
    ensure (∀ atom ∈ clause.body, program.triggerable atom = false)
      (wire "triggerable clause cannot be marked unconditional")
  return { plans, unconditionalClauseIds }

/-- The body atoms a new row can trigger. -/
def RuleClause.triggers (clause : RuleClause) : Except NativeError (List Nat) := do
  let kinds ← clause.body.mapM fun atom => program.predicateKind atom.predicateId
  return (List.range clause.body.length).filter fun index =>
    match kinds[index]? with
    | some kind => kind.canTrigger
    | none => false

def compileClausePlans (clause : RuleClause) : Except NativeError (List ClauseJoinPlan) := do
  (← clause.triggers program).mapM (compileClausePlan program clause)

/-- The order of plans within the program. -/
def ClauseJoinPlan.before (p q : ClauseJoinPlan) : Prop :=
  p.clauseId < q.clauseId ∨ p.clauseId = q.clauseId ∧ p.deltaBodyIndex ≤ q.deltaBodyIndex

instance (p q : ClauseJoinPlan) : Decidable (p.before q) :=
  inferInstanceAs (Decidable (_ ∨ _))

def compileJoinProgram : Except NativeError JoinProgram := do
  let plans ← program.clauses.mapM fun clause =>
    return (clause.clauseId, ← compileClausePlans program clause)
  let unconditional := (plans.filter (·.2 = [])).map (·.1)
  JoinProgram.new program ((plans.flatMap (·.2)).insertionSort ClauseJoinPlan.before) unconditional

end

end PyHermit
