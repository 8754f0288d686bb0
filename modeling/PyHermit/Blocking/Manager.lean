import PyHermit.Blocking.Projection

/-!
# The blocking manager

`blocking/manager.rs`, `blocking/validation.rs`, and of `blocking/cache.rs` what a lookup
does. The manager assigns a blocker to each node in creation order. It keeps its last
projection, so that the next computation can start at the first node that changed.

A method that fails restores the manager it started from, so the methods here return the new
manager next to their result. The kernel is restored by `blocking_atomic`, which is
`TableauKernel.atomic`.
-/

open Std Prog

namespace PyHermit

open TableauKernel

/-! ## Assignments -/

structure BlockingAssignment where
  node : NodeHandle
  blocker : Option NodeHandle
  directly : Bool
  fromCache : Bool
  deriving DecidableEq

namespace BlockingAssignment

def unblocked (node : NodeHandle) : BlockingAssignment := ⟨node, none, false, false⟩

def direct (node blocker : NodeHandle) : BlockingAssignment := ⟨node, some blocker, true, false⟩

def indirect (node parent : NodeHandle) : BlockingAssignment := ⟨node, some parent, false, false⟩

def cached (node : NodeHandle) : BlockingAssignment := ⟨node, none, true, true⟩

def blocked (assignment : BlockingAssignment) : Bool :=
  assignment.blocker.isSome || assignment.fromCache

end BlockingAssignment

abbrev Assignments := ExtTreeMap NodeHandle BlockingAssignment

def Assignments.isBlocked (assignments : Assignments) (node : NodeHandle) : Bool :=
  assignments[node]?.any (·.blocked)

/-- The unblocked eligible nodes by what a blocker has to share, oldest first. -/
abbrev BlockerIndex := ExtTreeMap BlockingKey (List NodeHandle)

structure AssignmentChange where
  node : NodeHandle
  before : Option BlockingAssignment
  after : Option BlockingAssignment
  deriving DecidableEq

/-- A change from or to no assignment that leaves the node unblocked. -/
def AssignmentChange.isDefault (change : AssignmentChange) : Bool :=
  match change.before, change.after with
  | none, some value => !value.blocked
  | some value, none => !value.blocked
  | _, _ => false

def assignmentChanges (before after : Assignments) : List AssignmentChange :=
  (ExtTreeSet.ofList (before.keys ++ after.keys)).toList.filterMap fun node =>
    let change : AssignmentChange := ⟨node, before[node]?, after[node]?⟩
    if change.isDefault || change.before = change.after then none else some change

/-! ## The signature cache -/

structure BlockingCacheNamespace where
  ontologyFingerprint : String
  vocabulary : BlockingVocabulary
  checkerKind : DirectCheckerKind
  coreMode : CoreBlockingMode
  configurationFingerprint : String

/-- Signatures of earlier models, with the time of their last use. -/
structure BlockingSignatureCache where
  scope : BlockingCacheNamespace
  clock : Nat
  entries : List (BlockingSignature × Nat)

/-- Whether the signature is cached; a lookup advances the clock. -/
def BlockingSignatureCache.contains (cache : BlockingSignatureCache)
    (signature : BlockingSignature) : Except BlockingError (Bool × BlockingSignatureCache) := do
  ensure (signature.kind = cache.scope.checkerKind)
    (.invalid "blocking signature checker kind does not match cache namespace")
  ensure (cache.clock < u64Max) (.invariant "blocking cache LRU clock overflow")
  let next := cache.clock + 1
  return (cache.entries.any (·.1 = signature),
    { cache with
      clock := next
      entries := cache.entries.map fun (known, used) =>
        (known, if known = signature then next else used) })

/-- The lookup of a manager that may have no cache, or may not use it. -/
def cacheLookup (plan : BlockingPlan) (cache : Option BlockingSignatureCache)
    (signature : BlockingSignature) : Except BlockingError (Bool × Option BlockingSignatureCache) :=
  match plan.cacheAllowed, cache with
  | true, some value => do
    let (hit, value) ← value.contains signature
    return (hit, some value)
  | _, _ => .ok (false, cache)

/-! ## Recomputation -/

abbrev Rejections := ExtTreeMap NodePair StateDigest

/-- What one recomputation works with. -/
structure BlockingPass where
  projection : BlockingProjection
  checker : DirectChecker
  plan : BlockingPlan
  rejectedBlocks : Rejections
  limits : BlockingLimits
  control : BlockingControl

/-- What it has found so far. -/
structure PassState where
  assignments : Assignments
  index : BlockerIndex
  cache : Option BlockingSignatureCache

namespace BlockingPass

variable (pass : BlockingPass)

def countCandidate : BlockingM Unit :=
  modify fun work => { work with
    stats := { work.stats with candidateChecks := work.stats.candidateChecks + 1 } }

def countSignature : BlockingM Unit :=
  modify fun work => { work with
    stats := { work.stats with signaturesBuilt := work.stats.signaturesBuilt + 1 } }

def countIndexed : BlockingM Unit :=
  modify fun work => { work with
    stats := { work.stats with indexedBlockers := work.stats.indexedBlockers + 1 } }

def countNode : BlockingM Unit :=
  modify fun work => { work with
    stats := { work.stats with nodesVisited := work.stats.nodesVisited + 1 } }

def candidateStep : BlockingM Unit := do
  countCandidate
  let checks := (← get).stats.candidateChecks
  ensure (checks ≤ pass.limits.maxCandidateChecks)
    (.resource "blocking candidate limit exceeded" "blocking_candidate_checks" checks
      pass.limits.maxCandidateChecks)
  pass.control.pollEvery pass.limits.cancellationPollInterval checks

/-- The pair was rejected on the very state that is projected. -/
def isRejected (node candidate : NodeHandle) : Bool :=
  pass.rejectedBlocks[(⟨node, candidate⟩ : NodePair)]? = some pass.projection.stateDigest

variable (node : NodeHandle)

/-- Whether an ancestor blocks. -/
def acceptsAncestor (signature : BlockingSignature) (assignments : Assignments)
    (candidate : NodeHandle) : BlockingM Bool :=
  if assignments[candidate]?.any (fun value => !value.blocked) &&
      pass.checker.canBeBlocker pass.projection candidate then do
    let other ← ask fun _ => pass.checker.signature pass.projection candidate
    return other.blocks signature && !pass.isRejected node candidate
  else return false

/-- Up the parent chain to the first ancestor that blocks. -/
def ancestorBlocker (node : NodeHandle) (signature : BlockingSignature)
    (assignments : Assignments) : Nat → Option NodeHandle → BlockingM (Option NodeHandle)
  | _, none => return none
  | 0, some candidate => do
    pass.candidateStep
    if ← pass.acceptsAncestor node signature assignments candidate then return some candidate
    else throw (.invariant "cycle detected in blocking parent chain")
  | remaining + 1, some candidate => do
    pass.candidateStep
    if ← pass.acceptsAncestor node signature assignments candidate then return some candidate
    else ancestorBlocker node signature assignments remaining (pass.projection.parentOf candidate)

/-- The first candidate of the bucket that blocks. -/
def anywhereBlocker (node : NodeHandle) (assignments : Assignments) :
    List NodeHandle → BlockingM (Option NodeHandle)
  | [] => return none
  | candidate :: rest => do
    pass.candidateStep
    if assignments[candidate]?.any (fun value => !value.blocked) &&
        !pass.projection.isAncestor node candidate && !pass.isRejected node candidate then
      return some candidate
    else anywhereBlocker node assignments rest

def findBlocker (signature : BlockingSignature) (acc : PassState) : BlockingM (Option NodeHandle) :=
  if pass.plan.managerKind = .ancestor then
    pass.ancestorBlocker node signature acc.assignments pass.projection.nodes.size
      (pass.projection.parentOf node)
  else pass.anywhereBlocker node acc.assignments (acc.index.getD signature.blockingKey [])

/-- The assignment of an eligible node whose parent is not blocked. -/
def assignDirectly (acc : PassState) :
    BlockingM (BlockingAssignment × Option BlockingSignatureCache) := do
  let signature ← ask fun _ => pass.checker.signature pass.projection node
  countSignature
  let (hit, cache) ← ask fun _ => cacheLookup pass.plan acc.cache signature
  if hit then return (.cached node, cache)
  else
    let blocker ← pass.findBlocker node signature acc
    return (blocker.elim (.unblocked node) (.direct node), cache)

def assignNode (record : NodeRecord) (acc : PassState) :
    BlockingM (BlockingAssignment × Option BlockingSignatureCache) :=
  if record.kind ≠ .tree then return (.unblocked node, acc.cache)
  else
    match record.parent with
    | none => throw (.invariant "active tree blocking node has no parent")
    | some parent =>
      if acc.assignments.isBlocked parent then return (.indirect node parent, acc.cache)
      else if pass.checker.canBeBlocked pass.projection node then pass.assignDirectly node acc
      else return (.unblocked node, acc.cache)

/-- File an unblocked eligible node as a blocker. -/
def indexNode (assignment : BlockingAssignment) (index : BlockerIndex) : BlockingM BlockerIndex :=
  if !assignment.blocked && pass.checker.canBeBlocker pass.projection node then do
    let signature ← ask fun _ => pass.checker.signature pass.projection node
    countSignature
    countIndexed
    return index.insert signature.blockingKey (index.getD signature.blockingKey [] ++ [node])
  else return index

def visitNode (acc : PassState) (node : NodeHandle) : BlockingM PassState := do
  countNode
  let visited := (← get).stats.nodesVisited
  pass.control.pollEvery pass.limits.cancellationPollInterval visited
  match pass.projection.nodes[node]? with
  | none => throw (.invariant "ordered blocking node is absent")
  | some record =>
    let (assignment, cache) ← pass.assignNode node record acc
    let index ← pass.indexNode node assignment acc.index
    return { assignments := acc.assignments.insert node assignment, index, cache }

/-- Keep what an earlier pass found out about the nodes before the frontier. -/
def retain (projection : BlockingProjection) (frontier : Nat) (acc : PassState) : PassState :=
  { acc with
    assignments := acc.assignments.filter fun node _ => projection.isBefore frontier node
    index := acc.index.filterMap fun _ nodes =>
      let kept := nodes.filter (projection.isBefore frontier)
      if kept = [] then none else some kept }

variable (frontier : Option Nat)

/-- What a pass starts from: nothing, or what the previous one found before the frontier. -/
def start (acc : PassState) : PassState :=
  match frontier with
  | none => { acc with assignments := ∅, index := ∅ }
  | some frontier => retain pass.projection frontier acc

/-- The nodes a pass visits: all, or those from the frontier on, which are a suffix as
the order is by creation. -/
def visits : List NodeHandle :=
  match frontier with
  | none => pass.projection.orderedNodes
  | some frontier => pass.projection.orderedNodes.dropWhile (pass.projection.isBefore frontier)

/-- `recompute_internal`, with the frontier of the reusable part if there is one. -/
def recompute (acc : PassState) : BlockingM (PassState × ComputeStats) := do
  ensure (pass.checker.kind = pass.plan.directCheckerKind)
    (.invalid "direct checker kind does not match blocking plan")
  modify fun work => { work with stats := {} }
  let found ← (pass.visits frontier).foldlM pass.visitNode (pass.start frontier acc)
  pass.control.poll
  return (found, (← get).stats)

end BlockingPass

/-! ## The manager -/

inductive BlockingEvent where
  | invalidated | directBlock | indirectBlock | cacheBlock | unblocked | recomputed | blockValidated
  | blockRejected

structure BlockingTraceEvent where
  sequence : Nat
  event : BlockingEvent
  node : Option NodeHandle
  blocker : Option NodeHandle
  stateDigest : Option StateDigest
  details : List Nat

structure ComputeResult where
  changed : List AssignmentChange
  rescheduleNodes : List NodeHandle
  earliestRecomputedCreationId : Option Nat
  stateDigest : StateDigest
  stats : ComputeStats

structure BlockingManager where
  plan : BlockingPlan
  checker : DirectChecker
  limits : BlockingLimits
  cache : Option BlockingSignatureCache
  maxTraceEvents : Nat
  assigned : Assignments := ∅
  blockerIndex : BlockerIndex := ∅
  lastProjection : Option BlockingProjection := none
  dirtyCreationId : Option Nat := some 0
  lastRecomputedFrom : Option Nat := none
  rejectedBlocks : Rejections := ∅
  validatedDigest : Option StateDigest := none
  trace : List BlockingTraceEvent := []

def minOption : Option Nat → Option Nat → Option Nat
  | some left, some right => some (min left right)
  | some value, none => some value
  | none, other => other

/-- `node_order`, compared; a node that is not projected comes last. -/
def nodeOrder (projection : BlockingProjection) (a b : NodeHandle) : Bool :=
  let rank (node : NodeHandle) : List Nat :=
    match projection.nodes[node]? with
    | some record => [record.creationId, node.slot, node.generation]
    | none => [u32Max, u32Max, u32Max]
  (compare (rank a) (rank b)).isLE

/-- A cache has to fit the plan and the checker. -/
def BlockingSignatureCache.checkFits (cache : BlockingSignatureCache) (plan : BlockingPlan)
    (checker : DirectChecker) : Except BlockingError Unit := do
  ensure (plan.cacheAllowed = true) (.invalid "selected blocking plan forbids signature caching")
  ensure (cache.scope.checkerKind = checker.kind)
    (.invalid "blocking cache checker kind does not match manager")
  ensure (cache.scope.coreMode = plan.coreMode)
    (.invalid "blocking cache core mode does not match manager")
  ensure (cache.scope.vocabulary = checker.vocabulary)
    (.invalid "blocking cache vocabulary does not match manager")

namespace BlockingManager

def new (plan : BlockingPlan) (checker : DirectChecker) (cache : Option BlockingSignatureCache)
    (limits : BlockingLimits) (maxTraceEvents : Nat) : Except BlockingError BlockingManager := do
  limits.validate
  ensure (checker.kind = plan.directCheckerKind)
    (.invalid "direct checker kind does not match blocking plan")
  cache.toList.forM (·.checkFits plan checker)
  return { plan, checker, limits, cache, maxTraceEvents }

variable (m : BlockingManager)

/-- The assignments of the last projection's nodes, in its order. -/
def assignments : List BlockingAssignment :=
  match m.lastProjection with
  | none => []
  | some projection => projection.orderedNodes.filterMap (m.assigned[·]?)

def record (event : BlockingEvent) (node blocker : Option NodeHandle)
    (stateDigest : Option StateDigest) (details : List Nat) : BlockingManager :=
  if m.maxTraceEvents ≤ m.trace.length then m
  else { m with trace := m.trace ++ [⟨m.trace.length, event, node, blocker, stateDigest, details⟩] }

def invalidateCreation (creationId : Nat) (node : Option NodeHandle) : BlockingManager :=
  { m with
    dirtyCreationId := some (m.dirtyCreationId.elim creationId (min · creationId))
    validatedDigest := none }.record .invalidated node none none [creationId]

def invalidateAll : BlockingManager := m.invalidateCreation 0 none

/-- When the last projection saw the node being created. -/
def creationOf (node : NodeHandle) : Option Nat :=
  m.lastProjection.bind fun projection => projection.nodes[node]?.map (·.creationId)

def invalidateNode (node : NodeHandle) : BlockingManager :=
  m.invalidateCreation ((m.creationOf node).getD 0) (some node)

def notifyFactChange (fact : FactRecord) : BlockingManager :=
  if fact.predicateId ∈ m.checker.vocabulary.atomicConcepts ∨
      fact.predicateId ∈ m.checker.vocabulary.atomicObjectRoles then
    m.invalidateCreation ((fact.arguments.filterMap m.creationOf).min?.getD 0) fact.arguments.head?
  else m

variable (projection : BlockingProjection) (control : BlockingControl)

def pass : BlockingPass where
  projection := projection
  checker := m.checker
  plan := m.plan
  rejectedBlocks := m.rejectedBlocks
  limits := m.limits
  control := control

def passState : PassState := ⟨m.assigned, m.blockerIndex, m.cache⟩

/-- The assignment's blocker is projected, and older than its node. -/
def checkAssignment (assignment : BlockingAssignment) : Except BlockingError Unit :=
  match projection.nodes[assignment.node]? with
  | none => .error (.invariant "blocking assignment refers to a stale node")
  | some record =>
    match assignment.blocker with
    | none => .ok ()
    | some blocker =>
      match projection.nodes[blocker]? with
      | none => .error (.invariant "blocking assignment has a stale blocker")
      | some blockerRecord =>
        ensure (blockerRecord.creationId < record.creationId)
          (.invariant "blocker does not precede blocked node")

/-- What is filed as a blocker is assigned, unblocked and eligible. -/
def checkIndexed (node : NodeHandle) : Except BlockingError Unit :=
  match m.assigned[node]? with
  | none => .error (.invariant "blocking index refers to an unassigned node")
  | some assignment =>
    ensure (assignment.blocked = false ∧ m.checker.canBeBlocker projection node = true)
      (.invariant "blocking index contains an ineligible or stale entry")

def checkStructuralInvariants : Except BlockingError Unit :=
  match m.lastProjection with
  | none => .error (.invariant "blocking projection is unavailable")
  | some projection => do
    ensure (m.assigned.size = projection.orderedNodes.length)
      (.invariant "blocking assignment count differs from the projected node count")
    m.assignments.forM (checkAssignment projection)
    m.blockerIndex.toList.forM fun (_, nodes) => nodes.forM (m.checkIndexed projection)

variable (forceFull : Bool)

/-- Where the recomputation has to start. -/
def earliest : Nat :=
  match m.lastProjection with
  | none => 0
  | some last =>
    if forceFull then 0
    else (minOption m.dirtyCreationId (last.earliestDifference projection)).getD 0

/-- Nothing is dirty, and the state is the one last seen. -/
def isUnchanged : Bool :=
  !forceFull && m.dirtyCreationId.isNone &&
    decide (m.lastProjection.map (·.stateDigest) = some projection.stateDigest)

/-- The nodes that came unblocked with existentials pending. -/
def rescheduled (changes : List AssignmentChange) : List NodeHandle :=
  let nodes := (changes.filter fun change =>
    change.before.any (·.blocked) && !change.after.any (·.blocked) &&
      projection.nodes[change.node]?.any (·.hasPendingExistentials)).map (·.node)
  (nodes.insertionSort fun a b => nodeOrder projection a b).destutter (· ≠ ·)

/-- The event a new assignment is traced as. -/
def changeEvent (after : BlockingAssignment) : BlockingEvent :=
  if after.fromCache then .cacheBlock
  else if after.blocker = none then .unblocked
  else if after.directly then .directBlock
  else .indirectBlock

def recordChange (digest : StateDigest) (m : BlockingManager) (change : AssignmentChange) :
    BlockingManager :=
  match change.after with
  | none => m
  | some after => m.record (changeEvent after) (some change.node) after.blocker (some digest) []

/-- The manager once a pass over `projection` from `earliest` on has found `found`, but for
what it records. -/
def absorbed (earliest : Nat) (found : PassState) : BlockingManager :=
  let digest := projection.stateDigest
  { m with
    cache := found.cache
    assigned := found.assignments
    blockerIndex := found.index
    lastProjection := some projection
    dirtyCreationId := none
    lastRecomputedFrom := some earliest
    validatedDigest :=
      if m.lastProjection.map (·.stateDigest) = some digest then m.validatedDigest else none }

def absorb (earliest : Nat) (found : PassState) (stats : ComputeStats)
    (changes : List AssignmentChange) : BlockingManager :=
  let digest := projection.stateDigest
  (changes.foldl (recordChange digest) (m.absorbed projection earliest found)).record
    .recomputed none none (some digest)
    [earliest, found.assignments.size, changes.length, stats.candidateChecks]

/-- The rejections made on another state are forgotten. -/
def forgetRejections : BlockingManager :=
  { m with
    rejectedBlocks := m.rejectedBlocks.filter fun _ digest => digest = projection.stateDigest }

/-- Recompute from the first node that may have changed. -/
def recompute : BlockingM (ComputeResult × BlockingManager) := do
  let earliest := m.earliest projection forceFull
  control.poll
  let kept := m.forgetRejections projection
  let frontier := if forceFull = false ∧ 0 < earliest then some earliest else none
  let (found, stats) ← (kept.pass projection control).recompute frontier kept.passState
  let changes := assignmentChanges m.assigned found.assignments
  let updated := kept.absorb projection earliest found stats changes
  ask fun _ => updated.checkStructuralInvariants
  return ({ changed := changes
            rescheduleNodes := rescheduled projection changes
            earliestRecomputedCreationId := some earliest
            stateDigest := projection.stateDigest
            stats := stats }, updated)

def compute (state : BlockingState) (control : BlockingControl) (forceFull : Bool) :
    BlockingM (ComputeResult × BlockingManager) := do
  let projection ← BlockingProjection.fromState state m.checker.vocabulary m.limits control
  if m.isUnchanged projection forceFull then
    return ({ changed := []
              rescheduleNodes := []
              earliestRecomputedCreationId := none
              stateDigest := projection.stateDigest
              stats := {} }, { m with lastProjection := some projection })
  else m.recompute projection control forceFull

/-- The assignments of a full pass with the manager's rejections. -/
def referenceAssignments : BlockingM (List BlockingAssignment) :=
  match m.lastProjection with
  | none => throw (.invalid "blocking manager has not computed a state")
  | some projection => do
    let (found, _) ← (m.pass projection control).recompute none m.passState
    return projection.orderedNodes.filterMap (found.assignments[·]?)

def checkInvariants : BlockingM Unit := do
  ask fun _ => m.checkStructuralInvariants
  let expected ← m.referenceAssignments control
  ensure (m.assignments = expected)
    (.invariant "incremental blocking assignments differ from full recomputation")

/-- `ready_for_sat`: recompute, then require a validated plan to have validated this state. -/
def readyForSat (state : BlockingState) (control : BlockingControl) :
    BlockingM (Bool × BlockingManager) := do
  let (_, m) ← m.compute state control false
  if m.plan.validated = false then return (true, m)
  else return (m.lastProjection.any fun projection =>
    m.validatedDigest = some projection.stateDigest, m)

end BlockingManager

/-! ## Validation -/

structure ValidationDecision where
  valid : Bool
  promoteFactIds : List Nat
  rescheduleNodes : List NodeHandle
  violationIds : List Nat

def ValidationDecision.validate (decision : ValidationDecision) : Except BlockingError Unit := do
  ensure (¬ (decision.valid = true ∧
    ¬ (decision.promoteFactIds = [] ∧ decision.rescheduleNodes = [] ∧
      decision.violationIds = [])))
    (.invalid "valid blocking decision cannot request repair side effects")
  ensure (decision.promoteFactIds.Pairwise (· < ·) ∧
      decision.rescheduleNodes.Pairwise (fun a b => compare a b = .lt) ∧
      decision.violationIds.Pairwise (· < ·))
    (.invalid "blocking validation actions must be sorted and unique")
  ensure (decision.valid = true ∨ decision.violationIds ≠ [])
    (.invalid "invalid blocking decision requires a violation ID")

/-- A validator, as one pass meets it: whether the pass may begin, and the decision on
each block, which may depend on how many blocks the pass has checked. -/
structure BlockValidator where
  beginPass : Except BlockingError Unit
  validateBlock : Nat → BlockingProjection → NodeHandle → NodeHandle → BlockingSignature →
    Except BlockingError ValidationDecision

structure ValidationPassResult where
  valid : Bool
  checkedBlocks : Nat
  invalidatedBlocks : Nat
  promoteFactIds : List Nat
  rescheduleNodes : List NodeHandle
  violationIds : List Nat
  stateDigest : StateDigest
  assignmentChanges : List AssignmentChange

namespace BlockingManager

variable (m : BlockingManager)

/-- The manager after a provisional block was rejected: the node counts as unblocked and
is computed again. -/
def reject (projection : BlockingProjection) (node blocker : NodeHandle) (violationIds : List Nat) :
    BlockingManager :=
  ({ m with
    rejectedBlocks := m.rejectedBlocks.insert ⟨node, blocker⟩ projection.stateDigest
    validatedDigest := none
    assigned := m.assigned.insert node (.unblocked node) }.record .blockRejected (some node)
      (some blocker) (some projection.stateDigest) violationIds).invalidateNode node

/-- The nodes a rejection reschedules, sorted. -/
def rejectionReschedules (decision : ValidationDecision) (node : NodeHandle) : List NodeHandle :=
  (ExtTreeSet.ofList (decision.rescheduleNodes ++ [node])).toList

/-- Validate the direct blocks one after the other, up to the first that is rejected. -/
def validateBlocks (validator : BlockValidator) (projection : BlockingProjection)
    (control : BlockingControl) : List BlockingAssignment → Nat → BlockingManager →
      BlockingM (ValidationPassResult × BlockingManager)
  | [], checked, m => do
    control.poll
    return ({ valid := true, checkedBlocks := checked, invalidatedBlocks := 0, promoteFactIds := []
              rescheduleNodes := [], violationIds := [], stateDigest := projection.stateDigest
              assignmentChanges := [] },
      { m with validatedDigest := some projection.stateDigest })
  | assignment :: rest, checked, m => do
    control.poll
    match assignment.blocker with
    | none => throw (.invariant "direct provisional block has no blocker")
    | some blocker =>
      let node := assignment.node
      let signature ← ask fun _ => m.checker.signature projection node
      let decision ← ask fun _ => validator.validateBlock checked projection node blocker signature
      ask fun _ => decision.validate
      control.poll
      if decision.valid then
        validateBlocks validator projection control rest (checked + 1)
          (m.record .blockValidated (some node) (some blocker) (some projection.stateDigest) [])
      else
        return ({ valid := false
                  checkedBlocks := checked + 1
                  invalidatedBlocks := 1
                  promoteFactIds := decision.promoteFactIds
                  rescheduleNodes := rejectionReschedules decision node
                  violationIds := decision.violationIds
                  stateDigest := projection.stateDigest
                  assignmentChanges := [⟨node, m.assigned[node]?, some (.unblocked node)⟩] },
          m.reject projection node blocker decision.violationIds)

/-- The direct provisional blocks, by creation. -/
def directBlocks : List BlockingAssignment :=
  m.assignments.filter fun assignment =>
    assignment.directly && !assignment.fromCache && assignment.blocker.isSome

/-- Validate the direct blocks of a manager that has just computed. -/
def validateComputed (validator : BlockValidator) (control : BlockingControl) :
    BlockingM (ValidationPassResult × BlockingManager) :=
  match m.lastProjection with
  | none => throw (.invariant "blocking projection is unavailable")
  | some projection => do
    let direct := m.directBlocks
    ask fun _ => checkLimit direct.length m.limits.maxValidationBlocks "blocking_validation_blocks"
      "blocking validation block limit exceeded"
    if direct = [] then pure () else ask fun _ => validator.beginPass
    validateBlocks validator projection control direct 0 m

/-- `validation_pass`. A pass that fails once the blocks are computed keeps what was
computed, so the manager it leaves is returned with the failure. -/
def validationPass (state : BlockingState) (validator : BlockValidator)
    (control : BlockingControl) :
    BlockingM (Except BlockingError ValidationPassResult × BlockingManager) := do
  ensure (m.plan.validated = true)
    (.invalid "validation is available only for validated-anywhere blocking")
  let (_, computed) ← m.compute state control false
  let work ← get
  match computed.validateComputed validator control work with
  | .ok (result, validated) work =>
    set work
    return (.ok result, validated)
  | .error e work =>
    set work
    return (.error e, computed)

end BlockingManager

/-! ## Writing the marks -/

/-- The kernel, and the work of the computation that is to be applied to it. -/
structure Blocking where
  kernel : TableauKernel
  work : BlockingWork

abbrev BlockingRunM := EStateM BlockingError Blocking

def blockingError (e : NativeError) : BlockingError :=
  match e.kind with
  | .wire | .version => .invalid e.message
  | .cancelled | .timeout => .cancelled e.message
  | .resource => .resource e.message "native_resource"
      (((e.context.lookup "observed").bind String.toNat?).getD 0)
      (((e.context.lookup "allowed").bind String.toNat?).getD 0)
  | _ => .invariant e.message

def blockingWorkLens : Lens Blocking BlockingWork where
  get := (·.work)
  put s work := { s with work }

/-- Run a kernel method, its error turned into one of blocking. -/
def applyToKernel (m : KernelM Unit) : BlockingRunM Unit := fun s =>
  match m s.kernel with
  | .ok _ k => .ok () { s with kernel := k }
  | .error e k => .error (blockingError e) { s with kernel := k }

def blockingAtomic {α : Type} (operation : BlockingRunM α) : BlockingRunM α :=
  orUndo (fun before after => { after with kernel := rollBack before.kernel after.kernel })
    operation

/-- `apply_assignment_change`: the mark of a node that lost its assignment is cleared. -/
def applyAssignmentChange (change : AssignmentChange) : BlockingRunM Unit :=
  let (blocker, directly) : Option NodeHandle × Bool := match change.after with
    | none => (none, false)
    | some assignment =>
      if assignment.fromCache then (none, false) else (assignment.blocker, assignment.directly)
  applyToKernel (setBlocked change.node blocker directly)

def pollBlocking (control : BlockingControl) : BlockingRunM Unit :=
  zoom blockingWorkLens control.poll

/-- Apply each item, polling after it. -/
def applyEach {α : Type} (control : BlockingControl) (apply : α → BlockingRunM Unit)
    (items : List α) : BlockingRunM Unit :=
  items.forM fun item => do
    apply item
    pollBlocking control

namespace BlockingManager

variable (m : BlockingManager)

/-- Compute on the kernel's state and write the changed marks. -/
def computeAndMark (control : BlockingControl) (forceFull : Bool) :
    BlockingRunM (ComputeResult × BlockingManager) := do
  let s ← get
  let (result, computed) ← zoom blockingWorkLens
    (m.compute s.kernel.blockingState control forceFull)
  pollBlocking control
  applyEach control applyAssignmentChange result.changed
  applyEach control (fun node => applyToKernel (rescheduleExistentials node)) result.rescheduleNodes
  return (result, computed)

def computeAndApply (control : BlockingControl) (forceFull : Bool) :
    BlockingRunM (ComputeResult × BlockingManager) :=
  blockingAtomic (m.computeAndMark control forceFull)

/-- `validation_pass` on the kernel's state, failing when it fails. -/
def validateKernel (validator : BlockValidator) (control : BlockingControl) :
    BlockingRunM (ValidationPassResult × BlockingManager) := do
  let s ← get
  let (outcome, validated) ← zoom blockingWorkLens
    (m.validationPass s.kernel.blockingState validator control)
  let result ← ask fun _ => outcome
  return (result, validated)

def validationAndApply (validator : BlockValidator) (control : BlockingControl) (forceFull : Bool) :
    BlockingRunM ((ComputeResult × ValidationPassResult) × BlockingManager) :=
  blockingAtomic do
    let (computed, m) ← m.computeAndMark control forceFull
    let (validation, m) ← m.validateKernel validator control
    pollBlocking control
    applyEach control applyAssignmentChange validation.assignmentChanges
    applyEach control (fun rowId => applyToKernel (promoteCoreFact rowId)) validation.promoteFactIds
    applyEach control (fun node => applyToKernel (rescheduleExistentials node))
      validation.rescheduleNodes
    return ((computed, validation), m)

end BlockingManager

end PyHermit
