import Mathlib.Data.List.Destutter
import PyHermit.Store.Kernel

/-!
# What blocking sees of a tableau

The values of blocking (`model.rs`), the projection of a state to its active nodes and
relevant labels (`projection.rs`), and the direct checkers with their signatures
(`checker.rs`).

The generation-safe key of a node is its handle. The state digest is a hash of the projected
nodes and facts; here it is what is hashed. Every loop polls its control, and the answer of
the i-th consultation, a poll or a memory observation, is arbitrary.
-/

open Std Prog

namespace PyHermit

/-! ## Values -/

inductive DirectCheckerKind where
  | single | pairwise | validatedSingle | validatedPairwise
  deriving DecidableEq

def DirectCheckerKind.validated : DirectCheckerKind → Bool
  | .validatedSingle | .validatedPairwise => true
  | .single | .pairwise => false

inductive BlockingManagerKind where
  | ancestor | anywhere | validatedAnywhere
  deriving DecidableEq

inductive CoreBlockingMode where
  | none | simple | complex
  deriving DecidableEq

inductive BlockingErrorKind where
  | invalidInput | cancelled | resource | invariant
  deriving DecidableEq

structure BlockingError where
  kind : BlockingErrorKind
  message : String
  limit : Option String := none
  observed : Option Nat := none
  allowed : Option Nat := none
  deriving DecidableEq

namespace BlockingError

variable (message : String)

def invalid : BlockingError := { kind := .invalidInput, message }

def cancelled : BlockingError := { kind := .cancelled, message }

def invariant : BlockingError := { kind := .invariant, message }

def resource (message limit : String) (observed allowed : Nat) : BlockingError :=
  { kind := .resource, message, limit := some limit, observed := some observed
    allowed := some allowed }

end BlockingError

structure BlockingPlan where
  managerKind : BlockingManagerKind
  directCheckerKind : DirectCheckerKind
  coreMode : CoreBlockingMode
  cacheAllowed : Bool

def BlockingPlan.validated (plan : BlockingPlan) : Bool := plan.managerKind = .validatedAnywhere

structure BlockingLimits where
  maxNodes : Nat
  maxFacts : Nat
  maxCandidateChecks : Nat
  maxValidationBlocks : Nat
  cancellationPollInterval : Nat

def BlockingLimits.default : BlockingLimits := ⟨2000000, 20000000, 100000000, 2000000, 256⟩

def BlockingLimits.validate (limits : BlockingLimits) : Except BlockingError Unit :=
  ensure (limits.maxNodes ≠ 0 ∧ limits.maxFacts ≠ 0 ∧ limits.maxCandidateChecks ≠ 0 ∧
      limits.maxValidationBlocks ≠ 0 ∧ limits.cancellationPollInterval ≠ 0)
    (.invalid "all blocking limits must be strictly positive")

/-- The predicates whose facts are labels. -/
structure BlockingVocabulary where
  atomicConcepts : ExtTreeSet Nat
  atomicObjectRoles : ExtTreeSet Nat
  deriving DecidableEq

structure NodeRecord where
  node : NodeHandle
  creationId : Nat
  kind : NodeKind
  lifecycle : NodeLifecycle
  parent : Option NodeHandle
  hasPendingExistentials : Bool

structure FactRecord where
  rowId : Nat
  predicateId : Nat
  arguments : List NodeHandle
  core : Bool
  active : Bool

/-- What `BlockingStateRead` gives access to. -/
structure BlockingState where
  revision : Nat
  nodeRecords : List NodeRecord
  activeFactRecords : List FactRecord

def Node.blockingRecord (node : Node) : NodeRecord where
  node := node.handle
  creationId := node.creationId
  kind := node.kind
  lifecycle := node.lifecycle
  parent := node.parent
  hasPendingExistentials := !node.unprocessedExistentials.isEmpty

def FactRow.blockingRecord (row : FactRow) : FactRecord where
  rowId := row.rowId
  predicateId := row.key.predicateId
  arguments := row.key.arguments
  core := row.core
  active := true

/-- The kernel as blocking reads it. -/
def TableauKernel.blockingState (k : TableauKernel) : BlockingState where
  revision := k.trailLength
  nodeRecords := k.state.nodes.liveNodes.map (·.blockingRecord)
  activeFactRecords := (k.state.facts.filter (·.active)).map (·.blockingRecord)

/-! ## Control -/

structure ComputeStats where
  nodesVisited : Nat := 0
  signaturesBuilt : Nat := 0
  candidateChecks : Nat := 0
  indexedBlockers : Nat := 0

/-- How often the control has been consulted, and the counters of the computation. -/
structure BlockingWork where
  polls : Nat
  stats : ComputeStats

abbrev BlockingM := EStateM BlockingError BlockingWork

/-- The answer of each consultation of the control. -/
abbrev BlockingControl := Nat → Except BlockingError Unit

namespace BlockingControl

variable (control : BlockingControl)

def poll : BlockingM Unit := do
  let work ← get
  set { work with polls := work.polls + 1 }
  ask fun _ => control work.polls

def pollEvery (interval index : Nat) : BlockingM Unit :=
  if index % interval = 0 then control.poll else pure ()

end BlockingControl

def neverCancel : BlockingControl := fun _ => .ok ()

def checkLimit (observed allowed : Nat) (limit message : String) : Except BlockingError Unit :=
  ensure (observed ≤ allowed) (.resource message limit observed allowed)

/-! ## The projection -/

/-- Two nodes in order: an edge, or a blocked node and its blocker. -/
@[ext] structure NodePair where
  first : NodeHandle
  second : NodeHandle
  deriving DecidableEq

instance : Ord NodePair := ⟨compareLex (compareOn (·.first)) (compareOn (·.second))⟩

instance : TransOrd NodePair :=
  inferInstanceAs (TransCmp (compareLex (compareOn NodePair.first) (compareOn NodePair.second)))

instance : LawfulEqOrd NodePair := ⟨fun h => (Prog.eq_of_compareLex h).elim NodePair.ext⟩

/-- An active fact that labels a node or an edge. -/
structure RelevantFact where
  predicateId : Nat
  arguments : List NodeHandle
  core : Bool
  deriving DecidableEq

def RelevantFact.cmp (a b : RelevantFact) : Ordering :=
  (compare a.predicateId b.predicateId).then
    ((compare a.arguments b.arguments).then (compare a.core.toNat b.core.toNat))

/-- What the digest covers of a node. -/
structure DigestedNode where
  node : NodeHandle
  creationId : Nat
  kind : NodeKind
  parent : Option NodeHandle
  deriving DecidableEq

def NodeRecord.digested (record : NodeRecord) : DigestedNode :=
  ⟨record.node, record.creationId, record.kind, record.parent⟩

/-- What `state_digest` hashes. -/
structure StateDigest where
  vocabulary : BlockingVocabulary
  nodes : List DigestedNode
  facts : List RelevantFact
  deriving DecidableEq

/-- The active nodes of a state, by creation, with their labels. -/
structure BlockingProjection where
  revision : Nat
  orderedNodes : List NodeHandle
  nodes : ExtTreeMap NodeHandle NodeRecord
  concepts : Index NodeHandle Nat
  coreConcepts : Index NodeHandle Nat
  roles : Index NodePair Nat
  coreRoles : Index NodePair Nat
  stateDigest : StateDigest

/-- The active records by handle. Handles and creation identifiers may not repeat. -/
def collectNodes (limits : BlockingLimits) (control : BlockingControl) :
    List (NodeRecord × Nat) → ExtTreeSet Nat → ExtTreeMap NodeHandle NodeRecord →
      BlockingM (ExtTreeMap NodeHandle NodeRecord)
  | [], _, nodes => return nodes
  | (record, index) :: rest, creations, nodes => do
    control.pollEvery limits.cancellationPollInterval index
    if record.lifecycle ≠ .active then collectNodes limits control rest creations nodes
    else
      ensure (record.node ∉ nodes)
        (.invariant "two active nodes share a generation-safe blocking key")
      ensure (record.creationId ∉ creations)
        (.invariant "two active nodes share a blocking creation ID")
      collectNodes limits control rest (creations.insert record.creationId)
        (nodes.insert record.node record)

/-- Exactly the tree nodes have a parent, and it is active too. -/
def checkParent (nodes : ExtTreeMap NodeHandle NodeRecord) (record : NodeRecord) :
    Except BlockingError Unit :=
  if record.kind = .tree then
    match record.parent with
    | none => .error (.invariant "active tree blocking node has no parent")
    | some parent => ensure (parent ∈ nodes)
      (.invariant "active tree blocking node has no active parent")
  else ensure (record.parent = none) (.invariant "non-tree node unexpectedly has a blocking parent")

/-- Creation order, handles breaking ties. -/
def creationOrder (a b : NodeRecord) : Bool :=
  ((compare a.creationId b.creationId).then (compare a.node b.node)).isLE

/-- A fact that is a label of an active node or of an edge between active nodes. -/
def FactRecord.isRelevant (fact : FactRecord) (vocabulary : BlockingVocabulary)
    (nodes : ExtTreeMap NodeHandle NodeRecord) : Bool :=
  fact.active &&
    ((fact.arguments.length = 1 && fact.predicateId ∈ vocabulary.atomicConcepts) ||
      (fact.arguments.length = 2 && fact.predicateId ∈ vocabulary.atomicObjectRoles)) &&
    fact.arguments.all (· ∈ nodes)

def FactRecord.relevant (fact : FactRecord) : RelevantFact :=
  ⟨fact.predicateId, fact.arguments, fact.core⟩

/-- The relevant facts, in the order of the store. -/
def collectFacts (vocabulary : BlockingVocabulary) (limits : BlockingLimits)
    (control : BlockingControl) (nodes : ExtTreeMap NodeHandle NodeRecord) :
    List (FactRecord × Nat) → BlockingM (List RelevantFact)
  | [] => return []
  | (fact, index) :: rest => do
    control.pollEvery limits.cancellationPollInterval index
    let found ← collectFacts vocabulary limits control nodes rest
    return if fact.isRelevant vocabulary nodes then fact.relevant :: found else found

/-- The node a unary fact labels. -/
def RelevantFact.node (fact : RelevantFact) : Option NodeHandle :=
  match fact.arguments with
  | [node] => some node
  | _ => none

/-- The edge a binary fact labels. -/
def RelevantFact.edge (fact : RelevantFact) : Option NodePair :=
  match fact.arguments with
  | [source, target] => some ⟨source, target⟩
  | _ => none

namespace BlockingProjection

/-- The projection with the given active nodes and relevant facts. -/
def build (revision : Nat) (vocabulary : BlockingVocabulary)
    (nodes : ExtTreeMap NodeHandle NodeRecord) (found : List RelevantFact) : BlockingProjection :=
  let ordered := (nodes.toList.map (·.2)).insertionSort fun a b => creationOrder a b
  let facts := (found.insertionSort fun a b => (a.cmp b).isLE).destutter (· ≠ ·)
  let coreFacts := facts.filter (·.core)
  { revision
    orderedNodes := ordered.map (·.node)
    nodes
    concepts := .collect (·.node) (·.predicateId) facts
    coreConcepts := .collect (·.node) (·.predicateId) coreFacts
    roles := .collect (·.edge) (·.predicateId) facts
    coreRoles := .collect (·.edge) (·.predicateId) coreFacts
    stateDigest := ⟨vocabulary, ordered.map (·.digested), facts⟩ }

def fromState (state : BlockingState) (vocabulary : BlockingVocabulary) (limits : BlockingLimits)
    (control : BlockingControl) : BlockingM BlockingProjection := do
  ask fun _ => limits.validate
  control.poll
  ask fun _ => checkLimit state.nodeRecords.length limits.maxNodes "blocking_nodes"
    "blocking node projection limit exceeded"
  let nodes ← collectNodes limits control state.nodeRecords.zipIdx ∅ ∅
  ask fun _ => nodes.toList.forM fun (_, record) => checkParent nodes record
  ask fun _ => checkLimit state.activeFactRecords.length limits.maxFacts "blocking_facts"
    "blocking fact projection limit exceeded"
  let found ← collectFacts vocabulary limits control nodes state.activeFactRecords.zipIdx
  -- the estimated size is reported, then the control polled once more
  control.poll
  control.poll
  return build state.revision vocabulary nodes found

variable (projection : BlockingProjection)

def conceptLabel (node : NodeHandle) (coreOnly : Bool) : List Nat :=
  ((if coreOnly then projection.coreConcepts else projection.concepts).getD node ∅).toList

def roleLabel (source target : NodeHandle) (coreOnly : Bool) : List Nat :=
  ((if coreOnly then projection.coreRoles else projection.roles).getD ⟨source, target⟩ ∅).toList

def parentOf (node : NodeHandle) : Option NodeHandle := projection.nodes[node]?.bind (·.parent)

/-- The node is projected, and older than the frontier. -/
def isBefore (frontier : Nat) (node : NodeHandle) : Bool :=
  projection.nodes[node]?.any (·.creationId < frontier)

/-- The loop of `is_ancestor`. -/
def isAncestorLoop (ancestor : NodeHandle) : Nat → NodeHandle → Bool
  | 0, _ => false
  | remaining + 1, node =>
    match projection.parentOf node with
    | none => false
    | some parent => if parent = ancestor then true else isAncestorLoop ancestor remaining parent

def isAncestor (ancestor node : NodeHandle) : Bool :=
  projection.isAncestorLoop ancestor projection.nodes.size node

def sameBlockingNode (left right : Option NodeRecord) : Bool :=
  match left, right with
  | none, none => true
  | some left, some right => left.digested = right.digested ∧ left.lifecycle = right.lifecycle
  | _, _ => false

variable (before after : BlockingProjection)

/-- The creation identifiers at which a node differs between two projections. -/
def nodeDifferences (node : NodeHandle) : List Nat :=
  let old := before.nodes[node]?
  let new := after.nodes[node]?
  (if sameBlockingNode old new then []
    else old.toList.map (·.creationId) ++ new.toList.map (·.creationId))
    ++ (if before.concepts[node]? = after.concepts[node]? ∧
          before.coreConcepts[node]? = after.coreConcepts[node]? then []
        else (old.or new).toList.map (·.creationId))

/-- The creation identifiers of the ends of an edge labelled differently. -/
def edgeDifferences (edge : NodePair) : List Nat :=
  if before.roles[edge]? = after.roles[edge]? ∧
      before.coreRoles[edge]? = after.coreRoles[edge]? then []
  else [edge.first, edge.second].flatMap fun node =>
    (before.nodes[node]?.or after.nodes[node]?).toList.map (·.creationId)

/-- The first creation identifier at which two projections differ. -/
def earliestDifference : Option Nat :=
  ((before.nodes.keys ++ after.nodes.keys).flatMap (nodeDifferences before after) ++
    (before.roles.keys ++ after.roles.keys).flatMap (edgeDifferences before after)).min?

end BlockingProjection

/-! ## Signatures -/

/-- The part of a signature a blocker has to share. -/
structure BlockingKey where
  kind : DirectCheckerKind
  nodeConcepts : List Nat
  parentConcepts : List Nat
  fromParentRoles : List Nat
  toParentRoles : List Nat
  deriving DecidableEq

def BlockingKey.code (key : BlockingKey) : List (List Nat) :=
  [[key.kind.ctorIdx], key.nodeConcepts, key.parentConcepts, key.fromParentRoles, key.toParentRoles]

instance : Ord BlockingKey := ⟨compareOn BlockingKey.code⟩

instance : TransOrd BlockingKey := inferInstanceAs (TransCmp (compareOn BlockingKey.code))

instance : LawfulEqOrd BlockingKey where
  eq_of_compare {a b} h := by
    have h' : compare a.code b.code = .eq := h
    rw [Std.compare_eq_iff_eq] at h'
    cases a with | mk ka _ _ _ _ =>
    cases b with | mk kb _ _ _ _ =>
    simp only [BlockingKey.code, List.cons.injEq, and_true] at h'
    obtain ⟨hk, rfl, rfl, rfl, rfl⟩ := h'
    cases ka <;> cases kb <;> first | rfl | cases hk

structure BlockingSignature where
  kind : DirectCheckerKind
  blockingNodeConcepts : List Nat
  blockingParentConcepts : List Nat
  blockingFromParentRoles : List Nat
  blockingToParentRoles : List Nat
  fullNodeConcepts : List Nat
  fullParentConcepts : List Nat
  fullFromParentRoles : List Nat
  fullToParentRoles : List Nat
  deriving DecidableEq

namespace BlockingSignature

variable (signature : BlockingSignature)

/-- The labels of a signature with their names. -/
def labels : List (String × List Nat) :=
  [("blocking_node_concepts", signature.blockingNodeConcepts),
    ("blocking_parent_concepts", signature.blockingParentConcepts),
    ("blocking_from_parent_roles", signature.blockingFromParentRoles),
    ("blocking_to_parent_roles", signature.blockingToParentRoles),
    ("full_node_concepts", signature.fullNodeConcepts),
    ("full_parent_concepts", signature.fullParentConcepts),
    ("full_from_parent_roles", signature.fullFromParentRoles),
    ("full_to_parent_roles", signature.fullToParentRoles)]

/-- `BlockingSignature::new`: every label is sorted. -/
def new : Except BlockingError BlockingSignature := do
  signature.labels.forM fun (name, values) =>
    ensure (values.Pairwise (· < ·)) (.invalid s!"{name} must be sorted and unique")
  return signature

def blockingKey : BlockingKey where
  kind := signature.kind
  nodeConcepts := signature.blockingNodeConcepts
  parentConcepts := signature.blockingParentConcepts
  fromParentRoles := signature.blockingFromParentRoles
  toParentRoles := signature.blockingToParentRoles

def blocks (signature other : BlockingSignature) : Bool :=
  signature.kind = other.kind &&
    signature.blockingNodeConcepts = other.blockingNodeConcepts &&
    signature.blockingParentConcepts = other.blockingParentConcepts &&
    signature.blockingFromParentRoles = other.blockingFromParentRoles &&
    signature.blockingToParentRoles = other.blockingToParentRoles

end BlockingSignature

/-! ## Direct checkers -/

/-- The record is that of an active tree node. -/
def NodeRecord.isActiveTree (record : NodeRecord) : Bool :=
  record.lifecycle = .active && record.kind = .tree

structure DirectChecker where
  kind : DirectCheckerKind
  vocabulary : BlockingVocabulary
  hasInverses : Bool

namespace DirectChecker

variable (checker : DirectChecker) (projection : BlockingProjection)

def needsTreeParent : Bool :=
  checker.kind = .pairwise || (checker.kind.validated && checker.hasInverses)

variable (node : NodeHandle)

/-- An active tree node; below another one when the checker looks at the parent. -/
def eligible : Bool :=
  projection.nodes[node]?.any fun record =>
    record.isActiveTree && (!checker.needsTreeParent ||
      (record.parent.bind (projection.nodes[·]?)).any (·.isActiveTree))

def canBeBlocker : Bool := checker.eligible projection node

def canBeBlocked : Bool := checker.eligible projection node

def parent (node : NodeHandle) : Except BlockingError NodeHandle :=
  match projection.parentOf node with
  | some parent => .ok parent
  | none => .error (.invariant "tree blocking signature requires a parent")

def signature : Except BlockingError BlockingSignature := do
  ensure (checker.canBeBlocked projection node = true)
    (.invalid "node is not eligible for the selected direct blocking checker")
  let concepts := projection.conceptLabel node false
  match checker.kind with
  | .single =>
    BlockingSignature.new
      { kind := checker.kind
        blockingNodeConcepts := concepts, blockingParentConcepts := []
        blockingFromParentRoles := [], blockingToParentRoles := []
        fullNodeConcepts := concepts, fullParentConcepts := []
        fullFromParentRoles := [], fullToParentRoles := [] }
  | .pairwise =>
    let parent ← parent projection node
    BlockingSignature.new
      { kind := checker.kind
        blockingNodeConcepts := concepts
        blockingParentConcepts := projection.conceptLabel parent false
        blockingFromParentRoles := projection.roleLabel parent node false
        blockingToParentRoles := projection.roleLabel node parent false
        fullNodeConcepts := concepts
        fullParentConcepts := projection.conceptLabel parent false
        fullFromParentRoles := projection.roleLabel parent node false
        fullToParentRoles := projection.roleLabel node parent false }
  | .validatedSingle =>
    let parent ← parent projection node
    BlockingSignature.new
      { kind := checker.kind
        blockingNodeConcepts := projection.conceptLabel node true, blockingParentConcepts := []
        blockingFromParentRoles := [], blockingToParentRoles := []
        fullNodeConcepts := concepts
        fullParentConcepts := projection.conceptLabel parent false
        fullFromParentRoles := projection.roleLabel parent node false
        fullToParentRoles := projection.roleLabel node parent false }
  | .validatedPairwise =>
    let parent ← parent projection node
    BlockingSignature.new
      { kind := checker.kind
        blockingNodeConcepts := projection.conceptLabel node true
        blockingParentConcepts := projection.conceptLabel parent true
        blockingFromParentRoles := [], blockingToParentRoles := []
        fullNodeConcepts := concepts
        fullParentConcepts := projection.conceptLabel parent false
        fullFromParentRoles := projection.roleLabel parent node false
        fullToParentRoles := projection.roleLabel node parent false }

end DirectChecker

end PyHermit
