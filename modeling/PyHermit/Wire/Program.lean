import Mathlib
import PyHermit.Wire.Bytes
import PyHermit.Rules.Program

/-!
# Decoded programs

The records a program document is decoded to, and `validate_decoded_program`. The validators
index into the predicate table and into annotations after having checked, sometimes in
another function, that the index is there.
-/

open Prog Fault

namespace PyHermit.Wire

inductive SymbolKind where
  | entity | classExpression | dataRange | objectRole | dataProperty | individual | sourceLiteral
  | dataValue
  deriving DecidableEq

def SymbolKind.parse : Nat → InputResult SymbolKind
  | 0 => .ok entity
  | 1 => .ok classExpression
  | 2 => .ok dataRange
  | 3 => .ok objectRole
  | 4 => .ok dataProperty
  | 5 => .ok individual
  | 6 => .ok sourceLiteral
  | 7 => .ok dataValue
  | _ => .error (wire "symbol kind discriminant is invalid")

def SymbolKind.code : SymbolKind → Nat
  | entity => 0
  | classExpression => 1
  | dataRange => 2
  | objectRole => 3
  | dataProperty => 4
  | individual => 5
  | sourceLiteral => 6
  | dataValue => 7

/-- `[u32; 8]`, indexed by kind. -/
abbrev DomainCounts := SymbolKind → Nat

def parseTermSort : Nat → InputResult TermSort
  | 0 => .ok .object
  | 1 => .ok .data
  | _ => .error (wire "term sort discriminant is invalid")

def parsePredicateKind : Nat → InputResult PredicateKind
  | 0 => .ok .concept
  | 1 => .ok .negatedConcept
  | 2 => .ok .nominal
  | 3 => .ok .negatedNominal
  | 4 => .ok .objectRole
  | 5 => .ok .negatedObjectRole
  | 6 => .ok .dataRole
  | 7 => .ok .negatedDataRole
  | 8 => .ok .dataRange
  | 9 => .ok .negatedDataRange
  | 10 => .ok .equality
  | 11 => .ok .inequality
  | 12 => .ok .atLeastObject
  | 13 => .ok .atLeastData
  | 14 => .ok .annotatedEquality
  | 15 => .ok .automatonState
  | 16 => .ok .disjointGuard
  | 17 => .ok .orderingGuard
  | 18 => .ok .namedIndividual
  | _ => .error (wire "predicate kind discriminant is invalid")

structure DecodedSymbolValue where
  identifier : Nat
  key : Bytes
  display : String
  generated : Bool
  queryLocal : Bool

structure DecodedSymbolDomain where
  kind : SymbolKind
  values : List DecodedSymbolValue

structure DecodedPredicate where
  predicateId : Nat
  kind : PredicateKind
  argumentSorts : List TermSort
  symbolId : Option Nat
  roleId : Option Nat
  cardinality : Option Nat
  fillerPredicateId : Option Nat
  annotation : List Nat
  internalKey : Option String

inductive DecodedTerm where
  | var (index : Nat) (sort : TermSort)
  | individual (individualId : Nat)
  | data (sourceLiteralId dataIdentityId : Nat)
  deriving DecidableEq

namespace DecodedTerm

def sort : DecodedTerm → TermSort
  | var _ sort => sort
  | individual _ => .object
  | data _ _ => .data

def isVariable : DecodedTerm → Bool
  | var _ _ => true
  | _ => false

end DecodedTerm

structure DecodedAtom where
  predicateId : Nat
  arguments : List DecodedTerm
  deriving DecidableEq

structure DecodedGroundAtom where
  predicateId : Nat
  arguments : List DecodedTerm
  provenanceIds : List Nat

structure DecodedClause where
  clauseId : Nat
  body : List DecodedAtom
  head : List DecodedAtom
  provenanceIds : List Nat
  joinOrder : List Nat

structure DecodedGroundDisjunction where
  disjunctionId : Nat
  disjuncts : List DecodedGroundAtom
  provenanceIds : List Nat

structure DecodedProvenanceEntry where
  provenanceId : Nat
  sourceSha256 : List Bytes
  generated : Bool

structure DecodedRoleTransition where
  sourceState : Nat
  targetState : Nat
  roleId : Option Nat

structure DecodedRoleAutomaton where
  componentId : Nat
  stateCount : Nat
  initialState : Nat
  finalStates : List Nat
  transitions : List DecodedRoleTransition

structure DecodedRoleModel where
  objectRoleCount : Nat
  dataPropertyCount : Nat
  inverseRoleIds : List Nat
  simpleInclusions : List (Nat × Nat)
  dataInclusions : List (Nat × Nat)
  complexInclusions : List (List Nat × Nat)
  nonSimpleComponents : List Nat
  automata : List DecodedRoleAutomaton
  topObjectRoleId : Nat
  bottomObjectRoleId : Nat
  topDataPropertyId : Nat
  bottomDataPropertyId : Nat

structure DecodedLiteralIdentity where
  sourceLiteralId : Nat
  dataIdentityId : Nat
  comparisonKey : String
  semanticPayloadJson : String

structure DecodedDatatypeModel where
  literalIdentities : List DecodedLiteralIdentity
  datatypeDefinitions : List (Nat × Nat)
  unknownDatatypeIds : List Nat
  semanticPayloadJson : String

structure DecodedExpressivity where
  inverseRoles : Bool
  nominals : Bool
  datatypes : Bool
  unknownDatatypes : Bool
  complexRoles : Bool
  numberRestrictions : Bool
  keys : Bool
  nonHorn : Bool
  bottomProperties : Bool
  abox : Bool

structure DecodedProgram where
  symbolDomains : List DecodedSymbolDomain
  predicates : List DecodedPredicate
  clauses : List DecodedClause
  positiveFacts : List DecodedGroundAtom
  negativeFacts : List DecodedGroundAtom
  groundDisjunctions : List DecodedGroundDisjunction
  roleModel : DecodedRoleModel
  datatypeModel : DecodedDatatypeModel
  expressivity : DecodedExpressivity
  provenance : List DecodedProvenanceEntry

def DecodedProgram.domain (program : DecodedProgram) (kind : SymbolKind) :
    Option DecodedSymbolDomain :=
  program.symbolDomains.find? (·.kind = kind)

/-- The symbol domains in the order of their Python names. -/
def expectedDomains : List SymbolKind :=
  [.classExpression, .dataProperty, .dataRange, .dataValue, .entity, .individual, .objectRole,
    .sourceLiteral]

/-! ## Predicates -/

def validatePredicateArity (kind : PredicateKind) (sorts : List TermSort) : InputResult Unit :=
  let valid := match kind with
    | .concept | .negatedConcept | .nominal | .negatedNominal | .atLeastObject | .atLeastData
    | .automatonState | .disjointGuard | .namedIndividual => sorts.length == 1
    | .objectRole | .negatedObjectRole | .dataRole | .negatedDataRole | .equality | .inequality
    | .orderingGuard => sorts.length == 2
    | .dataRange | .negatedDataRange => !sorts.isEmpty
    | .annotatedEquality => sorts.length == 3
  ensure (valid = true) (wire "predicate arity does not match its kind")

section Shape

variable (predicate : DecodedPredicate) (domainCounts : DomainCounts)

/-- The argument sorts of a predicate whose arity has been checked. -/
def validatePredicateSorts : InputResult Unit := do
  ensure (predicate.kind ∈ [.concept, .negatedConcept, .nominal, .negatedNominal, .atLeastObject,
        .atLeastData, .automatonState, .disjointGuard, .namedIndividual] →
      predicate.argumentSorts = [.object])
    (wire "object-unary predicate has an invalid sort")
  ensure (predicate.kind ∈ [.dataRange, .negatedDataRange] →
      ∀ sort ∈ predicate.argumentSorts, sort = .data)
    (wire "data-range predicate has an object sort")
  match predicate.kind with
  | .objectRole | .negatedObjectRole =>
    ensure (predicate.argumentSorts = [.object, .object])
      (wire "object-role predicate sorts are invalid")
  | .dataRole | .negatedDataRole =>
    ensure (predicate.argumentSorts = [.object, .data])
      (wire "data-role predicate sorts are invalid")
  | .equality | .inequality | .orderingGuard =>
    ensure ((← index predicate.argumentSorts 0) = (← index predicate.argumentSorts 1))
      (wire "equality/ordering predicate mixes term sorts")
  | .annotatedEquality =>
    ensure (predicate.argumentSorts = [.object, .object, .object])
      (wire "annotated-equality predicate sorts are invalid")
  | _ => return ()

/-- Cardinality, filler, role and symbol fields are there exactly for the kinds that
carry them. -/
def validatePredicateFields : InputResult Unit := do
  let kind := predicate.kind
  if kind.hasCardinality then
    ensure (predicate.cardinality ≠ some 0 ∧ predicate.cardinality ≠ none ∧
      predicate.roleId ≠ none ∧
        predicate.fillerPredicateId ≠ none)
      (wire "cardinality predicate fields are incomplete")
  else
    ensure (predicate.cardinality = none ∧ predicate.fillerPredicateId = none)
      (wire "non-cardinality predicate carries cardinality fields")
  ensure (kind.hasRole = true → predicate.roleId ≠ none) (wire "role predicate has no role ID")
  ensure (kind.hasRole = false → kind.hasCardinality = false → predicate.roleId = none)
    (wire "predicate kind cannot carry a role ID")
  if kind ∈ [.concept, .negatedConcept, .nominal, .negatedNominal] then
    ensure (∃ value ∈ predicate.symbolId, value < domainCounts .classExpression)
      (wire "concept predicate symbol ID is absent or dangling")
  else if kind ∈ [.dataRange, .negatedDataRange] then
    ensure (∃ value ∈ predicate.symbolId, value < domainCounts .dataRange)
      (wire "data-range predicate symbol ID is absent or dangling")
  else
    ensure (predicate.symbolId = none) (wire "predicate kind cannot carry a symbol ID")

def validatePredicateAnnotations : InputResult Unit := do
  let kind := predicate.kind
  ensure (kind.hasAnnotation = true ∨ predicate.annotation = [])
    (wire "predicate kind cannot carry annotations")
  if kind ∈ [.nominal, .negatedNominal] then
    ensure (predicate.annotation ≠ []) (wire "nominal annotation is empty")
    validateSortedUnique compare predicate.annotation "nominal annotation"
    ensure (∀ value ∈ predicate.annotation, value < domainCounts .individual)
      (wire "nominal individual ID is dangling")
  ensure (kind = .atLeastData →
    predicate.annotation ≠ [] ∧ predicate.annotation.head? = predicate.roleId)
    (wire "data at-least annotation does not begin with its role")
  ensure (kind = .automatonState → predicate.annotation.length = 2)
    (wire "automaton-state annotation must have component/state IDs")
  ensure (kind = .disjointGuard → predicate.annotation.length = 1)
    (wire "disjoint-guard annotation must have one ID")

def orderingKey : TermSort → String
  | .object => "canonical-object-order"
  | .data => "canonical-data-order"

def validatePredicateKey : InputResult Unit := do
  ensure (predicate.kind.isInternal = predicate.internalKey.isSome)
    (wire "predicate internal-key presence does not match its kind")
  if predicate.kind = .orderingGuard then
    let expected := orderingKey (← index predicate.argumentSorts 0)
    ensure (predicate.internalKey = some expected)
      (wire "ordering-guard internal key is noncanonical")

def validatePredicateShape : InputResult Unit := do
  validatePredicateSorts predicate
  validatePredicateFields predicate domainCounts
  validatePredicateAnnotations predicate domainCounts
  validatePredicateKey predicate

end Shape

/-- The filler of a cardinality predicate is another predicate of the table. -/
def validateFiller (predicates : List DecodedPredicate) (predicate : DecodedPredicate) :
    InputResult Unit :=
  match predicate.fillerPredicateId with
  | some filler => do
    ensure (filler ≠ predicate.predicateId)
      (wire "cardinality filler predicate ID is dangling or self-referential")
    ensure ((← usizeFromU32 filler "filler predicate") < predicates.length)
      (wire "cardinality filler predicate ID is dangling or self-referential")
  | none => return ()

/-! ## Cross references -/

section CrossReferences

variable (predicates : List DecodedPredicate) (roles : DecodedRoleModel)
  (predicate : DecodedPredicate)

def validateRoleReference : InputResult Unit :=
  match predicate.roleId with
  | some roleId =>
    let limit :=
      if predicate.kind ∈ [.dataRole, .negatedDataRole, .atLeastData] then roles.dataPropertyCount
      else roles.objectRoleCount
    ensure (roleId < limit) (wire "predicate role ID is dangling")
  | none => return ()

/-- An automaton-state predicate names a state of an automaton. The table the source
builds keeps the last automaton of a component. -/
def validateAutomatonState : InputResult Unit := do
  let component ← index predicate.annotation 0
  let state ← index predicate.annotation 1
  let found := roles.automata.reverse.find? fun automaton => automaton.componentId = component
  ensure (∃ automaton ∈ found, state < automaton.stateCount)
    (wire "automaton-state predicate is dangling")

def validateFillerShape : InputResult Unit :=
  match predicate.fillerPredicateId with
  | some fillerId => do
    let filler ← index predicates (← usizeFromU32 fillerId "filler predicate")
    ensure (predicate.kind ∈ [.atLeastObject, .annotatedEquality] →
        filler.kind ∈ [.concept, .negatedConcept, .nominal, .negatedNominal])
      (wire "object-cardinality filler is not an object concept")
    ensure (predicate.kind = .atLeastData → filler.kind ∈ [.dataRange, .negatedDataRange] ∧
        filler.argumentSorts.length = predicate.annotation.length)
      (wire "data-cardinality filler shape is invalid")
  | none => return ()

def validatePredicateReferences : InputResult Unit := do
  validateRoleReference roles predicate
  ensure (predicate.kind = .atLeastData →
      ∀ value ∈ predicate.annotation, value < roles.dataPropertyCount)
    (wire "data at-least role tuple is dangling")
  if predicate.kind = .automatonState then
    validateAutomatonState roles predicate
  validateFillerShape predicates predicate

def validatePredicateCrossReferences (datatypes : DecodedDatatypeModel)
    (domainCounts : DomainCounts) : InputResult Unit := do
  forM predicates (validatePredicateReferences predicates roles)
  ensure (datatypes.literalIdentities.length =
      (← usizeFromU32 (domainCounts .sourceLiteral) "literal count"))
    (wire "datatype literal identity coverage is inconsistent")

end CrossReferences

/-! ## Roles -/

def transitionKey (value : DecodedRoleTransition) : Nat × Nat × Nat :=
  (value.sourceState, value.roleId.getD u32None, value.targetState)

def compareTransitions : DecodedRoleTransition → DecodedRoleTransition → Ordering :=
  compareOn (fun value => (transitionKey value).1) |> compareLex <|
    compareLex (compareOn fun value => (transitionKey value).2.1)
      (compareOn fun value => (transitionKey value).2.2)

/-- Every role has an inverse, whose inverse is the role. -/
def validateInverse (inverseRoleIds : List Nat) (entry : Nat × Nat) : InputResult Unit := do
  let inverseIndex ← usizeFromU32 entry.1 "inverse role ID"
  ensure (inverseRoleIds[inverseIndex]? = some (clampU32 entry.2))
    (wire "inverse role map is not an involution")

def validateAutomaton (roles : DecodedRoleModel) (entry : DecodedRoleAutomaton × Nat) :
    InputResult Unit := do
  let (automaton, position) := entry
  ensure (automaton.componentId < roles.objectRoleCount ∧ automaton.stateCount ≠ 0 ∧
      automaton.initialState < automaton.stateCount ∧ automaton.finalStates ≠ [] ∧
      ∀ state ∈ automaton.finalStates, state < automaton.stateCount)
    (wire "role automaton header is invalid")
  validateSortedUnique compare automaton.finalStates "role automaton final states"
  if 0 < position then
    let previous ← index roles.automata (position - 1)
    ensure (previous.componentId < automaton.componentId)
      (wire "role automata are not canonically ordered")
  ensure (ascending compareTransitions automaton.transitions = true ∧
      ∀ transition ∈ automaton.transitions, transition.sourceState < automaton.stateCount ∧
        transition.targetState < automaton.stateCount ∧
        ∀ role ∈ transition.roleId, role < roles.objectRoleCount)
    (wire "role automaton transitions are dangling or noncanonical")

def validateRoleModelValue (roles : DecodedRoleModel) : InputResult Unit := do
  ensure (roles.objectRoleCount ≠ 0 ∧ roles.dataPropertyCount ≠ 0)
    (wire "role-model counts omit required built-ins")
  ensure (roles.inverseRoleIds.length = (← usizeFromU32 roles.objectRoleCount "object role count"))
    (wire "inverse role map is incomplete or dangling")
  ensure (∀ value ∈ roles.inverseRoleIds, value < roles.objectRoleCount)
    (wire "inverse role map is incomplete or dangling")
  forM roles.inverseRoleIds.zipIdx (validateInverse roles.inverseRoleIds)
  validateSortedUnique comparePairs roles.simpleInclusions "object role inclusions"
  validateSortedUnique comparePairs roles.dataInclusions "data role inclusions"
  validateSortedUnique comparePairs roles.complexInclusions "complex role inclusions"
  validateSortedUnique compare roles.nonSimpleComponents "non-simple role components"
  ensure ((∀ pair ∈ roles.simpleInclusions,
        pair.1 < roles.objectRoleCount ∧ pair.2 < roles.objectRoleCount) ∧
      (∀ pair ∈ roles.dataInclusions,
        pair.1 < roles.dataPropertyCount ∧ pair.2 < roles.dataPropertyCount) ∧
      (∀ inclusion ∈ roles.complexInclusions, 2 ≤ inclusion.1.length ∧
        inclusion.2 < roles.objectRoleCount ∧
        ∀ identifier ∈ inclusion.1, identifier < roles.objectRoleCount) ∧
      ∀ identifier ∈ roles.nonSimpleComponents, identifier < roles.objectRoleCount)
    (wire "role-model inclusion or component reference is dangling")
  ensure (roles.topObjectRoleId < roles.objectRoleCount ∧
      roles.bottomObjectRoleId < roles.objectRoleCount ∧
      roles.topDataPropertyId < roles.dataPropertyCount ∧
      roles.bottomDataPropertyId < roles.dataPropertyCount)
    (wire "role-model built-in ID is dangling")
  forM roles.automata.zipIdx (validateAutomaton roles)

/-! ## Datatypes -/

section

variable (platform : Platform)

def validateLiteralIdentity (dataValueCount : Nat) (entry : DecodedLiteralIdentity × Nat) :
    InputResult Unit := do
  let (literal, identifier) := entry
  ensure (literal.sourceLiteralId = identifier ∧ literal.dataIdentityId < dataValueCount ∧
      literal.comparisonKey ≠ "")
    (wire "literal identity source/data ID is not dense or is dangling")
  let _ ← validateCanonicalJsonText platform literal.semanticPayloadJson "literal semantic payload"

def validateDatatypeModelValue (datatypes : DecodedDatatypeModel) (domainCounts : DomainCounts) :
    InputResult Unit := do
  let dataRangeCount := domainCounts .dataRange
  ensure (datatypes.literalIdentities.length =
      (← usizeFromU32 (domainCounts .sourceLiteral) "literal count"))
    (wire "datatype identities do not cover source literals densely")
  forM datatypes.literalIdentities.zipIdx
    (validateLiteralIdentity platform (domainCounts .dataValue))
  validateSortedUnique comparePairs datatypes.datatypeDefinitions "datatype definitions"
  ensure (∀ pair ∈ datatypes.datatypeDefinitions, pair.1 < dataRangeCount ∧ pair.2 < dataRangeCount)
    (wire "datatype definition ID is dangling")
  validateSortedUnique compare datatypes.unknownDatatypeIds "unknown datatype IDs"
  ensure (∀ value ∈ datatypes.unknownDatatypeIds, value < dataRangeCount)
    (wire "unknown datatype ID is dangling")
  let semantic ← validateCanonicalJsonText platform datatypes.semanticPayloadJson
    "datatype semantic payload"
  let semanticCount ← ofOption (platform.dataRanges semantic)
    (wire "datatype semantic payload has no data_ranges collection")
  ensure (semanticCount = (← usizeFromU32 dataRangeCount "data range count"))
    (wire "datatype semantic payload does not cover the data-range domain")

end

/-! ## Atoms -/

/-- The sizes of the domains a term may refer to. -/
structure TermBounds where
  individualCount : Nat
  literalCount : Nat
  dataValueCount : Nat

def DomainCounts.termBounds (counts : DomainCounts) : TermBounds :=
  { individualCount := counts .individual
    literalCount := counts .sourceLiteral
    dataValueCount := counts .dataValue }

def validateArgument (bounds : TermBounds) (ground : Bool) (pair : DecodedTerm × TermSort) :
    InputResult Unit := do
  let (argument, expectedSort) := pair
  ensure (argument.sort = expectedSort) (wire "atom argument sort does not match its predicate")
  match argument with
  | .var _ _ => ensure (ground = false) (wire "ground atom contains a variable")
  | .individual individualId =>
    ensure (individualId < bounds.individualCount) (wire "atom individual ID is dangling")
  | .data sourceLiteralId dataIdentityId =>
    ensure (sourceLiteralId < bounds.literalCount ∧ dataIdentityId < bounds.dataValueCount)
      (wire "atom literal/data identity ID is dangling")

def validateArgumentList (arguments : List DecodedTerm) (predicate : DecodedPredicate)
    (bounds : TermBounds) (ground : Bool) : InputResult Unit := do
  ensure (arguments.length = predicate.argumentSorts.length)
    (wire "atom arity does not match its predicate")
  forM (arguments.zip predicate.argumentSorts) (validateArgument bounds ground)

def validateOwnedProvenance (values : List Nat) (count : Nat) (name : String) :
    InputResult Unit := do
  ensure (values ≠ [] ∧ ∀ value ∈ values, value < count)
    (wire (name ++ " provenance is empty or dangling"))
  validateSortedUnique compare values (name ++ " provenance")

section Atoms

variable (predicates : List DecodedPredicate) (bounds : TermBounds)

def validateOwnedAtom (ground : Bool) (atom : DecodedAtom) : InputResult Unit := do
  let predicate ← ofOption predicates[← usizeFromU32 atom.predicateId "atom predicate ID"]?
    (wire "atom predicate ID is dangling")
  validateArgumentList atom.arguments predicate bounds ground

def validateOwnedGroundAtom (provenanceCount : Nat) (atom : DecodedGroundAtom) :
    InputResult Unit := do
  let predicate ← ofOption predicates[← usizeFromU32 atom.predicateId "ground atom predicate ID"]?
    (wire "ground atom predicate ID is dangling")
  validateArgumentList atom.arguments predicate bounds true
  validateOwnedProvenance atom.provenanceIds provenanceCount "ground atom"

end Atoms

def isNegativeFactKind (kind : PredicateKind) : Bool :=
  kind ∈ [.negatedConcept, .negatedNominal, .negatedObjectRole, .negatedDataRole, .negatedDataRange]

/-! ## Expressivity -/

section Expressivity

variable (program : DecodedProgram)

/-- An atom of one of the lists has a predicate of the kind. -/
def anyOfKind (atoms : List DecodedAtom) (kind : PredicateKind) : InputResult Bool :=
  atoms.anyM fun atom => do
    return (← index program.predicates atom.predicateId).kind = kind

/-- The clause has the shape of a compiled key. -/
def isKeyClause (clause : DecodedClause) : InputResult Bool := do
  if ← anyOfKind program clause.body .namedIndividual then
    if ← anyOfKind program clause.body .orderingGuard then
      anyOfKind program clause.head .equality
    else return false
  else return false

def observedNonHorn : Bool :=
  !program.groundDisjunctions.isEmpty || program.clauses.any (1 < ·.head.length)

def observedNominals : Bool := program.predicates.any (·.kind ∈ [.nominal, .negatedNominal])

def observedDatatypes : Bool :=
  !program.datatypeModel.literalIdentities.isEmpty ||
    !program.datatypeModel.datatypeDefinitions.isEmpty ||
    !program.datatypeModel.unknownDatatypeIds.isEmpty ||
    program.predicates.any fun predicate =>
      predicate.kind ∈ [.dataRange, .negatedDataRange, .atLeastData] ||
        (predicate.kind ∈ [.dataRole, .negatedDataRole] &&
          predicate.roleId ≠ some program.roleModel.bottomDataPropertyId)

def observedComplexRoles : Bool :=
  !program.roleModel.complexInclusions.isEmpty || !program.roleModel.automata.isEmpty

def observedCardinality : Bool := program.predicates.any (·.kind.hasCardinality)

def validateExpressivityValue : InputResult Unit := do
  let observedKeys ← program.clauses.anyM (isKeyClause program)
  ensure (observedNonHorn program = true → program.expressivity.nonHorn = true)
    (wire "expressivity incorrectly marks a non-Horn program as Horn")
  ensure (observedNominals program = true → program.expressivity.nominals = true)
    (wire "expressivity omits compiled nominals")
  ensure (observedDatatypes program = true → program.expressivity.datatypes = true)
    (wire "expressivity omits compiled datatype constraints")
  ensure (program.datatypeModel.unknownDatatypeIds ≠ [] →
    program.expressivity.unknownDatatypes = true)
    (wire "expressivity omits unknown datatype restrictions")
  ensure (observedComplexRoles program = true → program.expressivity.complexRoles = true)
    (wire "expressivity omits complex role clauses or automata")
  ensure (observedCardinality program = true → program.expressivity.numberRestrictions = true)
    (wire "expressivity omits compiled number restrictions")
  ensure (observedKeys = true → program.expressivity.keys = true)
    (wire "expressivity omits compiled keys")

end Expressivity

/-! ## Programs -/

/-- One symbol domain; its size is entered into the counts. -/
def validateDomain (counts : DomainCounts) (domain : DecodedSymbolDomain) :
    InputResult DomainCounts := do
  ensure (domain.values.length ≤ u32Max) (resource "symbol domain exceeds u32")
  ensure (∀ entry ∈ domain.values.zipIdx,
      entry.1.identifier = entry.2 ∧ entry.1.key ≠ [] ∧ entry.1.display ≠ "")
    (wire "program symbol values are not dense or contain empty identities")
  return fun kind => if kind = domain.kind then domain.values.length else counts kind

variable (predicates : List DecodedPredicate)

def validatePredicate (counts : DomainCounts)
    (entry : DecodedPredicate × Nat) : InputResult Unit := do
  let (predicate, identifier) := entry
  ensure (predicate.predicateId = identifier) (wire "predicate IDs are not dense")
  validatePredicateArity predicate.kind predicate.argumentSorts
  validatePredicateShape predicate counts
  validateFiller predicates predicate

def compareProvenance : DecodedProvenanceEntry → DecodedProvenanceEntry → Ordering :=
  compareLex (compareOn (·.sourceSha256)) (compareOn (·.generated))

def validateProvenance (provenance : List DecodedProvenanceEntry)
    (indexed : DecodedProvenanceEntry × Nat) : InputResult Unit := do
  let (entry, identifier) := indexed
  ensure (entry.provenanceId = identifier ∧ entry.sourceSha256 ≠ [])
    (wire "program provenance IDs or digest ranges are invalid")
  validateSortedUnique compare entry.sourceSha256 "provenance digests"
  if 0 < identifier then
    let previous ← index provenance (identifier - 1)
    ensure (compareProvenance previous entry = .lt)
      (wire "program provenance entries are not canonical")

def validateJoinPosition (clause : DecodedClause) (entry : Nat × Nat) : InputResult Unit := do
  let (value, position) := entry
  ensure (value < clause.body.length) (wire "clause join order is not a body permutation")
  let earlier ← slice clause.joinOrder 0 position
  ensure (value ∉ earlier) (wire "clause join order is not a body permutation")

variable (bounds : TermBounds) (provenanceCount : Nat)

def validateClause (entry : DecodedClause × Nat) : InputResult Unit := do
  let (clause, identifier) := entry
  ensure (clause.clauseId = identifier ∧ ¬ (clause.body = [] ∧ clause.head = []))
    (wire "clause IDs are not dense or contain an empty rule")
  validateOwnedProvenance clause.provenanceIds provenanceCount "clause"
  forM (clause.body ++ clause.head) (validateOwnedAtom predicates bounds false)
  ensure (∀ atom ∈ clause.body, atom ∉ clause.head) (wire "program contains a tautological clause")
  ensure (clause.joinOrder.length = clause.body.length)
    (wire "clause join order length does not match its body")
  forM clause.joinOrder.zipIdx (validateJoinPosition clause)

def validateFact (negative : Bool) (fact : DecodedGroundAtom) : InputResult Unit := do
  validateOwnedGroundAtom predicates bounds provenanceCount fact
  let predicate ← index predicates (← usizeFromU32 fact.predicateId "ground fact predicate")
  ensure (isNegativeFactKind predicate.kind = negative)
    (wire "ground fact is stored in the wrong polarity partition")

def validateDisjunction (entry : DecodedGroundDisjunction × Nat) : InputResult Unit := do
  let (disjunction, identifier) := entry
  ensure (disjunction.disjunctionId = identifier ∧ 2 ≤ disjunction.disjuncts.length)
    (wire "ground disjunction IDs or arity are invalid")
  validateOwnedProvenance disjunction.provenanceIds provenanceCount "ground disjunction"
  forM disjunction.disjuncts fun disjunct => do
    validateOwnedGroundAtom predicates bounds provenanceCount disjunct
    ensure (disjunct.provenanceIds = disjunction.provenanceIds)
      (wire "ground disjunct provenance differs from its disjunction")

def validateDecodedProgram (platform : Platform) (program : DecodedProgram) : InputResult Unit := do
  ensure (program.symbolDomains.map (·.kind) = expectedDomains)
    (wire "program symbol domains are not complete and canonical")
  let counts ← program.symbolDomains.foldlM validateDomain fun _ => 0
  forM program.predicates.zipIdx (validatePredicate program.predicates counts)
  validateRoleModelValue program.roleModel
  validateDatatypeModelValue platform program.datatypeModel counts
  validatePredicateCrossReferences program.predicates program.roleModel program.datatypeModel counts
  forM program.provenance.zipIdx (validateProvenance program.provenance)
  let bounds := counts.termBounds
  ensure (program.provenance.length ≤ u32Max) (resource "provenance count exceeds u32")
  let provenanceCount := program.provenance.length
  forM program.clauses.zipIdx (validateClause program.predicates bounds provenanceCount)
  forM program.positiveFacts (validateFact program.predicates bounds provenanceCount false)
  forM program.negativeFacts (validateFact program.predicates bounds provenanceCount true)
  forM program.groundDisjunctions.zipIdx
    (validateDisjunction program.predicates bounds provenanceCount)
  validateExpressivityValue program

end PyHermit.Wire
