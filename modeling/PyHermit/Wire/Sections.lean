import PyHermit.Wire.Document
import PyHermit.Wire.Program

/-!
# Decoding the sections of a program

`decode_program` and the decoders of its sections. Each loop of the source is a `mapM` or a
`foldlM` over the records of one section, with the body of the loop as a definition of its
own. Identifiers are ranges into other sections, checked where they are used.
-/

open Prog Fault

namespace PyHermit.Wire

section

variable (platform : Platform)

/-! ## Symbols -/

def decodeSymbol (kind : SymbolKind) (strings blobs : Bytes) (entry : Bytes × Nat) :
    InputResult DecodedSymbolValue := do
  let (symbol, identifier) := entry
  ensure ((← readU32 symbol 0) = clampU32 identifier) (wire "symbol ID/kind/flags are noncanonical")
  ensure ((← index symbol 4).toNat = kind.code) (wire "symbol ID/kind/flags are noncanonical")
  ensure ((← readU16 symbol 6) = 0) (wire "symbol ID/kind/flags are noncanonical")
  let flags := (← index symbol 5).toNat
  ensure (flags < 4) (wire "symbol ID/kind/flags are noncanonical")
  let key ← readBytes blobs (← readU32 symbol 8) (← readU32 symbol 12)
  ensure (key ≠ []) (wire "symbol key is empty")
  let display ← readString strings (← readU32 symbol 16) (← readU32 symbol 20) false
  return { identifier := clampU32 identifier, key, display
           generated := flags.testBit 0, queryLocal := flags.testBit 1 }

/-- What the loop over the symbol domains carries. -/
structure DomainScan where
  domains : List DecodedSymbolDomain := []
  counts : DomainCounts := fun _ => 0
  seen : List SymbolKind := []
  expectedFirst : Nat := 0

def decodeDomain (symbolRecords : List Bytes) (strings blobs : Bytes) (scan : DomainScan)
    (record : Bytes) : InputResult DomainScan := do
  let kind ← SymbolKind.parse (← index record 0).toNat
  ensure ((← slice record 1 4).all (· == 0) = true)
    (wire "symbol domain has reserved bytes or duplicate kind")
  ensure (kind ∉ scan.seen) (wire "symbol domain has reserved bytes or duplicate kind")
  let first ← readU32 record 4
  let count ← readU32 record 8
  ensure (first = scan.expectedFirst) (wire "symbol domains are not contiguous in canonical order")
  let recordsForDomain ← sliceRange symbolRecords first count "symbol domain records"
  reserveCount platform count "symbol values"
  let values ← recordsForDomain.zipIdx.mapM (decodeSymbol kind strings blobs)
  let expectedFirst ← ofOption (checkedAdd u32Max scan.expectedFirst count)
    (wire "symbol domain end overflows")
  return { domains := scan.domains ++ [{ kind, values }]
           counts := fun kind' => if kind' = kind then count else scan.counts kind'
           seen := kind :: scan.seen
           expectedFirst }

def allSymbolKinds : List SymbolKind :=
  [.entity, .classExpression, .dataRange, .objectRole, .dataProperty, .individual, .sourceLiteral,
    .dataValue]

def decodeSymbolDomains (domainBytes symbolBytes strings blobs : Bytes) :
    InputResult (List DecodedSymbolDomain × DomainCounts) := do
  let symbolRecords ← records symbolBytes 24
  reserveCount platform (clampU32 (domainBytes.length / 12)) "symbol domains"
  let scan ← (← records domainBytes 12).foldlM
    (decodeDomain platform symbolRecords strings blobs) {}
  ensure (∀ kind ∈ allSymbolKinds, kind ∈ scan.seen)
    (wire "symbol domains do not exactly partition symbol records")
  ensure ((← usizeFromU32 scan.expectedFirst "symbol count") = symbolRecords.length)
    (wire "symbol domains do not exactly partition symbol records")
  ensure (scan.domains.map (·.kind) = expectedDomains)
    (wire "symbol domains are not in canonical lexical order")
  return (scan.domains, scan.counts)

/-! ## Predicates -/

/-- A field that is there when its flag is set, and absent by sentinel otherwise. -/
def optionalU32 (flags bit value : Nat) (name : String) : InputResult (Option Nat) := do
  if flags.testBit bit then
    ensure (value ≠ u32None) (wire ("present predicate " ++ name ++ " uses the absent sentinel"))
    return some value
  else
    ensure (value = u32None) (wire ("absent predicate " ++ name ++ " has a concrete value"))
    return none

def decodeInternalKey (strings record : Bytes) (flags : Nat) : InputResult (Option String) := do
  if flags.testBit 4 then
    return some (← readString strings (← readU32 record 40) (← readU32 record 44) false)
  else
    ensure ((← readU32 record 40) = 0)
      (wire "absent predicate internal key has a nonzero reference")
    ensure ((← readU32 record 44) = 0)
      (wire "absent predicate internal key has a nonzero reference")
    return none

def decodePredicate (strings u32s : Bytes) (domainCounts : DomainCounts) (entry : Bytes × Nat) :
    InputResult DecodedPredicate := do
  let (record, identifier) := entry
  let predicateId ← readU32 record 0
  ensure (predicateId = clampU32 identifier) (wire "predicate IDs are not dense")
  let kind ← parsePredicateKind (← readU16 record 4)
  let flags ← readU16 record 6
  ensure (flags < 2 ^ 5) (version "predicate flags are invalid")
  let sortIds ← readU32Range platform u32s (← readU32 record 8) (← readU32 record 12)
  reserveCount platform (clampU32 sortIds.length) "predicate sorts"
  let argumentSorts ← sortIds.mapM fun value => parseTermSort (min value 255)
  validatePredicateArity kind argumentSorts
  let symbolId ← optionalU32 flags 0 (← readU32 record 16) "symbol_id"
  let roleId ← optionalU32 flags 1 (← readU32 record 20) "role_id"
  let cardinality ← optionalU32 flags 2 (← readU32 record 24) "cardinality"
  let fillerPredicateId ← optionalU32 flags 3 (← readU32 record 28) "filler_predicate_id"
  let annotation ← readU32Range platform u32s (← readU32 record 32) (← readU32 record 36)
  let internalKey ← decodeInternalKey strings record flags
  let predicate : DecodedPredicate :=
    { predicateId, kind, argumentSorts, symbolId, roleId, cardinality, fillerPredicateId, annotation
      internalKey }
  validatePredicateShape predicate domainCounts
  return predicate

def decodePredicates (bytes strings u32s : Bytes) (domainCounts : DomainCounts) :
    InputResult (List DecodedPredicate) := do
  reserveCount platform (clampU32 (bytes.length / 48)) "predicates"
  let values ← (← records bytes 48).zipIdx.mapM (decodePredicate platform strings u32s domainCounts)
  forM values (validateFiller values)
  return values

/-! ## Terms and atoms -/

def decodeTerm (record : Bytes) : InputResult DecodedTerm := do
  let sort ← parseTermSort (← index record 1).toNat
  ensure ((← readU16 record 2) = 0) (version "term reserved bits are nonzero")
  let first ← readU32 record 4
  let second ← readU32 record 8
  let tag := (← index record 0).toNat
  if tag = 0 ∧ second = u32None then return .var first sort
  else if tag = 1 ∧ sort = .object ∧ second = u32None then return .individual first
  else if tag = 2 ∧ sort = .data ∧ second ≠ u32None then return .data first second
  else throw (wire "term tag/sort/sentinel is invalid")

def decodeTerms (bytes : Bytes) : InputResult (List DecodedTerm) := do
  reserveCount platform (clampU32 (bytes.length / 12)) "terms"
  (← records bytes 12).mapM decodeTerm

def decodeAtom (terms : List DecodedTerm) (predicates : List DecodedPredicate) (bounds : TermBounds)
    (ground : Bool) (record : Bytes) : InputResult DecodedAtom := do
  let predicateId ← readU32 record 0
  let first ← readU32 record 4
  let count ← readU32 record 8
  let arguments ← cloneRange terms first count "atom terms"
  let predicate ← ofOption predicates[← usizeFromU32 predicateId "atom predicate ID"]?
    (wire "atom predicate ID is dangling")
  validateArgumentList arguments predicate bounds ground
  return { predicateId, arguments }

def decodeAtoms (bytes : Bytes) (terms : List DecodedTerm) (predicates : List DecodedPredicate)
    (bounds : TermBounds) (ground : Bool) : InputResult (List DecodedAtom) := do
  reserveCount platform (clampU32 (bytes.length / 12)) "atoms"
  (← records bytes 12).mapM (decodeAtom terms predicates bounds ground)

/-- The provenance of a record: a nonempty, ascending list of entries that exist. -/
def decodeProvenanceIds (u32s : Bytes) (first count provenanceCount : Nat) (message name : String)
    (consistent : List Nat → Bool) : InputResult (List Nat) := do
  let provenanceIds ← readU32Range platform u32s first count
  ensure (provenanceIds ≠ [] ∧ (∀ value ∈ provenanceIds, value < provenanceCount) ∧
      consistent provenanceIds = true)
    (wire message)
  validateSortedUnique compare provenanceIds name
  return provenanceIds

def decodeGroundAtom (terms : List DecodedTerm) (u32s : Bytes) (predicates : List DecodedPredicate)
    (bounds : TermBounds) (provenanceCount : Nat) (record : Bytes) :
    InputResult DecodedGroundAtom := do
  let predicateId ← readU32 record 0
  let arguments ← cloneRange terms (← readU32 record 4) (← readU32 record 8) "ground atom terms"
  let predicate ← ofOption predicates[← usizeFromU32 predicateId "ground atom predicate ID"]?
    (wire "ground atom predicate ID is dangling")
  validateArgumentList arguments predicate bounds true
  let provenanceIds ← decodeProvenanceIds platform u32s (← readU32 record 12) (← readU32 record 16)
    provenanceCount "ground atom provenance is empty or dangling" "ground atom provenance"
    fun _ => true
  return { predicateId, arguments, provenanceIds }

def decodeGroundAtoms (bytes : Bytes) (terms : List DecodedTerm) (u32s : Bytes)
    (predicates : List DecodedPredicate) (bounds : TermBounds) (provenanceCount : Nat) :
    InputResult (List DecodedGroundAtom) := do
  reserveCount platform (clampU32 (bytes.length / 20)) "ground atoms"
  (← records bytes 20).mapM (decodeGroundAtom platform terms u32s predicates bounds provenanceCount)

/-! ## Clauses, disjunctions, provenance -/

/-- One clause record; the state is the clauses so far and the next atom. -/
def decodeClause (atoms : List DecodedAtom) (u32s : Bytes) (provenanceCount : Nat)
    (state : List DecodedClause × Nat) (entry : Bytes × Nat) :
    InputResult (List DecodedClause × Nat) := do
  let (record, identifier) := entry
  let clauseId ← readU32 record 0
  ensure (clauseId = clampU32 identifier) (wire "clause IDs are not dense")
  let bodyFirst ← readU32 record 4
  let bodyCount ← readU32 record 8
  let headFirst ← readU32 record 12
  let headCount ← readU32 record 16
  ensure (bodyFirst = state.2) (wire "clause atom ranges are not contiguous and canonical")
  ensure (headFirst = (← ofOption (checkedAdd u32Max bodyFirst bodyCount)
      (wire "clause body range overflows")))
    (wire "clause atom ranges are not contiguous and canonical")
  ensure (¬ (bodyCount = 0 ∧ headCount = 0)) (wire "clause body and head are both empty")
  let body ← cloneRange atoms bodyFirst bodyCount "clause body"
  let head ← cloneRange atoms headFirst headCount "clause head"
  let provenanceIds ← decodeProvenanceIds platform u32s (← readU32 record 20) (← readU32 record 24)
    provenanceCount "clause provenance is empty or dangling" "clause provenance" fun _ => true
  let joinOrder ← readU32Range platform u32s (← readU32 record 28) (← readU32 record 32)
  ensure ((← usizeFromU32 bodyCount "clause body count") = joinOrder.length)
    (wire "clause join order length does not match its body")
  ensure (∀ entry ∈ (joinOrder.insertionSort (· ≤ ·)).zipIdx, entry.1 = clampU32 entry.2)
    (wire "clause join order is not a body permutation")
  let expectedAtom ← ofOption (checkedAdd u32Max headFirst headCount)
    (wire "clause head range overflows")
  return (state.1 ++ [{ clauseId, body, head, provenanceIds, joinOrder }], expectedAtom)

def decodeClauses (bytes : Bytes) (atoms : List DecodedAtom) (u32s : Bytes)
    (provenanceCount : Nat) : InputResult (List DecodedClause) := do
  reserveCount platform (clampU32 (bytes.length / 36)) "clauses"
  let (clauses, expectedAtom) ←
    (← records bytes 36).zipIdx.foldlM (decodeClause platform atoms u32s provenanceCount) ([], 0)
  ensure ((← usizeFromU32 expectedAtom "clause atom count") = atoms.length)
    (wire "clauses do not exactly partition the atom section")
  return clauses

def decodeDisjunction (groundAtoms : List DecodedGroundAtom) (u32s : Bytes) (provenanceCount : Nat)
    (state : List DecodedGroundDisjunction × Nat) (entry : Bytes × Nat) :
    InputResult (List DecodedGroundDisjunction × Nat) := do
  let (record, identifier) := entry
  let disjunctionId ← readU32 record 0
  ensure (disjunctionId = clampU32 identifier) (wire "ground disjunction IDs are not dense")
  let first ← readU32 record 4
  let count ← readU32 record 8
  ensure (first = state.2 ∧ 2 ≤ count)
    (wire "ground disjunction range is noncanonical or too short")
  let disjuncts ← cloneRange groundAtoms first count "ground disjuncts"
  let provenanceIds ← decodeProvenanceIds platform u32s (← readU32 record 12) (← readU32 record 16)
    provenanceCount "ground disjunction provenance is empty, dangling, or inconsistent"
    "ground disjunction provenance" fun ids => disjuncts.all (·.provenanceIds = ids)
  let expectedFact ← ofOption (checkedAdd u32Max state.2 count)
    (wire "ground disjunction range overflows")
  return (state.1 ++ [{ disjunctionId, disjuncts, provenanceIds }], expectedFact)

def decodeDisjunctions (bytes : Bytes) (groundAtoms : List DecodedGroundAtom) (u32s : Bytes)
    (provenanceCount expectedFact : Nat) : InputResult (List DecodedGroundDisjunction) := do
  reserveCount platform (clampU32 (bytes.length / 20)) "ground disjunctions"
  let (values, expectedFact) ← (← records bytes 20).zipIdx.foldlM
    (decodeDisjunction platform groundAtoms u32s provenanceCount) ([], expectedFact)
  ensure ((← usizeFromU32 expectedFact "ground atom count") = groundAtoms.length)
    (wire "facts and disjunctions do not partition ground atoms")
  return values

def decodeProvenanceEntry (digests : List Bytes) (state : List DecodedProvenanceEntry × Nat)
    (entry : Bytes × Nat) : InputResult (List DecodedProvenanceEntry × Nat) := do
  let (record, identifier) := entry
  let provenanceId ← readU32 record 0
  ensure (provenanceId = clampU32 identifier)
    (wire "provenance ID/flags/reserved bytes are invalid")
  let flag := (← index record 4).toNat
  ensure (flag ≤ 1) (wire "provenance ID/flags/reserved bytes are invalid")
  ensure ((← slice record 5 8).all (· == 0) = true)
    (wire "provenance ID/flags/reserved bytes are invalid")
  let first ← readU32 record 8
  let count ← readU32 record 12
  ensure (first = state.2 ∧ count ≠ 0) (wire "provenance digest range is empty or noncanonical")
  let sourceSha256 ← cloneRange digests first count "provenance digests"
  validateSortedUnique compare sourceSha256 "provenance digests"
  let expectedDigest ← ofOption (checkedAdd u32Max state.2 count)
    (wire "provenance digest range overflows")
  return (state.1 ++ [{ provenanceId, sourceSha256, generated := flag ≠ 0 }], expectedDigest)

def decodeProvenance (bytes digestBytes : Bytes) : InputResult (List DecodedProvenanceEntry) := do
  let digests ← decodeDigestRecords platform digestBytes
  reserveCount platform (clampU32 (bytes.length / 16)) "provenance entries"
  let (values, expectedDigest) ←
    (← records bytes 16).zipIdx.foldlM (decodeProvenanceEntry digests) ([], 0)
  ensure ((← usizeFromU32 expectedDigest "provenance digest count") = digests.length)
    (wire "provenance entries do not partition digest records")
  return values

/-! ## Roles -/

/-- The inclusions read so far; object inclusions come first. -/
structure InclusionScan where
  simple : List (Nat × Nat) := []
  data : List (Nat × Nat) := []
  seenData : Bool := false

def decodeRolePair (objectRoleCount dataPropertyCount : Nat) (scan : InclusionScan) (pair : Bytes) :
    InputResult InclusionScan := do
  ensure ((← slice pair 1 4).all (· == 0) = true)
    (version "role inclusion reserved bytes are nonzero")
  let left ← readU32 pair 4
  let right ← readU32 pair 8
  let tag := (← index pair 0).toNat
  if tag = 0 ∧ scan.seenData = false ∧ left < objectRoleCount ∧ right < objectRoleCount then
    return { scan with simple := scan.simple ++ [(left, right)] }
  else if tag = 1 ∧ left < dataPropertyCount ∧ right < dataPropertyCount then
    return { scan with data := scan.data ++ [(left, right)], seenData := true }
  else throw (wire "role inclusion kind/order/reference is invalid")

def decodeRoleChain (u32s : Bytes) (objectRoleCount : Nat) (record : Bytes) :
    InputResult (List Nat × Nat) := do
  let target ← readU32 record 0
  let chain ← readU32Range platform u32s (← readU32 record 4) (← readU32 record 8)
  ensure (target < objectRoleCount ∧ 2 ≤ chain.length ∧ ∀ value ∈ chain, value < objectRoleCount)
    (wire "complex role inclusion is malformed or dangling")
  return (chain, target)

def decodeTransition (stateCount objectRoleCount : Nat) (transition : Bytes) :
    InputResult DecodedRoleTransition := do
  let sourceState ← readU32 transition 0
  let targetState ← readU32 transition 4
  let rawRole ← readU32 transition 8
  ensure (sourceState < stateCount ∧ targetState < stateCount ∧
      (rawRole ≠ u32None → rawRole < objectRoleCount))
    (wire "role automaton transition is dangling")
  return { sourceState, targetState, roleId := if rawRole ≠ u32None then some rawRole else none }

def decodeAutomaton (u32s : Bytes) (objectRoleCount : Nat) (transitionRecords : List Bytes)
    (state : List DecodedRoleAutomaton × Nat) (record : Bytes) :
    InputResult (List DecodedRoleAutomaton × Nat) := do
  let componentId ← readU32 record 0
  let stateCount ← readU32 record 4
  let initialState ← readU32 record 8
  ensure (componentId < objectRoleCount ∧ stateCount ≠ 0 ∧ initialState < stateCount)
    (wire "role automaton header is invalid")
  let finalStates ← readU32Range platform u32s (← readU32 record 12) (← readU32 record 16)
  validateSortedUnique compare finalStates "role automaton final states"
  ensure (finalStates ≠ [] ∧ ∀ value ∈ finalStates, value < stateCount)
    (wire "role automaton final state is empty or dangling")
  let transitionFirst ← readU32 record 20
  let transitionCount ← readU32 record 24
  ensure (transitionFirst = state.2) (wire "role automaton transition ranges are noncanonical")
  let selected ← sliceRange transitionRecords transitionFirst transitionCount
    "role automaton transitions"
  reserveCount platform transitionCount "role transitions"
  let transitions ← selected.mapM (decodeTransition stateCount objectRoleCount)
  ensure (ascending compareTransitions transitions = true)
    (wire "role automaton transitions are not canonically unique")
  let expectedTransition ← ofOption (checkedAdd u32Max state.2 transitionCount)
    (wire "role transition range overflows")
  let automaton : DecodedRoleAutomaton :=
    { componentId, stateCount, initialState, finalStates, transitions }
  return (state.1 ++ [automaton], expectedTransition)

def decodeAutomata (u32s : Bytes) (objectRoleCount : Nat)
    (transitionRecords automatonRecords : List Bytes) :
    InputResult (List DecodedRoleAutomaton) := do
  let (automata, expectedTransition) ← automatonRecords.foldlM
    (decodeAutomaton platform u32s objectRoleCount transitionRecords) ([], 0)
  ensure ((← usizeFromU32 expectedTransition "role transition count") = transitionRecords.length)
    (wire "role automata do not canonically partition transitions")
  ensure (ascending (compareOn (·.componentId)) automata = true)
    (wire "role automata do not canonically partition transitions")
  return automata

/-- The inverse map and the components that are not simple. -/
def decodeInverseRoles (u32s record : Bytes) (objectRoleCount : Nat) :
    InputResult (List Nat × List Nat) := do
  let inverseRoleIds ← readU32Range platform u32s (← readU32 record 8) (← readU32 record 12)
  ensure (inverseRoleIds.length = (← usizeFromU32 objectRoleCount "object role count"))
    (wire "inverse role map is incomplete or dangling")
  ensure (∀ value ∈ inverseRoleIds, value < objectRoleCount)
    (wire "inverse role map is incomplete or dangling")
  forM inverseRoleIds.zipIdx (validateInverse inverseRoleIds)
  let nonSimpleComponents ← readU32Range platform u32s (← readU32 record 16) (← readU32 record 20)
  validateSortedUnique compare nonSimpleComponents "non-simple role components"
  ensure (∀ value ∈ nonSimpleComponents, value < objectRoleCount)
    (wire "non-simple role component ID is dangling")
  return (inverseRoleIds, nonSimpleComponents)

def decodeRoleModel (document : Document) (u32s : Bytes) : InputResult DecodedRoleModel := do
  let record ← document.require .role
  let objectRoleCount ← readU32 record 0
  let dataPropertyCount ← readU32 record 4
  ensure (objectRoleCount ≠ 0 ∧ dataPropertyCount ≠ 0)
    (wire "role model must retain object/data built-ins")
  let (inverseRoleIds, nonSimpleComponents) ← decodeInverseRoles platform u32s record
    objectRoleCount
  let topObjectRoleId ← readU32 record 24
  let bottomObjectRoleId ← readU32 record 28
  let topDataPropertyId ← readU32 record 32
  let bottomDataPropertyId ← readU32 record 36
  ensure (topObjectRoleId < objectRoleCount ∧ bottomObjectRoleId < objectRoleCount ∧
      topDataPropertyId < dataPropertyCount ∧ bottomDataPropertyId < dataPropertyCount)
    (wire "role-model built-in ID is dangling")
  let pairs ← (← records (← document.require .rolePairs) 12).foldlM
    (decodeRolePair objectRoleCount dataPropertyCount) {}
  validateSortedUnique comparePairs pairs.simple "object role inclusions"
  validateSortedUnique comparePairs pairs.data "data role inclusions"
  let complexInclusions ← (← records (← document.require .roleChains) 12).mapM
    (decodeRoleChain platform u32s objectRoleCount)
  validateSortedUnique comparePairs complexInclusions "complex role inclusions"
  let transitionRecords ← records (← document.require .transitions) 12
  let automatonRecords ← records (← document.require .automata) 28
  let automata ← decodeAutomata platform u32s objectRoleCount transitionRecords automatonRecords
  return { objectRoleCount, dataPropertyCount, inverseRoleIds, simpleInclusions := pairs.simple
           dataInclusions := pairs.data, complexInclusions, nonSimpleComponents, automata
           topObjectRoleId, bottomObjectRoleId, topDataPropertyId, bottomDataPropertyId }

/-! ## Datatypes and expressivity -/

def decodeLiteral (strings : Bytes) (dataValueCount : Nat) (entry : Bytes × Nat) :
    InputResult DecodedLiteralIdentity := do
  let (literal, identifier) := entry
  let sourceLiteralId ← readU32 literal 0
  let dataIdentityId ← readU32 literal 4
  ensure (sourceLiteralId = clampU32 identifier ∧ dataIdentityId < dataValueCount)
    (wire "literal identity source/data ID is not dense or is dangling")
  let comparisonKey ← readString strings (← readU32 literal 8) (← readU32 literal 12) false
  let semanticPayloadJson ← readCanonicalJson platform strings (← readU32 literal 16)
    (← readU32 literal 20) "literal semantic payload"
  return { sourceLiteralId, dataIdentityId, comparisonKey, semanticPayloadJson }

def decodeDefinition (dataRangeCount : Nat) (definition : Bytes) : InputResult (Nat × Nat) := do
  let left ← readU32 definition 0
  let right ← readU32 definition 4
  ensure (left < dataRangeCount ∧ right < dataRangeCount)
    (wire "datatype definition ID is dangling")
  return (left, right)

def decodeDatatypeModel (document : Document) (strings u32s : Bytes)
    (literalCount dataValueCount dataRangeCount : Nat) : InputResult DecodedDatatypeModel := do
  let record ← document.require .datatype
  let semanticPayloadJson ← readCanonicalJson platform strings (← readU32 record 0)
    (← readU32 record 4) "datatype semantic payload"
  let unknownDatatypeIds ← readU32Range platform u32s (← readU32 record 8) (← readU32 record 12)
  validateSortedUnique compare unknownDatatypeIds "unknown datatype IDs"
  ensure (∀ value ∈ unknownDatatypeIds, value < dataRangeCount)
    (wire "unknown datatype ID is dangling")
  reserveCount platform (← document.count .literals) "literal identities"
  let literalIdentities ← (← records (← document.require .literals) 24).zipIdx.mapM
    (decodeLiteral platform strings dataValueCount)
  ensure (literalIdentities.length = (← usizeFromU32 literalCount "literal count"))
    (wire "datatype identities do not cover source literals densely")
  reserveCount platform (← document.count .datatypeDefinitions) "datatype definitions"
  let datatypeDefinitions ← (← records (← document.require .datatypeDefinitions) 8).mapM
    (decodeDefinition dataRangeCount)
  validateSortedUnique comparePairs datatypeDefinitions "datatype definitions"
  return { literalIdentities, datatypeDefinitions, unknownDatatypeIds, semanticPayloadJson }

def decodeExpressivity (bytes : Bytes) : InputResult DecodedExpressivity := do
  let flags ← readU32 bytes 0
  ensure (flags < 2 ^ 10) (version "expressivity flags or reserved bits are invalid")
  ensure ((← readU32 bytes 4) = 0) (version "expressivity flags or reserved bits are invalid")
  return { inverseRoles := flags.testBit 0
           nominals := flags.testBit 1
           datatypes := flags.testBit 2
           unknownDatatypes := flags.testBit 3
           complexRoles := flags.testBit 4
           numberRestrictions := flags.testBit 5
           keys := flags.testBit 6
           nonHorn := flags.testBit 7
           bottomProperties := flags.testBit 8
           abox := flags.testBit 9 }

/-! ## Programs -/

def programSections : List SectionKind :=
  [.strings, .blobs, .u32Pool, .program, .domains, .symbols, .predicates, .terms, .atoms,
    .groundAtoms, .clauses, .disjunctions, .provenance, .digests, .role, .rolePairs, .roleChains,
    .automata, .transitions, .literals, .datatype, .expressivity, .datatypeDefinitions]

structure ProgramSummary where
  domainCount : Nat
  symbolCount : Nat
  predicateCount : Nat
  clauseCount : Nat
  positiveFirst : Nat
  positiveCount : Nat
  negativeFirst : Nat
  negativeCount : Nat
  disjunctionCount : Nat
  provenanceCount : Nat
  termCount : Nat
  atomCount : Nat

def readSummary (record : Bytes) : InputResult ProgramSummary := do
  return { domainCount := ← readU32 record 0
           symbolCount := ← readU32 record 4
           predicateCount := ← readU32 record 8
           clauseCount := ← readU32 record 12
           positiveFirst := ← readU32 record 16
           positiveCount := ← readU32 record 20
           negativeFirst := ← readU32 record 24
           negativeCount := ← readU32 record 28
           disjunctionCount := ← readU32 record 32
           provenanceCount := ← readU32 record 36
           termCount := ← readU32 record 40
           atomCount := ← readU32 record 44 }

/-- The counts the summary announces, by section. -/
def ProgramSummary.announced (summary : ProgramSummary) : List (SectionKind × Nat) :=
  [(.domains, summary.domainCount), (.symbols, summary.symbolCount),
    (.predicates, summary.predicateCount), (.clauses, summary.clauseCount),
    (.disjunctions, summary.disjunctionCount), (.provenance, summary.provenanceCount),
    (.terms, summary.termCount), (.atoms, summary.atomCount)]

def checkAnnounced (document : Document) (entry : SectionKind × Nat) : InputResult Unit := do
  ensure ((← document.count entry.1) = entry.2)
    (wire ("program summary count does not match " ++ entry.1.debug ++ " section"))

def checkPresent (document : Document) (kind : SectionKind) : InputResult Unit := do
  let _ ← document.require kind

/-- The ground atoms of the positive facts, of the negative facts, and the first disjunct. -/
def splitFacts (groundAtoms : List DecodedGroundAtom) (summary : ProgramSummary) :
    InputResult (List DecodedGroundAtom × List DecodedGroundAtom × Nat) := do
  let positiveFacts ← cloneRange groundAtoms summary.positiveFirst summary.positiveCount
    "positive facts"
  ensure (summary.positiveFirst = 0) (wire "positive fact range must begin at zero")
  let expectedNegativeFirst ← ofOption
    (checkedAdd u32Max summary.positiveFirst summary.positiveCount)
    (wire "positive fact range overflows")
  ensure (summary.negativeFirst = expectedNegativeFirst)
    (wire "negative facts do not immediately follow positive facts")
  let negativeFacts ← cloneRange groundAtoms summary.negativeFirst summary.negativeCount
    "negative facts"
  let firstDisjunct ← ofOption (checkedAdd u32Max summary.negativeFirst summary.negativeCount)
    (wire "negative fact range overflows")
  return (positiveFacts, negativeFacts, firstDisjunct)

def decodeProgram (document : Document) : InputResult DecodedProgram := do
  forM programSections (checkPresent document)
  let summary ← readSummary (← document.require .program)
  forM summary.announced (checkAnnounced document)
  ensure (summary.domainCount = 8) (wire "program must contain exactly every symbol domain")
  let strings ← document.require .strings
  let _ ← ofOption (fromUtf8 strings) (wire "program string pool is not UTF-8")
  let blobs ← document.require .blobs
  let u32s ← document.require .u32Pool
  let (symbolDomains, domainCounts) ← decodeSymbolDomains platform (← document.require .domains)
    (← document.require .symbols) strings blobs
  let predicates ← decodePredicates platform (← document.require .predicates) strings u32s
    domainCounts
  let terms ← decodeTerms platform (← document.require .terms)
  let bounds := domainCounts.termBounds
  let atoms ← decodeAtoms platform (← document.require .atoms) terms predicates bounds false
  let groundAtoms ← decodeGroundAtoms platform (← document.require .groundAtoms) terms
    u32s predicates bounds summary.provenanceCount
  let clauses ← decodeClauses platform (← document.require .clauses) atoms u32s
    summary.provenanceCount
  let (positiveFacts, negativeFacts, firstDisjunct) ← splitFacts groundAtoms summary
  let groundDisjunctions ← decodeDisjunctions platform
    (← document.require .disjunctions) groundAtoms u32s summary.provenanceCount firstDisjunct
  let provenance ← decodeProvenance platform (← document.require .provenance)
    (← document.require .digests)
  let roleModel ← decodeRoleModel platform document u32s
  let datatypeModel ← decodeDatatypeModel platform document strings u32s bounds.literalCount
    bounds.dataValueCount (domainCounts .dataRange)
  let expressivity ← decodeExpressivity (← document.require .expressivity)
  let program : DecodedProgram :=
    { symbolDomains, predicates, clauses, positiveFacts, negativeFacts, groundDisjunctions
      roleModel, datatypeModel, expressivity, provenance }
  validateDecodedProgram platform program
  return program

end

end PyHermit.Wire
