import PyHermit.Wire.Sections

/-!
# The four input documents

`decode_ontology`, `decode_config`, `decode_query` and `decode_delta`. The configuration,
query and delta sections stand for one value each and are read at fixed positions; the
configuration and the delta are read by indexing, the query by checked reads.
-/

open Prog Fault

namespace PyHermit.Wire

/-! ## Ontologies -/

structure DecodedFingerprint where
  schema : Nat
  digest : Bytes

structure OntologyMetadata where
  ontologyFingerprint : Bytes
  structuralFingerprint : DecodedFingerprint
  logicalFingerprint : DecodedFingerprint
  signatureFingerprint : DecodedFingerprint
  programSha256 : Bytes
  corePackageVersion : String
  coreApiVersion : Nat × Nat
  coreModelSchemaVersion : Nat
  coreWireFormatVersion : Nat × Nat
  coreAdapterProtocolVersion : Nat

structure DecodedEntity where
  kind : String
  iri : String
  entityId : Nat

structure DecodedOntology where
  metadata : OntologyMetadata
  program : DecodedProgram
  declaredEntities : List DecodedEntity
  namedIndividuals : List Nat

def decodeOntologyMetadata (bytes : Bytes) : InputResult OntologyMetadata := do
  ensure (193 ≤ bytes.length) (wire "ontology metadata is truncated")
  let structuralSchema ← readU32 bytes 160
  let logicalSchema ← readU32 bytes 164
  let signatureSchema ← readU32 bytes 168
  ensure (structuralSchema ≠ 0 ∧ logicalSchema ≠ 0 ∧ signatureSchema ≠ 0)
    (wire "source fingerprint schema must be positive")
  let packageLength ← usizeFromU32 (← readU32 bytes 188) "core package length"
  -- `saturating_add`
  ensure (bytes.length = min (192 + packageLength) usizeMax)
    (wire "core package length does not cover ontology metadata")
  let corePackageVersion ← ofOption (fromUtf8 (← slice bytes 192 bytes.length))
    (wire "core package version is not UTF-8")
  ensure (corePackageVersion ≠ "") (wire "core package version is empty")
  let coreModelSchemaVersion ← readU32 bytes 176
  let coreAdapterProtocolVersion ← readU32 bytes 184
  ensure (coreModelSchemaVersion ≠ 0 ∧ coreAdapterProtocolVersion ≠ 0)
    (wire "core model/adapter schema versions must be positive")
  return { ontologyFingerprint := ← readArray32 bytes 0
           structuralFingerprint := { schema := structuralSchema, digest := ← readArray32 bytes 32 }
           logicalFingerprint := { schema := logicalSchema, digest := ← readArray32 bytes 64 }
           signatureFingerprint := { schema := signatureSchema, digest := ← readArray32 bytes 96 }
           programSha256 := ← readArray32 bytes 128
           corePackageVersion
           coreApiVersion := (← readU16 bytes 172, ← readU16 bytes 174)
           coreModelSchemaVersion
           coreWireFormatVersion := (← readU16 bytes 180, ← readU16 bytes 182)
           coreAdapterProtocolVersion }

/-- `text.strip_prefix(start)`. -/
def stripStart (text start : String) : Option String :=
  if start.toList.isPrefixOf text.toList then some (String.ofList (text.toList.drop start.length))
  else none

def validateDeclaredEntity (domain : DecodedSymbolDomain) (entity : DecodedEntity) :
    InputResult Unit := do
  ensure (entity.kind ≠ "" ∧ entity.iri ≠ "") (wire "declared entity kind and IRI must be nonempty")
  let value ← ofOption domain.values[← usizeFromU32 entity.entityId "declared entity"]?
    (wire "declared entity ID is dangling")
  let display := (stripStart value.display entity.kind).bind (stripStart · ":")
  ensure (display = some entity.iri) (wire "declared entity identity disagrees with its symbol")

def validateDecodedSessionDomains (program : DecodedProgram) (declaredEntities : List DecodedEntity)
    (namedIndividuals : List Nat) : InputResult Unit := do
  ensure (ascending (compareLex (compareOn (·.kind)) (compareOn (·.iri))) declaredEntities = true)
    (wire "declared entities are not uniquely canonically ordered")
  let entityDomain ← ofOption (program.domain .entity) (wire "program entity domain is missing")
  forM declaredEntities (validateDeclaredEntity entityDomain)
  validateSortedUnique compare namedIndividuals "named individuals"
  let individualDomain ← ofOption (program.domain .individual)
    (wire "program individual domain is missing")
  forM namedIndividuals fun identifier => do
    let _ ← ofOption individualDomain.values[← usizeFromU32 identifier "named individual"]?
      (wire "named individual ID is dangling")

def decodeEntity (strings record : Bytes) : InputResult DecodedEntity := do
  let kind ← readString strings (← readU32 record 0) (← readU32 record 4) false
  let iri ← readString strings (← readU32 record 8) (← readU32 record 12) false
  return { kind, iri, entityId := ← readU32 record 16 }

section

variable (platform : Platform)

/-- `decode_ontology` after the document is parsed. -/
def readOntology (document : Document) : InputResult DecodedOntology := do
  document.rejectUnexpected (programSections ++ [.metadata, .entities, .namedIndividuals])
  let metadata ← decodeOntologyMetadata (← document.require .metadata)
  let program ← decodeProgram platform document
  let strings ← document.require .strings
  reserveCount platform (← document.count .entities) "declared entities"
  let declaredEntities ← (← records (← document.require .entities) 20).mapM (decodeEntity strings)
  let namedIndividuals ← decodeU32Records platform (← document.require .namedIndividuals)
    "named individuals"
  validateDecodedSessionDomains program declaredEntities namedIndividuals
  return { metadata, program, declaredEntities, namedIndividuals }

def decodeOntology (bytes : Bytes) (limits : DecodeLimits) : InputResult DecodedOntology := do
  readOntology platform (← Document.parse platform bytes .ontology limits)

end

/-! ## Configurations -/

inductive BackendChoice where
  | auto | python | native | verify
  deriving DecidableEq

inductive FreshEntityChoice where
  | disallow | allow
  deriving DecidableEq

inductive IndividualGroupingChoice where
  | bySameAs | byName
  deriving DecidableEq

inductive UnsupportedDatatypeChoice where
  | error | ignoreWithWarning
  deriving DecidableEq

inductive BlockingChoice where
  | auto | anywhere | validatedAnywhere | ancestor
  deriving DecidableEq

inductive ExistentialChoice where
  | auto | creationOrder | individualReuse
  deriving DecidableEq

def parseBackend : Nat → InputResult BackendChoice
  | 0 => .ok .auto
  | 1 => .ok .python
  | 2 => .ok .native
  | 3 => .ok .verify
  | _ => .error (wire "config backend enum is invalid")

def parseFresh : Nat → InputResult FreshEntityChoice
  | 0 => .ok .disallow
  | 1 => .ok .allow
  | _ => .error (wire "config fresh-entity enum is invalid")

def parseGrouping : Nat → InputResult IndividualGroupingChoice
  | 0 => .ok .bySameAs
  | 1 => .ok .byName
  | _ => .error (wire "config individual-grouping enum is invalid")

def parseUnsupportedDatatype : Nat → InputResult UnsupportedDatatypeChoice
  | 0 => .ok .error
  | 1 => .ok .ignoreWithWarning
  | _ => .error (wire "config unsupported-datatype enum is invalid")

def parseBlocking : Nat → InputResult BlockingChoice
  | 0 => .ok .auto
  | 1 => .ok .anywhere
  | 2 => .ok .validatedAnywhere
  | 3 => .ok .ancestor
  | _ => .error (wire "config blocking enum is invalid")

def parseExistential : Nat → InputResult ExistentialChoice
  | 0 => .ok .auto
  | 1 => .ok .creationOrder
  | 2 => .ok .individualReuse
  | _ => .error (wire "config existential enum is invalid")

structure DecodedConfig where
  backend : BackendChoice
  timeoutSeconds : Option F64
  bufferChanges : Bool
  freshEntities : FreshEntityChoice
  individualGrouping : IndividualGroupingChoice
  unsupportedDatatypes : UnsupportedDatatypeChoice
  blocking : BlockingChoice
  existentials : ExistentialChoice
  disjunctionLearning : Bool
  forceQuasiOrderClassification : Bool
  workers : Nat
  maxMemoryBytes : Option Nat
  deterministic : Bool
  deriving DecidableEq

/-- The fields of a configuration record. -/
def readConfigRecord (record : Bytes) : InputResult DecodedConfig := do
  ensure ((← slice record 0 32).all (· == 0) = true)
    (version "config reserved binding bytes are nonzero")
  let timeout ← readF64 record 32
  let maximum ← readU64 record 40
  let workers ← readU32 record 48
  let flags ← readU16 record 52
  ensure (flags < 2 ^ 6) (version "config flags or reserved bytes are nonzero")
  ensure ((← slice record 60 64).all (· == 0) = true)
    (version "config flags or reserved bytes are nonzero")
  let hasTimeout := flags.testBit 4
  let hasMaximum := flags.testBit 5
  ensure (if hasTimeout then timeout.isFinite = true ∧ timeout.isNonpositive = false
      else timeout.isZero = true)
    (wire "config timeout encoding is invalid")
  ensure (hasMaximum = true ↔ maximum ≠ 0) (wire "config maximum-memory encoding is invalid")
  return { backend := ← parseBackend (← index record 54).toNat
           timeoutSeconds := if hasTimeout then some timeout else none
           bufferChanges := flags.testBit 0
           freshEntities := ← parseFresh (← index record 55).toNat
           individualGrouping := ← parseGrouping (← index record 56).toNat
           unsupportedDatatypes := ← parseUnsupportedDatatype (← index record 57).toNat
           blocking := ← parseBlocking (← index record 58).toNat
           existentials := ← parseExistential (← index record 59).toNat
           disjunctionLearning := flags.testBit 1
           forceQuasiOrderClassification := flags.testBit 2
           workers
           maxMemoryBytes := if hasMaximum then some maximum else none
           deterministic := flags.testBit 3 }

/-- `decode_config` after the document is parsed. -/
def readConfig (document : Document) : InputResult DecodedConfig := do
  document.rejectUnexpected [.config]
  readConfigRecord (← document.require .config)

def decodeConfig (platform : Platform) (bytes : Bytes) (limits : DecodeLimits) :
    InputResult DecodedConfig := do
  readConfig (← Document.parse platform bytes .config limits)

/-! ## Queries -/

structure DecodedQuery where
  permanentProgramSha256 : Bytes
  queryHash : Bytes
  overlayProgramSha256 : Option Bytes
  firstLocalPredicateId : Nat
  firstLocalSymbols : List Nat
  requiresRebuild : Bool
  program : Option DecodedProgram
  reason : Option String
  interpretation : List String

/-- One boundary per symbol kind. -/
def readFirstLocalSymbols (record : Bytes) : InputResult (List Nat) :=
  (List.range 8).mapM fun position => readU32 record (104 + position * 4)

/-- The symbols before the boundary are permanent, those after it query-local. -/
def validateDomainPrefix (firstLocalSymbols : List Nat) (domain : DecodedSymbolDomain) :
    InputResult Unit := do
  let cutoff ← index firstLocalSymbols domain.kind.code
  let cutoffIndex ← usizeFromU32 cutoff "query symbol boundary"
  ensure (cutoffIndex ≤ domain.values.length)
    (wire "query-local symbol flags disagree with their prefix boundary")
  ensure ((← slice domain.values 0 cutoffIndex).all (·.queryLocal = false) = true)
    (wire "query-local symbol flags disagree with their prefix boundary")
  ensure ((← slice domain.values cutoffIndex domain.values.length).all (·.queryLocal) = true)
    (wire "query-local symbol flags disagree with their prefix boundary")

def validateQueryPrefix (program : DecodedProgram) (firstLocalPredicateId : Nat)
    (firstLocalSymbols : List Nat) : InputResult Unit := do
  ensure
    ((← usizeFromU32 firstLocalPredicateId "query predicate boundary") ≤ program.predicates.length)
    (wire "query predicate prefix boundary is outside the overlay")
  forM program.symbolDomains (validateDomainPrefix firstLocalSymbols)

def readReason (strings record : Bytes) (hasReason : Bool) : InputResult (Option String) := do
  let reasonOffset ← readU32 record 136
  let reasonLength ← readU32 record 140
  if hasReason then
    return some (← readString strings reasonOffset reasonLength false)
  else
    ensure (reasonOffset = 0 ∧ reasonLength = 0)
      (wire "absent query reason has a nonzero reference")
    return none

section

variable (platform : Platform)

def readOverlay (document : Document) (hasProgram : Bool) (firstLocalPredicateId : Nat)
    (firstLocalSymbols : List Nat) : InputResult (Option DecodedProgram) := do
  if hasProgram then
    let value ← decodeProgram platform document
    validateQueryPrefix value firstLocalPredicateId firstLocalSymbols
    return some value
  else return none

/-- The sections a query document may have. -/
def queryAllowed (hasProgram : Bool) : List SectionKind :=
  [.query, .strings, .stringRefs] ++ if hasProgram then programSections else []

/-- `decode_query` after the document is parsed. -/
def readQuery (document : Document) : InputResult DecodedQuery := do
  let record ← document.require .query
  let flags ← readU32 record 100
  ensure (flags < 2 ^ 3) (version "query flags are invalid")
  let requiresRebuild := flags.testBit 0
  let hasProgram := flags.testBit 1
  let hasReason := flags.testBit 2
  ensure (requiresRebuild ≠ hasProgram) (wire "query rebuild/program flags are contradictory")
  document.rejectUnexpected (queryAllowed hasProgram)
  let strings ← document.require .strings
  let reason ← readReason strings record hasReason
  let interpretation ← decodeStringRefRange platform (← document.require .stringRefs) strings
    (← readU32 record 144) (← readU32 record 148) false
  let firstLocalSymbols ← readFirstLocalSymbols record
  let firstLocalPredicateId ← readU32 record 96
  let program ← readOverlay platform document hasProgram firstLocalPredicateId firstLocalSymbols
  let overlayDigest ← readArray32 record 64
  ensure (hasProgram ≠ overlayDigest.all (· == 0))
    (wire "query overlay digest presence does not match its program")
  return { permanentProgramSha256 := ← readArray32 record 0
           queryHash := ← readArray32 record 32
           overlayProgramSha256 := if hasProgram then some overlayDigest else none
           firstLocalPredicateId, firstLocalSymbols, requiresRebuild, program, reason
           interpretation }

def decodeQuery (bytes : Bytes) (limits : DecodeLimits) : InputResult DecodedQuery := do
  readQuery platform (← Document.parse platform bytes .query limits)

end

/-! ## Deltas -/

inductive DeltaCompatibility where
  | assertionOnly | declarationOnly | rebuildRequired | rejected
  deriving DecidableEq

def DeltaCompatibility.parse : Nat → InputResult DeltaCompatibility
  | 0 => .ok assertionOnly
  | 1 => .ok declarationOnly
  | 2 => .ok rebuildRequired
  | 3 => .ok rejected
  | _ => .error (wire "delta compatibility enum is invalid")

structure DecodedDeltaFact where
  predicateId : Nat
  arguments : List DecodedTerm
  negative : Bool
  deriving DecidableEq

structure DecodedDelta where
  baseProgramSha256 : Bytes
  resultProgramSha256 : Bytes
  compatibility : DeltaCompatibility
  additionSha256 : List Bytes
  removalSha256 : List Bytes
  factAdditions : List DecodedDeltaFact
  factRemovals : List DecodedDeltaFact
  reasons : List String

def decodeDeltaFact (terms : List DecodedTerm) (record : Bytes) : InputResult DecodedDeltaFact := do
  let flag := (← index record 12).toNat
  ensure (flag ≤ 1) (wire "delta fact flags or reserved bytes are invalid")
  ensure ((← slice record 13 16).all (· == 0) = true)
    (wire "delta fact flags or reserved bytes are invalid")
  let arguments ← cloneRange terms (← readU32 record 4) (← readU32 record 8) "delta fact terms"
  ensure (∀ value ∈ arguments, value.isVariable = false) (wire "delta fact contains a variable")
  return { predicateId := ← readU32 record 0, arguments, negative := flag ≠ 0 }

section

variable (platform : Platform)

def decodeDeltaFacts (bytes : Bytes) (terms : List DecodedTerm) :
    InputResult (List DecodedDeltaFact) := do
  reserveCount platform (clampU32 (bytes.length / 16)) "delta facts"
  (← records bytes 16).mapM (decodeDeltaFact terms)

def readDeltaDigests (digests : List Bytes) (record : Bytes) :
    InputResult (List Bytes × List Bytes) := do
  let additionSha256 ← cloneRange digests (← readU32 record 68) (← readU32 record 72)
    "delta addition digests"
  let removalSha256 ← cloneRange digests (← readU32 record 76) (← readU32 record 80)
    "delta removal digests"
  validateSortedUnique compare additionSha256 "delta addition digests"
  validateSortedUnique compare removalSha256 "delta removal digests"
  return (additionSha256, removalSha256)

def readDeltaRows (facts : List DecodedDeltaFact) (record : Bytes)
    (compatibility : DeltaCompatibility) :
    InputResult (List DecodedDeltaFact × List DecodedDeltaFact) := do
  let factAdditions ← cloneRange facts (← readU32 record 84)
    (← readU32 record 88) "delta fact additions"
  let factRemovals ← cloneRange facts (← readU32 record 92)
    (← readU32 record 96) "delta fact removals"
  ensure (factAdditions ++ factRemovals).Nodup
    (wire "delta fact rows are duplicated across additions/removals")
  ensure (compatibility = .assertionOnly ∨ factAdditions = [] ∧ factRemovals = [])
    (wire "non-assertion delta carries applicable fact rows")
  return (factAdditions, factRemovals)

/-- The kind of delta, with the reserved bytes before it. -/
def readCompatibility (record : Bytes) : InputResult DeltaCompatibility := do
  ensure ((← slice record 65 68).all (· == 0) = true) (version "delta reserved bytes are nonzero")
  DeltaCompatibility.parse (← index record 64).toNat

/-- The sections a delta document may have. -/
def deltaAllowed : List SectionKind :=
  [.delta, .strings, .u32Pool, .terms, .digests, .deltaFacts, .stringRefs]

/-- `decode_delta` after the document is parsed. -/
def readDelta (document : Document) : InputResult DecodedDelta := do
  document.rejectUnexpected deltaAllowed
  let record ← document.require .delta
  let compatibility ← readCompatibility record
  let digests ← decodeDigestRecords platform (← document.require .digests)
  let (additionSha256, removalSha256) ← readDeltaDigests digests record
  let terms ← decodeTerms platform (← document.require .terms)
  let facts ← decodeDeltaFacts platform (← document.require .deltaFacts) terms
  let (factAdditions, factRemovals) ← readDeltaRows facts record compatibility
  let strings ← document.require .strings
  let reasons ← decodeStringRefRange platform (← document.require .stringRefs) strings
    (← readU32 record 100) (← readU32 record 104) false
  validateSortedUnique compare reasons "delta reasons"
  return { baseProgramSha256 := ← readArray32 record 0
           resultProgramSha256 := ← readArray32 record 32
           compatibility, additionSha256, removalSha256, factAdditions, factRemovals, reasons }

def decodeDelta (bytes : Bytes) (limits : DecodeLimits) : InputResult DecodedDelta := do
  readDelta platform (← Document.parse platform bytes .delta limits)

end

end PyHermit.Wire
