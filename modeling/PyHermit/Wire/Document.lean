import PyHermit.Wire.Bytes

/-!
# The sections of an input document

`Document::parse` reads the header and the directory and checks that the sections lie in
the payload, have as many bytes as their record count asks for, and cover the payload
without overlap. After it, the decoders reach a section only through `require` and
`count`. Sections are kept in directory order; a kind occurs at most once.
-/

open Prog Fault

namespace PyHermit.Wire

def inputSchemaVersion : Nat := 1

/-- `PYHMINP` and a zero byte. -/
def inputMagic : Bytes := [80, 89, 72, 77, 73, 78, 80, 0]

def inputHeaderSize : Nat := 72

def inputDirectoryRecordSize : Nat := 32

def inputMaxWireBytes : Nat := 512 * 1024 * 1024

def inputMaxSections : Nat := 64

structure DecodeLimits where
  maxWireBytes : Nat := inputMaxWireBytes
  maxSections : Nat := inputMaxSections
  maxRecordsPerSection : Nat := 16000000
  maxStringBytes : Nat := 256 * 1024 * 1024

inductive DocumentKind where
  | ontology | config | query | delta
  deriving DecidableEq

def DocumentKind.parse : Nat → InputResult DocumentKind
  | 1 => .ok ontology
  | 2 => .ok config
  | 3 => .ok query
  | 4 => .ok delta
  | value => .error (version ("input document kind " ++ toString value ++ " is unsupported"))

def DocumentKind.debug : DocumentKind → String
  | ontology => "Ontology"
  | config => "Config"
  | query => "Query"
  | delta => "Delta"

inductive SectionKind where
  | metadata | strings | blobs | u32Pool | program | domains | symbols | predicates | terms | atoms
  | groundAtoms | clauses | disjunctions | provenance | digests | role | rolePairs | roleChains
  | automata | transitions | literals | datatype | expressivity | entities | namedIndividuals
  | datatypeDefinitions | config | query | delta | deltaFacts | stringRefs
  deriving DecidableEq

namespace SectionKind

def parse : Nat → Option SectionKind
  | 1 => some metadata
  | 2 => some strings
  | 3 => some blobs
  | 4 => some u32Pool
  | 5 => some program
  | 6 => some domains
  | 7 => some symbols
  | 8 => some predicates
  | 9 => some terms
  | 10 => some atoms
  | 11 => some groundAtoms
  | 12 => some clauses
  | 13 => some disjunctions
  | 14 => some provenance
  | 15 => some digests
  | 16 => some role
  | 17 => some rolePairs
  | 18 => some roleChains
  | 19 => some automata
  | 20 => some transitions
  | 21 => some literals
  | 22 => some datatype
  | 23 => some expressivity
  | 24 => some entities
  | 25 => some namedIndividuals
  | 26 => some datatypeDefinitions
  | 32 => some config
  | 33 => some query
  | 34 => some delta
  | 35 => some deltaFacts
  | 36 => some stringRefs
  | _ => none

def recordSize : SectionKind → Option Nat
  | metadata => none
  | strings | blobs => some 1
  | u32Pool | namedIndividuals => some 4
  | program => some 48
  | domains => some 12
  | symbols => some 24
  | predicates => some 48
  | terms => some 12
  | atoms => some 12
  | groundAtoms => some 20
  | clauses => some 36
  | disjunctions => some 20
  | provenance => some 16
  | digests => some 32
  | role => some 40
  | rolePairs => some 12
  | roleChains => some 12
  | automata => some 28
  | transitions => some 12
  | literals => some 24
  | datatype => some 16
  | expressivity => some 8
  | entities => some 20
  | datatypeDefinitions | stringRefs => some 8
  | config => some 64
  | query => some 152
  | delta => some 108
  | deltaFacts => some 16

/-- The name `{:?}` prints. -/
def debug : SectionKind → String
  | metadata => "Metadata"
  | strings => "Strings"
  | blobs => "Blobs"
  | u32Pool => "U32Pool"
  | program => "Program"
  | domains => "Domains"
  | symbols => "Symbols"
  | predicates => "Predicates"
  | terms => "Terms"
  | atoms => "Atoms"
  | groundAtoms => "GroundAtoms"
  | clauses => "Clauses"
  | disjunctions => "Disjunctions"
  | provenance => "Provenance"
  | digests => "Digests"
  | role => "Role"
  | rolePairs => "RolePairs"
  | roleChains => "RoleChains"
  | automata => "Automata"
  | transitions => "Transitions"
  | literals => "Literals"
  | datatype => "Datatype"
  | expressivity => "Expressivity"
  | entities => "Entities"
  | namedIndividuals => "NamedIndividuals"
  | datatypeDefinitions => "DatatypeDefinitions"
  | config => "Config"
  | query => "Query"
  | delta => "Delta"
  | deltaFacts => "DeltaFacts"
  | stringRefs => "StringRefs"

/-- `{:?}` of an optional kind. -/
def debugOption : Option SectionKind → String
  | some kind => "Some(" ++ kind.debug ++ ")"
  | none => "None"

end SectionKind

/-- Where a section lies and how many records it declares. -/
structure Section where
  offset : Nat
  length : Nat
  count : Nat
  deriving DecidableEq

structure Document where
  bytes : Bytes
  kind : DocumentKind
  sections : List (SectionKind × Section)
  deriving DecidableEq

namespace Document

/-! ## The directory -/

/-- A directory record: the kind, if it is a known one, and the place. -/
structure Entry where
  kind : Option SectionKind
  place : Section

/-- The end of the section. -/
def Entry.last (entry : Entry) : Nat := entry.place.offset + entry.place.length

/-- The byte length of a section agrees with its record count. -/
def checkCount (kind : Option SectionKind) (length count : Nat) : InputResult Unit :=
  match kind.bind SectionKind.recordSize with
  | some recordSize => do
    let expectedLength ← ofOption (checkedMul count recordSize)
      (wire "input record byte count overflows")
    ensure (expectedLength = length)
      (wire ("input " ++ SectionKind.debugOption kind ++ " count does not match its byte length"))
  | none =>
    ensure (kind = some .metadata → count = 1)
      (wire "variable metadata section must declare one record")

/-- The checks on one directory record, before its section is entered. -/
def readEntry (bytes : Bytes) (limits : DecodeLimits) (directoryEnd index : Nat) :
    InputResult Entry := do
  let skipped ← ofOption (checkedMul index inputDirectoryRecordSize)
    (wire "directory index overflows")
  let start ← ofOption (checkedAdd usizeMax inputHeaderSize skipped)
    (wire "directory record offset overflows")
  let record ← ofOption (range? bytes start (← plus usizeMax start inputDirectoryRecordSize))
    (wire "directory record is truncated")
  let rawKind ← readU16 record 0
  let flags ← readU16 record 2
  let kind := SectionKind.parse rawKind
  ensure (flags < 2) (version "input section flags or reserved bits are nonzero")
  ensure ((← readU32 record 4) = 0) (version "input section flags or reserved bits are nonzero")
  ensure (kind = none → flags = 1)
    (version ("required input section " ++ toString rawKind ++ " is unknown"))
  ensure (kind.isSome = true → flags = 0) (version "known input section cannot be marked optional")
  let offset ← u64ToUsize (← readU64 record 8) "section offset"
  let length ← u64ToUsize (← readU64 record 16) "section length"
  let count ← readU32 record 24
  ensure (kind = some .strings ∨ kind = some .blobs ∨ count ≤ limits.maxRecordsPerSection)
    (resource ("input " ++ SectionKind.debugOption kind ++
      " record count exceeds the configured limit"))
  let alignment ← readU32 record 28
  -- the powers of two up to 64
  ensure (alignment ∈ [1, 2, 4, 8, 16, 32, 64]) (wire "input section alignment is invalid")
  ensure (offset % alignment = 0) (wire "input section offset is misaligned")
  let last ← ofOption (checkedAdd usizeMax offset length) (wire "input section end overflows")
  ensure (directoryEnd ≤ offset ∧ last ≤ bytes.length)
    (wire "input section lies outside the payload")
  checkCount kind length count
  ensure (kind = some .strings → length ≤ limits.maxStringBytes)
    (resource "input string pool exceeds the configured limit")
  return { kind, place := { offset, length, count } }

/-- Enter the section of a directory record. -/
def enter (sections : List (SectionKind × Section)) (entry : Entry) :
    InputResult (List (SectionKind × Section)) :=
  match entry.kind with
  | some kind => do
    ensure (sections.lookup kind = none) (wire "input section kind is duplicated")
    return sections ++ [(kind, entry.place)]
  | none => return sections

/-- One round of the loop over the directory. -/
def scan (bytes : Bytes) (limits : DecodeLimits) (directoryEnd : Nat)
    (state : List (SectionKind × Section) × List (Nat × Nat)) (index : Nat) :
    InputResult (List (SectionKind × Section) × List (Nat × Nat)) := do
  let entry ← readEntry bytes limits directoryEnd index
  let sections ← enter state.1 entry
  return (sections, state.2 ++ [(entry.place.offset, entry.last)])

/-! ## Coverage -/

/-- The order of `(usize, usize)`. -/
def pieceLe (a b : Nat × Nat) : Prop := a.1 < b.1 ∨ a.1 = b.1 ∧ a.2 ≤ b.2

instance : DecidableRel pieceLe :=
  fun a b => inferInstanceAs (Decidable (a.1 < b.1 ∨ a.1 = b.1 ∧ a.2 ≤ b.2))

/-- One round of the loop over the pieces in order: no overlap, only zeros in between. -/
def cover (bytes : Bytes) (cursor : Nat) (piece : Nat × Nat) : InputResult Nat := do
  ensure (cursor ≤ piece.1) (wire "input sections overlap")
  let padding ← slice bytes cursor piece.1
  ensure (padding.all (· == 0) = true) (wire "input alignment padding is nonzero")
  return piece.2

/-! ## Parsing -/

section

variable (platform : Platform)

/-- The checks on the header; the number of sections. -/
def parseHeader (bytes : Bytes) (expected : DocumentKind) (limits : DecodeLimits) (header : Bytes) :
    InputResult Nat := do
  ensure (range? header 0 8 = some inputMagic) (wire "input magic is invalid")
  let schema ← readU16 header 8
  ensure (schema = inputSchemaVersion)
    (version ("input schema " ++ toString schema ++ " is incompatible with " ++
      toString inputSchemaVersion))
  let kind ← DocumentKind.parse (← readU16 header 10)
  ensure (kind = expected) (wire "input document kind does not match the operation")
  ensure ((← readU32 header 12) = 0) (version "input header flags or reserved bits are nonzero")
  ensure ((← readU32 header 36) = 0) (version "input header flags or reserved bits are nonzero")
  ensure ((← u64ToUsize (← readU64 header 16) "total length") = bytes.length)
    (wire "input total length does not match its buffer")
  ensure ((← u64ToUsize (← readU64 header 24) "directory offset") = inputHeaderSize)
    (wire "input directory offset is noncanonical")
  let sectionCount ← readU32 header 32
  ensure (sectionCount ≤ limits.maxSections ∧ sectionCount ≤ inputMaxSections)
    (resource "input section count exceeds the configured limit")
  return sectionCount

def parse (bytes : Bytes) (expected : DocumentKind) (limits : DecodeLimits) :
    InputResult Document := do
  ensure (bytes.length ≤ limits.maxWireBytes ∧ bytes.length ≤ inputMaxWireBytes)
    (resource "input document exceeds the configured byte limit")
  let header ← ofOption (range? bytes 0 inputHeaderSize) (wire "input header is truncated")
  let sectionCount ← parseHeader bytes expected limits header
  let directoryLength ← ofOption (checkedMul sectionCount inputDirectoryRecordSize)
    (wire "input directory length overflows")
  let directoryEnd ← ofOption (checkedAdd usizeMax inputHeaderSize directoryLength)
    (wire "input directory end overflows")
  ensure (directoryEnd ≤ bytes.length) (wire "input directory lies outside the buffer")
  let expectedHash ← ofOption (range? header 40 72) (wire "input content hash is truncated")
  let content ← slice bytes inputHeaderSize bytes.length
  ensure (platform.sha256 content = expectedHash) (wire "input content hash does not match")
  ensure (platform.reserves "input directory" sectionCount = true)
    (resource "input directory allocation failed")
  let (sections, coverage) ← (List.range sectionCount).foldlM
    (scan bytes limits directoryEnd) ([], [])
  let cursor ← (coverage.insertionSort pieceLe).foldlM (cover bytes) directoryEnd
  ensure (cursor = bytes.length) (wire "input document has unreferenced trailing bytes")
  return { bytes, kind := expected, sections }

end

/-! ## Access -/

variable (document : Document)

def missing (kind : SectionKind) : Fault InputWireError :=
  wire ("input section " ++ kind.debug ++ " is missing")

def require (kind : SectionKind) : InputResult Bytes := do
  let place ← ofOption (document.sections.lookup kind) (missing kind)
  ofOption (range? document.bytes place.offset (← plus usizeMax place.offset place.length))
    (wire "validated input section became unavailable")

def count (kind : SectionKind) : InputResult Nat := do
  let place ← ofOption (document.sections.lookup kind) (missing kind)
  return place.count

def rejectUnexpected (allowed : List SectionKind) : InputResult Unit :=
  ensure (∀ entry ∈ document.sections, entry.1 ∈ allowed)
    (version ("input " ++ document.kind.debug ++
      " document contains a section not valid for that document"))

end Document

end PyHermit.Wire
