import PyHermit.Proof.WireProgram

/-!
# Sections are decoded without panics

A record has the length its section fixes, so the positions it is indexed at are there; the
single-value sections of a program are read by checked reads only, and a program that is
decoded has at least one record in each of them (`Filled`).
-/

open Prog Fault List

namespace PyHermit.Wire

variable {platform : Platform}

/-! ## Symbols and predicates -/

variable {value flags provenanceCount objectRoleCount : Nat} {blobs record bytes : Bytes}
  {name : String} {counts : DomainCounts} {terms : List DecodedTerm}
  {predicates : List DecodedPredicate} {bounds : TermBounds} {groundAtoms : List DecodedGroundAtom}

@[simp] theorem safe_symbolKind : NoPanic (SymbolKind.parse value) := by
  refine noPanic ?_
  unfold SymbolKind.parse
  split <;> simp

@[simp] theorem safe_parseTermSort : NoPanic (parseTermSort value) := by
  refine noPanic ?_
  unfold parseTermSort
  split <;> simp

@[simp] theorem safe_parsePredicateKind : NoPanic (parsePredicateKind value) := by
  refine noPanic ?_
  unfold parsePredicateKind
  split <;> simp

variable {strings u32s : Bytes}

theorem safe_decodeSymbol {kind : SymbolKind} {entry : Bytes × Nat}
    (h : entry.1.length = 24) : Safe (decodeSymbol kind strings blobs entry) := by
  simp [decodeSymbol, safe_index_of_lt, h]

theorem safe_decodeDomain {symbolRecords : List Bytes} {scan : DomainScan}
    (hsymbols : ∀ row ∈ symbolRecords, row.length = 24) (h : record.length = 12) :
    Safe (decodeDomain platform symbolRecords strings blobs scan record) := by
  simp only [decodeDomain, safe_bind, safe_readU32_at, safe_ensure_wire, safe_ofOption_wire,
    safe_reserveCount, safe_index_of_lt (show 0 < record.length by omega),
    safe_slice_of_le (show 1 ≤ 4 by decide) (show 4 ≤ record.length by omega), safe_symbolKind,
    safe_sliceRange, Nat.reduceLeDiff]
  intros
  rename_i hrows _ _
  rw [noPanic_mapM fun entry hentry =>
    safe_decodeSymbol (hsymbols _ (mem_of_sliceRange hrows _ (fst_mem_of_mem_zipIdx hentry)))]
  simp

@[simp] theorem safe_decodeSymbolDomains {domainBytes symbolBytes : Bytes} :
    NoPanic (decodeSymbolDomains platform domainBytes symbolBytes strings blobs) := by
  refine noPanic ?_
  simp only [decodeSymbolDomains, safe_bind, safe_records, safe_reserveCount]
  intro symbolRecords hsymbols _ _ rows hrows
  rw [noPanic_foldlM fun scan row hrow =>
    safe_decodeDomain (length_of_records hsymbols) (length_of_records hrows row hrow)]
  simp

@[simp] theorem safe_optionalU32 {bit : Nat} :
    NoPanic (optionalU32 flags bit value name) := noPanic (by simp [optionalU32])

@[simp] theorem safe_decodeInternalKey :
    NoPanic (decodeInternalKey strings record flags) := noPanic (by simp [decodeInternalKey])

theorem safe_decodePredicate (hsmall : Small u32s) (entry : Bytes × Nat) :
    Safe (decodePredicate platform strings u32s counts entry) := by
  have hsort : ∀ value, Safe (parseTermSort value) := by simp
  simp only [decodePredicate, safe_bind, safe_readU16_at, safe_readU32_at, safe_ensure_wire,
    safe_ensure_version, safe_reserveCount, safe_parsePredicateKind, hsmall.safe_readU32Range,
    noPanic_mapM fun _ _ => hsort _, safe_optionalU32, safe_decodeInternalKey, Nat.reduceLeDiff]
  intros
  refine (safe_validatePredicateArity _ _).mono fun _ harity => ?_
  intros
  exact (safe_validatePredicateShape harity).mono fun _ _ => trivial

@[simp] theorem safe_decodePredicates (hsmall : Small u32s) :
    NoPanic (decodePredicates platform bytes strings u32s counts) :=
  noPanic (by simp [decodePredicates, safe_decodePredicate hsmall,
    (safe_validateFiller _ _).noPanic])

/-! ## Terms and atoms -/

theorem safe_decodeTerm (h : record.length = 12) : Safe (decodeTerm record) := by
  simp [decodeTerm, safe_index_of_lt, h]

@[simp] theorem safe_decodeTerms : NoPanic (decodeTerms platform bytes) := by
  refine noPanic ?_
  simp only [decodeTerms, safe_bind, safe_reserveCount, safe_records]
  intro _ _ rows hrows
  rw [noPanic_mapM fun row hrow => safe_decodeTerm (length_of_records hrows row hrow)]
  simp

@[simp] theorem safe_decodeAtoms {ground : Bool} :
    NoPanic (decodeAtoms platform bytes terms predicates bounds ground) :=
  noPanic (by simp [decodeAtoms, decodeAtom])

section
variable (hsmall : Small u32s)
include hsmall

@[simp] theorem safe_decodeProvenanceIds {first count : Nat} {message : String}
    {consistent : List Nat → Bool} :
    NoPanic (decodeProvenanceIds platform u32s first count provenanceCount message name
      consistent) :=
  noPanic (by simp [decodeProvenanceIds, hsmall])

@[simp] theorem safe_decodeGroundAtoms :
    NoPanic (decodeGroundAtoms platform bytes terms u32s predicates bounds provenanceCount) :=
  noPanic (by simp [decodeGroundAtoms, decodeGroundAtom, hsmall])

/-! ## Clauses, disjunctions, provenance -/

@[simp] theorem safe_decodeClauses {atoms : List DecodedAtom} :
    NoPanic (decodeClauses platform bytes atoms u32s provenanceCount) :=
  noPanic (by simp [decodeClauses, decodeClause, hsmall])

@[simp] theorem safe_decodeDisjunctions {expectedFact : Nat} :
    NoPanic (decodeDisjunctions platform bytes groundAtoms u32s provenanceCount expectedFact) :=
  noPanic (by simp [decodeDisjunctions, decodeDisjunction, hsmall])

end

@[simp] theorem safe_decodeProvenance {digestBytes : Bytes} :
    NoPanic (decodeProvenance platform bytes digestBytes) := by
  refine noPanic ?_
  simp only [decodeProvenance, safe_decodeDigestRecords, safe_bind, safe_reserveCount, safe_records]
  intro _ _ _ _ rows hrows
  rw [noPanic_foldlM fun state entry hentry => ?_]
  · simp
  · have hlength : entry.1.length = 16 := length_of_records hrows _ (fst_mem_of_mem_zipIdx hentry)
    simp [decodeProvenanceEntry, safe_index_of_lt, hlength, safe_slice_of_le]

/-! ## Roles -/

theorem safe_decodeRolePair {dataPropertyCount : Nat} {scan : InclusionScan}
    {pair : Bytes} (h : pair.length = 12) :
    Safe (decodeRolePair objectRoleCount dataPropertyCount scan pair) := by
  simp [decodeRolePair, safe_index_of_lt (show 0 < pair.length by omega),
    safe_slice_of_le (show 1 ≤ 4 by decide) (show 4 ≤ pair.length by omega)]

theorem safe_decodeRoleChain (hsmall : Small u32s) (objectRoleCount : Nat) (record : Bytes) :
    Safe (decodeRoleChain platform u32s objectRoleCount record) := by
  simp [decodeRoleChain, hsmall]

@[simp] theorem safe_decodeAutomata (hsmall : Small u32s)
    {transitionRecords automatonRecords : List Bytes} :
    NoPanic (decodeAutomata platform u32s objectRoleCount transitionRecords automatonRecords) := by
  refine noPanic ?_
  have hautomaton : ∀ state record,
      Safe (decodeAutomaton platform u32s objectRoleCount transitionRecords state record) := by
    simp [decodeAutomaton, decodeTransition, hsmall]
  simp [decodeAutomata, hautomaton]

@[simp] theorem safe_decodeInverseRoles (hsmall : Small u32s) :
    NoPanic (decodeInverseRoles platform u32s record objectRoleCount) :=
  noPanic (by simp [decodeInverseRoles, hsmall])

/-- A section of the kind, where there is one, holds a record. -/
def Document.Filled (document : Document) (kind : SectionKind) : Prop :=
  ∀ place, document.sections.lookup kind = some place → 0 < place.count

/-- A field that could be read shows a record. -/
theorem Document.Placed.filled {document : Document} (h : document.Placed) {kind : SectionKind}
    {field : Bytes} {size offset width : Nat} (hrecord : document.payload kind = some record)
    (hsize : kind.recordSize = some size) (hfield : FieldAt record offset width field)
    (hwidth : 0 < width) : document.Filled kind := by
  intro place hplace
  obtain ⟨place', hplace', hlength⟩ := h.length_payload hrecord hsize
  rw [hplace, Option.some_inj] at hplace'
  subst hplace'
  have hle := hfield.le_length
  rcases Nat.eq_zero_or_pos place.count with hzero | hpos
  · rw [hzero, Nat.zero_mul] at hlength
    omega
  · exact hpos

variable {document : Document}

theorem safe_decodeRoleModel (h : document.Placed) (hsmall : Small u32s) :
    Safe (decodeRoleModel platform document u32s) fun _ => document.Filled .role := by
  simp only [decodeRoleModel, safe_bind, h.safe_require, safe_readU32_at, safe_ensure_wire,
    safe_validateSortedUnique, safe_decodeInverseRoles hsmall, safe_records, Nat.reduceLeDiff]
  intro record hrecord field hfield
  have hfilled : document.Filled .role := h.filled hrecord rfl hfield (by decide)
  intros
  rename_i hrows
  rw [noPanic_foldlM fun scan row hrow => safe_decodeRolePair (length_of_records hrows row hrow)]
  simp [safe_decodeRoleChain hsmall, hsmall, hfilled]

/-! ## Datatypes and expressivity -/

theorem safe_decodeLiteral {dataValueCount : Nat} (entry : Bytes × Nat) :
    Safe (decodeLiteral platform strings dataValueCount entry) := by
  simp [decodeLiteral]

theorem safe_decodeDatatypeModel (h : document.Placed) (strings : Bytes)
    (hsmall : Small u32s) (literalCount dataValueCount dataRangeCount : Nat) :
    Safe (decodeDatatypeModel platform document strings u32s literalCount dataValueCount
      dataRangeCount) fun _ => document.Filled .datatype := by
  simp only [decodeDatatypeModel, safe_bind, h.safe_require, safe_readU32_at, Nat.reduceLeDiff]
  intro record hrecord field hfield
  have hfilled : document.Filled .datatype := h.filled hrecord rfl hfield (by decide)
  simp [safe_decodeLiteral, decodeDefinition, hsmall, hfilled]

theorem safe_decodeExpressivity :
    Safe (decodeExpressivity bytes) fun _ => ∃ field, FieldAt bytes 0 4 field := by
  simp only [decodeExpressivity, safe_bind, safe_readU32_at, safe_ensure_version, safe_pure,
    Nat.reduceLeDiff]
  exact fun field hfield _ _ _ _ => ⟨field, hfield⟩

/-! ## Programs -/

theorem safe_readSummary (record : Bytes) :
    Safe (readSummary record) fun _ => ∃ field, FieldAt record 0 4 field := by
  simp only [readSummary, safe_bind, safe_readU32_at, safe_pure, Nat.reduceLeDiff]
  intro field hfield
  intros
  exact ⟨field, hfield⟩

@[simp] theorem safe_splitFacts {summary : ProgramSummary} :
    NoPanic (splitFacts groundAtoms summary) := noPanic (by simp [splitFacts])

/-- The single-value sections of a program. -/
def programSingles : List SectionKind := [.program, .role, .datatype, .expressivity]

/-- **Decoding a program never panics, and a decoded program has a record in each of its
single-value sections.** -/
theorem safe_decodeProgram (h : document.Placed) :
    Safe (decodeProgram platform document) fun _ =>
      ∀ kind ∈ programSingles, document.Filled kind := by
  have hpresent : ∀ kind, Safe (checkPresent document kind) := by simp [checkPresent,
    h.safe_require]
  simp only [decodeProgram, safe_bind, noPanic_forM fun kind _ => hpresent kind, h.safe_require]
  intro _ _ record hrecord
  refine (safe_readSummary record).mono fun summary hfield => ?_
  obtain ⟨field, hfield⟩ := hfield
  have hprogram : document.Filled .program := h.filled hrecord rfl hfield (by decide)
  have hannounced : ∀ entry, Safe (checkAnnounced document entry) := by simp [checkAnnounced]
  simp only [noPanic_forM fun entry _ => hannounced entry, safe_ensure_wire, safe_ofOption_wire]
  intro _ _ _ strings _ _ _ blobs _ u32s hu32s
  have hsmall := h.small_payload hu32s
  simp only [safe_decodeSymbolDomains, safe_decodePredicates hsmall, safe_decodeTerms,
    safe_decodeAtoms, safe_decodeGroundAtoms hsmall, safe_decodeClauses hsmall, safe_splitFacts,
    safe_decodeDisjunctions hsmall, safe_decodeProvenance]
  intros
  refine (safe_decodeRoleModel h hsmall).mono fun _ hrole => ?_
  refine (safe_decodeDatatypeModel h _ hsmall _ _ _).mono fun _ hdatatype => ?_
  intro bytes hbytes
  refine safe_decodeExpressivity.mono fun _ hflags => ?_
  obtain ⟨flags, hflags⟩ := hflags
  refine (safe_validateDecodedProgram _).mono fun _ _ kind hkind => ?_
  simp only [programSingles, mem_cons, not_mem_nil, or_false] at hkind
  rcases hkind with rfl | rfl | rfl | rfl
  · exact hprogram
  · exact hrole
  · exact hdatatype
  · exact h.filled hbytes rfl hflags (by decide)

end PyHermit.Wire
