import PyHermit.Proof.WireSections
import PyHermit.Wire.Decode

/-!
# Documents are decoded without panics

Ontology and query documents never panic. Configurations and deltas are read by indexing
into a section whose record count was never compared with one, so the lemmas about them
ask that the section is not empty (`Bare`). In every document that is accepted, each
section that stands for one value holds at least one record.
-/

open Prog Fault

namespace PyHermit.Wire

variable {platform : Platform} {document : Document}

/-- The kinds of section that stand for one value. -/
def SectionKind.single : List SectionKind := [.config, .query, .delta] ++ programSingles

open SectionKind (single)

/-- The document is of the shape its decoder wants, but the section holds no record. -/
def Document.Bare (document : Document) (allowed : List SectionKind) (kind : SectionKind) : Prop :=
  (∀ entry ∈ document.sections, entry.1 ∈ allowed) ∧
    ∃ place, document.sections.lookup kind = some place ∧ place.count = 0

/-! ## Ontologies -/

variable {allowed : List SectionKind} {record : Bytes} {firstLocalSymbols : List Nat}
  {kind : SectionKind} {bytes record : Bytes}

theorem filled_of_notMem (hallowed : ∀ entry ∈ document.sections, entry.1 ∈ allowed)
    (hkind : kind ∉ allowed) : document.Filled kind :=
  fun _ hplace => absurd (hallowed _ (Document.mem_of_lookup hplace)) hkind

@[simp] theorem safe_decodeOntologyMetadata : NoPanic (decodeOntologyMetadata bytes) := by
  refine noPanic ?_
  simp only [decodeOntologyMetadata, safe_bind, safe_ensure_wire, safe_readU16_at, safe_readU32_at,
    safe_readArray32_at, safe_usizeFromU32, safe_ofOption_wire, safe_pure, Nat.reduceLeDiff]
  intro hlength
  rw [safe_slice_of_le (by omega) (le_refl _)]
  simp

@[simp] theorem safe_validateDecodedSessionDomains {program : DecodedProgram}
    {declaredEntities : List DecodedEntity} {namedIndividuals : List Nat} :
    NoPanic (validateDecodedSessionDomains program declaredEntities namedIndividuals) := by
  refine noPanic ?_
  have hentity : ∀ domain entity, Safe (validateDeclaredEntity domain entity) := by
    simp [validateDeclaredEntity]
  simp [validateDecodedSessionDomains, hentity]

theorem safe_decodeEntity (strings record : Bytes) : Safe (decodeEntity strings record) := by
  simp [decodeEntity]

theorem safe_readOntology (h : document.Placed) :
    Safe (readOntology platform document) fun _ => ∀ kind ∈ single, document.Filled kind := by
  simp only [readOntology, safe_bind, Document.safe_rejectUnexpected, h.safe_require,
    safe_reserveCount, Document.safe_count, safe_decodeOntologyMetadata, safe_records,
    noPanic_mapM fun row _ => safe_decodeEntity _ row, safe_validateDecodedSessionDomains]
  intro hallowed metadata _ _ _
  refine (safe_decodeProgram h).mono fun _ hprogram => ?_
  intro _ _ _ _ _ _ _ _ _ _ _ _ individuals hindividuals
  rw [(h.small_payload hindividuals).safe_decodeU32Records]
  intro _ _ _ _ kind hkind
  rcases List.mem_append.mp hkind with hkind | hkind
  · refine filled_of_notMem hallowed fun hmem => ?_
    revert kind
    decide
  · exact hprogram kind hkind

/-! ## Configurations -/

theorem safe_readConfigRecord (h : 64 ≤ record.length) : Safe (readConfigRecord record) := by
  have hbackend {value : Nat} : Safe (parseBackend value) := by
    unfold parseBackend
    split <;> simp
  have hfresh {value : Nat} : Safe (parseFresh value) := by
    unfold parseFresh
    split <;> simp
  have hgrouping {value : Nat} : Safe (parseGrouping value) := by
    unfold parseGrouping
    split <;> simp
  have hdatatype {value : Nat} : Safe (parseUnsupportedDatatype value) := by
    unfold parseUnsupportedDatatype
    split <;> simp
  have hblocking {value : Nat} : Safe (parseBlocking value) := by
    unfold parseBlocking
    split <;> simp
  have hexistential {value : Nat} : Safe (parseExistential value) := by
    unfold parseExistential
    split <;> simp
  have hindex : ∀ i < 64, i < record.length := fun i hi => lt_of_lt_of_le hi h
  simp [readConfigRecord, safe_slice_of_le, h, le_trans (show 32 ≤ 64 by decide) h,
    safe_index_of_lt, hindex,
    hbackend.noPanic, hfresh.noPanic, hgrouping.noPanic, hdatatype.noPanic, hblocking.noPanic,
    hexistential.noPanic]

/-- A section that is not bare holds at least one whole record. -/
theorem Document.Placed.size_le (h : document.Placed)
    {size : Nat} (hallowed : ∀ entry ∈ document.sections, entry.1 ∈ allowed)
    (hbare : ¬ document.Bare allowed kind) (hrecord : document.payload kind = some record)
    (hsize : kind.recordSize = some size) : size ≤ record.length ∧ document.Filled kind := by
  obtain ⟨place, hplace, hlength⟩ := h.length_payload hrecord hsize
  have hpos : 0 < place.count :=
    Nat.pos_of_ne_zero fun hzero => hbare ⟨hallowed, place, hplace, hzero⟩
  refine ⟨hlength ▸ Nat.le_mul_of_pos_left size hpos, fun place' hplace' => ?_⟩
  rw [hplace, Option.some_inj] at hplace'
  exact hplace' ▸ hpos

theorem safe_readConfig (h : document.Placed) (hbare : ¬ document.Bare [.config] .config) :
    Safe (readConfig document) fun _ => ∀ kind ∈ single, document.Filled kind := by
  simp only [readConfig, safe_bind, Document.safe_rejectUnexpected, h.safe_require]
  intro hallowed record hrecord
  obtain ⟨hle, hfilled⟩ := h.size_le hallowed hbare hrecord rfl
  refine (safe_readConfigRecord hle).mono fun _ _ kind _ => ?_
  by_cases hkind : kind = .config
  · exact hkind ▸ hfilled
  · exact filled_of_notMem hallowed (by simpa using hkind)

/-! ## Queries -/

theorem safe_validateQueryPrefix (program : DecodedProgram) (firstLocalPredicateId : Nat)
    (h : firstLocalSymbols.length = 8) :
    Safe (validateQueryPrefix program firstLocalPredicateId firstLocalSymbols) := by
  simp only [validateQueryPrefix, safe_bind, safe_usizeFromU32, safe_ensure_wire]
  intro _ _
  rw [noPanic_forM fun domain _ => ?_]
  · exact fun _ _ => trivial
  have hcode : domain.kind.code < firstLocalSymbols.length := by
    rw [h]
    cases domain.kind <;> decide
  simp only [validateDomainPrefix, safe_bind, safe_index_of_lt hcode, safe_usizeFromU32,
    safe_ensure_wire]
  intro cutoff _ _ hcutoff
  rw [safe_slice_of_le (Nat.zero_le _) hcutoff]
  intro _
  rw [safe_slice_of_le hcutoff (le_refl _)]
  exact fun _ => trivial

/-- In a query document the single-value sections are the query's own and, if it has a
program, the program's. -/
theorem filled_of_query {hasProgram : Bool}
    (hallowed : ∀ entry ∈ document.sections, entry.1 ∈ queryAllowed hasProgram)
    (hquery : document.Filled .query)
    (hprogram : hasProgram = true → ∀ kind ∈ programSingles, document.Filled kind) :
    ∀ kind ∈ single, document.Filled kind := by
  intro kind hkind
  by_cases hmem : kind ∈ queryAllowed hasProgram
  · cases hasProgram with
    | false =>
      have hshared : ∀ kind ∈ single, kind ∈ queryAllowed false → kind = .query := by decide
      exact hshared kind hkind hmem ▸ hquery
    | true =>
      have hshared : ∀ kind ∈ single, kind ∈ queryAllowed true → kind = .query ∨
          kind ∈ programSingles := by
        decide
      rcases hshared kind hkind hmem with rfl | hkind
      · exact hquery
      · exact hprogram rfl kind hkind
  · exact filled_of_notMem hallowed hmem

@[simp] theorem safe_readReason {strings : Bytes} {hasReason : Bool} :
    NoPanic (readReason strings record hasReason) := noPanic (by simp [readReason])

theorem safe_readFirstLocalSymbols (record : Bytes) :
    Safe (readFirstLocalSymbols record) fun symbols => symbols.length = 8 := by
  refine (safe_mapM (P := fun _ => True) fun position hposition => ?_).mono
    fun _ hsymbols => hsymbols.1
  have hlt := List.mem_range.mp hposition
  rw [safe_readU32_at (by omega)]
  exact fun _ _ => trivial

theorem safe_readOverlay (h : document.Placed) (hasProgram : Bool) (firstLocalPredicateId : Nat)
    (hsymbols : firstLocalSymbols.length = 8) :
    Safe (readOverlay platform document hasProgram firstLocalPredicateId firstLocalSymbols) fun _ =>
      hasProgram = true → ∀ kind ∈ programSingles, document.Filled kind := by
  rw [readOverlay, safe_ite]
  refine ⟨fun _ => ?_, fun hnone hsome => absurd hsome hnone⟩
  rw [safe_bind]
  refine (safe_decodeProgram h).mono fun value hfilled => ?_
  rw [safe_bind]
  exact (safe_validateQueryPrefix _ _ hsymbols).mono fun _ _ _ => hfilled

theorem safe_readQuery (h : document.Placed) :
    Safe (readQuery platform document) fun _ => ∀ kind ∈ single, document.Filled kind := by
  simp only [readQuery, safe_bind, h.safe_require, safe_readU32_at, safe_ensure_version,
    safe_ensure_wire, Document.safe_rejectUnexpected, safe_readArray32_at, safe_pure,
    Nat.reduceLeDiff]
  intro record hrecord flags hflags _ hrebuild hallowed strings hstrings
  have hquery : document.Filled .query := h.filled hrecord rfl hflags (by decide)
  simp only [safe_readReason, safe_decodeStringRefRange]
  intros
  refine (safe_readFirstLocalSymbols record).mono fun symbols hsymbols => ?_
  intros
  refine (safe_readOverlay h _ _ hsymbols).mono fun program hprogram => ?_
  exact fun _ _ _ _ _ _ _ => filled_of_query hallowed hquery hprogram

/-! ## Deltas -/

theorem safe_readCompatibility (h : 108 ≤ record.length) : Safe (readCompatibility record) := by
  simp only [readCompatibility, safe_bind, safe_ensure_version,
    safe_slice_of_le (show 65 ≤ 68 by decide) (show 68 ≤ record.length by omega),
    safe_index_of_lt (show 64 < record.length by omega)]
  intro _ byte _
  unfold DeltaCompatibility.parse
  split <;> simp

@[simp] theorem safe_decodeDeltaFacts {terms : List DecodedTerm} :
    NoPanic (decodeDeltaFacts platform bytes terms) := by
  refine noPanic ?_
  simp only [decodeDeltaFacts, safe_bind, safe_reserveCount, safe_records]
  intro _ _ rows hrows
  have hfact : ∀ row ∈ rows, Safe (decodeDeltaFact terms row) := by
    intro row hrow
    simp [decodeDeltaFact, safe_index_of_lt, safe_slice_of_le, length_of_records hrows row hrow]
  simp [noPanic_mapM hfact]

@[simp] theorem safe_readDeltaDigests {digests : List Bytes} :
    NoPanic (readDeltaDigests digests record) := noPanic (by simp [readDeltaDigests])

@[simp] theorem safe_readDeltaRows {facts : List DecodedDeltaFact}
    {compatibility : DeltaCompatibility} : NoPanic (readDeltaRows facts record compatibility) :=
  noPanic (by simp [readDeltaRows])

theorem safe_readDelta (h : document.Placed) (hbare : ¬ document.Bare deltaAllowed .delta) :
    Safe (readDelta platform document) fun _ => ∀ kind ∈ single, document.Filled kind := by
  simp only [readDelta, safe_bind, Document.safe_rejectUnexpected, h.safe_require, safe_readU32_at,
    safe_readArray32_at, safe_validateSortedUnique, safe_pure, Nat.reduceLeDiff]
  intro hallowed record hrecord
  obtain ⟨hle, hfilled⟩ := h.size_le hallowed hbare hrecord rfl
  simp only [(safe_readCompatibility hle).noPanic, safe_decodeDigestRecords, safe_readDeltaDigests,
    safe_decodeTerms, safe_decodeDeltaFacts, safe_readDeltaRows, safe_decodeStringRefRange]
  intros
  rename_i kind hkind
  have hshared : ∀ kind ∈ single, kind ∈ deltaAllowed → kind = .delta := by decide
  by_cases hmem : kind ∈ deltaAllowed
  · exact hshared kind hkind hmem ▸ hfilled
  · exact filled_of_notMem hallowed hmem

end PyHermit.Wire
