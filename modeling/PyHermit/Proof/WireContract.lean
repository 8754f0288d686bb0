import PyHermit.Proof.WireDocuments

/-!
# What a decoder promises about its input

A decoder should return an error, not panic, on bytes it does not accept, and should
accept a document only if each section that stands for one value holds one record
(`Contract`). An empty configuration or delta section is indexed and panics, and nothing
else does. Where a section holds several records, the decoders read the first and may
accept. So the contract is kept whenever the document declares the right counts
(`Counted`), and the panics are known exactly.
-/

open Prog Fault List

namespace PyHermit.Wire

open SectionKind (single)

variable {platform : Platform} {document : Document}

/-- Every section that stands for one value holds exactly one record. -/
def Document.Singular (document : Document) : Prop :=
  ∀ kind ∈ single, ∀ place, document.sections.lookup kind = some place → place.count = 1

/-- Some section that stands for one value holds more than one record. -/
def Document.Surplus (document : Document) : Prop :=
  ∃ kind ∈ single, ∃ place, document.sections.lookup kind = some place ∧ 1 < place.count

/-- No panic, and acceptance only with single records. -/
def Contract {α : Type} (decoded : InputResult α) (parsed : InputResult Document) : Prop :=
  decoded ≠ .error .panic ∧
    ∀ value, decoded = .ok value → ∀ document, parsed = .ok document → document.Singular

/-! ## Empty sections -/

variable {allowed : List SectionKind}

theorem rejectUnexpected_eq_ok (h : ∀ entry ∈ document.sections, entry.1 ∈ allowed) :
    document.rejectUnexpected allowed = .ok () :=
  if_pos h

/-- The payload of a bare section is empty. -/
theorem Document.Placed.require_of_bare (h : document.Placed)
    {kind : SectionKind} {size : Nat} (hsize : kind.recordSize = some size)
    (hbare : document.Bare allowed kind) : document.require kind = .ok [] := by
  obtain ⟨-, place, hplace, hcount⟩ := hbare
  have hlength : place.length = 0 := by
    rw [h.sized kind place size hplace hsize, hcount, Nat.zero_mul]
  rw [h.require_eq, Document.payload, hplace, Option.map_some, hlength, take_zero]
  rfl

theorem readConfig_of_bare (h : document.Placed) (hbare : document.Bare [.config] .config) :
    readConfig document = .error .panic := by
  rw [readConfig, rejectUnexpected_eq_ok hbare.1, h.require_of_bare rfl hbare]
  rfl

theorem readDelta_of_bare (h : document.Placed) (hbare : document.Bare deltaAllowed .delta) :
    readDelta platform document = .error .panic := by
  rw [readDelta, rejectUnexpected_eq_ok hbare.1, h.require_of_bare rfl hbare]
  rfl

/-! ## The contract -/

variable {α : Type}

/-- If the bytes parse, the section that is read by indexing is not empty, and no section
that stands for one value declares more than one record. -/
def Counted (bare : Document → Prop) (parsed : InputResult Document) : Prop :=
  ∀ document, parsed = .ok document → ¬ bare document ∧ ¬ document.Surplus

/-- A decoder panics on bare documents only, and on every one of them; with the right
counts it keeps its contract. -/
def KeepsContract (decoded : InputResult α) (bare : Document → Prop)
    (parsed : InputResult Document) : Prop :=
  (decoded = .error .panic ↔ ∃ document, parsed = .ok document ∧ bare document) ∧
    (Counted bare parsed → Contract decoded parsed)

/-- At least one record and no surplus is exactly one. -/
theorem singular_of_filled (hfilled : ∀ kind ∈ single, document.Filled kind)
    (hsurplus : ¬ document.Surplus) : document.Singular := by
  intro kind hkind place hplace
  have hpos := hfilled kind hkind place hplace
  by_contra hne
  exact hsurplus ⟨kind, hkind, place, hplace, by omega⟩

/-- So does every decoder that is safe on documents that are not bare and panics on those
that are. -/
theorem keepsContract_of {read : Document → InputResult α} {bare : Document → Prop}
    (hsafe : ∀ document : Document, document.Placed → ¬ bare document →
      Safe (read document) fun _ => ∀ kind ∈ single, document.Filled kind)
    (hpanic : ∀ document : Document, document.Placed → bare document →
      read document = .error .panic)
    (bytes : Bytes) (kind : DocumentKind) (limits : DecodeLimits) :
    KeepsContract (Document.parse platform bytes kind limits >>= read) bare
      (Document.parse platform bytes kind limits) := by
  have hparse : Safe (Document.parse platform bytes kind limits) fun document =>
      document.Placed ∧ document.kind = kind := Document.safe_parse bytes kind limits
  cases hparsed : Document.parse platform bytes kind limits with
  | error f =>
    -- parsing itself does not panic, and nothing is read
    rw [hparsed] at hparse
    have hne : (.error f : InputResult α) ≠ .error .panic := fun hf => hparse (Except.error.inj hf)
    refine ⟨⟨fun hf => absurd hf hne, ?_⟩, fun _ => ⟨hne, fun value hok => nomatch hok⟩⟩
    rintro ⟨document, hok, -⟩
    cases hok
  | ok document =>
    rw [hparsed] at hparse
    have hplaced : document.Placed := hparse.1
    refine ⟨⟨fun hf => ?_, ?_⟩, fun hcounted => ?_⟩
    · by_contra hnot
      exact (hsafe document hplaced fun hbare => hnot ⟨document, rfl, hbare⟩).ne_panic hf
    · rintro ⟨_, ⟨⟩, hbare⟩
      exact hpanic document hplaced hbare
    · obtain ⟨hbare, hsurplus⟩ := hcounted document rfl
      have hread := hsafe document hplaced hbare
      refine ⟨hread.ne_panic, fun value hvalue document' heq => ?_⟩
      obtain rfl := Except.ok.inj heq
      exact singular_of_filled (hread.of_eq_ok hvalue) hsurplus

/-- **Decoding, on every byte string and under every limit.** The four decoders panic
exactly on configurations and deltas whose own section is empty. Where the declared counts
are right, they return without panic and accept only documents with single records. -/
theorem decode_contract (platform : Platform) (bytes : Bytes) (limits : DecodeLimits) :
    KeepsContract (decodeOntology platform bytes limits) (fun _ => False)
      (Document.parse platform bytes .ontology limits) ∧
    KeepsContract (decodeConfig platform bytes limits) (·.Bare [.config] .config)
      (Document.parse platform bytes .config limits) ∧
    KeepsContract (decodeQuery platform bytes limits) (fun _ => False)
      (Document.parse platform bytes .query limits) ∧
    KeepsContract (decodeDelta platform bytes limits) (·.Bare deltaAllowed .delta)
      (Document.parse platform bytes .delta limits) := by
  refine ⟨?_, ?_, ?_, ?_⟩
  · exact keepsContract_of (fun _ h _ => safe_readOntology h) (fun _ _ hbare => hbare.elim)
      bytes .ontology limits
  · exact keepsContract_of (fun _ h hbare => safe_readConfig h hbare)
      (fun _ h hbare => readConfig_of_bare h hbare) bytes .config limits
  · exact keepsContract_of (fun _ h _ => safe_readQuery h) (fun _ _ hbare => hbare.elim)
      bytes .query limits
  · exact keepsContract_of (fun _ h hbare => safe_readDelta h hbare)
      (fun _ h hbare => readDelta_of_bare h hbare) bytes .delta limits

/-! ## Configurations with no, one and two records -/

namespace Sample

/-- A platform whose digest is constant; the headers below carry it. -/
def constantDigest : Platform where
  sha256 _ := List.replicate 32 0
  Json := Unit
  parseJson _ := none
  printJson _ := none
  dataRanges _ := none
  reserves _ _ := true

/-- `width` bytes, least significant first. -/
def encode : Nat → Nat → Bytes
  | 0, _ => []
  | width + 1, value => UInt8.ofNat (value % 256) :: encode width (value / 256)

/-- A configuration document whose directory declares `count` records. -/
def configBytes (count : Nat) : Bytes :=
  inputMagic ++ encode 2 1 ++ encode 2 2 ++ encode 4 0 ++ encode 8 (104 + 64 * count) ++
    encode 8 72 ++ encode 4 1 ++ encode 4 0 ++ List.replicate 32 0 ++
    (encode 2 32 ++ encode 2 0 ++ encode 4 0 ++ encode 8 104 ++ encode 8 (64 * count) ++
      encode 4 count ++ encode 4 8) ++
    List.replicate (64 * count) 0

/-- The document those bytes are. -/
def configDocument (count : Nat) : Document where
  bytes := configBytes count
  kind := .config
  sections := [(.config, { offset := 104, length := 64 * count, count })]

theorem decodeConfig_zero : decodeConfig constantDigest (configBytes 0) {} = .error .panic := by
  decide +kernel

theorem parse_configBytes {count : Nat} (h : count ∈ [1, 2]) :
    Document.parse constantDigest (configBytes count) .config {} = .ok (configDocument count) := by
  revert count
  decide +kernel

theorem decodeConfig_isOk {count : Nat} (h : count ∈ [1, 2]) :
    (decodeConfig constantDigest (configBytes count) {}).isOk = true := by
  revert count
  decide +kernel

/-- With one record the document is accepted, and as it should be. -/
theorem config_record :
    Counted (·.Bare [.config] .config) (Document.parse constantDigest (configBytes 1) .config {}) ∧
      (decodeConfig constantDigest (configBytes 1) {}).isOk = true ∧
      Contract (decodeConfig constantDigest (configBytes 1) {})
        (Document.parse constantDigest (configBytes 1) .config {}) := by
  have hcounted : Counted (·.Bare [.config] .config)
      (Document.parse constantDigest (configBytes 1) .config {}) := by
    intro document hok
    rw [parse_configBytes (by decide)] at hok
    cases hok
    refine ⟨?_, ?_⟩
    · rintro ⟨-, place, hplace, hcount⟩
      cases hplace
      cases hcount
    · rintro ⟨kind, hkind, place, hplace, hcount⟩
      have hsingle : ∀ kind ∈ single, ((configDocument 1).sections.lookup kind).all
          (·.count ≤ 1) := by
        decide
      have hone := hsingle kind hkind
      rw [hplace, Option.all_some, decide_eq_true_eq] at hone
      omega
  exact ⟨hcounted, decodeConfig_isOk (by decide),
    (decode_contract constantDigest (configBytes 1) {}).2.1.2 hcounted⟩

/-- Without a record the decoder panics; with two it accepts the document. -/
theorem config_records : ¬ Contract (decodeConfig constantDigest (configBytes 0) {})
        (Document.parse constantDigest (configBytes 0) .config {}) ∧
      ¬ Contract (decodeConfig constantDigest (configBytes 2) {})
        (Document.parse constantDigest (configBytes 2) .config {}) := by
  refine ⟨fun hcontract => hcontract.1 decodeConfig_zero, fun hcontract => ?_⟩
  have hok := @decodeConfig_isOk 2 (by decide)
  cases hdecoded : decodeConfig constantDigest (configBytes 2) {} with
  | error f => simp [hdecoded, Except.isOk, Except.toBool] at hok
  | ok value =>
    have hsingular := hcontract.2 value hdecoded _ (parse_configBytes (by decide))
    exact absurd (hsingular .config (by decide) _ rfl) (by decide)

end Sample

end PyHermit.Wire
