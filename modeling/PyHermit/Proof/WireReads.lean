import PyHermit.Wire.Document

/-!
# Reading without panics

The readers panic only where an unchecked addition leaves `usize`, and offsets never come
near it: a document has at most `inputMaxWireBytes` bytes. After parsing a section lies in
the buffer and is as long as its record count says (`Document.Placed`), and from there on
`require` is a plain lookup (`Placed.require_eq`).
-/

open Prog Fault List

namespace PyHermit.Wire

variable {platform : Platform}

/-! ## Checks -/

section

variable {p : Prop} [Decidable p] {message : String} {Q : Unit → Prop}

@[simp] theorem safe_ensure_wire : Safe (ensure p (wire message)) Q ↔ (p → Q ()) := by
  simp

@[simp] theorem safe_ensure_version : Safe (ensure p (version message)) Q ↔ (p → Q ()) := by
  simp

@[simp] theorem safe_ensure_resource : Safe (ensure p (resource message)) Q ↔ (p → Q ()) := by
  simp

end

variable {α : Type} {bytes : Bytes} {offset : Nat} {name : String} {Q : Nat → Prop}

@[simp] theorem safe_ofOption_wire {o : Option α} {message : String} {Q : α → Prop} :
    Safe (ofOption o (wire message)) Q ↔ ∀ a, o = some a → Q a := by
  simp

/-! ## Fields -/

/-- The field is there, with these bytes. -/
def FieldAt (bytes : Bytes) (offset width : Nat) (field : Bytes) : Prop :=
  range? bytes offset (offset + width) = some field

variable {width value count size first last length : Nat} {values ys : List α} {allowEmpty : Bool}

theorem FieldAt.le_length {field : Bytes} (h : FieldAt bytes offset width field) :
    offset + width ≤ bytes.length :=
  (range?_eq_some.mp h).2.1

theorem safe_readField {Q : Bytes → Prop} (h : offset + width ≤ usizeMax) :
    Safe (readField width name bytes offset) Q ↔
      ∀ field, FieldAt bytes offset width field → Q field := by
  simp [readField, h, FieldAt]

theorem safe_readU32 (h : offset + 4 ≤ usizeMax) :
    Safe (readU32 bytes offset) Q ↔
      ∀ field, FieldAt bytes offset 4 field → Q (littleEndian field) := by
  simp [readU32, safe_readField h]

section
variable (h : offset ≤ 1024)
include h

/-- Records are read at fixed positions, all far below `usizeMax`. -/
theorem position_add_le (hwidth : width ≤ 32) : offset + width ≤ usizeMax := by
  unfold usizeMax
  omega

@[simp] theorem safe_readU16_at :
    Safe (readU16 bytes offset) Q ↔
      ∀ field, FieldAt bytes offset 2 field → Q (littleEndian field) := by
  simp [readU16, safe_readField (position_add_le h (show 2 ≤ 32 by decide))]

@[simp] theorem safe_readU32_at :
    Safe (readU32 bytes offset) Q ↔
      ∀ field, FieldAt bytes offset 4 field → Q (littleEndian field) :=
  safe_readU32 (position_add_le h (by decide))

@[simp] theorem safe_readU64_at :
    Safe (readU64 bytes offset) Q ↔
      ∀ field, FieldAt bytes offset 8 field → Q (littleEndian field) := by
  simp [readU64, safe_readField (position_add_le h (show 8 ≤ 32 by decide))]

@[simp] theorem safe_readF64_at {Q : F64 → Prop} :
    Safe (readF64 bytes offset) Q ↔
      ∀ field, FieldAt bytes offset 8 field → Q ⟨littleEndian field⟩ := by
  simp [readF64, safe_readField (position_add_le h (show 8 ≤ 32 by decide))]

@[simp] theorem safe_readArray32_at {Q : Bytes → Prop} :
    Safe (readArray32 bytes offset) Q ↔ ∀ field, FieldAt bytes offset 32 field → Q field :=
  safe_readField (position_add_le h (le_refl 32))

end

@[simp] theorem safe_usizeFromU32 :
    Safe (usizeFromU32 value name) Q ↔ (value ≤ usizeMax → Q value) := by
  simp [usizeFromU32]

@[simp] theorem safe_u64ToUsize :
    Safe (u64ToUsize value name) Q ↔ (value ≤ usizeMax → Q value) := by
  simp [u64ToUsize]

@[simp] theorem safe_validateSortedUnique {cmp : α → α → Ordering} {Q : Unit → Prop}:
    Safe (validateSortedUnique cmp values name) Q ↔ (ascending cmp values = true → Q ()) := by
  simp [validateSortedUnique]

@[simp] theorem safe_reserveCount {Q : Unit → Prop} : Safe (reserveCount platform count name) Q ↔
      (count ≤ usizeMax → platform.reserves name count = true → Q ()) := by
  simp [reserveCount]

/-! ## Records and ranges -/

theorem length_of_mem_chunksExact {record : Bytes} (h : record ∈ chunksExact size bytes) :
    record.length = size := by
  obtain ⟨i, hi, rfl⟩ := mem_map.mp h
  have hi' : i < bytes.length / size := mem_range.mp hi
  have hsize : (i + 1) * size ≤ bytes.length :=
    le_trans (Nat.mul_le_mul_right size hi') (Nat.div_mul_le_self _ _)
  rw [Nat.succ_mul] at hsize
  rw [length_take, length_drop]
  omega

@[simp] theorem safe_records : NoPanic (records bytes size) := noPanic (by simp [records])

theorem length_of_records {rows : List Bytes} (h : records bytes size = .ok rows) :
    ∀ row ∈ rows, row.length = size := by
  obtain ⟨_, -, h⟩ := bind_eq_ok.mp h
  cases h
  exact fun row hrow => length_of_mem_chunksExact hrow

theorem mem_of_mem_range? {xs : List α}
    (h : range? xs first last = some ys) {y : α} (hy : y ∈ ys) : y ∈ xs := by
  obtain ⟨-, -, rfl⟩ := range?_eq_some.mp h
  exact mem_of_mem_drop (mem_of_mem_take hy)

@[simp] theorem safe_sliceRange : NoPanic (sliceRange values first count name) :=
  noPanic (by simp [sliceRange])

theorem mem_of_sliceRange (h : sliceRange values first count name = .ok ys) :
    ∀ y ∈ ys, y ∈ values := by
  have hmem : Safe (sliceRange values first count name) fun ys => ∀ y ∈ ys, y ∈ values := by
    simp only [sliceRange, safe_bind, safe_usizeFromU32, safe_ofOption_wire]
    exact fun _ _ _ _ ys hys y hy => mem_of_mem_range? hys hy
  exact hmem.of_eq_ok h

@[simp] theorem safe_cloneRange : NoPanic (cloneRange values first count name) := safe_sliceRange

@[simp] theorem safe_readBytes : NoPanic (readBytes bytes offset length) :=
  noPanic (by simp [readBytes, readBytesSlice])

@[simp] theorem safe_readString :
    NoPanic (readString bytes offset length allowEmpty) :=
  noPanic (by simp [readString, readBytesSlice])

@[simp] theorem safe_validateCanonicalJsonText {value : String} :
    NoPanic (validateCanonicalJsonText platform value name) :=
  noPanic (by simp [validateCanonicalJsonText])

@[simp] theorem safe_readCanonicalJson :
    NoPanic (readCanonicalJson platform bytes offset length name) :=
  noPanic (by simp [readCanonicalJson])

@[simp] theorem safe_decodeDigestRecords : NoPanic (decodeDigestRecords platform bytes) :=
  noPanic (by simp [decodeDigestRecords])

/-- Small enough that a field past its end is still addressable. -/
def Small (bytes : Bytes) : Prop := bytes.length ≤ inputMaxWireBytes

theorem Small.of_range? {part : Bytes} (h : Small bytes)
    (hpart : range? bytes first last = some part) : Small part := by
  have hlength := length_of_range? hpart
  have hlast := (range?_eq_some.mp hpart).2.1
  unfold Small at h ⊢
  omega

@[simp] theorem Small.safe_decodeU32Records (h : Small bytes) :
    NoPanic (decodeU32Records platform bytes name) := by
  refine noPanic ?_
  simp only [decodeU32Records, safe_bind, safe_ensure_wire, safe_reserveCount]
  refine fun _ _ _ => (safe_mapM (P := fun _ => True) fun offset hoffset => ?_).mono
    fun _ _ => trivial
  obtain ⟨i, hi, rfl⟩ := mem_range'.mp hoffset
  have hbound : 0 + 4 * i + 4 ≤ usizeMax := by
    unfold Small inputMaxWireBytes at h
    unfold usizeMax
    omega
  rw [safe_readU32 hbound]
  exact fun _ _ => trivial

@[simp] theorem Small.safe_readU32Range (h : Small bytes) :
    NoPanic (readU32Range platform bytes first count) := by
  refine noPanic ?_
  simp only [readU32Range, safe_bind, safe_usizeFromU32, safe_ofOption_wire]
  intro _ _ _ _ _ _ _ _ selected hselected
  simp [h.of_range? hselected]

@[simp] theorem safe_decodeStringRefRange {strings : Bytes} :
    NoPanic (decodeStringRefRange platform bytes strings first count allowEmpty) :=
  noPanic (by simp [decodeStringRefRange])

/-! ## Sections -/

namespace Document

/-- Every section lies in the buffer and has the length its count asks for. -/
structure Placed (document : Document) : Prop where
  small : Small document.bytes
  /-- Sections end inside the buffer. -/
  fits : ∀ kind place, document.sections.lookup kind = some place →
    place.offset + place.length ≤ document.bytes.length
  /-- Sections with fixed records hold exactly the declared number. -/
  sized : ∀ kind place size, document.sections.lookup kind = some place →
    kind.recordSize = some size → place.length = place.count * size

def payload (document : Document) (kind : SectionKind) : Option Bytes :=
  (document.sections.lookup kind).map fun place =>
    (document.bytes.drop place.offset).take place.length

variable {document : Document} {kind : SectionKind} {sections : List (SectionKind × Section)}
  {state : List (SectionKind × Section) × List (Nat × Nat)} {place : Section} {a b c index : Nat}

theorem Placed.range?_eq (h : document.Placed)
    (hplace : document.sections.lookup kind = some place) :
    range? document.bytes place.offset (place.offset + place.length) =
      some ((document.bytes.drop place.offset).take place.length) := by
  refine range?_eq_some.mpr ⟨Nat.le_add_right _ _, h.fits kind place hplace, ?_⟩
  rw [Nat.add_sub_cancel_left]

theorem Placed.require_eq (h : document.Placed) (kind : SectionKind) :
    document.require kind = ofOption (document.payload kind) (missing kind) := by
  unfold require payload
  cases hplace : document.sections.lookup kind with
  | none => rfl
  | some place =>
    have hsum : place.offset + place.length ≤ usizeMax := by
      have hfits := h.fits kind place hplace
      have hsmall := h.small
      unfold Small inputMaxWireBytes at hsmall
      unfold usizeMax
      omega
    show (do
      let last ← plus usizeMax place.offset place.length
      ofOption (range? document.bytes place.offset last) _) = _
    rw [plus, if_pos hsum]
    show ofOption (range? document.bytes place.offset (place.offset + place.length)) _ = _
    rw [h.range?_eq hplace]
    rfl

theorem Placed.safe_require (h : document.Placed) {Q : Bytes → Prop} :
    Safe (document.require kind) Q ↔ ∀ bytes, document.payload kind = some bytes → Q bytes := by
  rw [h.require_eq, safe_ofOption]
  exact and_iff_left fun _ => wire_ne_panic _

@[simp] theorem safe_count : Safe (document.count kind) Q ↔
      ∀ place, document.sections.lookup kind = some place → Q place.count := by
  simp [count, missing]

@[simp] theorem safe_rejectUnexpected {allowed : List SectionKind} {Q : Unit → Prop} :
    Safe (document.rejectUnexpected allowed) Q ↔
      ((∀ entry ∈ document.sections, entry.1 ∈ allowed) → Q ()) := by
  simp [rejectUnexpected]

theorem Placed.small_payload (h : document.Placed) (hbytes : document.payload kind = some bytes) :
    Small bytes := by
  obtain ⟨place, hplace, rfl⟩ := Option.map_eq_some_iff.mp hbytes
  exact h.small.of_range? (h.range?_eq hplace)

theorem Placed.length_payload (h : document.Placed) {size : Nat}
    (hbytes : document.payload kind = some bytes) (hsize : kind.recordSize = some size) :
    ∃ place, document.sections.lookup kind = some place ∧ bytes.length = place.count * size := by
  obtain ⟨place, hplace, rfl⟩ := Option.map_eq_some_iff.mp hbytes
  refine ⟨place, hplace, ?_⟩
  rw [length_of_range? (h.range?_eq hplace), Nat.add_sub_cancel_left,
    h.sized kind place size hplace hsize]

/-! ## Parsing -/

/-- What a directory record that passes its checks says. -/
structure Entry.Placed (bytes : Bytes) (entry : Entry) : Prop where
  fits : entry.last ≤ bytes.length
  sized : ∀ kind size, entry.kind = some kind → kind.recordSize = some size →
    entry.place.length = entry.place.count * size

theorem safe_checkCount (kind : Option SectionKind) (length count : Nat) :
    Safe (checkCount kind length count) fun _ => ∀ known size, kind = some known →
      known.recordSize = some size → length = count * size := by
  unfold checkCount
  cases hsize : kind.bind SectionKind.recordSize with
  | none =>
    rw [safe_ensure_wire]
    intro _ known size hkind hknown
    rw [hkind, Option.bind_some, hknown] at hsize
    exact absurd hsize (Option.some_ne_none size)
  | some recordSize =>
    simp only [safe_bind, safe_ofOption_wire, safe_ensure_wire]
    intro expected hexpected hlength known size hkind hknown
    rw [hkind, Option.bind_some, hknown, Option.some_inj] at hsize
    unfold checkedMul at hexpected
    split at hexpected
    · rw [← hlength, ← Option.some_inj.mp hexpected, hsize]
    · exact absurd hexpected.symm (Option.some_ne_none expected)

theorem checkedAdd_eq_some {top : Nat} (h : checkedAdd top a b = some c) :
    c = a + b ∧ a + b ≤ top := by
  unfold checkedAdd at h
  split at h
  · exact ⟨(Option.some_inj.mp h).symm, by assumption⟩
  · exact absurd h.symm (Option.some_ne_none c)

theorem checkedMul_eq_some (h : checkedMul a b = some c) : c = a * b := by
  unfold checkedMul at h
  split at h
  · exact (Option.some_inj.mp h).symm
  · exact absurd h.symm (Option.some_ne_none c)

/-- A directory record is read without panic as long as its index is one of the at most
64 of the header. -/
theorem safe_readEntry (bytes : Bytes) (limits : DecodeLimits) (directoryEnd : Nat)
    (hindex : index < inputMaxSections) :
    Safe (readEntry bytes limits directoryEnd index) (Entry.Placed bytes) := by
  simp only [readEntry, safe_bind, safe_ofOption_wire]
  intro skipped hskipped start hstart
  have hsum : start + inputDirectoryRecordSize ≤ usizeMax := by
    have hskip := checkedMul_eq_some hskipped
    have hbase := (checkedAdd_eq_some hstart).1
    unfold inputDirectoryRecordSize inputHeaderSize inputMaxSections at *
    unfold usizeMax
    omega
  rw [safe_plus]
  refine ⟨hsum, fun record _ => ?_⟩
  simp only [safe_ensure_wire, safe_ensure_version, safe_ensure_resource, safe_u64ToUsize,
    safe_readU16_at, safe_readU32_at, safe_readU64_at, Nat.reduceLeDiff]
  intro rawKind _ flags _ _ _ _ _ _ _ offset _ _ length _ _ count _ _ alignment _ _ _ last
    hlast hinside
  refine (safe_checkCount _ _ _).mono fun _ hsized => ?_
  intro _
  refine ⟨?_, hsized⟩
  rw [(checkedAdd_eq_some hlast).1] at hinside
  exact hinside.2

/-- What the loop over the directory keeps: everything entered is in place. -/
structure ScanInv (bytes : Bytes)
    (state : List (SectionKind × Section) × List (Nat × Nat)) : Prop where
  placed : ∀ kind place, (kind, place) ∈ state.1 → Entry.Placed bytes { kind := some kind, place }
  pieces : ∀ piece ∈ state.2, piece.1 ≤ piece.2 ∧ piece.2 ≤ bytes.length

theorem safe_enter {entry : Entry} (hentry : entry.Placed bytes)
    (h : ∀ kind place, (kind, place) ∈ sections → Entry.Placed bytes { kind := some kind, place }) :
    Safe (enter sections entry) fun sections' =>
      ∀ kind place, (kind, place) ∈ sections' → Entry.Placed bytes
      { kind := some kind, place } := by
  obtain ⟨known, place⟩ := entry
  cases known with
  | none => exact h
  | some known =>
    simp only [enter, safe_bind, safe_ensure_wire, safe_pure]
    intro _ kind place' hmem
    rcases mem_append.mp hmem with hmem | hmem
    · exact h kind place' hmem
    · obtain ⟨rfl, rfl⟩ := Prod.mk.inj (mem_singleton.mp hmem)
      exact hentry

theorem safe_scan {limits : DecodeLimits} {directoryEnd : Nat} (hindex : index < inputMaxSections)
    (h : ScanInv bytes state) : Safe (scan bytes limits directoryEnd state index)
      (ScanInv bytes) := by
  rw [scan, safe_bind]
  refine (safe_readEntry bytes limits directoryEnd hindex).mono fun entry hentry => ?_
  rw [safe_bind]
  refine (safe_enter hentry h.placed).mono fun sections hsections => ?_
  refine ⟨hsections, fun piece hpiece => ?_⟩
  rcases mem_append.mp hpiece with hpiece | hpiece
  · exact h.pieces piece hpiece
  · rw [mem_singleton.mp hpiece]
    exact ⟨Nat.le_add_right _ _, hentry.fits⟩

theorem safe_cover {pieces : List (Nat × Nat)} {cursor : Nat}
    (hpieces : ∀ piece ∈ pieces, piece.1 ≤ piece.2 ∧ piece.2 ≤ bytes.length) :
    NoPanic (pieces.foldlM (cover bytes) cursor) := by
  refine noPanic_foldlM fun cursor piece hpiece => ?_
  have hends := hpieces piece hpiece
  simp only [cover, safe_bind, safe_ensure_wire, safe_slice, safe_pure]
  exact fun hle => ⟨⟨hle, le_trans hends.1 hends.2⟩, fun _ => trivial⟩

@[simp] theorem safe_documentKind {value : Nat} : NoPanic (DocumentKind.parse value) := by
  refine noPanic ?_
  unfold DocumentKind.parse
  split <;> simp

theorem safe_parseHeader (bytes : Bytes) (expected : DocumentKind) (limits : DecodeLimits)
    (header : Bytes) : Safe (parseHeader bytes expected limits header) fun sectionCount =>
      sectionCount ≤ inputMaxSections := by
  simp only [parseHeader, safe_bind, safe_ensure_wire, safe_ensure_version, safe_ensure_resource,
    safe_u64ToUsize, safe_readU16_at, safe_readU32_at, safe_readU64_at,
    safe_documentKind, safe_pure,
    Nat.reduceLeDiff]
  exact fun _ _ _ _ _ _ _ _ _ _ _ _ _ _ _ _ _ _ _ _ _ _ _ _ _ hcount => hcount.2

theorem mem_of_lookup (h : sections.lookup kind = some place) : (kind, place) ∈ sections := by
  obtain ⟨before, after, rfl, -⟩ := lookup_eq_some_iff.mp h
  simp

theorem placed_of_scan {kind : DocumentKind} (hsmall : Small bytes) (h : ScanInv bytes state) :
    Placed { bytes, kind, sections := state.1 } where
  small := hsmall
  fits known place hplace := (h.placed known place (mem_of_lookup hplace)).fits
  sized known place size hplace hsize :=
    (h.placed known place (mem_of_lookup hplace)).sized known size rfl hsize

/-- **Parsing never panics, and every section of a parsed document is in place.** -/
theorem safe_parse (bytes : Bytes) (expected : DocumentKind) (limits : DecodeLimits) :
    Safe (parse platform bytes expected limits) fun document =>
      document.Placed ∧ document.kind = expected := by
  simp only [parse, safe_bind, safe_ensure_resource, safe_ofOption_wire]
  intro hsmall header hheader
  refine (safe_parseHeader bytes expected limits header).mono fun sectionCount hcount => ?_
  simp only [safe_ensure_wire, safe_slice]
  intro directoryLength _ directoryEnd _ hend _ _
  have hlength : inputHeaderSize ≤ bytes.length := (range?_eq_some.mp hheader).2.1
  refine ⟨⟨hlength, le_refl _⟩, fun _ _ => ?_⟩
  refine (safe_foldlM (ScanInv bytes) ⟨by simp, by simp⟩ fun state hstate index hindex =>
    safe_scan (lt_of_lt_of_le (mem_range.mp hindex) hcount) hstate).mono fun state hstate => ?_
  have hpieces := fun piece hpiece => hstate.pieces piece ((mem_insertionSort pieceLe).mp hpiece)
  rw [safe_cover hpieces]
  exact fun _ _ _ => ⟨placed_of_scan hsmall.2 hstate, rfl⟩

end Document

end PyHermit.Wire
