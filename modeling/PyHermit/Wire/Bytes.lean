import PyHermit.Lib.Fault
import PyHermit.Model

/-!
# Reading an input document

The readers at the bottom of `input_wire.rs`. Every reader either checks a range and returns
an error, or indexes and may panic; the model keeps that difference (`Fault`). Additions the
source does not check panic when they leave `usize`, that of a 64-bit target. `sha2`,
`serde_json` and the allocator enter as a `Platform`, about which nothing is assumed.
-/

open Prog Fault

namespace PyHermit.Wire

abbrev Bytes := List UInt8

structure InputWireError where
  code : String
  message : String
  deriving DecidableEq

abbrev InputResult := Except (Fault InputWireError)

variable (message : String)

def wire : Fault InputWireError := .error { code := "NATIVE_INPUT_WIRE", message }

def version : Fault InputWireError :=
  .error { code := "NATIVE_INPUT_VERSION", message }

def resource : Fault InputWireError :=
  .error { code := "NATIVE_INPUT_RESOURCE_LIMIT", message }

@[simp] theorem wire_ne_panic (message : String) : wire message ≠ .panic := nofun

@[simp] theorem version_ne_panic (message : String) : version message ≠ .panic := nofun

@[simp] theorem resource_ne_panic (message : String) : resource message ≠ .panic := nofun

/-- What the decoder takes from other crates and from the allocator. -/
structure Platform where
  /-- `Sha256::digest` -/
  sha256 : Bytes → Bytes
  /-- `serde_json::Value` -/
  Json : Type
  /-- `serde_json::from_str` -/
  parseJson : String → Option Json
  /-- `serde_json::to_string` -/
  printJson : Json → Option String
  /-- The length of the array an object holds under `data_ranges`. -/
  dataRanges : Json → Option Nat
  /-- `try_reserve_exact` on the vector of the given name succeeds. -/
  reserves : String → Nat → Bool

/-! ## Machine integers -/

def usizeMax : Nat := 2 ^ 64 - 1

/-- `a.checked_add(b)` on integers whose largest value is `top`. -/
def checkedAdd (top a b : Nat) : Option Nat := if a + b ≤ top then some (a + b) else none

/-- `a.checked_mul(b)` on `usize`. -/
def checkedMul (a b : Nat) : Option Nat := if a * b ≤ usizeMax then some (a * b) else none

/-- `u32::try_from(n).unwrap_or(u32::MAX)`. -/
def clampU32 (n : Nat) : Nat := min n u32Max

def usizeFromU32 (value : Nat) (name : String) : InputResult Nat := do
  ensure (value ≤ usizeMax) (wire (name ++ " does not fit usize"))
  return value

def u64ToUsize (value : Nat) (name : String) : InputResult Nat := do
  ensure (value ≤ usizeMax) (wire (name ++ " does not fit usize"))
  return value

/-- `u32::MAX` as the absent value of an identifier. -/
def u32None : Nat := u32Max

/-! ## Fields -/

def littleEndian : Bytes → Nat
  | [] => 0
  | byte :: rest => byte.toNat + 256 * littleEndian rest

/-- The bytes of a field; the shape of `read_u16`, `read_u32`, `read_u64`, `read_f64`
and `read_array_32`. The conversion to an array that follows cannot fail. -/
def readField (width : Nat) (name : String) (bytes : Bytes) (offset : Nat) : InputResult Bytes := do
  let last ← plus usizeMax offset width
  ofOption (range? bytes offset last) (wire (name ++ " field is truncated"))

variable (bytes : Bytes) (offset : Nat)

def readU16 : InputResult Nat := do
  return littleEndian (← readField 2 "u16" bytes offset)

def readU32 : InputResult Nat := do
  return littleEndian (← readField 4 "u32" bytes offset)

def readU64 : InputResult Nat := do
  return littleEndian (← readField 8 "u64" bytes offset)

def readArray32 : InputResult Bytes :=
  readField 32 "32-byte" bytes offset

/-- A double, by its bits. -/
structure F64 where
  bits : Nat
  deriving DecidableEq

namespace F64

def exponent (x : F64) : Nat := x.bits / 2 ^ 52 % 2 ^ 11

def isFinite (x : F64) : Bool := x.exponent ≠ 2 ^ 11 - 1

/-- `x == 0.0`; both zeros are. -/
def isZero (x : F64) : Bool := x.bits % 2 ^ 63 = 0

/-- `x <= 0.0`, for a number. -/
def isNonpositive (x : F64) : Bool := x.isZero || x.bits.testBit 63

end F64

variable (bytes : Bytes)

def readF64 (offset : Nat) : InputResult F64 := do
  return ⟨littleEndian (← readField 8 "f64" bytes offset)⟩

/-! ## Records, ranges and strings -/

/-- `bytes.chunks_exact(size)`. -/
def chunksExact (size : Nat) (bytes : Bytes) : List Bytes :=
  (List.range (bytes.length / size)).map fun i => (bytes.drop (i * size)).take size

def records (size : Nat) : InputResult (List Bytes) := do
  ensure (size ≠ 0 ∧ bytes.length % size = 0) (wire "fixed-record section has a partial record")
  return chunksExact size bytes

def sliceRange {α : Type} (values : List α) (first count : Nat) (name : String) :
    InputResult (List α) := do
  let start ← usizeFromU32 first name
  let length ← usizeFromU32 count name
  let last ← ofOption (checkedAdd usizeMax start length) (wire (name ++ " range overflows"))
  ofOption (range? values start last) (wire (name ++ " range is dangling"))

def cloneRange {α : Type} (values : List α) (first count : Nat) (name : String) :
    InputResult (List α) :=
  sliceRange values first count name

def readBytesSlice (offset length : Nat) : InputResult Bytes := do
  let start ← usizeFromU32 offset "byte-pool offset"
  let size ← usizeFromU32 length "byte-pool length"
  let last ← ofOption (checkedAdd usizeMax start size) (wire "byte-pool reference overflows")
  ofOption (range? bytes start last) (wire "byte-pool reference is outside the section")

def readBytes (offset length : Nat) : InputResult Bytes :=
  readBytesSlice bytes offset length

/-- `std::str::from_utf8`. -/
def fromUtf8 : Option String := String.fromUTF8? ⟨bytes.toArray⟩

def readString (strings : Bytes) (offset length : Nat) (allowEmpty : Bool) :
    InputResult String := do
  let bytes ← readBytesSlice strings offset length
  ensure (allowEmpty = true ∨ bytes ≠ []) (wire "referenced string is empty")
  ofOption (fromUtf8 bytes) (wire "referenced string is not UTF-8")

/-- Consecutive values are strictly ascending (`windows(2)`). -/
def ascending {α : Type} (cmp : α → α → Ordering) : List α → Bool
  | a :: b :: rest => (cmp a b).isLT && ascending cmp (b :: rest)
  | _ => true

def validateSortedUnique {α : Type} (cmp : α → α → Ordering) (values : List α) (name : String) :
    InputResult Unit :=
  ensure (ascending cmp values = true) (wire (name ++ " is not sorted and unique"))

def comparePairs {α β : Type} [Ord α] [Ord β] : α × β → α × β → Ordering :=
  compareLex (compareOn Prod.fst) (compareOn Prod.snd)

section

variable (platform : Platform)

def reserveCount (count : Nat) (name : String) : InputResult Unit := do
  let count ← usizeFromU32 count name
  ensure (platform.reserves name count = true) (resource (name ++ " allocation failed"))

def decodeDigestRecords (bytes : Bytes) : InputResult (List Bytes) := do
  reserveCount platform (clampU32 (bytes.length / 32)) "digests"
  records bytes 32

def decodeU32Records (bytes : Bytes) (name : String) : InputResult (List Nat) := do
  ensure (bytes.length % 4 = 0) (wire (name ++ " byte length is not divisible by four"))
  reserveCount platform (clampU32 (bytes.length / 4)) name
  (List.range' 0 ((bytes.length + 3) / 4) 4).mapM (readU32 bytes)

def readU32Range (bytes : Bytes) (first count : Nat) : InputResult (List Nat) := do
  let byteFirst ← ofOption (checkedMul (← usizeFromU32 first "u32-pool offset") 4)
    (wire "u32-pool byte offset overflows")
  let byteCount ← ofOption (checkedMul (← usizeFromU32 count "u32-pool count") 4)
    (wire "u32-pool byte count overflows")
  let last ← ofOption (checkedAdd usizeMax byteFirst byteCount) (wire "u32-pool range overflows")
  let selected ← ofOption (range? bytes byteFirst last)
    (wire "u32-pool reference is outside the section")
  decodeU32Records platform selected "u32-pool range"

def decodeStringRefRange (recordsBytes strings : Bytes) (first count : Nat) (allowEmpty : Bool) :
    InputResult (List String) := do
  let allRecords ← records recordsBytes 8
  let selected ← sliceRange allRecords first count "string references"
  reserveCount platform count "string references"
  selected.mapM fun record => do
    readString strings (← readU32 record 0) (← readU32 record 4) allowEmpty

/-- The text is what `serde_json` prints for the value it reads from it. -/
def validateCanonicalJsonText (value name : String) : InputResult platform.Json := do
  let parsed ← ofOption (platform.parseJson value) (wire (name ++ " is not valid JSON"))
  let canonical ← ofOption (platform.printJson parsed) (wire (name ++ " cannot be canonicalized"))
  ensure (canonical = value) (wire (name ++ " is not canonical JSON"))
  return parsed

def readCanonicalJson (strings : Bytes) (offset length : Nat) (name : String) :
    InputResult String := do
  let value ← readString strings offset length false
  let _ ← validateCanonicalJsonText platform value name
  return value

end

end PyHermit.Wire
