import PyHermit.Lib.Lookup
import PyHermit.Lib.Wp
import Std.Data.ExtTreeMap
import Std.Data.ExtTreeSet
import Mathlib.Data.List.Sort

/-!
# Primitive values of the kernel

Errors, node handles and dependency sets (`error.rs`, `model/mod.rs`). Identifiers and
counters are `u32` in the source and natural numbers here, with the source's overflow checks
(`increment32`, `toU32`). A `DependencySet` is a strictly ascending list of branching
levels, so it is determined by its members (`DependencySet.ext_mem`) and the source's
`binary_search` is plain membership.
-/

open Std Prog

namespace PyHermit

/-! ## Errors -/

/-- What went wrong, coarsely (`ErrorKind`). -/
inductive ErrorKind where
  | wire | version | disposed | busy | cancelled | timeout | resource | profile
  | unsupportedDatatype | inconsistent | poisoned | fork | feature | invariant
  deriving DecidableEq

/-- `NativeError`; the context map is kept as its entries in key order. -/
structure NativeError where
  kind : ErrorKind
  code : String
  message : String
  context : List (String × String) := []
  deriving DecidableEq

namespace NativeError

def wire (message : String) : NativeError :=
  { kind := .wire, code := "NATIVE_WIRE_INVALID", message }

def invariant (message : String) : NativeError :=
  { kind := .invariant, code := "NATIVE_INVARIANT", message }

/-- What a poll past the deadline answers. -/
def timeout : NativeError :=
  { kind := .timeout, code := "REASONER_TIMEOUT"
    message := "native reasoning operation exceeded its timeout" }

/-- The error of an exceeded limit (`resource_limit`). -/
def resourceLimit (message limit : String) (observed allowed : Nat) : NativeError :=
  { kind := .resource, code := "RESOURCE_LIMIT", message
    context := [("allowed", toString allowed), ("limit", limit), ("observed", toString observed)] }

end NativeError

open NativeError

/-- `OperationControl`: the answer of each consultation, by its number. -/
structure OperationControl where
  poll : Nat → Except NativeError Unit
  observeMemory : Nat → Nat → Except NativeError Unit

def u32Max : Nat := 2 ^ 32 - 1

def u64Max : Nat := 2 ^ 64 - 1

def increment32 (value : Nat) (overflow : String) : Except NativeError Nat :=
  if value < u32Max then .ok (value + 1) else .error (invariant overflow)

def increment64 (value : Nat) (overflow : String) : Except NativeError Nat :=
  if value < u64Max then .ok (value + 1) else .error (invariant overflow)

def toU32 (length : Nat) (overflow : String) : Except NativeError Nat :=
  if length ≤ u32Max then .ok length else .error (invariant overflow)

variable {overflow : String} {value n : Nat}

section
variable {p : Prop} [Decidable p] {a : Nat} {e e' : NativeError}

theorem bounded_ok (h : (if p then .ok a else .error e : Except NativeError Nat) = .ok n) :
    n = a ∧ p := by
  split at h
  · cases h
    exact ⟨rfl, ‹p›⟩
  · cases h

theorem bounded_error (h : (if p then .ok a else .error e : Except NativeError Nat) = .error e') :
    ¬ p := by
  split at h
  · cases h
  · assumption

theorem increment32_ok (h : increment32 value overflow = .ok n) : n = value + 1 ∧ value < u32Max :=
  bounded_ok h

theorem increment64_ok (h : increment64 value overflow = .ok n) : n = value + 1 := (bounded_ok h).1

theorem toU32_ok {length : Nat} (h : toU32 length overflow = .ok n) : n = length := (bounded_ok h).1

end

/-! ## Nodes by handle -/

/-- A generation-stamped reference to an arena slot. -/
@[ext] structure NodeHandle where
  slot : Nat
  generation : Nat
  deriving DecidableEq

instance : Ord NodeHandle := ⟨compareLex (compareOn (·.slot)) (compareOn (·.generation))⟩

instance : TransOrd NodeHandle :=
  inferInstanceAs (TransCmp (compareLex (compareOn NodeHandle.slot)
    (compareOn NodeHandle.generation)))

instance : LawfulEqOrd NodeHandle := ⟨fun h => (Prog.eq_of_compareLex h).elim NodeHandle.ext⟩

inductive NodeSort where
  | object | data
  deriving DecidableEq

inductive NodeKind where
  | root | tree | ni | concrete
  deriving DecidableEq

/-- Only concrete nodes are of data sort. -/
def NodeKind.sort : NodeKind → NodeSort
  | .concrete => .data
  | .root | .tree | .ni => .object

inductive NodeLifecycle where
  | active | merged | pruned | retired
  deriving DecidableEq

/-! ## Dependency sets -/

/-- The branching levels a derivation rests on, strictly ascending. -/
structure DependencySet where
  levels : List Nat
  ascending : levels.Pairwise (· < ·)

namespace DependencySet

variable {d : DependencySet} {level n x : Nat} {values : List DependencySet} {e : DependencySet}
  {xs : List Nat} {m : Nat}

theorem ext_levels (h : d.levels = e.levels) : d = e := by
  cases d
  cases e
  simp_all

instance : DecidableEq DependencySet := fun d e =>
  decidable_of_iff (d.levels = e.levels) ⟨ext_levels, fun h => by rw [h]⟩

instance : Membership Nat DependencySet := ⟨fun d level => level ∈ d.levels⟩

theorem mem_def : level ∈ d ↔ level ∈ d.levels := Iff.rfl

instance (level : Nat) (d : DependencySet) : Decidable (level ∈ d) :=
  inferInstanceAs (Decidable (level ∈ d.levels))

def empty : DependencySet := ⟨[], List.Pairwise.nil⟩

@[simp] theorem not_mem_empty : ¬ level ∈ empty := List.not_mem_nil

def maximum (d : DependencySet) : Option Nat := d.levels.getLast?

/-- Insertion into an ascending list, where it belongs and only if absent. -/
def insertLevel (level : Nat) : List Nat → List Nat
  | [] => [level]
  | x :: xs =>
    if level < x then level :: x :: xs
    else if level = x then x :: xs
    else x :: insertLevel level xs

theorem mem_insertLevel : x ∈ insertLevel level xs ↔ x = level ∨ x ∈ xs := by
  induction xs with
  | nil => simp [insertLevel]
  | cons y ys ih =>
    unfold insertLevel
    split
    · exact List.mem_cons
    · split
      · rename_i h
        subst h
        simp
      · rw [List.mem_cons, ih, List.mem_cons]
        exact or_left_comm

theorem insertLevel_ascending (h : xs.Pairwise (· < ·)) :
    (insertLevel level xs).Pairwise (· < ·) := by
  induction xs with
  | nil => exact List.pairwise_singleton _ _
  | cons y ys ih =>
    obtain ⟨hy, hys⟩ := List.pairwise_cons.mp h
    unfold insertLevel
    split
    · rename_i hlt
      refine List.pairwise_cons.mpr ⟨fun z hz => ?_, h⟩
      rcases List.mem_cons.mp hz with rfl | hz
      · exact hlt
      · exact Nat.lt_trans hlt (hy z hz)
    · split
      · exact h
      · refine List.pairwise_cons.mpr ⟨fun z hz => ?_, ih hys⟩
        rcases mem_insertLevel.mp hz with rfl | hz
        · omega
        · exact hy z hz

def add (d : DependencySet) (level : Nat) : DependencySet :=
  ⟨insertLevel level d.levels, insertLevel_ascending d.ascending⟩

@[simp] theorem mem_add : x ∈ d.add level ↔ x = level ∨ x ∈ d :=
  mem_insertLevel

def without (d : DependencySet) (level : Nat) : DependencySet :=
  ⟨d.levels.filter (· ≠ level), d.ascending.filter _⟩

@[simp] theorem mem_without : x ∈ d.without level ↔ x ∈ d ∧ x ≠ level := by
  simp [mem_def, without]

def isSubsetOf (d e : DependencySet) : Bool := d.levels.all fun level => e.levels.contains level

theorem isSubsetOf_iff : d.isSubsetOf e = true ↔ ∀ level, level ∈ d → level ∈ e := by
  simp [isSubsetOf, mem_def]

/-- The levels of a list, sorted and without repetition. -/
def ofLevels : List Nat → DependencySet
  | [] => empty
  | level :: rest => (ofLevels rest).add level

@[simp] theorem mem_ofLevels {levels : List Nat} : x ∈ ofLevels levels ↔ x ∈ levels := by
  induction levels with
  | nil => exact Iff.rfl
  | cons y ys ih => rw [ofLevels, mem_add, ih, List.mem_cons]

/-- `DependencySet::union`: concatenate, sort, drop repetitions. -/
def union (values : List DependencySet) : DependencySet := ofLevels (values.flatMap (·.levels))

@[simp] theorem mem_union : x ∈ union values ↔ ∃ d ∈ values, x ∈ d := by
  rw [union, mem_ofLevels, List.mem_flatMap]
  rfl

theorem maximum_mem (h : d.maximum = some m) : m ∈ d :=
  List.mem_of_getLast? h

theorem le_maximum (h : d.maximum = some m) (hl : level ∈ d) : level ≤ m := by
  obtain ⟨front, hfront⟩ := List.getLast?_eq_some_iff.mp h
  have hasc := d.ascending
  rw [hfront, List.pairwise_append] at hasc
  rw [mem_def, hfront, List.mem_append, List.mem_singleton] at hl
  rcases hl with hl | rfl
  · exact Nat.le_of_lt (hasc.2.2 level hl m (List.mem_singleton.mpr rfl))
  · exact Nat.le_refl _

theorem maximum_eq_none : d.maximum = none ↔ d = empty := by
  unfold maximum
  rw [List.getLast?_eq_none_iff]
  exact ⟨fun h => ext_levels h, fun h => by rw [h]; rfl⟩

/-- Every level of the set lies below `n`. -/
def Below (n : Nat) (d : DependencySet) : Prop := ∀ level, level ∈ d → level < n

instance : Decidable (d.Below n) := inferInstanceAs (Decidable (∀ level ∈ d.levels, level < n))

theorem Below.mono {n' : Nat} (h : d.Below n) (hn : n ≤ n') : d.Below n' :=
  fun level hl => Nat.lt_of_lt_of_le (h level hl) hn

@[simp] theorem below_empty : empty.Below n := fun _ h => absurd h not_mem_empty

theorem below_union (h : ∀ d ∈ values, d.Below n) : (union values).Below n := by
  intro level hl
  obtain ⟨d, hd, hl⟩ := mem_union.mp hl
  exact h d hd level hl

theorem below_iff_maximum : d.Below n ↔ ∀ m, d.maximum = some m → m < n := by
  refine ⟨fun h m hm => h m (maximum_mem hm), fun h level hl => ?_⟩
  cases hm : d.maximum with
  | none =>
    rw [maximum_eq_none.mp hm] at hl
    exact absurd hl not_mem_empty
  | some m => exact Nat.lt_of_le_of_lt (le_maximum hm hl) (h m hm)

/-! ### The two orders on dependency sets -/

/-- `dependency_rank`: fewer levels first, then the lower maximum, then the levels
from the top down. -/
def rankCmp (d e : DependencySet) : Ordering :=
  (compare d.levels.length e.levels.length).then
    ((compare d.maximum e.maximum).then (compare d.levels.reverse e.levels.reverse))

/-- `dependency_bits_cmp`: the sets as binary numbers, compared from the top bit. -/
def bitsCmp (d e : DependencySet) : Ordering := compare d.levels.reverse e.levels.reverse

theorem eq_of_bitsCmp (h : bitsCmp d e = .eq) : d = e := by
  unfold bitsCmp at h
  rw [Std.compare_eq_iff_eq, List.reverse_inj] at h
  exact ext_levels h

/-- `sort_dependencies`: a stable sort by `bitsCmp`. -/
def sortDependencies (values : List DependencySet) : List DependencySet :=
  values.insertionSort fun d e => (bitsCmp d e).isLE

end DependencySet

end PyHermit
