import Mathlib.Data.Rat.Floor
import PyHermit.Lib.Wp

/-!
# Numeric ranges

The exact numeric part of `datatypes/range.rs`: unions of rational intervals over one of
the nested numeric domains. An `ExactRational` is a `Rat`. No bound denotes infinity, so an
infinite end cannot be inclusive, which `NumericInterval::new` checks. Polls and the
reservation of the output are left out.
-/

open Prog

namespace PyHermit

inductive DatatypeErrorKind where
  | invalid | resource | cancelled

structure DatatypeError where
  kind : DatatypeErrorKind
  message : String
  limit : Option String := none
  observed : Option Nat := none
  allowed : Option Nat := none

def DatatypeError.invalid (message : String) : DatatypeError := { kind := .invalid, message }

def DatatypeError.resource (limit : String) (observed allowed : Nat) : DatatypeError where
  kind := .resource
  message := "native datatype resource limit exceeded: " ++ limit
  limit := some limit
  observed := some observed
  allowed := some allowed

/-- The four nested exact numeric domains, smallest first. -/
inductive NumericDomain where
  | integer | decimal | rational | real
  deriving DecidableEq

inductive OrderedFacet where
  | minInclusive | minExclusive | maxInclusive | maxExclusive

inductive Cardinality where
  | empty
  | finite (count : Nat)
  | infinite

def Cardinality.ofNat (count : Nat) : Cardinality := if count = 0 then .empty else .finite count

def exactCompare (a b : Rat) : Ordering := compare (a.num * b.den) (b.num * a.den)

/-- Divide by the factor as long as it divides; the number itself bounds the rounds. -/
def stripFactor (factor : Nat) : Nat → Nat → Nat
  | 0, n => n
  | rounds + 1, n => if n % factor = 0 then stripFactor factor rounds (n / factor) else n

def numericDomainContains : NumericDomain → Rat → Bool
  | .integer, value => value.den = 1
  | .decimal, value => stripFactor 5 value.den (stripFactor 2 value.den value.den) = 1
  | .rational, _ | .real, _ => true

/-! ## Intervals -/

structure Bound where
  value : Rat
  inclusive : Bool
  deriving DecidableEq

structure NumericInterval where
  lower : Option Bound
  upper : Option Bound
  deriving DecidableEq

namespace NumericInterval

def unbounded : NumericInterval := ⟨none, none⟩

variable (interval : NumericInterval)

def contains (value : Rat) (domain : NumericDomain) : Bool :=
  numericDomainContains domain value &&
    interval.lower.all (fun lower =>
      !(exactCompare value lower.value = .lt ||
        (exactCompare value lower.value = .eq && !lower.inclusive))) &&
    interval.upper.all fun upper =>
      !(exactCompare value upper.value = .gt ||
        (exactCompare value upper.value = .eq && !upper.inclusive))

variable (left right : NumericInterval)

def strongerLower : Option Bound :=
  match left.lower, right.lower with
  | none, bound => bound
  | bound, none => bound
  | some l, some r =>
    match exactCompare l.value r.value with
    | .gt => some l
    | .lt => some r
    | .eq => some ⟨l.value, l.inclusive && r.inclusive⟩

def strongerUpper : Option Bound :=
  match left.upper, right.upper with
  | none, bound => bound
  | bound, none => bound
  | some l, some r =>
    match exactCompare l.value r.value with
    | .lt => some l
    | .gt => some r
    | .eq => some ⟨l.value, l.inclusive && r.inclusive⟩

def intersection : NumericInterval :=
  ⟨strongerLower left right, strongerUpper left right⟩

/-- The first and the last integer between two finite ends. -/
def integerBounds : Option (Int × Int) :=
  match interval.lower, interval.upper with
  | some lower, some upper =>
    some (if lower.inclusive then ⌈lower.value⌉ else ⌊lower.value⌋ + 1,
      if upper.inclusive then ⌊upper.value⌋ else ⌈upper.value⌉ - 1)
  | _, _ => none

def isEmptyExact (domain : NumericDomain) : Bool :=
  if domain = .integer then interval.integerBounds.any fun (lower, upper) => upper < lower
  else
    match interval.lower, interval.upper with
    | some lower, some upper =>
      match exactCompare lower.value upper.value with
      | .gt => true
      | .lt => false
      | .eq => !(lower.inclusive && upper.inclusive && numericDomainContains domain lower.value)
    | _, _ => false

def cardinality (domain : NumericDomain) : Cardinality :=
  if interval.isEmptyExact domain then .empty
  else if domain = .integer then
    match interval.integerBounds with
    | none => .infinite
    | some (lower, upper) => .ofNat (upper - lower + 1).toNat
  else
    match interval.lower, interval.upper with
    | some lower, some upper =>
      if exactCompare lower.value upper.value = .eq ∧ lower.inclusive = true ∧
          upper.inclusive = true ∧ numericDomainContains domain lower.value = true then .finite 1
      else .infinite
    | _, _ => .infinite

/-! ### Normalisation -/

def compareLower : Ordering :=
  match left.lower, right.lower with
  | none, none => .eq
  | none, some _ => .lt
  | some _, none => .gt
  | some l, some r =>
    if exactCompare l.value r.value = .eq then compare r.inclusive.toNat l.inclusive.toNat
    else exactCompare l.value r.value

def compareUpper : Ordering :=
  match left.upper, right.upper with
  | none, none => .eq
  | none, some _ => .gt
  | some _, none => .lt
  | some l, some r => exactCompare l.value r.value

def canMerge : Bool :=
  match left.upper, right.lower with
  | some upper, some lower =>
    match exactCompare upper.value lower.value with
    | .gt => true
    | .eq => upper.inclusive || lower.inclusive
    | .lt => false
  | _, _ => true

def merge : NumericInterval where
  lower := left.lower
  upper :=
    match left.upper, right.upper with
    | some l, some r =>
      match exactCompare l.value r.value with
      | .gt => some l
      | .lt => some r
      | .eq => some ⟨l.value, l.inclusive || r.inclusive⟩
    | _, _ => none

/-- The loop of `normalize_numeric`, with the last interval of the output at hand. -/
def coalesce : NumericInterval → List NumericInterval → List NumericInterval
  | previous, [] => [previous]
  | previous, interval :: rest =>
    if previous.canMerge interval then coalesce (previous.merge interval) rest
    else previous :: coalesce interval rest

end NumericInterval

open NumericInterval

def normalizeNumeric (domain : NumericDomain) (intervals : List NumericInterval) :
    List NumericInterval :=
  match (intervals.filter (!·.isEmptyExact domain)).mergeSort fun a b =>
    (compareLower a b).isLE with
  | [] => []
  | interval :: rest => coalesce interval rest

/-! ## Ranges -/

structure NumericRange where
  domain : NumericDomain
  intervals : List NumericInterval
  deriving DecidableEq

namespace NumericRange

variable (domain : NumericDomain)

def new (intervals : List NumericInterval) : NumericRange :=
  ⟨domain, normalizeNumeric domain intervals⟩

def empty : NumericRange := ⟨domain, []⟩

def all : NumericRange := ⟨domain, [.unbounded]⟩

variable (range : NumericRange)

def contains (value : Rat) : Bool :=
  range.intervals.any (·.contains value range.domain)

def smaller : NumericDomain → NumericDomain → NumericDomain
  | .integer, _ | _, .integer => .integer
  | .decimal, _ | _, .decimal => .decimal
  | .rational, _ | _, .rational => .rational
  | .real, .real => .real

def overlaps : List NumericInterval → List NumericInterval → List NumericInterval
  | left :: ls, right :: rs =>
    left.intersection right ::
      match compareUpper left right with
      | .lt => overlaps ls (right :: rs)
      | .gt => overlaps (left :: ls) rs
      | .eq => overlaps ls rs
  | _, _ => []
  termination_by left right => left.length + right.length

def intersection (range other : NumericRange) : NumericRange :=
  new (smaller range.domain other.domain) (overlaps range.intervals other.intervals)

def union (range other : NumericRange) : Except DatatypeError NumericRange := do
  ensure (range.domain = other.domain)
    (.invalid "mixed-domain union requires the full data-domain algebra")
  return new range.domain (range.intervals ++ other.intervals)

/-- The loop of `complement`, from the end of the interval before. -/
def gaps : Option Bound → List NumericInterval → List NumericInterval
  | lower, [] => [⟨lower, none⟩]
  | lower, interval :: rest =>
    (interval.lower.toList.map fun bound => ⟨lower, some ⟨bound.value, !bound.inclusive⟩⟩) ++
      interval.upper.elim [] fun bound => gaps (some ⟨bound.value, !bound.inclusive⟩) rest

def complement : NumericRange :=
  if range.intervals = [] then all range.domain else new range.domain (gaps none range.intervals)

/-- The interval a facet restricts to. -/
def facetInterval (facet : OrderedFacet) (boundary : Rat) : NumericInterval :=
  match facet with
  | .minInclusive => ⟨some ⟨boundary, true⟩, none⟩
  | .minExclusive => ⟨some ⟨boundary, false⟩, none⟩
  | .maxInclusive => ⟨none, some ⟨boundary, true⟩⟩
  | .maxExclusive => ⟨none, some ⟨boundary, false⟩⟩

def applyFacet (facet : OrderedFacet) (boundary : Rat) : NumericRange :=
  range.intersection (new range.domain [facetInterval facet boundary])

def countValues (domain : NumericDomain) : List NumericInterval → Nat → Cardinality
  | [], total => .ofNat total
  | interval :: rest, total =>
    match interval.cardinality domain with
    | .empty => countValues domain rest total
    | .finite count => countValues domain rest (total + count)
    | .infinite => .infinite

def cardinality : Cardinality := countValues range.domain range.intervals 0

/-- More than `maximum` values; the count of them saturates. -/
def tooMany (maximum : Nat) : DatatypeError :=
  .resource "max_enumeration_values" (min (maximum + 1) (2 ^ 64 - 1)) maximum

def materializableCount (maximum : Nat) : Cardinality → Except DatatypeError Nat
  | .empty => .ok 0
  | .finite count => if maximum < count then .error (tooMany maximum) else .ok count
  | .infinite => .error (tooMany maximum)

def intervalValues (interval : NumericInterval) : Except DatatypeError (List Rat) :=
  if domain = .integer then
    match interval.integerBounds with
    | none => .error (.invalid "finite integer interval has an infinite endpoint")
    | some (lower, upper) =>
      .ok ((List.range (upper - lower + 1).toNat).map fun (offset : Nat) =>
        ((lower + offset : Int) : Rat))
  else
    match interval.lower with
    | some bound => .ok [bound.value]
    | none => .error (.invalid "finite dense interval has no singleton endpoint")

def enumerateValues (maximum : Nat) : Except DatatypeError (List Rat) := do
  let _ ← materializableCount maximum range.cardinality
  let values ← range.intervals.mapM (intervalValues range.domain)
  return values.flatten

end NumericRange

end PyHermit
