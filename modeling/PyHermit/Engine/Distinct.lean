import PyHermit.Lib.Loop
import PyHermit.Model

/-!
# Pairwise different successors

`existentials/distinct.rs`: a cardinality restriction is met by successors that are known to
be different from each other. The candidates are searched depth first, with a stack of
selected indices and one of the indices to try next, which is one longer.
-/

open Prog

namespace PyHermit.Distinct

inductive ExpansionError
  | cancelled (message : String)
  | resource (message limit : String) (observed allowed : Nat)
  | invariant (message : String)
  /-- An index out of range, at which the code panics. -/
  | outOfBounds
  /-- The loop used up its budget of rounds. -/
  | endless

/-- `ExpansionLimits`, as they are made by `ExpansionLimits::new`. -/
structure ExpansionLimits where
  maxDistinctSearchSteps : Nat
  cancellationInterval : Nat
  positive : 0 < maxDistinctSearchSteps ∧ 0 < cancellationInterval
  bounded : maxDistinctSearchSteps ≤ u64Max

/-- `ExpansionControl`, over a state of its own. -/
structure ExpansionControl (σ : Type) where
  poll : EStateM ExpansionError σ Unit
  addWork : Nat → EStateM ExpansionError σ Unit

structure DistinctSearchResult where
  satisfied : Bool
  steps : Nat
  selectedIndices : List Nat

/-- The local variables of the search; the tops of the stacks stand last. -/
structure Search where
  selected : List Nat
  nextIndices : List Nat
  steps : Nat

section

variable {σ T : Type} (candidates : List T) (cardinality : Nat) (limits : ExpansionLimits)
  (control : ExpansionControl σ) (knownDifferent : T → T → Except ExpansionError Bool)

def candidateAt (index : Nat) : Except ExpansionError T :=
  (candidates[index]?).elim (.error .outOfBounds) .ok

/-- The candidate is compared with those selected, up to the first it may be equal to. -/
def differsFrom (candidate : T) : List Nat → Except ExpansionError Bool
  | [] => return true
  | selectedIndex :: rest => do
    let other ← candidateAt candidates selectedIndex
    if ← knownDifferent candidate other then differsFrom candidate rest else return false

/-- Every so many steps the work is reported and the control is asked. -/
def reportSteps (steps : Nat) : EStateM ExpansionError σ Unit :=
  if steps % limits.cancellationInterval = 0 then do
    control.addWork limits.cancellationInterval
    control.poll
  else return ()

/-- One step of the search, from the index on top of the stack. -/
def searchAt (index : Nat) (search : Search) :
    EStateM ExpansionError σ (Round Search DistinctSearchResult) := do
  ensure (search.steps < u64Max) (ExpansionError.invariant "distinct-search step counter overflow")
  let steps := search.steps + 1
  ensure (steps ≤ limits.maxDistinctSearchSteps)
    (ExpansionError.resource "pairwise-distinct successor search limit exceeded"
      "max_distinct_search_steps" steps limits.maxDistinctSearchSteps)
  reportSteps limits control steps
  let stillNeeded := cardinality - search.selected.length
  if candidates.length ≤ index ∨ candidates.length - index < stillNeeded then
    return .again
      { selected := search.selected.dropLast, nextIndices := search.nextIndices.dropLast, steps }
  else
    let nextIndices := search.nextIndices.dropLast ++ [index + 1]
    let candidate ← ask fun _ => candidateAt candidates index
    let different ← ask fun _ => differsFrom candidates knownDifferent candidate search.selected
    if different then
      let selected := search.selected ++ [index]
      if selected.length = cardinality then do
        control.addWork (steps % limits.cancellationInterval)
        return .done { satisfied := true, steps, selectedIndices := selected }
      else return .again { selected, nextIndices := nextIndices ++ [index + 1], steps }
    else return .again { search with nextIndices, steps }

def searchRound (search : Search) : EStateM ExpansionError σ (Round Search DistinctSearchResult) :=
  match search.nextIndices.getLast? with
  | some index => searchAt candidates cardinality limits control knownDifferent index search
  | none => do
    control.addWork (search.steps % limits.cancellationInterval)
    return .done { satisfied := false, steps := search.steps, selectedIndices := [] }

def pairwiseDistinctSubset : EStateM ExpansionError σ DistinctSearchResult := do
  control.poll
  if cardinality = 0 then return { satisfied := true, steps := 0, selectedIndices := [] }
  else if candidates.length < cardinality then
    return { satisfied := false, steps := 0, selectedIndices := [] }
  else if cardinality = 1 then return { satisfied := true, steps := 0, selectedIndices := [0] }
  else
    loop .endless (searchRound candidates cardinality limits control knownDifferent)
      (limits.maxDistinctSearchSteps + 2) { selected := [], nextIndices := [0], steps := 0 }

end

end PyHermit.Distinct
