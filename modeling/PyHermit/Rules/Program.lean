import PyHermit.Model

/-!
# Rule programs

The compiled clauses the join kernel works on (`rules/model.rs`). A `RuleProgram` is
what `RuleProgram::new` lets through: it carries the proof that its predicates and
clauses passed validation, so a clause with a dangling predicate, a wrong sort or an
unbound head variable cannot be built.
-/

open Std Prog

namespace PyHermit

open NativeError

/-! ## Vocabulary -/

/-- The two term domains; `data` comes first, as in the derived order of the source. -/
inductive TermSort where
  | data | object
  deriving DecidableEq

def TermSort.nodeSort : TermSort → NodeSort
  | data => .data
  | object => .object

def NodeSort.termSort : NodeSort → TermSort
  | object => .object
  | data => .data

def TermSort.rank : TermSort → Nat
  | data => 0
  | object => 1

inductive PredicateKind where
  | concept | negatedConcept | nominal | negatedNominal | objectRole | negatedObjectRole
  | dataRole | negatedDataRole | dataRange | negatedDataRange | equality | inequality
  | atLeastObject | atLeastData | annotatedEquality | automatonState | disjointGuard
  | orderingGuard | namedIndividual
  deriving DecidableEq

namespace PredicateKind

variable (kind : PredicateKind)

def isVirtualFilter : Bool := kind = equality || kind = orderingGuard

def canTrigger : Bool := kind ≠ orderingGuard

/-- The argument sorts a predicate of the kind may have. -/
def signatureFits (sorts : List TermSort) : Bool :=
  match kind with
  | concept | negatedConcept | nominal | negatedNominal | atLeastObject | atLeastData
  | automatonState | disjointGuard | namedIndividual => sorts = [.object]
  | objectRole | negatedObjectRole => sorts = [.object, .object]
  | dataRole | negatedDataRole => sorts = [.object, .data]
  | dataRange | negatedDataRange => sorts ≠ [] && sorts.all (· = .data)
  | equality | inequality | orderingGuard => sorts = [.object, .object] || sorts = [.data, .data]
  | annotatedEquality => sorts = [.object, .object, .object]

/-- Kinds that negate one another. -/
def opposite : PredicateKind → PredicateKind → Bool
  | concept, negatedConcept | negatedConcept, concept | nominal, negatedNominal
  | negatedNominal, nominal | objectRole, negatedObjectRole | negatedObjectRole, objectRole
  | dataRole, negatedDataRole | negatedDataRole, dataRole | dataRange, negatedDataRange
  | negatedDataRange, dataRange | equality, inequality | inequality, equality => true
  | _, _ => false

def hasSymbol : Bool :=
  kind ∈ [concept, negatedConcept, nominal, negatedNominal, dataRange, negatedDataRange]

def hasCardinality : Bool := kind ∈ [atLeastObject, atLeastData, annotatedEquality]

def hasRole : Bool :=
  kind ∈ [objectRole, negatedObjectRole, dataRole, negatedDataRole]

def hasAnnotation : Bool :=
  kind ∈ [nominal, negatedNominal, atLeastData, automatonState, disjointGuard]

def isInternal : Bool :=
  kind ∈ [automatonState, disjointGuard, orderingGuard, namedIndividual]

end PredicateKind

structure RulePredicate where
  predicateId : Nat
  kind : PredicateKind
  argumentSorts : List TermSort
  symbolId : Option Nat := none
  roleId : Option Nat := none
  cardinality : Option Nat := none
  fillerPredicateId : Option Nat := none
  annotation : List Nat := []
  internalKey : Option String := none
  oppositePredicateId : Option Nat := none
  deriving DecidableEq

def RulePredicate.arity (predicate : RulePredicate) : Nat := predicate.argumentSorts.length

/-- A variable is identified by its sort and its number. -/
structure VariableKey where
  sort : TermSort
  variableId : Nat
  deriving DecidableEq

instance : Ord VariableKey := ⟨compareLex (compareOn (·.sort.rank)) (compareOn (·.variableId))⟩

instance : TransOrd VariableKey :=
  inferInstanceAs (TransCmp (compareLex (compareOn fun v : VariableKey => v.sort.rank)
    (compareOn VariableKey.variableId)))

instance : LawfulEqOrd VariableKey where
  eq_of_compare {a b} h := by
    have h' : (compare a.sort.rank b.sort.rank).then (compare a.variableId b.variableId) = .eq := h
    rw [Ordering.then_eq_eq, Std.compare_eq_iff_eq, Std.compare_eq_iff_eq] at h'
    obtain ⟨sort, variableId⟩ := a
    obtain ⟨sort', variableId'⟩ := b
    cases sort <;> cases sort' <;> simp_all [TermSort.rank]

inductive Term where
  | var (key : VariableKey)
  | individual (individualId : Nat)
  | dataConstant (sourceLiteralId dataIdentityId : Nat)
  deriving DecidableEq

namespace Term

def sort : Term → TermSort
  | var key => key.sort
  | individual _ => .object
  | dataConstant _ _ => .data

def variableKey : Term → Option VariableKey
  | var key => some key
  | _ => none

/-- The derived order: variables, individuals, constants. -/
def cmp : Term → Term → Ordering
  | var a, var b => compare a b
  | var _, _ => .lt
  | individual _, var _ => .gt
  | individual a, individual b => compare a b
  | individual _, dataConstant _ _ => .lt
  | dataConstant _ _, var _ | dataConstant _ _, individual _ => .gt
  | dataConstant a b, dataConstant c d => (compare a c).then (compare b d)

/-- `push_term_json`. -/
def json : Term → String
  | var key => "\x7b\"index\":" ++ toString key.variableId ++ ",\"schema_version\":1,\"sort\":\"" ++
      (match key.sort with | .data => "data" | .object => "object") ++
      "\",\"type\":\"Variable\"\x7d"
  | individual id => "\x7b\"individual_id\":" ++ toString id ++
      ",\"schema_version\":1,\"type\":\"IndividualTerm\"\x7d"
  | dataConstant source identity => "\x7b\"data_identity_id\":" ++ toString identity ++
      ",\"schema_version\":1,\"source_literal_id\":" ++ toString source ++
      ",\"type\":\"DataConstant\"\x7d"

end Term

structure RuleAtom where
  predicateId : Nat
  arguments : List Term
  deriving DecidableEq

/-- `canonical_bytes`; the text is ASCII, so its bytes compare as its characters. -/
def RuleAtom.canonicalBytes (atom : RuleAtom) : String :=
  "\x7b\"arguments\":[" ++ ",".intercalate (atom.arguments.map Term.json) ++
    "],\"predicate_id\":" ++
    toString atom.predicateId ++ ",\"schema_version\":1,\"type\":\"Atom\"\x7d"

@[ext] structure GroundAtom where
  predicateId : Nat
  arguments : List NodeHandle
  deriving DecidableEq

structure RuleClause where
  clauseId : Nat
  body : List RuleAtom
  head : List RuleAtom
  provenanceIds : List Nat
  joinOrder : List Nat

/-! ## Validation -/

/-- Consecutive elements are strictly ascending (`windows(2)`). -/
def strictlySorted {α : Type} [LT α] [DecidableLT α] : List α → Bool
  | a :: b :: rest => decide (a < b) && strictlySorted (b :: rest)
  | _ => true

def strictlyCanonicalAtoms (atoms : List RuleAtom) : Bool :=
  strictlySorted (atoms.map (·.canonicalBytes))

/-- The checks of `RuleClause::new`. -/
def RuleClause.check (clause : RuleClause) : Except NativeError Unit := do
  ensure (strictlyCanonicalAtoms clause.body = true)
    (wire "clause body atoms must be canonically sorted and unique")
  ensure (strictlyCanonicalAtoms clause.head = true)
    (wire "clause head atoms must be canonically sorted and unique")
  ensure (clause.provenanceIds ≠ [] ∧ strictlySorted clause.provenanceIds = true)
    (wire "clause provenance IDs must be nonempty, sorted, and unique")
  ensure (clause.body.length ≤ u32Max) (wire "clause body exceeds u32 atom positions")
  ensure (clause.joinOrder.insertionSort (· ≤ ·) = List.range clause.body.length)
    (wire "join order must be a permutation of the canonical body")

namespace RulePredicate

def checkSemantics (predicate : RulePredicate) : Except NativeError Unit := do
  let kind := predicate.kind
  ensure (kind.hasSymbol = predicate.symbolId.isSome)
    (wire "symbol IDs are required exactly for concept, nominal, and data-range predicates")
  if kind.hasCardinality then
    ensure (predicate.cardinality ≠ some 0 ∧ predicate.cardinality ≠ none ∧
      predicate.roleId ≠ none ∧
        predicate.fillerPredicateId ≠ none)
      (wire "cardinality predicates require positive cardinality, role, and filler IDs")
  else
    ensure (predicate.cardinality = none ∧ predicate.fillerPredicateId = none)
      (wire "cardinality and filler IDs are reserved for cardinality predicates")
  ensure ((kind.hasCardinality || kind.hasRole) = predicate.roleId.isSome)
    (wire "role IDs are required exactly for role and cardinality predicates")
  ensure (kind.hasAnnotation = true ∨ predicate.annotation = [])
    (wire "predicate annotation is not valid for this predicate kind")
  match kind with
  | .nominal | .negatedNominal =>
    ensure (predicate.annotation ≠ [] ∧ strictlySorted predicate.annotation = true)
      (wire "nominal annotation IDs must be nonempty, sorted, and unique")
  | .atLeastData =>
    ensure (predicate.annotation.head? = predicate.roleId ∧ predicate.annotation.Nodup)
      (wire "data at-least annotations must list unique role IDs beginning with role_id")
  | .automatonState =>
    ensure (predicate.annotation.length = 2)
      (wire "automaton-state annotation requires component and state IDs")
  | .disjointGuard =>
    ensure (predicate.annotation.length = 1)
      (wire "disjoint-guard annotation requires one sequence ID")
  | _ => pure ()
  ensure (kind.isInternal = predicate.internalKey.isSome)
    (wire "internal keys are required exactly for strategy predicates")
  if kind = .orderingGuard then
    let sort := match predicate.argumentSorts with
      | .data :: _ => "data"
      | _ => "object"
    ensure (predicate.internalKey = some ("canonical-" ++ sort ++ "-order"))
      (wire "ordering-guard internal key does not match its term sort")

/-- One round of the loop over predicates: dense numbering, signature, semantics. -/
def check (predicate : RulePredicate) (expected : Nat) : Except NativeError Unit := do
  ensure (predicate.predicateId = expected) (wire "predicate IDs must be dense and ordered")
  ensure (predicate.kind.signatureFits predicate.argumentSorts = true)
    (wire "predicate argument signature does not match its kind")
  predicate.checkSemantics

/-- The link to the logical opposite is reciprocal. -/
def checkOpposite (predicates : List RulePredicate) (predicate : RulePredicate) :
    Except NativeError Unit :=
  match predicate.oppositePredicateId with
  | none => .ok ()
  | some oppositeId => do
    ensure (oppositeId ≠ predicate.predicateId)
      (wire "a predicate cannot be its own logical opposite")
    match predicates[oppositeId]? with
    | none => throw (wire "opposite predicate ID is dangling")
    | some other =>
      ensure (other.oppositePredicateId = some predicate.predicateId ∧
          other.argumentSorts = predicate.argumentSorts ∧
          predicate.kind.opposite other.kind = true ∧ predicate.symbolId = other.symbolId ∧
          predicate.roleId = other.roleId)
        (wire "opposite predicate links must be reciprocal and sort-compatible")

/-- The filler of a cardinality predicate is of a kind it can count. -/
def fillerFits (predicate filler : RulePredicate) : Bool :=
  match predicate.kind with
  | .atLeastObject | .annotatedEquality => filler.argumentSorts = [.object] &&
      decide (filler.kind ∈ [.concept, .negatedConcept, .nominal, .negatedNominal])
  | .atLeastData => decide (filler.kind ∈ [.dataRange, .negatedDataRange]) &&
      filler.argumentSorts.length = predicate.annotation.length
  | _ => false

def checkFiller (predicates : List RulePredicate) (predicate : RulePredicate) :
    Except NativeError Unit :=
  match predicate.fillerPredicateId with
  | none => .ok ()
  | some fillerId => do
    ensure (fillerId ≠ predicate.predicateId)
      (wire "a cardinality predicate cannot be its own filler")
    match predicates[fillerId]? with
    | none => throw (wire "predicate ID is dangling")
    | some filler =>
      ensure (predicate.fillerFits filler = true)
        (wire "cardinality predicate has an incompatible filler predicate")

end RulePredicate

/-- `validate_atom`: arity, sorts, and the canonical order of symmetric arguments. -/
def RuleAtom.check (predicates : List RulePredicate) (atom : RuleAtom) :
    Except NativeError RulePredicate :=
  match predicates[atom.predicateId]? with
  | none => .error (wire "predicate ID is dangling")
  | some predicate => do
    ensure (atom.arguments.length = predicate.arity)
      (wire "atom arity does not match its predicate")
    ensure (atom.arguments.map (·.sort) = predicate.argumentSorts)
      (wire "atom argument sorts do not match its predicate")
    match atom.arguments with
    | first :: second :: _ =>
      ensure (predicate.kind ∈ [.equality, .inequality] → second.cmp first ≠ .lt)
        (wire "equality and inequality arguments must be canonically ordered")
      ensure (predicate.kind = .orderingGuard → first.cmp second = .lt)
        (wire "ordering-guard arguments must be in strict canonical order")
      ensure (predicate.kind = .annotatedEquality → second.cmp first ≠ .lt)
        (wire "annotated-equality pair arguments must be canonically ordered")
    | _ => pure ()
    return predicate

/-- What `validate_clause` has seen of a clause's variables. -/
structure ClauseVariables where
  sorts : ExtTreeMap Nat TermSort
  firstOccurrence : List Nat
  body : ExtTreeSet VariableKey
  head : ExtTreeSet VariableKey

namespace ClauseVariables

def empty : ClauseVariables := ⟨∅, [], ∅, ∅⟩

/-- Note one variable of an atom; guards do not bind. -/
def note (isHead : Bool) (kind : PredicateKind) (seen : ClauseVariables) (term : Term) :
    Except NativeError ClauseVariables :=
  match term.variableKey with
  | none => .ok seen
  | some key => do
    let known := seen.sorts[key.variableId]?
    ensure (known = none ∨ known = some key.sort)
      (wire "one variable ID cannot have object and data sorts")
    return {
      sorts := seen.sorts.insert key.variableId key.sort
      firstOccurrence :=
        if known = none then seen.firstOccurrence ++ [key.variableId] else seen.firstOccurrence
      body := if isHead = false ∧ kind ≠ .orderingGuard then seen.body.insert key else seen.body
      head := if isHead then seen.head.insert key else seen.head }

def noteAtom (predicates : List RulePredicate) (isHead : Bool) (seen : ClauseVariables)
    (atom : RuleAtom) : Except NativeError ClauseVariables := do
  let predicate ← atom.check predicates
  ensure (isHead = true → predicate.kind ≠ .orderingGuard)
    (wire "ordering guards cannot occur in clause heads")
  atom.arguments.foldlM (note isHead predicate.kind) seen

end ClauseVariables

/-- `validate_clause`. -/
def RuleClause.checkIn (predicates : List RulePredicate) (clause : RuleClause) :
    Except NativeError Unit := do
  ensure (strictlyCanonicalAtoms clause.body = true ∧ strictlyCanonicalAtoms clause.head = true)
    (wire "clause atoms lost canonical ordering")
  ensure (∀ atom ∈ clause.body, atom ∉ clause.head) (wire "tautological clauses must be removed")
  let seen ← clause.body.foldlM (ClauseVariables.noteAtom predicates false) .empty
  let seen ← clause.head.foldlM (ClauseVariables.noteAtom predicates true) seen
  ensure (seen.firstOccurrence = List.range seen.firstOccurrence.length)
    (wire "clause variables must follow canonical first-occurrence numbering")
  ensure (∀ key ∈ seen.head.toList, key ∈ seen.body)
    (wire "head variables must be range-restricted by the body")

/-- The checks of `RuleProgram::new`, in its order. -/
def checkProgram (predicates : List RulePredicate) (clauses : List RuleClause) :
    Except NativeError Unit := do
  predicates.zipIdx.forM fun (predicate, expected) => predicate.check expected
  predicates.forM (RulePredicate.checkOpposite predicates)
  clauses.zipIdx.forM fun (clause, expected) =>
    ensure (clause.clauseId = expected) (wire "clause IDs must be dense and ordered")
  predicates.forM (RulePredicate.checkFiller predicates)
  clauses.zipIdx.forM fun (clause, index) => do
    ensure (∀ earlier ∈ clauses.take index, (earlier.body, earlier.head, earlier.joinOrder) ≠
        (clause.body, clause.head, clause.joinOrder))
      (wire "clauses must have unique semantic identities")
    clause.checkIn predicates

/-- A checked program. -/
structure RuleProgram where
  predicates : List RulePredicate
  clauses : List RuleClause
  /-- Each clause is one `RuleClause::new` builds. -/
  formed : ∀ clause ∈ clauses, clause.check = .ok ()
  /-- The whole passed `RuleProgram::new`. -/
  valid : checkProgram predicates clauses = .ok ()

namespace RuleProgram

theorem formed_nil : ∀ clause ∈ ([] : List RuleClause), clause.check = .ok () := nofun

variable (program : RuleProgram)

def predicate (predicateId : Nat) : Except NativeError RulePredicate :=
  match program.predicates[predicateId]? with
  | some predicate => .ok predicate
  | none => .error (wire "predicate ID is dangling")

def predicateKind (predicateId : Nat) : Except NativeError PredicateKind :=
  return (← program.predicate predicateId).kind

def clause (clauseId : Nat) : Except NativeError RuleClause :=
  match program.clauses[clauseId]? with
  | some clause => .ok clause
  | none => .error (wire "clause ID is dangling")

def validateGroundAtom (atom : GroundAtom) : Except NativeError Unit := do
  let predicate ← program.predicate atom.predicateId
  ensure (atom.arguments.length = predicate.arity)
    (wire "ground atom arity does not match its predicate")

end RuleProgram

end PyHermit
