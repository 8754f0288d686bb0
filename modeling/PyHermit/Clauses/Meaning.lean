import PyHermit.Clauses.Canonical

/-!
# What a clause means

For all values of its variables, if every body atom holds then some head atom does. A
`Reading` fixes what the atoms mean, over a universe with any total order: equalities are
reflexive and symmetric, inequalities are symmetric, an ordering guard holds whenever its
first argument is below its second, and other predicates are arbitrary.

`Emitted` collects the clauses the compiler hands to `add_clause`. Maximum cardinalities and
keys, which use ordering guards, are built as the compiler builds them; every other clause
is any clause over well-shaped atoms without a guard.
-/

namespace PyHermit

/-! ## Predicates -/

variable (registry : List RulePredicate) (predicateId : Nat)

def HasKind (kind : PredicateKind) : Prop :=
  ∃ predicate, registry[predicateId]? = some predicate ∧ predicate.kind = kind

/-- The registry has a predicate of the kind with these argument sorts. -/
def IsPredicate (kind : PredicateKind) (sorts : List TermSort) : Prop :=
  ∃ predicate, registry[predicateId]? = some predicate ∧ predicate.kind = kind ∧
    predicate.argumentSorts = sorts

/-- The predicate of the atom is in the registry and the arguments have its sorts. -/
def Shaped (atom : RuleAtom) : Prop :=
  ∃ predicate, registry[atom.predicateId]? = some predicate ∧
    predicate.kind.signatureFits predicate.argumentSorts = true ∧
    atom.arguments.map Term.sort = predicate.argumentSorts

/-- A well-shaped atom that is not an ordering guard. -/
def Plain (atom : RuleAtom) : Prop :=
  Shaped registry atom ∧ ¬ HasKind registry atom.predicateId .orderingGuard

/-! ## The clauses the compiler emits -/

/-- A predicate for class expressions: unary, of one of the kinds that allow it. -/
def IsClassPredicate : Prop :=
  ∃ kind, kind.signatureFits [.object] = true ∧ IsPredicate registry predicateId kind [.object]

inductive Emitted (registry : List RulePredicate) : Clause → Prop
  | plain {clause : Clause} (hatoms : ∀ atom ∈ clause.atoms, Plain registry atom) :
      Emitted registry clause
  | objectAtMost {body head : List RuleAtom} {root : Term}
      {cardinality role filler ordering annotatedEquality : Nat}
      (hatoms : ∀ atom ∈ body ++ head, Plain registry atom) (hroot : root.sort = .object)
      (hrole : IsPredicate registry role .objectRole [.object, .object])
      (hfiller : IsClassPredicate registry filler)
      (hordering : 2 ≤ cardinality → IsPredicate registry ordering .orderingGuard
        [.object, .object])
      (hannotatedEquality : cardinality ≠ 0 →
        IsPredicate registry annotatedEquality .annotatedEquality [.object, .object, .object]) :
      Emitted registry
        (Clauses.compileObjectAtMost body head root cardinality role filler ordering
          annotatedEquality)
  | key {classPredicate named ordering equality dataInequality : Nat}
      {objectProperties dataProperties : List Nat}
      (hclassPredicate : IsClassPredicate registry classPredicate)
      (hnamed : IsPredicate registry named .namedIndividual [.object])
      (hordering : IsPredicate registry ordering .orderingGuard [.object, .object])
      (hequality : IsPredicate registry equality .equality [.object, .object])
      (hdataInequality : dataProperties ≠ [] →
        IsPredicate registry dataInequality .inequality [.data, .data])
      (hobjectProperties : ∀ property ∈ objectProperties,
        IsPredicate registry property .objectRole [.object, .object])
      (hdataProperties : ∀ property ∈ dataProperties,
        IsPredicate registry property .dataRole [.object, .data]) :
      Emitted registry (Clauses.compileKey classPredicate named ordering equality dataInequality
        objectProperties dataProperties)

/-! ## Readings -/

universe u

structure Reading (registry : List RulePredicate) (U : Type u) [LinearOrder U] where
  domain : TermSort → Set U
  individual : Nat → U
  dataConstant : Nat → Nat → U
  holds : Nat → List U → Prop
  equality_refl : ∀ {id}, HasKind registry id .equality → ∀ a, holds id [a, a]
  equality_symm : ∀ {id}, HasKind registry id .equality → ∀ a b, holds id [a, b] → holds id [b, a]
  inequality_symm : ∀ {id}, HasKind registry id .inequality → ∀ a b, holds id [a, b] →
    holds id [b, a]
  annotated_refl : ∀ {id}, HasKind registry id .annotatedEquality → ∀ a c, holds id [a, a, c]
  annotated_symm : ∀ {id}, HasKind registry id .annotatedEquality → ∀ a b c,
    holds id [a, b, c] → holds id [b, a, c]
  guard_of_lt : ∀ {id}, HasKind registry id .orderingGuard → ∀ a b, a < b → holds id [a, b]

namespace Reading

variable {registry : List RulePredicate} {U : Type u} [LinearOrder U] (R : Reading registry U)
  (σ : VariableKey → U)

/-- Every variable has a value of its sort. -/
def Admissible : Prop := ∀ key, σ key ∈ R.domain key.sort

def value : Term → U
  | .var key => σ key
  | .individual id => R.individual id
  | .dataConstant source identity => R.dataConstant source identity

def Holds (atom : RuleAtom) : Prop :=
  R.holds atom.predicateId (atom.arguments.map (R.value σ))

def Valid (clause : Clause) : Prop :=
  ∀ σ, R.Admissible σ → (∀ atom ∈ clause.body, R.Holds σ atom) →
    ∃ atom ∈ clause.head, R.Holds σ atom

end Reading

end PyHermit
