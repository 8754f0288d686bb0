import Mathlib.Data.List.Destutter
import Mathlib.Data.Prod.Lex
import Mathlib.Data.String.Basic
import PyHermit.Lib.Renumber
import PyHermit.Rules.Program

/-!
# Canonical clauses

Before a clause is stored its variables are numbered by first occurrence and its atoms are
sorted by their serialised text. `_freeze_clause_atoms` (`clauses/compiler.py`, here
`Clauses`) and `canonicalize_clause` (`encoded/permanent_program.rs`, here `Encoded`) both
repeat one pass, renumber and sort again, until it changes nothing. Cancellation polls and
the native memory budget are left out. An atom refers to its predicate by the position in
the registry.
-/

namespace PyHermit

open Renumber

def RuleAtom.variables (atom : RuleAtom) : List VariableKey :=
  atom.arguments.filterMap Term.variableKey

/-- The body and the head of a clause (`_ClauseSpec` with its predicates numbered). -/
structure Clause where
  body : List RuleAtom
  head : List RuleAtom
  deriving DecidableEq

def Clause.atoms (clause : Clause) : List RuleAtom := clause.body ++ clause.head

def Clause.variables (clause : Clause) : List VariableKey := clause.atoms.flatMap RuleAtom.variables

def TermSort.value : TermSort → String
  | data => "data"
  | object => "object"

/-! ## The compiler -/

namespace Clauses

inductive CompileError where
  | valueError (message : String)
  | keyError (key : VariableKey)
  | runtimeError (message : String)

def termKey : Term → String ×ₗ Nat ×ₗ Nat
  | .var key => toLex ("0:" ++ key.sort.value, toLex (key.variableId, 0))
  | .individual id => toLex ("1:object", toLex (id, 0))
  | .dataConstant source identity => toLex ("2:data", toLex (identity, source))

def alphaSkeletonKey (atom : RuleAtom) : Nat ×ₗ List (String ×ₗ Nat ×ₗ Nat) :=
  toLex (atom.predicateId, atom.arguments.map fun
    | .var key => toLex ("0:" ++ key.sort.value, toLex (0, key.variableId))
    | term => termKey term)

def sortedSet {κ : Type} [LinearOrder κ] (key : RuleAtom → κ) (values : List RuleAtom) :
    List RuleAtom :=
  values.dedup.insertionSort fun a b => key a ≤ key b

variable (registry : List RulePredicate)

def canonicalizeSymmetricAtom (atom : RuleAtom) : Except CompileError RuleAtom :=
  match registry[atom.predicateId]? with
  | none => .error (.valueError "predicate ID is dangling")
  | some predicate =>
    if predicate.kind = .annotatedEquality then
      match atom.arguments with
      | [left, right, root] =>
        .ok (if termKey right < termKey left then ⟨atom.predicateId, [right, left, root]⟩ else atom)
      | _ => .error (.valueError "unpacking")
    else if predicate.kind ∈ [.equality, .inequality, .orderingGuard] then
      match atom.arguments with
      | [left, right] =>
        .ok (if termKey right < termKey left then ⟨atom.predicateId, [right, left]⟩ else atom)
      | _ => .error (.valueError "unpacking")
    else .ok atom

/-- The numbers the variables get, in the order they are first read. -/
def variableMap (keys : List VariableKey) : List (VariableKey × Nat) :=
  keys.foldl (fun known key =>
    if (known.lookup key).isSome then known else known ++ [(key, known.length)]) []

def renameTerm (map : List (VariableKey × Nat)) : Term → Except CompileError Term
  | .var key =>
    match map.lookup key with
    | some target => .ok (.var ⟨key.sort, target⟩)
    | none => .error (.keyError key)
  | term => .ok term

def renameAtom (map : List (VariableKey × Nat)) (atom : RuleAtom) :
    Except CompileError RuleAtom := do
  let arguments ← atom.arguments.mapM (renameTerm map)
  canonicalizeSymmetricAtom registry ⟨atom.predicateId, arguments⟩

/-- One pass of the loop: renumber, then sort by text. -/
def renamePass (state : Clause) : Except CompileError Clause := do
  let map := variableMap state.variables
  let body ← state.body.mapM (renameAtom registry map)
  let head ← state.head.mapM (renameAtom registry map)
  return ⟨sortedSet (·.canonicalBytes) body, sortedSet (·.canonicalBytes) head⟩

def firstOccurrence (clause : Clause) : List Nat := (clause.variables.map (·.variableId)).eraseDups

def freezeClauseAtoms (clause : Clause) : Except CompileError Clause := do
  let rawBody ← clause.body.mapM (canonicalizeSymmetricAtom registry)
  let rawHead ← clause.head.mapM (canonicalizeSymmetricAtom registry)
  let start : Clause := ⟨sortedSet alphaSkeletonKey rawBody, sortedSet alphaSkeletonKey rawHead⟩
  let variableCount := start.variables.eraseDups.length
  settle (renamePass registry) id
    (fun state next => next = state ∧ firstOccurrence next = List.range variableCount)
    (.runtimeError "alpha-canonical clause ordering did not converge")
    (.runtimeError "alpha-canonical clause ordering exceeded its bounded passes")
    (max 2 (variableCount + 2)) [] start

end Clauses

/-! ## The native counterpart -/

namespace Encoded

inductive EncodedValidationError where
  | invariant (message : String)
  | resource (message : String)

open EncodedValidationError

/-- The key of `compare_terms`. -/
def termKey : Term → Nat ×ₗ Nat ×ₗ Nat ×ₗ Nat
  | .var ⟨.data, index⟩ => toLex (0, toLex (0, toLex (index, 0)))
  | .var ⟨.object, index⟩ => toLex (0, toLex (1, toLex (index, 0)))
  | .individual id => toLex (1, toLex (0, toLex (id, 0)))
  | .dataConstant source identity => toLex (2, toLex (0, toLex (identity, source)))

def alphaKey (atom : RuleAtom) : Nat ×ₗ List (Nat ×ₗ Nat ×ₗ Nat ×ₗ Nat) :=
  toLex (atom.predicateId, atom.arguments.map termKey)

/-- `sort_atoms_alpha`, with `dedup_atoms`. -/
def sortAtomsAlpha (atoms : List RuleAtom) : List RuleAtom :=
  (atoms.insertionSort fun a b => alphaKey a ≤ alphaKey b).destutter (· ≠ ·)

/-- `sort_atoms_canonical`: an atom with the text of the one before it is dropped. -/
def sortAtomsCanonical (atoms : List RuleAtom) : List RuleAtom :=
  (atoms.insertionSort fun a b => a.canonicalBytes ≤ b.canonicalBytes).destutter
    fun a b => a.canonicalBytes ≠ b.canonicalBytes

variable (predicates : List RulePredicate)

def canonicalizeSymmetricAtom (atom : RuleAtom) : Except EncodedValidationError RuleAtom :=
  match predicates[atom.predicateId]? with
  | none => .error (invariant "predicate ID is dangling")
  | some predicate =>
    if predicate.kind ∈ [.annotatedEquality, .equality, .inequality, .orderingGuard] then
      match atom.arguments with
      | left :: right :: rest =>
        .ok (if termKey right < termKey left then ⟨atom.predicateId, right :: left :: rest⟩
          else atom)
      | _ => .error (invariant "permanent-program symmetric atom has the wrong arity")
    else .ok atom

def variableMapping (keys : List VariableKey) :
    Except EncodedValidationError (List (VariableKey × Nat)) :=
  keys.foldlM (fun mapping key =>
    if mapping.all (·.1 ≠ key) then
      if mapping.length ≤ u32Max then .ok (mapping ++ [(key, mapping.length)])
      else .error (resource "permanent-program variable ID exceeds u32")
    else .ok mapping) []

def renameTerm (mapping : List (VariableKey × Nat)) : Term → Except EncodedValidationError Term
  | .var key =>
    match mapping.find? (·.1 = key) with
    | some (_, target) => .ok (.var ⟨key.sort, target⟩)
    | none => .error (invariant "permanent-program variable mapping is incomplete")
  | term => .ok term

def renameAtom (mapping : List (VariableKey × Nat))
    (atom : RuleAtom) : Except EncodedValidationError RuleAtom := do
  let arguments ← atom.arguments.mapM (renameTerm mapping)
  canonicalizeSymmetricAtom predicates ⟨atom.predicateId, arguments⟩

def renamePass (state : Clause) : Except EncodedValidationError Clause := do
  let mapping ← variableMapping state.variables
  let body ← state.body.mapM (renameAtom predicates mapping)
  let head ← state.head.mapM (renameAtom predicates mapping)
  return ⟨sortAtomsCanonical body, sortAtomsCanonical head⟩

/-- `rule_key`; the Python compiler writes the same text. -/
def ruleKey (clause : Clause) : String :=
  "\x7b\"body\":[" ++ ",".intercalate (clause.body.map (·.canonicalBytes)) ++ "],\"head\":[" ++
    ",".intercalate (clause.head.map (·.canonicalBytes)) ++ "]\x7d"

def firstOccurrenceDense (clause : Clause) (variableCount : Nat) : Bool :=
  let order := (clause.variables.map (·.variableId)).eraseDups
  order.length = variableCount && order.zipIdx.all fun (value, index) => value = index

/-- `canonicalize_clause`; `digest` is SHA-256. -/
def canonicalizeClause {δ : Type} [DecidableEq δ] (digest : String → δ)
    (predicates : List RulePredicate) (clause : Clause) : Except EncodedValidationError Clause := do
  let body ← clause.body.mapM (canonicalizeSymmetricAtom predicates)
  let head ← clause.head.mapM (canonicalizeSymmetricAtom predicates)
  let start : Clause := ⟨sortAtomsAlpha body, sortAtomsAlpha head⟩
  let variableCount := start.variables.eraseDups.length
  settle (renamePass predicates) (fun state => digest (ruleKey state))
    (fun state next => ruleKey state = ruleKey next && firstOccurrenceDense next variableCount)
    (invariant "permanent-program alpha-canonicalization entered a cycle")
    (invariant "permanent-program alpha-canonicalization exceeded its bounded passes")
    (max (variableCount + 2) 2) [] start

end Encoded

/-! ## The clauses the compiler emits -/

namespace Clauses

/-- The clause of a complex role inclusion (`_compile_role_graph`). -/
def compileComplexInclusion (chain : List Nat) (super : Nat) : Clause where
  body := chain.mapIdx fun index role =>
    ⟨role, [.var ⟨.object, index⟩, .var ⟨.object, index + 1⟩]⟩
  head := [⟨super, [.var ⟨.object, 0⟩, .var ⟨.object, chain.length⟩]⟩]

def freshVariableIndex (body head : List RuleAtom) (root : Term) : Nat :=
  ((body ++ head).flatMap RuleAtom.variables ++ root.variableKey.toList).foldl
    (fun fresh key => max fresh (key.variableId + 1)) 0

/-- All pairs of a tuple, the left one first (`itertools.combinations(values, 2)`). -/
def combinations {α : Type} : List α → List (α × α)
  | [] => []
  | x :: xs => xs.map (x, ·) ++ combinations xs

/-- The clause of `_compile_object_at_most`; `role`, `filler`, `ordering` and
`annotatedEquality` are the predicates its atoms use. -/
def compileObjectAtMost (body head : List RuleAtom) (root : Term)
    (cardinality role filler ordering annotatedEquality : Nat) : Clause :=
  let fresh := freshVariableIndex body head root
  let targets := (List.range (cardinality + 1)).map fun index => Term.var ⟨.object, fresh + index⟩
  let successors := targets.flatMap fun target =>
    [(⟨role, [root, target]⟩ : RuleAtom), ⟨filler, [target]⟩]
  let guards : List RuleAtom :=
    if targets.length > 2 then
      targets.zipWith (fun left right => ⟨ordering, [left, right]⟩) targets.tail
    else []
  let equalities : List RuleAtom :=
    if cardinality = 0 then []
    else (combinations targets).map fun (left, right) => ⟨annotatedEquality, [left, right, root]⟩
  ⟨body ++ (successors ++ guards), head ++ equalities⟩

/-- The clause of `_compile_key`. -/
def compileKey (classPredicate named ordering equality dataInequality : Nat)
    (objectProperties dataProperties : List Nat) : Clause :=
  let left := Term.var ⟨.object, 0⟩
  let right := Term.var ⟨.object, 1⟩
  let objectAtoms := (objectProperties.mapIdx fun index property =>
    let target := Term.var ⟨.object, 2 + index⟩
    [(⟨property, [left, target]⟩ : RuleAtom), ⟨property, [right, target]⟩, ⟨named, [target]⟩]
    ).flatten
  let dataFirst := 2 + objectProperties.length
  let dataAtoms := (dataProperties.mapIdx fun index property =>
    [(⟨property, [left, .var ⟨.data, dataFirst + 2 * index⟩]⟩ : RuleAtom),
      ⟨property, [right, .var ⟨.data, dataFirst + 2 * index + 1⟩]⟩]).flatten
  let differences := dataProperties.mapIdx fun index _ =>
    (⟨dataInequality, [.var ⟨.data, dataFirst + 2 * index⟩,
      .var ⟨.data, dataFirst + 2 * index + 1⟩]⟩ : RuleAtom)
  ⟨[⟨classPredicate, [left]⟩, ⟨classPredicate, [right]⟩, ⟨named, [left]⟩, ⟨named, [right]⟩,
      ⟨ordering, [left, right]⟩] ++ (objectAtoms ++ dataAtoms),
    ⟨equality, [left, right]⟩ :: differences⟩

end Clauses

end PyHermit
