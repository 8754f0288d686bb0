import PyHermit.Proof.WireReads
import PyHermit.Wire.Sections

/-!
# Programs are decoded without panics

The validators index into annotations and into the predicate table. Each such access rests
on a check made earlier, often in another function: the arity check comes before the sorts
are compared, the shape check before annotations are read, the check of every atom before
the expressivity scan looks its predicate up. The postconditions carry those facts over.
The section decoders index into records, whose length `records` fixes.
-/

open Prog Fault List

namespace PyHermit.Wire

variable {platform : Platform}

/-! ## Predicates -/

theorem safe_validatePredicateArity (kind : PredicateKind) (sorts : List TermSort) :
    Safe (validatePredicateArity kind sorts) fun _ =>
      kind ∈ [.equality, .inequality, .orderingGuard] → sorts.length = 2 := by
  unfold validatePredicateArity
  rw [safe_ensure_wire]
  intro hvalid hkind
  simp only [mem_cons, not_mem_nil, or_false] at hkind
  rcases hkind with rfl | rfl | rfl <;> exact beq_iff_eq.mp hvalid

section Shape

variable {predicate : DecodedPredicate} {counts : DomainCounts}

theorem safe_validatePredicateSorts
    (h : predicate.kind ∈ [.equality, .inequality, .orderingGuard] →
      predicate.argumentSorts.length = 2) :
    Safe (validatePredicateSorts predicate) := by
  simp only [validatePredicateSorts, safe_bind, safe_ensure_wire]
  intro _ _
  split
  all_goals first
    | (rw [safe_ensure_wire]; exact fun _ => trivial)
    | exact trivial
    | skip
  all_goals
    have hlength : predicate.argumentSorts.length = 2 := h (by simp_all)
    rw [safe_bind, safe_index_of_lt (by omega)]
    intro first _
    rw [safe_bind, safe_index_of_lt (by omega)]
    intro second _
    rw [safe_ensure_wire]
    exact fun _ => trivial

@[simp] theorem safe_validatePredicateFields : NoPanic (validatePredicateFields predicate counts) :=
  noPanic (by simp [validatePredicateFields])

theorem safe_validatePredicateAnnotations :
    Safe (validatePredicateAnnotations predicate counts) fun _ =>
      predicate.kind = .automatonState → predicate.annotation.length = 2 := by
  simp only [validatePredicateAnnotations, safe_bind, safe_ite, safe_ensure_wire,
    safe_validateSortedUnique]
  refine fun _ => ⟨fun _ _ _ _ _ hstate _ => hstate, fun _ _ hstate _ => hstate⟩

theorem safe_validatePredicateKey
    (h : predicate.kind = .orderingGuard → predicate.argumentSorts.length = 2) :
    Safe (validatePredicateKey predicate) := by
  simp only [validatePredicateKey, safe_bind, safe_ite, safe_ensure_wire, safe_pure, implies_true,
    and_true]
  intro _ hkind
  rw [safe_index_of_lt (by rw [h hkind]; decide)]
  exact fun _ _ => trivial

theorem safe_validatePredicateShape
    (h : predicate.kind ∈ [.equality, .inequality, .orderingGuard] →
      predicate.argumentSorts.length = 2) :
    Safe (validatePredicateShape predicate counts) fun _ =>
      predicate.kind = .automatonState → predicate.annotation.length = 2 := by
  simp only [validatePredicateShape, safe_bind, (safe_validatePredicateSorts h).noPanic,
    safe_validatePredicateFields]
  intros
  refine safe_validatePredicateAnnotations.mono fun _ hstate => ?_
  refine (safe_validatePredicateKey fun hkind => h ?_).mono fun _ _ => hstate
  rw [hkind]
  decide

end Shape

theorem safe_validateFiller (predicates : List DecodedPredicate) (predicate : DecodedPredicate) :
    Safe (validateFiller predicates predicate) fun _ =>
      ∀ filler, predicate.fillerPredicateId = some filler → filler < predicates.length := by
  unfold validateFiller
  split
  · rename_i filler hfiller
    simp only [safe_bind, safe_ensure_wire, safe_usizeFromU32]
    intro _ _ hlt filler' hfiller'
    rw [hfiller, Option.some_inj] at hfiller'
    exact hfiller' ▸ hlt
  · rename_i hnone
    intro filler hfiller
    rw [hnone] at hfiller
    exact absurd hfiller.symm (Option.some_ne_none filler)

/-- What the cross-reference check indexes is there. -/
structure DecodedPredicate.Indexable (predicates : List DecodedPredicate)
    (predicate : DecodedPredicate) : Prop where
  state : predicate.kind = .automatonState → predicate.annotation.length = 2
  filler : ∀ filler, predicate.fillerPredicateId = some filler → filler < predicates.length

theorem safe_validatePredicate (predicates : List DecodedPredicate) (counts : DomainCounts)
    (entry : DecodedPredicate × Nat) :
    Safe (validatePredicate predicates counts entry) fun _ => entry.1.Indexable predicates := by
  simp only [validatePredicate, safe_bind, safe_ensure_wire]
  intro _
  refine (safe_validatePredicateArity _ _).mono fun _ harity => ?_
  refine (safe_validatePredicateShape harity).mono fun _ hstate => ?_
  exact (safe_validateFiller predicates entry.1).mono fun _ hfiller => ⟨hstate, hfiller⟩

section CrossReferences

variable {predicates : List DecodedPredicate} {roles : DecodedRoleModel}

theorem safe_validatePredicateReferences {predicate : DecodedPredicate}
    (h : predicate.Indexable predicates) :
    Safe (validatePredicateReferences predicates roles predicate) := by
  have hrole : NoPanic (validateRoleReference roles predicate) := by
    refine noPanic ?_
    unfold validateRoleReference
    split <;> simp
  have hfiller : Safe (validateFillerShape predicates predicate) := by
    unfold validateFillerShape
    split
    · rename_i filler hfiller
      simp only [safe_bind, safe_usizeFromU32]
      intro _
      rw [safe_index_of_lt (h.filler filler hfiller)]
      simp
    · exact trivial
  simp only [validatePredicateReferences, safe_bind, safe_ensure_wire, safe_ite, hrole]
  refine fun _ _ _ => ⟨fun hkind => ?_, fun _ => hfiller⟩
  simp [validateAutomatonState, safe_index_of_lt, h.state hkind, hfiller]

theorem safe_validatePredicateCrossReferences {datatypes : DecodedDatatypeModel}
    {counts : DomainCounts} (h : ∀ predicate ∈ predicates, predicate.Indexable predicates) :
    Safe (validatePredicateCrossReferences predicates roles datatypes counts) := by
  rw [validatePredicateCrossReferences, safe_bind,
    noPanic_forM fun predicate hmem => safe_validatePredicateReferences (h predicate hmem)]
  simp

end CrossReferences

/-! ## Roles and datatypes -/

@[simp] theorem safe_validateInverse {inverseRoleIds : List Nat} {entry : Nat × Nat} :
    NoPanic (validateInverse inverseRoleIds entry) := noPanic (by simp [validateInverse])

theorem pred_lt_of_mem_zipIdx {α : Type} {xs : List α} {entry : α × Nat} (h : entry ∈ xs.zipIdx) :
    entry.2 - 1 < xs.length := by
  have hlt := (mem_zipIdx h).2.1
  omega

theorem safe_validateAutomaton {roles : DecodedRoleModel} {entry : DecodedRoleAutomaton × Nat}
    (h : entry ∈ roles.automata.zipIdx) : Safe (validateAutomaton roles entry) := by
  simp only [validateAutomaton, safe_bind, safe_ensure_wire, safe_validateSortedUnique, safe_ite,
    safe_index_of_lt (pred_lt_of_mem_zipIdx h), implies_true, and_self]

@[simp] theorem safe_validateRoleModelValue {roles : DecodedRoleModel} :
    NoPanic (validateRoleModelValue roles) := by
  refine noPanic ?_
  have hautomata : NoPanic (forM roles.automata.zipIdx (validateAutomaton roles)) :=
    noPanic_forM fun _ hentry => safe_validateAutomaton hentry
  simp [validateRoleModelValue, hautomata]

@[simp] theorem safe_validateDatatypeModelValue {datatypes : DecodedDatatypeModel}
    {counts : DomainCounts} : NoPanic (validateDatatypeModelValue platform datatypes counts) :=
  noPanic (by simp [validateDatatypeModelValue, validateLiteralIdentity])

/-! ## Atoms -/

@[simp] theorem safe_validateArgumentList {arguments : List DecodedTerm}
    {predicate : DecodedPredicate} {bounds : TermBounds} {ground : Bool} :
    NoPanic (validateArgumentList arguments predicate bounds ground) := by
  refine noPanic ?_
  have hargument : ∀ pair, Safe (validateArgument bounds ground pair) := by
    rintro ⟨argument, sort⟩
    cases argument <;> simp [validateArgument]
  simp [validateArgumentList, hargument]

@[simp] theorem safe_validateOwnedProvenance {values : List Nat} {count : Nat} {name : String} :
    NoPanic (validateOwnedProvenance values count name) :=
  noPanic (by simp [validateOwnedProvenance])

section Atoms

variable {predicates : List DecodedPredicate} {bounds : TermBounds}

theorem safe_validateOwnedAtom (ground : Bool) (atom : DecodedAtom) :
    Safe (validateOwnedAtom predicates bounds ground atom) fun _ =>
      atom.predicateId < predicates.length := by
  simp only [validateOwnedAtom, safe_bind, safe_usizeFromU32, safe_ofOption_wire,
    safe_validateArgumentList]
  exact fun _ predicate hpredicate _ _ => lt_of_getElem? hpredicate

variable (provenanceCount : Nat)

theorem safe_validateOwnedGroundAtom (atom : DecodedGroundAtom) :
    Safe (validateOwnedGroundAtom predicates bounds provenanceCount atom) fun _ =>
      atom.predicateId < predicates.length := by
  simp only [validateOwnedGroundAtom, safe_bind, safe_usizeFromU32, safe_ofOption_wire,
    safe_validateArgumentList, safe_validateOwnedProvenance]
  exact fun _ predicate hpredicate _ _ _ _ => lt_of_getElem? hpredicate

theorem safe_validateClause (entry : DecodedClause × Nat) :
    Safe (validateClause predicates bounds provenanceCount entry) fun _ =>
      ∀ atom ∈ entry.1.body ++ entry.1.head, atom.predicateId < predicates.length := by
  simp only [validateClause, safe_bind, safe_ensure_wire, safe_validateOwnedProvenance]
  intro _ _ _
  refine (safe_forM fun atom _ => safe_validateOwnedAtom false atom).mono fun _ hatoms => ?_
  intro _ _
  rw [noPanic_forM fun position hposition => ?_]
  · exact fun _ _ => hatoms
  · have hle : position.2 ≤ entry.1.joinOrder.length :=
      (mem_zipIdx hposition).2.1.le.trans (by simp)
    simp [validateJoinPosition, safe_slice_of_le (Nat.zero_le _) hle]

theorem safe_validateFact (negative : Bool) (fact : DecodedGroundAtom) :
    Safe (validateFact predicates bounds provenanceCount negative fact) := by
  rw [validateFact, safe_bind]
  refine (safe_validateOwnedGroundAtom provenanceCount fact).mono fun _ hlt => ?_
  simp only [safe_bind, safe_usizeFromU32, safe_index_of_lt hlt, safe_ensure_wire]
  exact fun _ _ _ _ => trivial

theorem safe_validateDisjunction (entry : DecodedGroundDisjunction × Nat) :
    Safe (validateDisjunction predicates bounds provenanceCount entry) := by
  simp [validateDisjunction, (safe_validateOwnedGroundAtom provenanceCount _).noPanic]

end Atoms

/-! ## The whole program -/

variable {program : DecodedProgram}

theorem safe_anyOfKind {atoms : List DecodedAtom} {kind : PredicateKind}
    (h : ∀ atom ∈ atoms, atom.predicateId < program.predicates.length) :
    Safe (anyOfKind program atoms kind) := by
  refine safe_anyM fun atom hatom => ?_
  rw [safe_bind, safe_index_of_lt (h atom hatom)]
  exact fun _ _ => trivial

theorem safe_isKeyClause {clause : DecodedClause}
    (h : ∀ atom ∈ clause.body ++ clause.head, atom.predicateId < program.predicates.length) :
    Safe (isKeyClause program clause) := by
  have hbody : ∀ atom ∈ clause.body, atom.predicateId < program.predicates.length :=
    fun atom hatom => h atom (mem_append_left _ hatom)
  have hhead : Safe (anyOfKind program clause.head .equality) :=
    safe_anyOfKind fun atom hatom => h atom (mem_append_right _ hatom)
  simp [isKeyClause, (safe_anyOfKind hbody).noPanic, hhead]

theorem safe_validateExpressivityValue
    (h : ∀ clause ∈ program.clauses, ∀ atom ∈ clause.body ++ clause.head,
      atom.predicateId < program.predicates.length) :
    Safe (validateExpressivityValue program) := by
  have hkeys : NoPanic (program.clauses.anyM (isKeyClause program)) :=
    noPanic (safe_anyM fun clause hclause => safe_isKeyClause (h clause hclause))
  simp [validateExpressivityValue, hkeys]

theorem safe_validateProvenance {provenance : List DecodedProvenanceEntry}
    {indexed : DecodedProvenanceEntry × Nat} (h : indexed ∈ provenance.zipIdx) :
    Safe (validateProvenance provenance indexed) := by
  simp only [validateProvenance, safe_bind, safe_ensure_wire, safe_validateSortedUnique, safe_ite,
    safe_pure, safe_index_of_lt (pred_lt_of_mem_zipIdx h), implies_true, and_self]

theorem forall_of_zipIdx {α : Type} {P : α → Prop} {xs : List α}
    (h : ∀ entry ∈ xs.zipIdx, P entry.1) : ∀ x ∈ xs, P x := by
  intro x hx
  obtain ⟨i, hi, rfl⟩ := getElem_of_mem hx
  exact h (xs[i], i) (mk_mem_zipIdx_iff_getElem?.mpr (getElem?_eq_getElem hi))

/-- **Validation of a program never panics**, whatever program it is given. -/
theorem safe_validateDecodedProgram (program : DecodedProgram) :
    Safe (validateDecodedProgram platform program) := by
  have hdomain : ∀ counts domain, Safe (validateDomain counts domain) := by simp [validateDomain]
  simp only [validateDecodedProgram, safe_bind, safe_ensure_wire, safe_ensure_resource,
    noPanic_foldlM fun counts domain _ => hdomain counts domain, safe_validateRoleModelValue,
    safe_validateDatatypeModelValue, noPanic_forM fun _ hindexed =>
    safe_validateProvenance hindexed,
    noPanic_forM fun fact _ => safe_validateFact _ _ fact,
    noPanic_forM fun entry _ => safe_validateDisjunction _ entry]
  intro _ counts _
  refine (safe_forM fun entry _ => safe_validatePredicate program.predicates counts entry).mono
    fun _ hpredicates => ?_
  rw [(safe_validatePredicateCrossReferences (forall_of_zipIdx hpredicates)).noPanic]
  intros
  refine (safe_forM fun entry _ => safe_validateClause _ entry).mono fun _ hclauses => ?_
  exact fun _ _ _ _ _ _ => safe_validateExpressivityValue (forall_of_zipIdx hclauses)

end PyHermit.Wire
