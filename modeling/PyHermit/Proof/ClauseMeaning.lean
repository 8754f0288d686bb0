import Mathlib.Data.Fin.Tuple.Sort
import PyHermit.Proof.Frozen

/-!
# Canonical form keeps the meaning

The canonical form of a clause has other variable names and some of its symmetric atoms
turned round. Neither matters for equalities and inequalities. Turning an ordering guard
round changes the guard, but not the clause: the clauses with guards are symmetric in the
variables the guards order, so they say the same with any consistent choice of guards, and
without guards at all.
-/

namespace PyHermit

open Prog Renumber List

universe u

variable {registry : List RulePredicate} {U : Type u} [LinearOrder U] {R : Reading registry U}
  {clause result : Clause} {atom : RuleAtom} {number : VariableKey → Nat} {σ τ : VariableKey → U}

/-! ## Values -/

theorem value_congr {term : Term} (h : ∀ key, term = .var key → σ key = τ key) :
    R.value σ term = R.value τ term := by
  cases term with
  | var key => exact h key rfl
  | individual | dataConstant => rfl

theorem holds_congr (h : ∀ key ∈ atom.variables, σ key = τ key) :
    R.Holds σ atom ↔ R.Holds τ atom := by
  have hvalues : atom.arguments.map (R.value σ) = atom.arguments.map (R.value τ) :=
    map_congr_left fun term hterm =>
      value_congr fun key heq => h key (mem_variables.mpr (heq ▸ hterm))
  rw [Reading.Holds, Reading.Holds, hvalues]

theorem holds_renamed : R.Holds σ (atom.renamed number) ↔
    R.Holds (fun key => σ ⟨key.sort, number key⟩) atom := by
  have hvalues : (atom.arguments.map (Term.renamed number)).map (R.value σ) =
      atom.arguments.map (R.value fun key => σ ⟨key.sort, number key⟩) := by
    rw [map_map]
    exact map_congr_left fun term _ => by cases term <;> rfl
  rw [Reading.Holds, RuleAtom.renamed, hvalues]
  rfl

/-! ## Turning atoms round -/

theorem holds_swapped (h : Plain registry atom)
    (hsymmetric : isSymmetric registry atom.predicateId = true) :
    R.Holds σ atom.swapped ↔ R.Holds σ atom := by
  obtain ⟨hshaped, hguard⟩ := h
  obtain ⟨predicate, hget, -⟩ := id hshaped
  rw [isSymmetric_eq hget, decide_eq_true_eq] at hsymmetric
  obtain ⟨left, right, rest, harguments, -, hrest⟩ := hshaped.symmetric_arguments hget hsymmetric
  have hkind : HasKind registry atom.predicateId predicate.kind := ⟨predicate, hget, rfl⟩
  obtain ⟨id, arguments⟩ := atom
  subst harguments
  -- both directions are the same exchange
  suffices hswap : ∀ left right, R.Holds σ ⟨id, left :: right :: rest⟩ →
    R.Holds σ ⟨id, right :: left :: rest⟩ from ⟨hswap right left, hswap left right⟩
  intro left right hholds
  simp only [symmetricKinds, mem_cons, not_mem_nil, or_false] at hsymmetric
  rcases hsymmetric with hk | hk | hk | hk
  · rw [hk, if_pos rfl] at hrest
    obtain ⟨root, rfl⟩ := length_eq_one_iff.mp hrest
    exact R.annotated_symm (hk ▸ hkind) _ _ _ hholds
  · rw [hk, if_neg (by decide), length_eq_zero_iff] at hrest
    subst hrest
    exact R.equality_symm (hk ▸ hkind) _ _ hholds
  · rw [hk, if_neg (by decide), length_eq_zero_iff] at hrest
    subst hrest
    exact R.inequality_symm (hk ▸ hkind) _ _ hholds
  · exact absurd (hk ▸ hkind) hguard

/-- The atom, turned round if the numbers ask for it. -/
def turnedBy (registry : List RulePredicate) (number : VariableKey → Nat)
    (atom : RuleAtom) : RuleAtom :=
  if turns registry (atom.renamed number) = true then atom.swapped else atom

theorem orient_renamed (number : VariableKey → Nat) (atom : RuleAtom) :
    orient registry (atom.renamed number) = (turnedBy registry number atom).renamed number := by
  rw [orient, turnedBy]
  split
  · rw [renamed_swapped]
  · rfl

theorem holds_turnedBy (h : Plain registry atom) :
    R.Holds σ (turnedBy registry number atom) ↔ R.Holds σ atom := by
  rw [turnedBy]
  split
  · rename_i hturns
    rw [turns, Bool.and_eq_true] at hturns
    exact holds_swapped h hturns.1
  · rfl

/-! ## Guards -/

def IsGuard (registry : List RulePredicate) (atom : RuleAtom) : Prop :=
  HasKind registry atom.predicateId .orderingGuard

/-- The clause with its guards turned along the numbers. -/
def ValidAlong (R : Reading registry U) (clause : Clause) (number : VariableKey → Nat) : Prop :=
  ∀ σ, R.Admissible σ → (∀ atom ∈ clause.body, ¬ IsGuard registry atom → R.Holds σ atom) →
    (∀ atom ∈ clause.body, IsGuard registry atom → R.Holds σ (turnedBy registry number atom)) →
    ∃ atom ∈ clause.head, R.Holds σ atom

/-- The clause without its guards. -/
def ValidFree (R : Reading registry U) (clause : Clause) : Prop :=
  ∀ σ, R.Admissible σ → (∀ atom ∈ clause.body, ¬ IsGuard registry atom → R.Holds σ atom) →
    ∃ atom ∈ clause.head, R.Holds σ atom

/-- A renaming of a clause means the clause with its guards turned along the numbers. -/
theorem IsRenaming.valid_iff (h : IsRenaming registry clause result number)
    (hshaped : ∀ atom ∈ clause.atoms, Shaped registry atom)
    (hhead : ∀ atom ∈ clause.head, ¬ IsGuard registry atom) :
    R.Valid result ↔ ValidAlong R clause number := by
  have hplain : ∀ atom ∈ clause.atoms, ¬ IsGuard registry atom → Plain registry atom :=
    fun atom hatom hguard => ⟨hshaped atom hatom, hguard⟩
  constructor
  · intro hvalid σ hσ hbody hguards
    -- the values of the new names; a name that is not used keeps its own value
    let name : { key // key ∈ clause.variables } → VariableKey :=
      fun key => ⟨key.1.sort, number key.1⟩
    have hname : Function.Injective name := by
      rintro ⟨key, hkey⟩ ⟨key', hkey'⟩ heq
      obtain ⟨hsort, hnumber⟩ := VariableKey.mk.inj heq
      exact Subtype.ext (h.injOn _ hkey _ hkey' hsort hnumber)
    let τ := Function.extend name (fun key => σ key.1) σ
    have hτ : ∀ key, τ (name key) = σ key.1 := fun key => hname.extend_apply _ _ key
    have hadmissible : R.Admissible τ := by
      intro key
      by_cases hex : ∃ key', name key' = key
      · obtain ⟨key', rfl⟩ := hex
        rw [hτ]
        exact hσ key'.1
      · rw [show τ key = σ key from Function.extend_apply' _ _ _ hex]
        exact hσ key
    have hholds : ∀ a ∈ clause.atoms, (R.Holds τ (orient registry (a.renamed number)) ↔
        R.Holds σ (turnedBy registry number a)) := by
      intro a ha
      rw [orient_renamed, holds_renamed]
      refine holds_congr fun key hkey => ?_
      have hmem : key ∈ a.variables := by
        rw [turnedBy] at hkey
        split at hkey
        · exact mem_variables.mpr ((swapFirst_perm _).mem_iff.mp (mem_variables.mp hkey))
        · exact hkey
      exact hτ ⟨key, mem_clause_variables.mpr ⟨a, ha, hmem⟩⟩
    obtain ⟨atom, hatom, htrue⟩ := hvalid _ hadmissible fun atom hatom => by
      obtain ⟨a, ha, rfl⟩ := (h.body atom).mp hatom
      have hmem : a ∈ clause.atoms := mem_append_left _ ha
      rw [hholds a hmem]
      by_cases hguard : IsGuard registry a
      · exact hguards a ha hguard
      · exact (holds_turnedBy (hplain a hmem hguard)).mpr (hbody a ha hguard)
    obtain ⟨a, ha, rfl⟩ := (h.head atom).mp hatom
    have hmem : a ∈ clause.atoms := mem_append_right _ ha
    exact ⟨a, ha, (holds_turnedBy (hplain a hmem (hhead a ha))).mp ((hholds a hmem).mp htrue)⟩
  · intro hvalid σ hσ hbody
    have hadmissible : R.Admissible fun key => σ ⟨key.sort, number key⟩ :=
      fun key => hσ ⟨key.sort, number key⟩
    have hholds : ∀ a : RuleAtom, R.Holds σ (orient registry (a.renamed number)) ↔
        R.Holds (fun key => σ ⟨key.sort, number key⟩) (turnedBy registry number a) := by
      intro a
      rw [orient_renamed, holds_renamed]
    obtain ⟨a, ha, htrue⟩ := hvalid _ hadmissible
      (fun a ha hguard => (holds_turnedBy (hplain a (mem_append_left _ ha) hguard)).mp
        ((hholds a).mp (hbody _ ((h.body _).mpr ⟨a, ha, rfl⟩))))
      (fun a ha _ => (hholds a).mp (hbody _ ((h.body _).mpr ⟨a, ha, rfl⟩)))
    refine ⟨_, (h.head _).mpr ⟨a, ha, rfl⟩, (hholds a).mpr ?_⟩
    exact (holds_turnedBy (hplain a (mem_append_right _ ha) (hhead a ha))).mpr htrue

/-- A clause whose guards follow the variable numbers means what it says along them. -/
theorem valid_iff_validAlong
    (hguards : ∀ atom ∈ clause.body, IsGuard registry atom →
      turnedBy registry (·.variableId) atom = atom) :
    R.Valid clause ↔ ValidAlong R clause (·.variableId) := by
  constructor
  · intro hvalid σ hσ hbody hturned
    refine hvalid σ hσ fun atom hatom => ?_
    by_cases hguard : IsGuard registry atom
    · have := hturned atom hatom hguard
      rwa [hguards atom hatom hguard] at this
    · exact hbody atom hatom hguard
  · intro hvalid σ hσ hbody
    refine hvalid σ hσ (fun atom hatom _ => hbody atom hatom) fun atom hatom hguard => ?_
    rw [hguards atom hatom hguard]
    exact hbody atom hatom

/-- The variables the guards order may be exchanged: whatever the values, either a head
atom holds already or the values can be permuted to satisfy the guards. -/
def Exchangeable (R : Reading registry U) (clause : Clause) (number : VariableKey → Nat) : Prop :=
  ∀ σ, R.Admissible σ → (∀ atom ∈ clause.body, ¬ IsGuard registry atom → R.Holds σ atom) →
    (∃ atom ∈ clause.head, R.Holds σ atom) ∨
    ∃ τ, R.Admissible τ ∧ (∀ atom ∈ clause.body, ¬ IsGuard registry atom → R.Holds τ atom) ∧
      (∀ atom ∈ clause.body, IsGuard registry atom → R.Holds τ (turnedBy registry number atom)) ∧
      ((∃ atom ∈ clause.head, R.Holds τ atom) → ∃ atom ∈ clause.head, R.Holds σ atom)

theorem Exchangeable.validAlong_iff (h : Exchangeable R clause number) :
    ValidAlong R clause number ↔ ValidFree R clause := by
  constructor
  · intro hvalid σ hσ hbody
    rcases h σ hσ hbody with hdone | ⟨τ, hτ, hbody', hguards, hback⟩
    · exact hdone
    · exact hback (hvalid τ hτ hbody' hguards)
  · intro hvalid σ hσ hbody _
    exact hvalid σ hσ hbody

/-! ## Maximum cardinalities -/

section ObjectAtMost

open Clauses

theorem mem_combinations {α : Type} {l : List α} {x y : α} :
    (x, y) ∈ combinations l ↔ ∃ i j : Nat, i < j ∧ l[i]? = some x ∧ l[j]? = some y := by
  induction l with
  | nil => simp [combinations]
  | cons z l ih =>
    rw [combinations, mem_append, ih, mem_map]
    constructor
    · rintro (⟨w, hw, heq⟩ | ⟨i, j, hij, hi, hj⟩)
      · obtain ⟨rfl, rfl⟩ := Prod.mk.inj heq
        obtain ⟨j, hj⟩ := mem_iff_getElem?.mp hw
        exact ⟨0, j + 1, Nat.succ_pos j, rfl, hj⟩
      · exact ⟨i + 1, j + 1, Nat.succ_lt_succ hij, hi, hj⟩
    · rintro ⟨i, j, hij, hi, hj⟩
      obtain ⟨j, rfl⟩ : ∃ k, j = k + 1 := ⟨j - 1, by omega⟩
      cases i with
      | zero =>
        obtain rfl : z = x := Option.some.inj hi
        exact .inl ⟨y, mem_of_getElem? hj, rfl⟩
      | succ i => exact .inr ⟨i, j, by omega, hi, hj⟩

/-- The `index`-th of the variables a maximum cardinality compares. -/
def atMostTarget (fresh index : Nat) : Term := .var ⟨.object, fresh + index⟩

variable {body head : List RuleAtom} {root : Term} {cardinality role filler ordering equality : Nat}
  {fresh i : Nat} {key : VariableKey} {sorts : List TermSort}

theorem getElem?_targets {count : Nat} {term : Term} :
    ((List.range count).map fun index => atMostTarget fresh index)[i]? = some term ↔
      i < count ∧ term = atMostTarget fresh i := by
  rw [getElem?_map, Option.map_eq_some_iff]
  constructor
  · rintro ⟨k, hk, rfl⟩
    obtain ⟨hbound, heq⟩ := List.getElem?_eq_some_iff.mp hk
    rw [getElem_range] at heq
    subst heq
    exact ⟨by simpa using hbound, rfl⟩
  · rintro ⟨hi, rfl⟩
    exact ⟨i, getElem?_range hi, rfl⟩

theorem mem_objectAtMost_body (fresh : Nat) (hfresh : fresh = freshVariableIndex body head root) :
    atom ∈ (compileObjectAtMost body head root cardinality role filler ordering equality).body ↔
      atom ∈ body ∨ (∃ i ≤ cardinality, atom = ⟨role, [root, atMostTarget fresh i]⟩ ∨
        atom = ⟨filler, [atMostTarget fresh i]⟩) ∨
      2 ≤ cardinality ∧ ∃ i < cardinality,
        atom = ⟨ordering, [atMostTarget fresh i, atMostTarget fresh (i + 1)]⟩ := by
  subst hfresh
  set fresh := freshVariableIndex body head root
  have hguards : ∀ targets : List Term,
      targets = (List.range (cardinality + 1)).map (atMostTarget fresh) →
      (atom ∈ targets.zipWith (fun left right => (⟨ordering, [left, right]⟩ : RuleAtom))
          targets.tail ↔ ∃ i < cardinality,
        atom = ⟨ordering, [atMostTarget fresh i, atMostTarget fresh (i + 1)]⟩) := by
    rintro targets rfl
    rw [mem_iff_getElem?]
    constructor
    · rintro ⟨i, hi⟩
      rw [getElem?_zipWith_eq_some] at hi
      obtain ⟨left, right, hleft, hright, rfl⟩ := hi
      rw [getElem?_tail] at hright
      obtain ⟨-, rfl⟩ := getElem?_targets.mp hleft
      obtain ⟨hlt, rfl⟩ := getElem?_targets.mp hright
      exact ⟨i, by omega, rfl⟩
    · rintro ⟨i, hi, rfl⟩
      refine ⟨i, getElem?_zipWith_eq_some.mpr ⟨_, _, getElem?_targets.mpr ⟨by omega, rfl⟩, ?_, rfl⟩⟩
      rw [getElem?_tail]
      exact getElem?_targets.mpr ⟨by omega, rfl⟩
  have hsuccessors : atom ∈ ((List.range (cardinality + 1)).map (atMostTarget fresh)).flatMap
      (fun successor => [(⟨role, [root, successor]⟩ : RuleAtom), ⟨filler, [successor]⟩]) ↔
      ∃ i ≤ cardinality, atom = ⟨role, [root, atMostTarget fresh i]⟩ ∨
      atom = ⟨filler, [atMostTarget fresh i]⟩ := by
    simp only [mem_flatMap, mem_map, mem_range, mem_cons, not_mem_nil, or_false]
    constructor
    · rintro ⟨_, ⟨i, hi, rfl⟩, hatom⟩
      exact ⟨i, by omega, hatom⟩
    · rintro ⟨i, hi, hatom⟩
      exact ⟨_, ⟨i, by omega, rfl⟩, hatom⟩
  show atom ∈ body ++ (_ ++ if _ > 2 then _ else _) ↔ _
  rw [mem_append, mem_append]
  refine or_congr Iff.rfl (or_congr hsuccessors ?_)
  rw [length_map, length_range]
  by_cases hmany : 2 ≤ cardinality
  · rw [if_pos (by omega)]
    exact (hguards _ rfl).trans (by simp [hmany])
  · rw [if_neg (by omega)]
    simp [hmany]

theorem mem_objectAtMost_variables (hi : i ≤ cardinality) :
    (⟨.object, freshVariableIndex body head root + i⟩ : VariableKey) ∈
      (compileObjectAtMost body head root cardinality role filler ordering equality).variables :=
  mem_clause_variables.mpr ⟨⟨filler, [atMostTarget _ i]⟩,
    mem_append_left _ ((mem_objectAtMost_body _ rfl).mpr (.inr (.inl ⟨i, hi, .inr rfl⟩))),
    mem_variables.mpr (mem_singleton_self _)⟩

theorem mem_objectAtMost_head (fresh : Nat) (hfresh : fresh = freshVariableIndex body head root) :
    atom ∈ (compileObjectAtMost body head root cardinality role filler ordering equality).head ↔
      atom ∈ head ∨ cardinality ≠ 0 ∧
        ∃ i j, i < j ∧ j ≤ cardinality ∧
        atom = ⟨equality, [atMostTarget fresh i, atMostTarget fresh j, root]⟩ := by
  subst hfresh
  show atom ∈ head ++ (if _ then _ else _) ↔ _
  rw [mem_append]
  refine or_congr Iff.rfl ?_
  by_cases hzero : cardinality = 0
  · simp [hzero]
  · rw [if_neg hzero, mem_map]
    constructor
    · rintro ⟨⟨left, right⟩, hpair, rfl⟩
      obtain ⟨i, j, hij, hi, hj⟩ := mem_combinations.mp hpair
      obtain ⟨-, rfl⟩ := getElem?_targets.mp hi
      obtain ⟨hlt, rfl⟩ := getElem?_targets.mp hj
      exact ⟨hzero, i, j, hij, by omega, rfl⟩
    · rintro ⟨-, i, j, hij, hj, rfl⟩
      exact ⟨(_, _), mem_combinations.mpr ⟨i, j, hij, getElem?_targets.mpr ⟨by omega, rfl⟩,
        getElem?_targets.mpr ⟨by omega, rfl⟩⟩, rfl⟩

theorem lt_freshVariableIndex
    (h : (∃ atom ∈ body ++ head, key ∈ atom.variables) ∨ root = .var key) :
    key.variableId < freshVariableIndex body head root := by
  have hmem : key ∈ (body ++ head).flatMap RuleAtom.variables ++ root.variableKey.toList := by
    rcases h with ⟨atom, hatom, hkey⟩ | rfl
    · exact mem_append_left _ (mem_flatMap.mpr ⟨atom, hatom, hkey⟩)
    · exact mem_append_right _ (mem_singleton_self _)
  rw [freshVariableIndex]
  generalize (body ++ head).flatMap RuleAtom.variables ++ root.variableKey.toList = keys at hmem
  suffices hfold : ∀ (keys : List VariableKey) (start : Nat),
      start ≤ keys.foldl (fun fresh key => max fresh (key.variableId + 1)) start ∧
      ∀ key ∈ keys, key.variableId <
      keys.foldl (fun fresh key => max fresh (key.variableId + 1)) start from
    (hfold keys 0).2 key hmem
  intro keys
  induction keys with
  | nil => exact fun start => ⟨le_rfl, fun key hkey => absurd hkey not_mem_nil⟩
  | cons first keys ih =>
    intro start
    obtain ⟨hstart, hkeys⟩ := ih (max start (first.variableId + 1))
    refine ⟨(le_max_left _ _).trans hstart, forall_mem_cons.mpr ⟨?_, hkeys⟩⟩
    exact (Nat.lt_succ_self _).trans_le ((le_max_right _ _).trans hstart)

variable {id m : Nat} {kind : PredicateKind}

/-- Distinct values can be permuted to ascend with given distinct positions. -/
theorem exists_perm_ascending (position : Fin m → Nat) {value : Fin m → U}
    (hvalue : Function.Injective value) :
    ∃ π : Equiv.Perm (Fin m), ∀ i j, position i < position j → value (π i) < value (π j) := by
  have hpositions := Tuple.monotone_sort position
  have hvalues : StrictMono (value ∘ Tuple.sort value) :=
    (Tuple.monotone_sort value).strictMono_of_injective (hvalue.comp (Tuple.sort value).injective)
  refine ⟨(Tuple.sort position).symm.trans (Tuple.sort value), fun i j hlt => hvalues ?_⟩
  by_contra hge
  have hle := hpositions (not_lt.mp hge)
  simp only [Function.comp_apply, Equiv.apply_symm_apply] at hle
  omega

/-- Exchanges the variables a maximum cardinality compares. -/
def permuted (fresh : Nat) {m : Nat} (π : Equiv.Perm (Fin m)) (key : VariableKey) : VariableKey :=
  if h : key.sort = .object ∧ fresh ≤ key.variableId ∧ key.variableId - fresh < m then
    ⟨.object, fresh + π ⟨key.variableId - fresh, h.2.2⟩⟩
  else key

theorem permuted_atMostTarget (fresh : Nat) (π : Equiv.Perm (Fin m)) (i : Fin m) :
    permuted fresh π ⟨.object, fresh + i⟩ = ⟨.object, fresh + π i⟩ := by
  have hsub : fresh + i.val - fresh = i.val := by omega
  rw [permuted, dif_pos ⟨rfl, Nat.le_add_right _ _, by rw [hsub]; exact i.isLt⟩]
  congr 3
  exact congrArg π (Fin.ext hsub)

theorem permuted_of_lt (π : Equiv.Perm (Fin m)) (h : key.variableId < fresh) :
    permuted fresh π key = key :=
  dif_neg fun hkey => absurd hkey.2.1 (by omega)

theorem permuted_sort (fresh : Nat) (π : Equiv.Perm (Fin m)) (key : VariableKey) :
    (permuted fresh π key).sort = key.sort := by
  rw [permuted]
  split
  · rename_i h
    exact h.1.symm
  · rfl

theorem IsPredicate.hasKind (h : IsPredicate registry id kind sorts) :
    HasKind registry id kind := by
  obtain ⟨predicate, hget, hkind, -⟩ := h
  exact ⟨predicate, hget, hkind⟩

theorem HasKind.unique {kind' : PredicateKind} (h : HasKind registry id kind)
    (h' : HasKind registry id kind') : kind = kind' := by
  obtain ⟨predicate, hget, rfl⟩ := h
  obtain ⟨predicate', hget', rfl⟩ := h'
  rw [Option.some.inj (hget.symm.trans hget')]

theorem turnedBy_guard (h : HasKind registry id .orderingGuard) (number : VariableKey → Nat)
    (i k : Nat) : turnedBy registry number ⟨id, [.var ⟨.object, i⟩, .var ⟨.object, k⟩]⟩ =
      if number ⟨.object, k⟩ < number ⟨.object, i⟩ then ⟨id, [.var ⟨.object, k⟩, .var ⟨.object, i⟩]⟩
      else ⟨id, [.var ⟨.object, i⟩, .var ⟨.object, k⟩]⟩ := by
  obtain ⟨predicate, hget, hkind⟩ := h
  have hsymmetric : isSymmetric registry id = true := by
    rw [isSymmetric_eq hget, hkind]
    decide
  have hturns : turns registry
    (RuleAtom.renamed number ⟨id, [.var ⟨.object, i⟩, .var ⟨.object, k⟩]⟩) =
      decide (number ⟨.object, k⟩ < number ⟨.object, i⟩) := by
    simp [turns, RuleAtom.renamed, hsymmetric, Term.renamed, outOfOrder, Encoded.termKey,
      Prod.Lex.toLex_lt_toLex]
  rw [turnedBy, hturns]
  simp only [decide_eq_true_eq, RuleAtom.swapped, swapFirst]

theorem IsClassPredicate.not_guard (h : IsClassPredicate registry id) :
    ¬ HasKind registry id .orderingGuard := by
  obtain ⟨kind, hfits, hpredicate⟩ := h
  intro hguard
  rw [hpredicate.hasKind.unique hguard] at hfits
  simp [PredicateKind.signatureFits] at hfits

theorem IsPredicate.not_guard (h : IsPredicate registry id kind sorts)
    (hkind : kind ≠ .orderingGuard) : ¬ HasKind registry id .orderingGuard :=
  fun hguard => hkind (h.hasKind.unique hguard)

section
variable (hatoms : ∀ atom ∈ body ++ head, Plain registry atom)
  (hrole : IsPredicate registry role .objectRole [.object, .object])
  (hfiller : IsClassPredicate registry filler) (fresh : Nat)
  (hfresh : fresh = freshVariableIndex body head root)
include hatoms hrole hfiller hfresh

theorem objectAtMost_guard
    (hatom : atom ∈ (compileObjectAtMost body head root cardinality role filler ordering
      equality).body)
    (hguard : IsGuard registry atom) :
    2 ≤ cardinality ∧ ∃ i < cardinality, atom =
      ⟨ordering, [atMostTarget fresh i, atMostTarget fresh (i + 1)]⟩ := by
  rcases (mem_objectAtMost_body fresh hfresh).mp hatom with hmem | ⟨i, -, rfl | rfl⟩ | hmem
  · exact absurd hguard (hatoms atom (mem_append_left _ hmem)).2
  · exact absurd hguard (hrole.not_guard (by decide))
  · exact absurd hguard hfiller.not_guard
  · exact hmem

theorem exchangeable_objectAtMost
    (hordering : 2 ≤ cardinality → IsPredicate registry ordering .orderingGuard [.object, .object])
    (hequality : cardinality ≠ 0 →
      IsPredicate registry equality .annotatedEquality [.object, .object, .object])
    (hnumber : ∀ i < cardinality, number ⟨.object, fresh + i⟩ ≠ number ⟨.object, fresh + (i + 1)⟩) :
    Exchangeable R (compileObjectAtMost body head root cardinality role filler ordering equality)
      number := by
  intro σ hσ hbody
  by_cases hmany : 2 ≤ cardinality
  swap
  · -- without guards there is nothing to permute
    refine .inr ⟨σ, hσ, hbody, fun atom hatom hguard => ?_, id⟩
    exact absurd (objectAtMost_guard hatoms hrole hfiller fresh hfresh hatom hguard).1 hmany
  have hzero : cardinality ≠ 0 := by omega
  let value : Fin (cardinality + 1) → U := fun i => σ ⟨.object, fresh + i⟩
  -- an equality between two of the variables is in the head, in one order or the other
  have hpair : ∀ i j : Fin (cardinality + 1), i ≠ j →
    R.holds equality [value i, value j, R.value σ root] →
      ∃ atom ∈ (compileObjectAtMost body head root cardinality role filler ordering equality).head,
        R.Holds σ atom := by
    intro i j hne htrue
    rcases lt_or_gt_of_ne hne with hlt | hgt
    · exact ⟨_, (mem_objectAtMost_head fresh hfresh).mpr
        (.inr ⟨hzero, i, j, hlt, by omega, rfl⟩), htrue⟩
    · exact ⟨_, (mem_objectAtMost_head fresh hfresh).mpr
        (.inr ⟨hzero, j, i, hgt, by omega, rfl⟩),
        R.annotated_symm (hequality hzero).hasKind _ _ _ htrue⟩
  by_cases hinj : Function.Injective value
  swap
  · obtain ⟨i, j, heq, hne⟩ := Function.not_injective_iff.mp hinj
    refine .inl (hpair i j hne ?_)
    rw [heq]
    exact R.annotated_refl (hequality hzero).hasKind _ _
  obtain ⟨π, hπ⟩ := exists_perm_ascending (fun i => number ⟨.object, fresh + i.val⟩) hinj
  have htarget : ∀ i (hi : i < cardinality + 1),
      R.value (fun key => σ (permuted fresh π key)) (atMostTarget fresh i) = value (π ⟨i, hi⟩) :=
    fun i hi => congrArg σ (permuted_atMostTarget fresh π ⟨i, hi⟩)
  have hroot : R.value (fun key => σ (permuted fresh π key)) root = R.value σ root := by
    refine value_congr fun key heq => congrArg σ (permuted_of_lt π ?_)
    rw [hfresh]
    exact lt_freshVariableIndex (.inr heq)
  have hcontext : ∀ atom ∈ body ++ head,
      (R.Holds (fun key => σ (permuted fresh π key)) atom ↔ R.Holds σ atom) := by
    intro atom hatom
    refine holds_congr fun key hkey => congrArg σ (permuted_of_lt π ?_)
    rw [hfresh]
    exact lt_freshVariableIndex (.inl ⟨atom, hatom, hkey⟩)
  refine .inr ⟨fun key => σ (permuted fresh π key), fun key => ?_, fun atom hatom hguard => ?_,
    fun atom hatom hguard => ?_, fun ⟨atom, hatom, htrue⟩ => ?_⟩
  · have := hσ (permuted fresh π key)
    rwa [permuted_sort] at this
  · -- the successors are exchanged with each other
    rcases (mem_objectAtMost_body fresh hfresh).mp
      hatom with hmem | ⟨i, hi, rfl | rfl⟩ | ⟨-, i, hi, rfl⟩
    · exact (hcontext atom (mem_append_left _ hmem)).mpr (hbody atom hatom hguard)
    · have hother := hbody ⟨role, [root, atMostTarget fresh (π ⟨i, by omega⟩)]⟩
        ((mem_objectAtMost_body fresh hfresh).mpr (.inr (.inl ⟨_, by omega, .inl rfl⟩)))
        (hrole.not_guard (by decide))
      simp only [Reading.Holds, map_cons, map_nil, hroot, htarget i (by omega)] at hother ⊢
      exact hother
    · have hother := hbody ⟨filler, [atMostTarget fresh (π ⟨i, by omega⟩)]⟩
        ((mem_objectAtMost_body fresh hfresh).mpr (.inr (.inl ⟨_, by omega, .inr rfl⟩)))
          hfiller.not_guard
      simp only [Reading.Holds, map_cons, map_nil, htarget i (by omega)] at hother ⊢
      exact hother
    · exact absurd (hordering hmany).hasKind hguard
  · obtain ⟨-, i, hi, rfl⟩ := objectAtMost_guard hatoms hrole hfiller fresh hfresh hatom hguard
    have hstep : ∀ i k (hi : i < cardinality + 1) (hk : k < cardinality + 1),
        number ⟨.object, fresh + i⟩ < number ⟨.object, fresh + k⟩ →
        R.Holds (fun key => σ (permuted fresh π key)) ⟨ordering,
          [atMostTarget fresh i, atMostTarget fresh k]⟩ := by
      intro i k hi hk hlt
      simp only [Reading.Holds, map_cons, map_nil, htarget i hi, htarget k hk]
      exact R.guard_of_lt (hordering hmany).hasKind _ _ (hπ ⟨i, hi⟩ ⟨k, hk⟩ hlt)
    rw [atMostTarget, atMostTarget, turnedBy_guard (hordering hmany).hasKind]
    split
    · rename_i hlt
      exact hstep (i + 1) i (by omega) (by omega) hlt
    · rename_i hge
      exact hstep i (i + 1) (by omega) (by omega) (lt_of_le_of_ne (not_lt.mp hge) (hnumber i hi))
  · rcases (mem_objectAtMost_head fresh hfresh).mp hatom with hmem | ⟨-, i, j, hij, hj, rfl⟩
    · exact ⟨atom, hatom, (hcontext atom (mem_append_right _ hmem)).mp htrue⟩
    · simp only [Reading.Holds, map_cons, map_nil, hroot, htarget i (by omega),
        htarget j (by omega)] at htrue
      -- the variables these were exchanged with
      refine hpair _ _ (fun heq => ?_) htrue
      have := Fin.mk.inj (π.injective heq)
      omega

end

end ObjectAtMost

/-! ## Keys -/

section Key

open Clauses

/-- The two individuals a key compares, of which `side` is the second. -/
def keySide (side : Bool) : Term := .var ⟨.object, side.toNat⟩

/-- Their values of a data property. -/
def keyValue (dataFirst index : Nat) (side : Bool) : Term :=
  .var ⟨.data, dataFirst + 2 * index + side.toNat⟩

variable {classPredicate named ordering equality dataInequality : Nat}
  {objectProperties dataProperties : List Nat}

theorem mem_key_body (dataFirst : Nat) (hfirst : dataFirst = 2 + objectProperties.length) :
    atom ∈ (compileKey classPredicate named ordering equality dataInequality objectProperties
      dataProperties).body ↔
      ((∃ side, atom = ⟨classPredicate, [keySide side]⟩ ∨ atom = ⟨named, [keySide side]⟩) ∨
        atom = ⟨ordering, [keySide false, keySide true]⟩) ∨
      (∃ index, ∃ property ∈ objectProperties,
        ((∃ side, atom = ⟨property, [keySide side, .var ⟨.object, 2 + index⟩]⟩) ∨
        atom = ⟨named, [.var ⟨.object, 2 + index⟩]⟩) ∧ objectProperties[index]? = some property) ∨
      ∃ index, ∃ property ∈ dataProperties,
        (∃ side, atom = ⟨property, [keySide side, keyValue dataFirst index side]⟩) ∧
        dataProperties[index]? = some property := by
  subst hfirst
  have hflatten : ∀ (properties : List Nat) (f : Nat → Nat → List RuleAtom),
      atom ∈ (properties.mapIdx f).flatten ↔
        ∃ index, ∃ property ∈ properties, atom ∈ f index property ∧
        properties[index]? = some property := by
    intro properties f
    rw [mem_flatten]
    constructor
    · rintro ⟨atoms, hatoms, hatom⟩
      obtain ⟨index, hindex, rfl⟩ := mem_mapIdx.mp hatoms
      exact ⟨index, properties[index], getElem_mem hindex, hatom, getElem?_eq_getElem hindex⟩
    · rintro ⟨index, property, -, hatom, hget⟩
      obtain ⟨hindex, rfl⟩ := List.getElem?_eq_some_iff.mp hget
      exact ⟨_, mem_mapIdx.mpr ⟨index, hindex, rfl⟩, hatom⟩
  show atom ∈ [_, _, _, _, _] ++
    ((objectProperties.mapIdx _).flatten ++ (dataProperties.mapIdx _).flatten) ↔ _
  rw [mem_append, mem_append, hflatten, hflatten]
  refine or_congr ?_ (by simp [keySide, keyValue, or_assoc])
  simp [keySide]
  tauto

theorem mem_key_head (dataFirst : Nat) (hfirst : dataFirst = 2 + objectProperties.length) :
    atom ∈ (compileKey classPredicate named ordering equality dataInequality objectProperties
      dataProperties).head ↔
      atom = ⟨equality, [keySide false, keySide true]⟩ ∨ ∃ index < dataProperties.length,
        atom = ⟨dataInequality, [keyValue dataFirst index false,
          keyValue dataFirst index true]⟩ := by
  subst hfirst
  show atom ∈ _ :: dataProperties.mapIdx _ ↔ _
  rw [mem_cons, mem_mapIdx]
  refine or_congr Iff.rfl ?_
  constructor
  · rintro ⟨index, hindex, rfl⟩
    exact ⟨index, hindex, rfl⟩
  · rintro ⟨index, hindex, rfl⟩
    exact ⟨index, hindex, rfl⟩

/-- Exchanges the two individuals a key compares, with their data values. -/
def exchanged (dataFirst : Nat) (key : VariableKey) : VariableKey :=
  match key.sort with
  | .object => if key.variableId = 0 then ⟨.object, 1⟩
    else if key.variableId = 1 then ⟨.object, 0⟩ else key
  | .data =>
    if dataFirst ≤ key.variableId then
      ⟨.data, if (key.variableId - dataFirst) % 2 = 0 then key.variableId + 1
        else key.variableId - 1⟩
    else key

theorem exchanged_sort (dataFirst : Nat) (key : VariableKey) :
    (exchanged dataFirst key).sort = key.sort := by
  obtain ⟨_ | _, id⟩ := key
  · simp only [exchanged]
    split <;> rfl
  · simp only [exchanged]
    split
    · rfl
    · split <;> rfl

@[simp] theorem exchanged_side (dataFirst : Nat) (side : Bool) :
    exchanged dataFirst ⟨.object, side.toNat⟩ = ⟨.object, (!side).toNat⟩ := by
  cases side <;> rfl

@[simp] theorem exchanged_object (dataFirst index : Nat) :
    exchanged dataFirst ⟨.object, 2 + index⟩ = ⟨.object, 2 + index⟩ := by
  simp only [exchanged]
  rw [if_neg (by omega), if_neg (by omega)]

@[simp] theorem exchanged_data (dataFirst index : Nat) (side : Bool) :
    exchanged dataFirst ⟨.data, dataFirst + 2 * index + side.toNat⟩ =
      ⟨.data, dataFirst + 2 * index + (!side).toNat⟩ := by
  simp only [exchanged]
  rw [if_pos (by omega)]
  cases side with
  | false => rw [if_pos (by simp)]; rfl
  | true => rw [if_neg (by simp; omega)]; rfl

section
variable (hclass : IsClassPredicate registry classPredicate)
  (hnamed : IsPredicate registry named .namedIndividual [.object])
  (hobject : ∀ property ∈ objectProperties,
    IsPredicate registry property .objectRole [.object, .object])
  (hdata : ∀ property ∈ dataProperties, IsPredicate registry property .dataRole [.object, .data])
include hclass hnamed hobject hdata

theorem key_guard (hatom : atom ∈ (compileKey classPredicate named ordering equality dataInequality
      objectProperties dataProperties).body) (hguard : IsGuard registry atom) :
    atom = ⟨ordering, [keySide false, keySide true]⟩ := by
  rcases (mem_key_body _ rfl).mp hatom with
    (⟨_, rfl | rfl⟩ | rfl) | ⟨_, property, hp, ⟨_, rfl⟩ | rfl, -⟩ | ⟨_, property, hp, ⟨_, rfl⟩, -⟩
  · exact absurd hguard hclass.not_guard
  · exact absurd hguard (hnamed.not_guard (by decide))
  · rfl
  · exact absurd hguard ((hobject property hp).not_guard (by decide))
  · exact absurd hguard (hnamed.not_guard (by decide))
  · exact absurd hguard ((hdata property hp).not_guard (by decide))

theorem exchangeable_key
    (hordering : IsPredicate registry ordering .orderingGuard [.object, .object])
    (hequality : IsPredicate registry equality .equality [.object, .object])
    (hinequality : dataProperties ≠ [] →
      IsPredicate registry dataInequality .inequality [.data, .data]) :
    Exchangeable R (compileKey classPredicate named ordering equality dataInequality
      objectProperties dataProperties) number := by
  intro σ hσ hbody
  set clause := compileKey classPredicate named ordering equality dataInequality objectProperties
    dataProperties with hclause
  by_cases heq : σ ⟨.object, 0⟩ = σ ⟨.object, 1⟩
  · refine .inl ⟨_, (mem_key_head _ rfl).mpr (.inl rfl), ?_⟩
    show R.holds equality [σ ⟨.object, 0⟩, σ ⟨.object, 1⟩]
    rw [heq]
    exact R.equality_refl hequality.hasKind _
  by_cases hguard : R.Holds σ (turnedBy registry number ⟨ordering, [keySide false, keySide true]⟩)
  · -- the values are in order already
    refine .inr ⟨σ, hσ, hbody, fun atom hatom hg => ?_, id⟩
    rw [key_guard hclass hnamed hobject hdata hatom hg]
    exact hguard
  -- exchange the two individuals
  let dataFirst := 2 + objectProperties.length
  have hvalue : ∀ key, R.value (fun key => σ (exchanged dataFirst key)) (.var key) =
      R.value σ (.var (exchanged dataFirst key)) := fun _ => rfl
  refine .inr ⟨fun key => σ (exchanged dataFirst key), fun key => ?_, fun atom hatom hg => ?_,
    fun atom hatom hg => ?_, fun ⟨atom, hatom, htrue⟩ => ?_⟩
  · have := hσ (exchanged dataFirst key)
    rwa [exchanged_sort] at this
  · have hmem : ∀ other : RuleAtom, other ∈ clause.body → other.predicateId = atom.predicateId →
        R.Holds σ other := fun _ hother hid => hbody _ hother (by rwa [IsGuard, hid])
    simp only [Reading.Holds]
    rcases (mem_key_body dataFirst rfl).mp hatom with (⟨side, rfl | rfl⟩ | rfl) |
      ⟨index, property, hp, ⟨side, rfl⟩ | rfl, hget⟩ | ⟨index, property, hp, ⟨side, rfl⟩, hget⟩ <;>
      simp only [keySide, keyValue, map_cons, map_nil, hvalue, exchanged_side, exchanged_object,
        exchanged_data]
    · exact hmem ⟨classPredicate, [keySide !side]⟩
        ((mem_key_body _ rfl).mpr (.inl (.inl ⟨_, .inl rfl⟩))) rfl
    · exact hmem ⟨named, [keySide !side]⟩ ((mem_key_body _ rfl).mpr (.inl (.inl ⟨_, .inr rfl⟩))) rfl
    · exact absurd hordering.hasKind hg
    · exact hmem ⟨property, [keySide !side, .var ⟨.object, 2 + index⟩]⟩
        ((mem_key_body _ rfl).mpr (.inr (.inl ⟨index, property, hp, .inl ⟨_, rfl⟩, hget⟩))) rfl
    · exact hbody _ hatom hg
    · exact hmem ⟨property, [keySide !side, keyValue dataFirst index !side]⟩
        ((mem_key_body dataFirst rfl).mpr (.inr (.inr ⟨index, property, hp, ⟨_, rfl⟩, hget⟩))) rfl
  · rw [key_guard hclass hnamed hobject hdata hatom hg]
    have hturned := turnedBy_guard hordering.hasKind number 0 1
    have hswap : ∀ x y, x ≠ y → ¬ R.holds ordering [x, y] → R.holds ordering [y, x] := by
      intro x y hne hno
      have hle : y ≤ x := not_lt.mp fun hlt => hno (R.guard_of_lt hordering.hasKind _ _ hlt)
      exact R.guard_of_lt hordering.hasKind _ _ (lt_of_le_of_ne hle hne.symm)
    simp only [keySide, Bool.toNat_false, Bool.toNat_true] at hguard ⊢
    rw [hturned] at hguard ⊢
    by_cases hnumber : number ⟨.object, 1⟩ < number ⟨.object, 0⟩
    · rw [if_pos hnumber] at hguard ⊢
      exact hswap _ _ (Ne.symm heq) hguard
    · rw [if_neg hnumber] at hguard ⊢
      exact hswap _ _ heq hguard
  · refine ⟨atom, hatom, ?_⟩
    simp only [Reading.Holds] at htrue ⊢
    rcases (mem_key_head dataFirst rfl).mp hatom with rfl | ⟨index, hindex, rfl⟩ <;>
      simp only [keySide, keyValue, map_cons, map_nil, hvalue, exchanged_side,
        exchanged_data] at htrue ⊢
    · exact R.equality_symm hequality.hasKind _ _ htrue
    · have hne : dataProperties ≠ [] := ne_nil_of_length_pos (by omega)
      exact R.inequality_symm (hinequality hne).hasKind _ _ htrue

end

end Key

/-! ## Emitted clauses -/

theorem IsPredicate.shaped {id : Nat} {kind : PredicateKind} {sorts : List TermSort}
    {arguments : List Term}
    (h : IsPredicate registry id kind sorts) (hfits : kind.signatureFits sorts = true)
    (hsorts : arguments.map Term.sort = sorts) : Shaped registry ⟨id, arguments⟩ := by
  obtain ⟨predicate, hget, rfl, rfl⟩ := h
  exact ⟨predicate, hget, hfits, hsorts⟩

theorem IsClassPredicate.shaped {id : Nat} {term : Term} (h : IsClassPredicate registry id)
    (hsort : term.sort = .object) : Shaped registry ⟨id, [term]⟩ := by
  obtain ⟨kind, hfits, hpredicate⟩ := h
  exact hpredicate.shaped hfits (by rw [map_cons, hsort, map_nil])

section
variable (h : Emitted registry clause)
include h

theorem Emitted.shaped : ∀ atom ∈ clause.atoms, Shaped registry atom := by
  intro atom hatom
  cases h with
  | plain hatoms => exact (hatoms atom hatom).1
  | objectAtMost hatoms hroot hrole hfiller hordering hequality =>
    rcases mem_append.mp hatom with hbody | hhead
    · rcases (mem_objectAtMost_body _ rfl).mp
        hbody with hmem | ⟨i, hi, rfl | rfl⟩ | ⟨hmany, i, hi, rfl⟩
      · exact (hatoms atom (mem_append_left _ hmem)).1
      · exact hrole.shaped (by decide) (by rw [map_cons, hroot]; rfl)
      · exact hfiller.shaped rfl
      · exact (hordering hmany).shaped (by decide) rfl
    · rcases (mem_objectAtMost_head _ rfl).mp hhead with hmem | ⟨hzero, i, j, hij, hj, rfl⟩
      · exact (hatoms atom (mem_append_right _ hmem)).1
      · exact (hequality hzero).shaped (by decide)
          (by rw [map_cons, map_cons, map_cons, hroot]; rfl)
  | key hclass hnamed hordering hequality hinequality hobject hdata =>
    rcases mem_append.mp hatom with hbody | hhead
    · rcases (mem_key_body _ rfl).mp hbody with
        (⟨_, rfl | rfl⟩ | rfl) | ⟨_, property, hp, ⟨_, rfl⟩ | rfl, -⟩ |
          ⟨_, property, hp, ⟨_, rfl⟩, -⟩
      · exact hclass.shaped rfl
      · exact hnamed.shaped (by decide) rfl
      · exact hordering.shaped (by decide) rfl
      · exact (hobject property hp).shaped (by decide) rfl
      · exact hnamed.shaped (by decide) rfl
      · exact (hdata property hp).shaped (by decide) rfl
    · rcases (mem_key_head _ rfl).mp hhead with rfl | ⟨index, hindex, rfl⟩
      · exact hequality.shaped (by decide) rfl
      · exact (hinequality (ne_nil_of_length_pos (by omega))).shaped (by decide) rfl

theorem Emitted.head_not_guard : ∀ atom ∈ clause.head, ¬ IsGuard registry atom := by
  intro atom hatom
  cases h with
  | plain hatoms => exact (hatoms atom (mem_append_right _ hatom)).2
  | objectAtMost hatoms hroot hrole hfiller hordering hequality =>
    rcases (mem_objectAtMost_head _ rfl).mp hatom with hmem | ⟨hzero, i, j, hij, hj, rfl⟩
    · exact (hatoms atom (mem_append_right _ hmem)).2
    · exact (hequality hzero).not_guard (by decide)
  | key hclass hnamed hordering hequality hinequality hobject hdata =>
    rcases (mem_key_head _ rfl).mp hatom with rfl | ⟨index, hindex, rfl⟩
    · exact hequality.not_guard (by decide)
    · exact (hinequality (ne_nil_of_length_pos (by omega))).not_guard (by decide)

/-- The guards of an emitted clause follow its variable numbers. -/
theorem Emitted.guards_ascend : ∀ atom ∈ clause.body, IsGuard registry atom →
    turnedBy registry (·.variableId) atom = atom := by
  intro atom hatom hguard
  cases h with
  | plain hatoms => exact absurd hguard (hatoms atom (mem_append_left _ hatom)).2
  | objectAtMost hatoms hroot hrole hfiller hordering hequality =>
    obtain ⟨hmany, i, hi, rfl⟩ := objectAtMost_guard hatoms hrole hfiller _ rfl hatom hguard
    rw [atMostTarget, atMostTarget, turnedBy_guard (hordering hmany).hasKind]
    exact if_neg (by simp only; omega)
  | key hclass hnamed hordering hequality hinequality hobject hdata =>
    rw [key_guard hclass hnamed hobject hdata hatom hguard]
    exact turnedBy_guard hordering.hasKind _ 0 1

theorem Emitted.exchangeable
    (hnumber : ∀ key ∈ clause.variables, ∀ key' ∈ clause.variables, key.sort = key'.sort →
      number key = number key' → key = key') : Exchangeable R clause number := by
  cases h with
  | plain hatoms =>
    intro σ hσ hbody
    refine .inr ⟨σ, hσ, hbody, fun atom hatom hguard => ?_, id⟩
    exact absurd hguard (hatoms atom (mem_append_left _ hatom)).2
  | objectAtMost hatoms hroot hrole hfiller hordering hequality =>
    refine exchangeable_objectAtMost hatoms hrole hfiller _ rfl hordering hequality
      fun i hi heq => ?_
    have hsame := hnumber _ (mem_objectAtMost_variables (i := i) (by omega)) _
      (mem_objectAtMost_variables (i := i + 1) (by omega)) rfl heq
    have hid := (VariableKey.mk.inj hsame).2
    omega
  | key hclass hnamed hordering hequality hinequality hobject hdata =>
    exact exchangeable_key hclass hnamed hobject hdata hordering hequality hinequality

/-- A renaming of an emitted clause says the same, whatever the predicates mean. -/
theorem Emitted.valid_iff (hrenaming : IsRenaming registry clause result number) :
    R.Valid clause ↔ R.Valid result := by
  have hid : ∀ key ∈ clause.variables, ∀ key' ∈ clause.variables, key.sort = key'.sort →
      key.variableId = key'.variableId → key = key' :=
    (isRenaming_startClause registry clause).injOn
  rw [valid_iff_validAlong h.guards_ascend, (h.exchangeable hid).validAlong_iff,
    ← (h.exchangeable hrenaming.injOn).validAlong_iff,
    hrenaming.valid_iff h.shaped h.head_not_guard]

end

/-! ## The canonical form -/

/-- The atoms ascend and the variables are numbered in the order in which they occur. -/
structure Canonical (clause : Clause) : Prop where
  body_ascending : clause.body.Pairwise fun a b => a.canonicalBytes < b.canonicalBytes
  head_ascending : clause.head.Pairwise fun a b => a.canonicalBytes < b.canonicalBytes
  numbered : Clauses.firstOccurrence clause = List.range clause.variables.eraseDups.length

theorem Ready.canonical {n : Nat} (h : Ready registry n n clause) : Canonical clause where
  body_ascending := (h.body_sorted.and h.body_nodup).imp fun ⟨hle, hne⟩ =>
    lt_of_le_of_ne hle (RuleAtom.canonicalBytes_injective.ne hne)
  head_ascending := (h.head_sorted.and h.head_nodup).imp fun ⟨hle, hne⟩ =>
    lt_of_le_of_ne hle (RuleAtom.canonicalBytes_injective.ne hne)
  numbered := by rw [h.count, h.firstOccurrence_eq]

/-- **A clause with at most ten variables, or one that is stable once it is sorted, is put in
canonical form, by both compilers alike, and keeps its meaning**, if no two states of the
native loop share a digest. -/
theorem freezeClauseAtoms_canonical (hemitted : Emitted registry clause)
    (hsettles : clause.variables.eraseDups.length ≤ 10 ∨
      clause.variables.eraseDups.length ≤ u32Max ∧
      PassStable registry (startClause registry clause))
    {δ : Type} [DecidableEq δ] {digest : String → δ} (hdigest : Set.InjOn (fun state =>
      digest (Encoded.ruleKey state)) (passStates registry clause)) :
    ∃ result, Clauses.freezeClauseAtoms registry clause = .ok result ∧
      Encoded.canonicalizeClause digest registry clause = .ok result ∧ Canonical result ∧
      ∀ (U : Type u) [LinearOrder U] (R : Reading registry U), R.Valid clause ↔ R.Valid result := by
  obtain ⟨number, hrenaming⟩ := canonicalClause_isRenaming registry clause
  have hshaped := hemitted.shaped
  have hcount : clause.variables.eraseDups.length ≤ u32Max :=
    hsettles.elim (fun hfew => hfew.trans (by decide)) And.left
  have hsettles := hsettles.imp_right And.right
  exact ⟨_, (Clauses.freezeClauseAtoms_eq_words hshaped).trans (wordLoop_eq hshaped hsettles),
    (Encoded.canonicalizeClause_eq_words hdigest hshaped hcount).trans
    (wordLoop_eq hshaped hsettles),
    (canonicalClause_ready hshaped hsettles).canonical, fun U _ R => hemitted.valid_iff hrenaming⟩

namespace CanonicalSample

def objectRole (id : Nat) : RulePredicate where
  predicateId := id
  kind := .objectRole
  argumentSorts := [.object, .object]

/-- A class, a role, an ordering guard and the equality of a maximum cardinality. -/
def predicates : List RulePredicate :=
  [{ predicateId := 0, kind := .concept, argumentSorts := [.object] }, objectRole 1,
    { predicateId := 2, kind := .orderingGuard, argumentSorts := [.object, .object] },
    { predicateId := 3, kind := .annotatedEquality, argumentSorts := [.object, .object, .object] }]

/-- Every member of the class has at most two successors in the class. -/
def atMostTwo : Clause :=
  Clauses.compileObjectAtMost [⟨0, [.var ⟨.object, 0⟩]⟩] [] (.var ⟨.object, 0⟩) 2 1 0 2 3

theorem atMostTwo_emitted : Emitted predicates atMostTwo :=
  .objectAtMost (by
      intro atom hatom
      obtain rfl : atom = ⟨0, [.var ⟨.object, 0⟩]⟩ := by simpa using hatom
      refine ⟨⟨_, rfl, rfl, rfl⟩, fun ⟨predicate, hget, hkind⟩ => ?_⟩
      obtain rfl := Option.some.inj hget
      cases hkind) rfl
    ⟨_, rfl, rfl, rfl⟩ ⟨.concept, rfl, _, rfl, rfl, rfl⟩ (fun _ => ⟨_, rfl, rfl, rfl⟩)
    fun _ => ⟨_, rfl, rfl, rfl⟩

theorem atMostTwo_canonical :
    Emitted predicates atMostTwo ∧ atMostTwo.variables.eraseDups.length ≤ 10 ∧
    ∃ result, Clauses.freezeClauseAtoms predicates atMostTwo = .ok result ∧
      Encoded.canonicalizeClause id predicates atMostTwo = .ok result ∧ Canonical result ∧
      ∀ (U : Type) [LinearOrder U] (R : Reading predicates U), R.Valid atMostTwo ↔ R.Valid result :=
  ⟨atMostTwo_emitted, by decide, freezeClauseAtoms_canonical atMostTwo_emitted (.inl (by decide))
    Encoded.ruleKey_injective.injOn⟩

def roles : List RulePredicate := [objectRole 0, objectRole 1]

/-- Eleven steps of the first role are a step of the second: a clause with twelve variables. -/
def chain : Clause := Clauses.compileComplexInclusion (List.replicate 11 0) 1

theorem chain_emitted : Emitted roles chain := by
  refine .plain fun atom hatom => ?_
  have hroles : roles[atom.predicateId]? = some (objectRole atom.predicateId) ∧
      atom.arguments.map Term.sort = [.object, .object] := by
    revert atom
    decide
  refine ⟨⟨_, hroles.1, rfl, hroles.2⟩, fun ⟨predicate, hget, hkind⟩ => ?_⟩
  obtain rfl := Option.some.inj (hroles.1.symm.trans hget)
  cases hkind

/-- Steps of the first role in the body, one of the second in the head. -/
def path (edges : List (Nat × Nat)) (ends : Nat × Nat) : Clause where
  body := edges.map fun (i, k) => ⟨0, [.var ⟨.object, i⟩, .var ⟨.object, k⟩]⟩
  head := [⟨1, [.var ⟨.object, ends.1⟩, .var ⟨.object, ends.2⟩]⟩]

/-- The first states of the loop; the sixth pass leads back to the third state. -/
def passes : List Clause :=
  [path [(0, 1), (1, 2), (2, 3), (3, 4), (4, 5), (5, 6), (6, 7), (7, 8), (8, 9),
      (9, 10), (10, 11)] (0, 11),
    path [(0, 1), (1, 2), (10, 11), (2, 3), (3, 4), (4, 5), (5, 6), (6, 7), (7, 8),
      (8, 9), (9, 10)] (0, 11),
    path [(0, 1), (1, 2), (10, 11), (11, 3), (2, 5), (3, 4), (5, 6), (6, 7), (7, 8),
      (8, 9), (9, 10)] (0, 4),
    path [(0, 1), (1, 2), (10, 11), (11, 3), (2, 6), (3, 4), (4, 5), (5, 7), (6, 8),
      (8, 9), (9, 10)] (0, 7),
    path [(0, 1), (1, 2), (10, 11), (11, 3), (2, 6), (3, 4), (4, 5), (5, 7), (6, 10),
      (7, 8), (8, 9)] (0, 9),
    path [(0, 1), (1, 2), (10, 11), (2, 6), (3, 4), (4, 5), (5, 7), (6, 3), (7, 8),
      (8, 9), (9, 10)] (0, 11),
    path [(0, 1), (1, 2), (10, 11), (11, 3), (2, 5), (3, 4), (5, 6), (6, 7), (7, 8),
      (8, 9), (9, 10)] (0, 4)]

theorem wordNext_passes : ∀ k < 6, wordNext roles (passes.getD k chain) =
      passes.getD (k + 1) chain := by
  decide +kernel

theorem passes_unstable : ∀ k < 6, decide (passes.getD (k + 1) chain = passes.getD k chain ∧
    Clauses.firstOccurrence (passes.getD (k + 1) chain) = List.range 12) = false := by
  decide +kernel

theorem chain_count : chain.variables.eraseDups.length = 12 := by decide +kernel

theorem chain_cycles {ε : Type} (cycle exceeded : ε) :
    wordLoop roles chain cycle exceeded = .error cycle := by
  have hstart : startClause roles chain = passes.getD 0 chain := by decide +kernel
  have hback : passes.getD 6 chain ∈ (List.range 6).map fun i =>
    passes.getD i chain := by decide +kernel
  rw [wordLoop, chain_count]
  exact settle_eq_cycle (fun k => passes.getD k chain)
    (fun k hk => congrArg Except.ok (wordNext_passes k hk)) passes_unstable hback (by decide)

/-- Neither compiler gets the clause of a chain of eleven roles into canonical form. -/
theorem chain_not_frozen : Emitted roles chain ∧ Clauses.freezeClauseAtoms roles chain =
      .error (.runtimeError "alpha-canonical clause ordering did not converge") ∧
    Encoded.canonicalizeClause id roles chain =
      .error (.invariant "permanent-program alpha-canonicalization entered a cycle") := by
  refine ⟨chain_emitted, ?_, ?_⟩
  · rw [Clauses.freezeClauseAtoms_eq_words chain_emitted.shaped, chain_cycles]
  · rw [Encoded.canonicalizeClause_eq_words Encoded.ruleKey_injective.injOn chain_emitted.shaped
      (by rw [chain_count]; decide), chain_cycles]

end CanonicalSample

end PyHermit
