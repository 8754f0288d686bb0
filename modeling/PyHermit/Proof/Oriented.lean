import PyHermit.Clauses.Meaning
import PyHermit.Proof.AtomText

/-!
# One canonicalisation pass

A pass renames the variables of a clause, puts the arguments of symmetric atoms in order
and sorts the atoms. On well-shaped atoms no error path is taken, and both compilers compute
the same clause, `nextClause`.

`orient` is the total form of `_canonicalize_symmetric_atom`. It is a normal form: turning
the arguments round before or after a renaming makes no difference
(`orient_rename_orient`), so a pass loses nothing but the names of the variables.
-/

namespace PyHermit

open Prog Renumber List Encoded Clauses RuleAtom

/-! ## Well-shaped atoms -/

/-- The kinds whose first two arguments may be exchanged. -/
def symmetricKinds : List PredicateKind :=
  [.annotatedEquality, .equality, .inequality, .orderingGuard]

def isSymmetric (registry : List RulePredicate) (predicateId : Nat) : Bool :=
  registry[predicateId]?.any (·.kind ∈ symmetricKinds)

variable {registry : List RulePredicate} {atom : RuleAtom}

theorem signatureFits_ne_nil {kind : PredicateKind} {sorts : List TermSort}
    (h : kind.signatureFits sorts = true) : sorts ≠ [] := by
  rintro rfl
  cases kind <;> simp [PredicateKind.signatureFits] at h

theorem Shaped.arguments_ne_nil (h : Shaped registry atom) : atom.arguments ≠ [] := by
  obtain ⟨predicate, -, hfits, hsorts⟩ := h
  intro hnil
  rw [hnil] at hsorts
  exact signatureFits_ne_nil hfits hsorts.symm

variable {predicate : RulePredicate} {key : VariableKey}

theorem Shaped.symmetric_arguments (h : Shaped registry atom)
    (hget : registry[atom.predicateId]? = some predicate)
    (hkind : predicate.kind ∈ symmetricKinds) :
    ∃ left right rest, atom.arguments = left :: right :: rest ∧ left.sort = right.sort ∧
      rest.length = if predicate.kind = .annotatedEquality then 1 else 0 := by
  obtain ⟨predicate', hget', hfits, hsorts⟩ := h
  obtain rfl : predicate' = predicate := Option.some.inj (hget'.symm.trans hget)
  have hlength := congrArg List.length hsorts
  simp only [symmetricKinds, mem_cons, not_mem_nil, or_false] at hkind
  -- all four kinds have two arguments of the same sort in front
  have hshape : ∃ sort rest, predicate'.argumentSorts = sort :: sort :: rest ∧
      rest.length = if predicate'.kind = .annotatedEquality then 1 else 0 := by
    rcases hkind with hkind | hkind | hkind | hkind <;>
      simp only [hkind, PredicateKind.signatureFits, Bool.or_eq_true, decide_eq_true_eq] at hfits
    · exact ⟨_, _, hfits, by simp [hkind]⟩
    all_goals
      rcases hfits with hfits | hfits <;> exact ⟨_, _, hfits, by simp [hkind]⟩
  obtain ⟨sort, rest, hshape, hrest⟩ := hshape
  rw [hshape] at hsorts
  match harguments : atom.arguments, hsorts with
  | left :: right :: tail, hsorts =>
    simp only [map_cons, List.cons.injEq] at hsorts
    refine ⟨left, right, tail, rfl, hsorts.1.trans hsorts.2.1.symm, ?_⟩
    rw [← hrest, ← hsorts.2.2, length_map]

/-! ## Keys of terms -/

theorem Encoded.termKey_injective : Function.Injective Encoded.termKey := by
  intro t u h
  rcases t with ⟨_ | _, _⟩ | _ | _ <;> rcases u with ⟨_ | _, _⟩ | _ | _ <;>
    simp_all [Encoded.termKey]

/-- The texts `_term_key` starts with ascend: data variables, object variables, individuals,
data constants. -/
theorem termKey_prefixes : "0:data" < "0:object" ∧ "0:object" < "1:object" ∧
      "1:object" < "2:data" := by
  decide

/-- A term in the skeleton of an atom. -/
def skeletonKey : Term → String ×ₗ Nat ×ₗ Nat
  | .var key => toLex ("0:" ++ key.sort.value, toLex (0, key.variableId))
  | term => Clauses.termKey term

/-- The two compilers order terms alike, and skeletons as well. -/
theorem Clauses.termKey_lt_iff (t u : Term) :
    (termKey t < termKey u ↔ Encoded.termKey t < Encoded.termKey u) ∧
      (skeletonKey t < skeletonKey u ↔ Encoded.termKey t < Encoded.termKey u) := by
  obtain ⟨h01, h12, h23⟩ := termKey_prefixes
  have h02 := h01.trans h12
  have h13 := h12.trans h23
  have h03 := h01.trans h13
  rcases t with ⟨_ | _, _⟩ | _ | _ <;> rcases u with ⟨_ | _, _⟩ | _ | _ <;>
    simp [termKey, skeletonKey, Encoded.termKey, TermSort.value, Prod.Lex.toLex_lt_toLex, h01, h02,
      h03, h12, h13, h23, h01.not_gt, h02.not_gt, h03.not_gt, h12.not_gt, h13.not_gt, h23.not_gt]

/-! ## Turning symmetric atoms round -/

def outOfOrder : List Term → Bool
  | left :: right :: _ => decide (Encoded.termKey right < Encoded.termKey left)
  | _ => false

def swapFirst : List Term → List Term
  | left :: right :: rest => right :: left :: rest
  | arguments => arguments

def RuleAtom.swapped (atom : RuleAtom) : RuleAtom := ⟨atom.predicateId, swapFirst atom.arguments⟩

/-- Does `_canonicalize_symmetric_atom` exchange the first two arguments? -/
def turns (registry : List RulePredicate) (atom : RuleAtom) : Bool :=
  isSymmetric registry atom.predicateId && outOfOrder atom.arguments

def orient (registry : List RulePredicate) (atom : RuleAtom) : RuleAtom :=
  if turns registry atom = true then atom.swapped else atom

theorem isSymmetric_eq {predicateId : Nat} (hget : registry[predicateId]? = some predicate) :
    isSymmetric registry predicateId = decide (predicate.kind ∈ symmetricKinds) := by
  rw [isSymmetric, hget, Option.any_some]

theorem Clauses.canonicalizeSymmetricAtom_eq (h : Shaped registry atom) :
    canonicalizeSymmetricAtom registry atom = .ok (orient registry atom) := by
  obtain ⟨predicate, hget, -⟩ := id h
  rw [canonicalizeSymmetricAtom, orient, turns, isSymmetric_eq hget, hget]
  by_cases hkind : predicate.kind ∈ symmetricKinds
  · obtain ⟨left, right, rest, harguments, -, hrest⟩ := h.symmetric_arguments hget hkind
    obtain ⟨predicateId, arguments⟩ := atom
    subst harguments
    by_cases hannotated : predicate.kind = .annotatedEquality
    · obtain ⟨root, rfl⟩ : ∃ root, rest = [root] :=
        length_eq_one_iff.mp (by rw [hrest, if_pos hannotated])
      simp [hannotated, symmetricKinds, outOfOrder, swapFirst, swapped, (termKey_lt_iff _ _).1]
    · obtain rfl : rest = [] := length_eq_zero_iff.mp (by rw [hrest, if_neg hannotated])
      have hpair : predicate.kind ∈ [PredicateKind.equality, .inequality, .orderingGuard] :=
        (mem_cons.mp hkind).resolve_left hannotated
      simp [hannotated, hpair, hkind, outOfOrder, swapFirst, swapped, (termKey_lt_iff _ _).1]
  · have hannotated : predicate.kind ≠ .annotatedEquality := fun heq => hkind (heq ▸ by decide)
    have hpair : predicate.kind ∉ [PredicateKind.equality, .inequality, .orderingGuard] :=
      fun hmem => hkind (mem_cons_of_mem _ hmem)
    simp [hannotated, hpair, hkind]

theorem Encoded.canonicalizeSymmetricAtom_eq (h : Shaped registry atom) :
    canonicalizeSymmetricAtom registry atom = .ok (orient registry atom) := by
  obtain ⟨predicate, hget, -⟩ := id h
  rw [canonicalizeSymmetricAtom, orient, turns, isSymmetric_eq hget, hget]
  by_cases hkind : predicate.kind ∈ symmetricKinds
  · obtain ⟨left, right, rest, harguments, -, -⟩ := h.symmetric_arguments hget hkind
    obtain ⟨predicateId, arguments⟩ := atom
    subst harguments
    have hkind' := hkind
    rw [symmetricKinds] at hkind'
    simp [hkind, hkind', outOfOrder, swapFirst, swapped]
  · have hkind' := hkind
    rw [symmetricKinds] at hkind'
    simp [hkind, hkind']

@[simp] theorem orient_predicateId (atom : RuleAtom) :
    (orient registry atom).predicateId = atom.predicateId := by
  rw [orient]
  split <;> rfl

theorem swapFirst_perm (arguments : List Term) : (swapFirst arguments).Perm arguments := by
  match arguments with
  | [] | [_] => exact .refl _
  | left :: right :: rest => exact .swap _ _ _

theorem orient_arguments_perm (atom : RuleAtom) :
    (orient registry atom).arguments.Perm atom.arguments := by
  rw [orient]
  split
  · exact swapFirst_perm _
  · exact .refl _

theorem swapFirst_sorts (h : Shaped registry atom)
    (hsymmetric : isSymmetric registry atom.predicateId = true) :
    (swapFirst atom.arguments).map Term.sort = atom.arguments.map Term.sort := by
  obtain ⟨predicate, hget, -⟩ := id h
  rw [isSymmetric_eq hget, decide_eq_true_eq] at hsymmetric
  obtain ⟨left, right, rest, harguments, hsort, -⟩ := h.symmetric_arguments hget hsymmetric
  rw [harguments, swapFirst, map_cons, map_cons, map_cons, map_cons, hsort]

theorem Shaped.swapped (h : Shaped registry atom)
    (hsymmetric : isSymmetric registry atom.predicateId = true) : Shaped registry atom.swapped := by
  have hsorts := swapFirst_sorts h hsymmetric
  obtain ⟨predicate, hget, hfits, hmap⟩ := h
  exact ⟨predicate, hget, hfits, hsorts.trans hmap⟩

theorem Shaped.orient (h : Shaped registry atom) : Shaped registry (orient registry atom) := by
  rw [PyHermit.orient]
  split
  · rename_i hturns
    rw [turns, Bool.and_eq_true] at hturns
    exact h.swapped hturns.1
  · exact h

theorem outOfOrder_swapFirst {arguments : List Term} (h : outOfOrder arguments = true) :
    outOfOrder (swapFirst arguments) = false := by
  match arguments, h with
  | left :: right :: rest, h =>
    rw [outOfOrder, decide_eq_true_eq] at h
    rw [swapFirst, outOfOrder, decide_eq_false_iff_not]
    exact not_lt_of_gt h

theorem orient_swapped (hsymmetric : isSymmetric registry atom.predicateId = true) :
    orient registry atom.swapped = orient registry atom := by
  obtain ⟨predicateId, arguments⟩ := atom
  have hid : isSymmetric registry predicateId = true := hsymmetric
  match arguments with
  | [] | [_] => rfl
  | left :: right :: rest =>
    simp only [orient, turns, swapped, swapFirst, hid, outOfOrder, Bool.true_and,
      decide_eq_true_eq]
    rcases lt_trichotomy (Encoded.termKey left) (Encoded.termKey right) with hlt | heq | hgt
    · rw [if_pos hlt, if_neg hlt.not_gt]
    · rw [termKey_injective heq]
    · rw [if_neg hgt.not_gt, if_pos hgt]

theorem orient_orient : orient registry (orient registry atom) = orient registry atom := by
  by_cases h : turns registry atom = true
  · have hfirst : orient registry atom = atom.swapped := if_pos h
    rw [turns, Bool.and_eq_true] at h
    rw [hfirst, orient_swapped h.1, hfirst]
  · have hfirst : orient registry atom = atom := if_neg h
    rw [hfirst, hfirst]

/-! ## Renaming variables -/

def Term.renamed (number : VariableKey → Nat) : Term → Term
  | var key => var ⟨key.sort, number key⟩
  | individual id => individual id
  | dataConstant source identity => dataConstant source identity

def RuleAtom.renamed (number : VariableKey → Nat) (atom : RuleAtom) : RuleAtom :=
  ⟨atom.predicateId, atom.arguments.map (Term.renamed number)⟩

section
variable (number : VariableKey → Nat)

@[simp] theorem Term.sort_renamed (term : Term) :
    (term.renamed number).sort = term.sort := by
  cases term <;> rfl

theorem Shaped.renamed (h : Shaped registry atom) : Shaped registry (atom.renamed number) := by
  obtain ⟨predicate, hget, hfits, hsorts⟩ := h
  refine ⟨predicate, hget, hfits, ?_⟩
  rw [← hsorts, RuleAtom.renamed, map_map]
  exact map_congr_left fun term _ => Term.sort_renamed number term

theorem renamed_swapped (atom : RuleAtom) :
    atom.swapped.renamed number = (atom.renamed number).swapped := by
  obtain ⟨predicateId, arguments⟩ := atom
  match arguments with
  | [] | [_] | _ :: _ :: _ => rfl

/-- Turning round before a renaming makes no difference after it. -/
theorem orient_rename_orient (atom : RuleAtom) :
    orient registry ((orient registry atom).renamed number) = orient registry
    (atom.renamed number) := by
  by_cases h : turns registry atom = true
  · have hfirst : orient registry atom = atom.swapped := if_pos h
    rw [turns, Bool.and_eq_true] at h
    rw [hfirst, renamed_swapped]
    exact orient_swapped h.1
  · have hfirst : orient registry atom = atom := if_neg h
    rw [hfirst]

end

theorem mem_variables : key ∈ atom.variables ↔ Term.var key ∈ atom.arguments := by
  rw [RuleAtom.variables, mem_filterMap]
  constructor
  · rintro ⟨term, hterm, hkey⟩
    cases term with
    | var key' =>
      obtain rfl : key' = key := Option.some.inj hkey
      exact hterm
    | individual | dataConstant => cases hkey
  · intro h
    exact ⟨_, h, rfl⟩

theorem mem_variables_orient : key ∈ (orient registry atom).variables ↔ key ∈ atom.variables := by
  rw [mem_variables, mem_variables, (orient_arguments_perm atom).mem_iff]

theorem mem_variables_renamed {number : VariableKey → Nat} :
    key ∈ (atom.renamed number).variables ↔
      ∃ key' ∈ atom.variables, key = ⟨key'.sort, number key'⟩ := by
  rw [mem_variables, RuleAtom.renamed, mem_map]
  constructor
  · rintro ⟨term, hterm, heq⟩
    cases term with
    | var key' => exact ⟨key', mem_variables.mpr hterm, (Term.var.inj heq).symm⟩
    | individual | dataConstant => cases heq
  · rintro ⟨key', hkey', rfl⟩
    exact ⟨_, mem_variables.mp hkey', rfl⟩

theorem renamed_congr {number number' : VariableKey → Nat}
    (h : ∀ key ∈ atom.variables, number key = number' key) :
    atom.renamed number = atom.renamed number' := by
  rw [RuleAtom.renamed, RuleAtom.renamed]
  congr 1
  refine map_congr_left fun term hterm => ?_
  cases term with
  | var key => rw [Term.renamed, Term.renamed, h key (mem_variables.mpr hterm)]
  | individual | dataConstant => rfl

theorem renamed_variableId (atom : RuleAtom) : atom.renamed (·.variableId) = atom := by
  obtain ⟨predicateId, arguments⟩ := atom
  rw [RuleAtom.renamed]
  congr 1
  conv_rhs => rw [← map_id arguments]
  exact map_congr_left fun term _ => by cases term <;> rfl

/-! ## Sorted sets of atoms -/

section SortedSet

variable {κ κ' : Type} [LinearOrder κ] [LinearOrder κ'] {key : RuleAtom → κ} {key' : RuleAtom → κ'}
  {values : List RuleAtom}

open Clauses

@[simp] theorem mem_sortedSet : atom ∈ sortedSet key values ↔ atom ∈ values := by
  rw [sortedSet, mem_insertionSort, mem_dedup]

theorem nodup_sortedSet : (sortedSet key values).Nodup :=
  (perm_insertionSort _ _).nodup_iff.mpr (nodup_dedup _)

theorem sortedSet_perm (h : values.Nodup) : (sortedSet key values).Perm values := by
  rw [sortedSet, h.dedup]
  exact perm_insertionSort _ _

theorem pairwise_sortedSet : (sortedSet key values).Pairwise fun a b => key a ≤ key b := by
  exact pairwise_insertionSort _ _

theorem sortedSet_eq_self (hnodup : values.Nodup)
    (hsorted : values.Pairwise fun a b => key a ≤ key b) : sortedSet key values = values := by
  rw [sortedSet, hnodup.dedup]
  exact hsorted.insertionSort_eq

theorem sortedSet_congr (h : ∀ a ∈ values, ∀ b ∈ values, (key a ≤ key b ↔ key' a ≤ key' b)) :
    sortedSet key values = sortedSet key' values := by
  have hmap := map_insertionSort (fun a b => key a ≤ key b) (fun a b => key' a ≤ key' b) id
    values.dedup fun a ha b hb => h a (mem_dedup.mp ha) b (mem_dedup.mp hb)
  rwa [map_id, map_id] at hmap

/-- Sorting and dropping repetitions is dropping repetitions and sorting. -/
theorem destutter_insertionSort (hkey : Function.Injective key) :
    (values.insertionSort fun a b => key a ≤ key b).destutter (· ≠ ·) = sortedSet key values := by
  have : Std.Antisymm fun a b : RuleAtom => key a ≤ key b :=
    ⟨fun _ _ hab hba => hkey (le_antisymm hab hba)⟩
  have hsorted := pairwise_insertionSort (fun a b : RuleAtom => key a ≤ key b) values
  rw [hsorted.destutter_eq_dedup]
  refine List.Perm.eq_of_pairwise (fun a b _ _ hab hba => hkey (le_antisymm hab hba))
    (hsorted.sublist (dedup_sublist _)) pairwise_sortedSet ?_
  refine (perm_ext_iff_of_nodup (nodup_dedup _) nodup_sortedSet).mpr fun a => ?_
  rw [mem_dedup, mem_insertionSort, mem_sortedSet]

end SortedSet

theorem alphaKey_injective : Function.Injective alphaKey := by
  intro ⟨predicateId, arguments⟩ ⟨predicateId', arguments'⟩ h
  have hpair := toLex.injective h
  rw [Prod.mk.injEq] at hpair
  exact congrArg₂ mk hpair.1 (map_injective_iff.mpr termKey_injective hpair.2)

theorem sortAtomsAlpha_eq (atoms : List RuleAtom) :
    sortAtomsAlpha atoms = sortedSet alphaKey atoms :=
  destutter_insertionSort alphaKey_injective

theorem sortAtomsCanonical_eq (atoms : List RuleAtom) :
    sortAtomsCanonical atoms = sortedSet (·.canonicalBytes) atoms := by
  rw [← destutter_insertionSort canonicalBytes_injective, sortAtomsCanonical]
  generalize atoms.insertionSort (fun a b => a.canonicalBytes ≤ b.canonicalBytes) = sorted
  have hmap : (sorted.destutter fun a b => a.canonicalBytes ≠ b.canonicalBytes).map id =
      (sorted.map id).destutter (· ≠ ·) :=
    map_destutter fun a _ b _ => canonicalBytes_injective.ne_iff
  rwa [map_id, map_id] at hmap

/-- The skeleton order of the compiler is the alpha order of the native code. -/
theorem sortedSet_alphaSkeletonKey (atoms : List RuleAtom) :
    sortedSet alphaSkeletonKey atoms = sortedSet alphaKey atoms := by
  refine sortedSet_congr fun a _ b _ => ?_
  have hskeleton : ∀ atom : RuleAtom, alphaSkeletonKey atom =
      toLex (atom.predicateId, atom.arguments.map skeletonKey) := by
    intro atom
    refine congrArg (fun keys => toLex (atom.predicateId, keys)) (map_congr_left fun term _ => ?_)
    cases term <;> rfl
  rw [hskeleton, hskeleton, alphaKey, alphaKey, ← not_lt, ← not_lt,
    Prod.Lex.toLex_lt_toLex, Prod.Lex.toLex_lt_toLex]
  simp only [map_lt_map_iff fun t (_ : t ∈ b.arguments) u (_ : u ∈ a.arguments) =>
    (⟨(termKey_lt_iff t u).2, (termKey_lt_iff u t).2⟩ : _ ∧ _)]

/-! ## The numbers of the variables -/

/-- The number a pass gives to a variable: its place among the first occurrences. -/
def Clause.number (clause : Clause) (key : VariableKey) : Nat :=
  clause.variables.eraseDups.idxOf key

section Mapping

variable {key : VariableKey} {keys : List VariableKey}

theorem lookup_zipIdx (keys : List VariableKey) (key : VariableKey) (start : Nat) :
    (keys.zipIdx start).lookup key = if key ∈ keys then some (start + keys.idxOf key)
      else none := by
  induction keys generalizing start with
  | nil => rfl
  | cons first keys ih =>
    rw [zipIdx_cons, lookup_cons]
    by_cases h : key = first
    · simp [h]
    · have hne : (key == first) = false := beq_eq_false_iff_ne.mpr h
      rw [hne]
      simp only [ih, mem_cons, h, false_or, idxOf_cons_ne _ (Ne.symm h), Nat.succ_eq_add_one]
      split
      · congr 1; omega
      · rfl

theorem variableMap_eq (keys : List VariableKey) : variableMap keys = keys.eraseDups.zipIdx := by
  induction keys using List.reverseRecOn with
  | nil => rfl
  | append_singleton keys key ih =>
    have hstep : variableMap (keys ++ [key]) =
        if ((variableMap keys).lookup key).isSome then variableMap keys
        else variableMap keys ++ [(key, (variableMap keys).length)] := by
      rw [variableMap, foldl_append]
      rfl
    rw [hstep, ih, lookup_zipIdx, eraseDups_snoc]
    by_cases h : key ∈ keys
    · simp [h]
    · simp [h, zipIdx_append]

theorem all_zipIdx_ne (keys : List VariableKey) (key : VariableKey) (start : Nat) :
    (keys.zipIdx start).all (·.1 ≠ key) = decide (key ∉ keys) := by
  induction keys generalizing start with
  | nil => rfl
  | cons first keys ih =>
    rw [zipIdx_cons, all_cons, ih]
    by_cases h : key = first
    · simp [h]
    · simp [h, Ne.symm h]

theorem find?_zipIdx (keys : List VariableKey) (key : VariableKey) (start : Nat) :
    (keys.zipIdx start).find? (·.1 = key) =
      if key ∈ keys then some (key, start + keys.idxOf key) else none := by
  induction keys generalizing start with
  | nil => rfl
  | cons first keys ih =>
    rw [zipIdx_cons, find?_cons]
    by_cases h : key = first
    · simp [h]
    · have hne : decide (first = key) = false := decide_eq_false (Ne.symm h)
      rw [hne]
      simp only [ih, mem_cons, h, false_or, idxOf_cons_ne _ (Ne.symm h), Nat.succ_eq_add_one]
      split
      · congr 2; omega
      · rfl

theorem variableMapping_eq (hcount : keys.eraseDups.length ≤ u32Max) :
    variableMapping keys = .ok keys.eraseDups.zipIdx := by
  induction keys using List.reverseRecOn with
  | nil => rfl
  | append_singleton keys key ih =>
    have hstep : ∀ mapping, variableMapping keys = .ok mapping →
        variableMapping (keys ++ [key]) =
          if mapping.all (·.1 ≠ key) then
            if mapping.length ≤ u32Max then .ok (mapping ++ [(key, mapping.length)])
            else .error (.resource "permanent-program variable ID exceeds u32")
          else .ok mapping := by
      intro mapping h
      rw [variableMapping] at h
      rw [variableMapping, foldlM_append, h]
      simp only [foldlM_cons, foldlM_nil, bind_pure]
      rfl
    rw [eraseDups_snoc] at hcount ⊢
    by_cases h : key ∈ keys
    · rw [if_pos h] at hcount ⊢
      rw [hstep _ (ih hcount), all_zipIdx_ne, if_neg (by simp [h])]
    · rw [if_neg h, length_append, length_singleton] at hcount
      rw [if_neg h, hstep _ (ih (by omega)), all_zipIdx_ne, if_pos (by simpa using h),
        length_zipIdx, if_pos (by omega), zipIdx_append, Nat.zero_add]
      rfl

end Mapping

/-! ## A pass -/

/-- What a pass makes of an atom. -/
def moved (registry : List RulePredicate) (clause : Clause) (atom : RuleAtom) : RuleAtom :=
  orient registry (atom.renamed clause.number)

/-- What a pass makes of a clause. -/
def nextClause (registry : List RulePredicate) (clause : Clause) : Clause where
  body := Clauses.sortedSet (·.canonicalBytes) (clause.body.map (moved registry clause))
  head := Clauses.sortedSet (·.canonicalBytes) (clause.head.map (moved registry clause))

theorem mem_clause_variables {clause : Clause} :
    key ∈ clause.variables ↔ ∃ atom ∈ clause.atoms, key ∈ atom.variables := mem_flatMap

theorem mapM_eq_map {ε α β : Type} {f : α → Except ε β} {g : α → β} {l : List α}
    (h : ∀ a ∈ l, f a = .ok (g a)) : l.mapM f = .ok (l.map g) :=
  mapM_eq_ok.mpr (List.forall₂_map_right_iff.mpr (List.forall₂_same.mpr h))

variable {clause : Clause}

theorem mapM_sides {ε : Type} {f : RuleAtom → Except ε RuleAtom} {g : RuleAtom → RuleAtom}
    (h : ∀ atom ∈ clause.atoms, f atom = .ok (g atom)) :
    clause.body.mapM f = .ok (clause.body.map g) ∧ clause.head.mapM f = .ok (clause.head.map g) :=
  ⟨mapM_eq_map fun atom hatom => h atom (mem_append_left _ hatom),
    mapM_eq_map fun atom hatom => h atom (mem_append_right _ hatom)⟩

/-- Both compilers rename the terms of an atom, as long as they find the variables of its clause. -/
theorem mapM_renamed {ε : Type} {f : Term → Except ε Term} (hatom : atom ∈ clause.atoms)
    (hvar : ∀ key ∈ clause.variables.eraseDups, f (.var key) =
      .ok ((Term.var key).renamed clause.number))
    (hindividual : ∀ id, f (.individual id) = .ok (.individual id))
    (hconstant : ∀ source identity, f (.dataConstant source identity) =
      .ok (.dataConstant source identity)) :
    atom.arguments.mapM f = .ok (atom.arguments.map (Term.renamed clause.number)) := by
  refine mapM_eq_map fun term hterm => ?_
  cases term with
  | var key =>
    exact hvar key (mem_eraseDups.mpr
      (mem_clause_variables.mpr ⟨atom, hatom, mem_variables.mpr hterm⟩))
  | individual id => exact hindividual id
  | dataConstant source identity => exact hconstant source identity

theorem Clauses.renameAtom_eq (hshaped : Shaped registry atom) (hatom : atom ∈ clause.atoms) :
    renameAtom registry (variableMap clause.variables) atom =
      .ok (moved registry clause atom) := by
  rw [renameAtom, mapM_renamed (f := renameTerm _) hatom (fun key hkey => ?_)
    (fun _ => rfl) fun _ _ => rfl]
  · exact canonicalizeSymmetricAtom_eq (hshaped.renamed clause.number)
  · rw [renameTerm, variableMap_eq, lookup_zipIdx, if_pos hkey, Nat.zero_add]
    rfl

theorem Clauses.renamePass_eq (hshaped : ∀ atom ∈ clause.atoms, Shaped registry atom) :
    renamePass registry clause = .ok (nextClause registry clause) := by
  obtain ⟨hbody, hhead⟩ := mapM_sides fun atom hatom => renameAtom_eq (hshaped atom hatom) hatom
  rw [renamePass, hbody, hhead]
  rfl

theorem Encoded.renameAtom_eq (hshaped : Shaped registry atom) (hatom : atom ∈ clause.atoms) :
    renameAtom registry clause.variables.eraseDups.zipIdx atom =
      .ok (moved registry clause atom) := by
  rw [renameAtom, mapM_renamed (f := renameTerm _) hatom (fun key hkey => ?_)
    (fun _ => rfl) fun _ _ => rfl]
  · exact canonicalizeSymmetricAtom_eq (hshaped.renamed clause.number)
  · rw [renameTerm, find?_zipIdx, if_pos hkey, Nat.zero_add]
    rfl

theorem Encoded.renamePass_eq (hshaped : ∀ atom ∈ clause.atoms, Shaped registry atom)
    (hcount : clause.variables.eraseDups.length ≤ u32Max) :
    renamePass registry clause = .ok (nextClause registry clause) := by
  obtain ⟨hbody, hhead⟩ := mapM_sides fun atom hatom => renameAtom_eq (hshaped atom hatom) hatom
  rw [renamePass, variableMapping_eq hcount]
  show (do
    let body ← clause.body.mapM (renameAtom registry clause.variables.eraseDups.zipIdx)
    let head ← clause.head.mapM (renameAtom registry clause.variables.eraseDups.zipIdx)
    return (⟨sortAtomsCanonical body, sortAtomsCanonical head⟩ : Clause)) = _
  rw [hbody, hhead, nextClause, ← sortAtomsCanonical_eq, ← sortAtomsCanonical_eq]
  rfl

end PyHermit
