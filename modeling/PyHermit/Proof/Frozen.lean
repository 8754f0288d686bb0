import PyHermit.Proof.Oriented

/-!
# Canonicalisation ends

With at most ten variables every number is a single digit, so the order of the texts is
the order of the numbers and the passes converge: the first sorts, and every further one
puts one more variable in its place (`Ready.next`). After as many passes as there are
variables nothing changes any more, and neither compiler has seen a state twice.
-/

namespace PyHermit

open Prog Renumber List Term Clauses Encoded

/-! ## Words with their variable numbers -/

/-- A token ordered by kind, then by the number of a variable, then by text. -/
abbrev NumLetter : Type := ℕ ×ₗ ℕ ×ₗ List Char

variable {text : List Char} {key : VariableKey} {kind number : ℕ} {a b : RuleAtom}

theorem numLetter_lt {kind' number' : ℕ} {text' : List Char} :
    (toLex (kind, toLex (number, text)) : NumLetter) < toLex (kind', toLex (number', text')) ↔
      kind < kind' ∨ kind = kind' ∧ (number < number' ∨ number = number' ∧ text < text') := by
  rw [Prod.Lex.toLex_lt_toLex, Prod.Lex.toLex_lt_toLex]

theorem numLetter_eq (letter : NumLetter) :
    ∃ kind number text, letter = toLex (kind, toLex (number, text)) := ⟨_, _, _, rfl⟩

/-- The variables are the tokens of kind one. -/
def letterNumber (letter : NumLetter) : Option ℕ :=
  if (ofLex letter).1 = 1 then some (ofLex (ofLex letter).2).1 else none

theorem letterNumber_eq_some {n : ℕ}
    (h : letterNumber (toLex (kind, toLex (number, text))) = some n) : kind = 1 ∧ number = n := by
  by_cases hkind : kind = 1
  · subst hkind
    exact ⟨rfl, Option.some.inj h⟩
  · have hnone : letterNumber (toLex (kind, toLex (number, text))) = none := if_neg hkind
    rw [hnone] at h
    cases h

theorem letterNumber_eq_none (h : letterNumber (toLex (kind, toLex (number, text))) = none) :
    kind ≠ 1 := by
  rintro rfl
  cases h

def numAlphabet : Alphabet NumLetter where
  number := letterNumber
  mark j := toLex (1, toLex (j, []))
  number_mark _ := rfl
  mark_le {x n j} hnum hjn := by
    obtain ⟨kind, number, text, rfl⟩ := numLetter_eq x
    obtain ⟨rfl, rfl⟩ := letterNumber_eq_some hnum
    refine not_lt.mp fun hlt => ?_
    rcases numLetter_lt.mp hlt with h | ⟨-, h | ⟨-, h⟩⟩
    · exact lt_irrefl _ h
    · omega
    · exact not_lt_nil _ h
  lt_mark {x n j} hnum hnj := by
    obtain ⟨kind, number, text, rfl⟩ := numLetter_eq x
    obtain ⟨rfl, rfl⟩ := letterNumber_eq_some hnum
    exact numLetter_lt.mpr (.inr ⟨rfl, .inl hnj⟩)
  aside {x} hnum := by
    obtain ⟨kind, number, text, rfl⟩ := numLetter_eq x
    have hkind := letterNumber_eq_none hnum
    rcases Nat.lt_or_gt_of_ne hkind with hlow | hhigh
    · exact .inl fun j => numLetter_lt.mpr (.inl hlow)
    · refine .inr fun y n hy => ?_
      obtain ⟨kind', number', text', rfl⟩ := numLetter_eq y
      obtain ⟨rfl, rfl⟩ := letterNumber_eq_some hy
      exact numLetter_lt.mpr (.inl hhigh)

def Term.numLetter : Term → NumLetter
  | dataConstant source identity => toLex (0, toLex (0, digits identity ++ ',' :: digits source))
  | var key => toLex (1, toLex (key.variableId, [key.sort.initial]))
  | individual id => toLex (2, toLex (0, digits id))

def stopNumLetter (predicateId : Nat) : NumLetter := toLex (3, toLex (0, digits predicateId))

/-- Body atoms come before head atoms. -/
def sideLetter (head : Bool) : NumLetter := toLex (0, toLex (head.toNat, []))

def RuleAtom.numWord (atom : RuleAtom) : List NumLetter :=
  atom.arguments.map Term.numLetter ++ [stopNumLetter atom.predicateId]

@[simp] theorem number_var (key : VariableKey) :
    numAlphabet.number (numLetter (.var key)) = some key.variableId := rfl

@[simp] theorem number_stop (predicateId : Nat) :
    numAlphabet.number (stopNumLetter predicateId) = none := rfl

@[simp] theorem number_side (head : Bool) : numAlphabet.number (sideLetter head) = none := rfl

theorem numbers_numWord (atom : RuleAtom) :
    atom.numWord.filterMap numAlphabet.number = atom.variables.map (·.variableId) := by
  rw [RuleAtom.numWord, filterMap_append, filterMap_map, RuleAtom.variables, map_filterMap]
  simp only [filterMap_cons, number_stop, filterMap_nil, append_nil]
  exact filterMap_congr fun term _ => by cases term <;> rfl

/-- Terms with single-digit variables are ordered alike by text and by number. -/
theorem Term.numLetter_lt_of_letter_lt {t u : Term} (ht : ∀ key, t = .var key → key.variableId < 10)
    (hu : ∀ key, u = .var key → key.variableId < 10) (h : t.letter < u.letter) :
    t.numLetter < u.numLetter := by
  cases t with
  | var key =>
    cases u with
    | var key' =>
      simp only [letter, Prod.Lex.toLex_lt_toLex, lt_irrefl, false_or, true_and,
        digits_lt_digits_iff (ht key rfl) (hu key' rfl), digits_injective.eq_iff] at h
      exact numLetter_lt.mpr (.inr ⟨rfl, h⟩)
    | individual id => exact numLetter_lt.mpr (.inl (by decide))
    | dataConstant source identity => simp [letter, Prod.Lex.toLex_lt_toLex] at h
  | individual id =>
    cases u with
    | individual id' =>
      simp only [letter, Prod.Lex.toLex_lt_toLex, lt_irrefl, false_or, true_and, and_false,
        or_false] at h
      exact numLetter_lt.mpr (.inr ⟨rfl, .inr ⟨rfl, h⟩⟩)
    | var | dataConstant => simp [letter, Prod.Lex.toLex_lt_toLex] at h
  | dataConstant source identity =>
    cases u with
    | var | individual => exact numLetter_lt.mpr (.inl (by decide))
    | dataConstant source' identity' =>
      simp only [letter, Prod.Lex.toLex_lt_toLex, lt_irrefl, false_or, true_and] at h
      refine numLetter_lt.mpr (.inr ⟨rfl, .inr ⟨rfl, ?_⟩⟩)
      rcases h with hlt | ⟨heq, hlt⟩
      · exact (before_of_digits_lt hlt _ _).lt
      · rw [heq]
        exact List.Lex.append_left _ (cons_lt_cons_iff.mpr (.inr ⟨rfl, hlt⟩)) _

theorem numWord_lt_of_textWord_lt {ts us : List Term} {p q : Nat}
    (hts : ∀ t ∈ ts, ∀ key, t = .var key → key.variableId < 10)
    (hus : ∀ u ∈ us, ∀ key, u = .var key → key.variableId < 10)
    (h : ts.map letter ++ [stopLetter p] < us.map letter ++ [stopLetter q]) :
    ts.map numLetter ++ [stopNumLetter p] < us.map numLetter ++ [stopNumLetter q] := by
  induction ts generalizing us with
  | nil =>
    cases us with
    | nil =>
      have hlt : digits p < digits q := by
        simpa [stopLetter, Prod.Lex.toLex_lt_toLex, cons_lt_cons_iff] using h
      exact cons_lt_cons_iff.mpr (.inl (numLetter_lt.mpr (.inr ⟨rfl, .inr ⟨rfl, hlt⟩⟩)))
    | cons u us =>
      rcases cons_lt_cons_iff.mp h with hlt | ⟨heq, -⟩
      · exact absurd hlt (stopLetter_not_lt p u)
      · cases u <;> simp [stopLetter, letter] at heq
  | cons t ts ih =>
    cases us with
    | nil =>
      refine cons_lt_cons_iff.mpr (.inl ?_)
      cases t <;> exact numLetter_lt.mpr (.inl (by decide))
    | cons u us =>
      rcases cons_lt_cons_iff.mp h with hlt | ⟨heq, hlt⟩
      · exact cons_lt_cons_iff.mpr (.inl (numLetter_lt_of_letter_lt
          (hts t mem_cons_self) (hus u mem_cons_self) hlt))
      · refine cons_lt_cons_iff.mpr (.inr ⟨by rw [letter_injective heq], ?_⟩)
        exact ih (fun t' ht' => hts t' (mem_cons_of_mem _ ht'))
          (fun u' hu' => hus u' (mem_cons_of_mem _ hu')) hlt

theorem numWord_le_of_canonicalBytes_le (ha : a.arguments ≠ []) (hb : b.arguments ≠ [])
    (hsmall : ∀ key ∈ a.variables, key.variableId < 10)
    (hsmall' : ∀ key ∈ b.variables, key.variableId < 10)
    (h : a.canonicalBytes ≤ b.canonicalBytes) : a.numWord ≤ b.numWord := by
  rw [RuleAtom.canonicalBytes_le_iff ha hb] at h
  rcases h.lt_or_eq with hlt | heq
  · refine (numWord_lt_of_textWord_lt (fun t ht key hkey => ?_) (fun u hu key hkey => ?_) hlt).le
    · exact hsmall key (mem_variables.mpr (hkey ▸ ht))
    · exact hsmall' key (mem_variables.mpr (hkey ▸ hu))
  · rw [RuleAtom.textWord_injective heq]

/-! ## What a pass keeps -/

variable {registry : List RulePredicate} {clause : Clause} {atom : RuleAtom} {n j : Nat}

/-- What holds of a clause before every pass: its atoms are well-shaped and turned round,
none occurs twice, and there are `n` variables. -/
structure Fit (registry : List RulePredicate) (n : Nat) (clause : Clause) : Prop where
  shaped : ∀ atom ∈ clause.atoms, Shaped registry atom
  oriented : ∀ atom ∈ clause.atoms, orient registry atom = atom
  body_nodup : clause.body.Nodup
  head_nodup : clause.head.Nodup
  count : clause.variables.eraseDups.length = n

theorem number_injOn {key' : VariableKey} (hkey : key ∈ clause.variables)
    (h : clause.number key = clause.number key') : key = key' :=
  (idxOf_inj (mem_eraseDups.mpr hkey)).mp h

theorem Fit.number_lt (h : Fit registry n clause) (hkey : key ∈ clause.variables) :
    clause.number key < n := by
  rw [← h.count]
  exact idxOf_lt_length_iff.mpr (mem_eraseDups.mpr hkey)

theorem renamed_injOn (ha : ∀ key ∈ a.variables, key ∈ clause.variables)
    (h : a.renamed clause.number = b.renamed clause.number) : a = b := by
  obtain ⟨p, ts⟩ := a
  obtain ⟨q, us⟩ := b
  rw [RuleAtom.renamed, RuleAtom.renamed, RuleAtom.mk.injEq] at h
  refine congrArg₂ RuleAtom.mk h.1 ?_
  have hterms : ∀ t ∈ ts, ∀ u, t.renamed clause.number = u.renamed clause.number → t = u := by
    intro t ht u heq
    cases t with
    | var key =>
      cases u with
      | var key' =>
        obtain ⟨hsort, hnumber⟩ := VariableKey.mk.inj (var.inj heq)
        rw [number_injOn (ha key (mem_variables.mpr ht)) hnumber]
      | individual | dataConstant => cases heq
    | individual id =>
      cases u with
      | individual id' => exact heq
      | var | dataConstant => cases heq
    | dataConstant source identity =>
      cases u with
      | dataConstant source' identity' => exact heq
      | var | individual => cases heq
  have hlists := h.2
  clear h ha
  induction ts generalizing us with
  | nil => exact (map_eq_nil_iff.mp hlists.symm).symm
  | cons t ts ih =>
    cases us with
    | nil => cases hlists
    | cons u us =>
      rw [map_cons, map_cons, List.cons.injEq] at hlists
      rw [hterms t mem_cons_self u hlists.1,
        ih us (fun t' ht' => hterms t' (mem_cons_of_mem _ ht')) hlists.2]

theorem swapFirst_swapFirst (arguments : List Term) :
    swapFirst (swapFirst arguments) = arguments := by
  match arguments with
  | [] | [_] | _ :: _ :: _ => rfl

theorem swapped_swapped (atom : RuleAtom) : atom.swapped.swapped = atom := by
  rw [RuleAtom.swapped, RuleAtom.swapped, swapFirst_swapFirst]

theorem Fit.moved_injOn (h : Fit registry n clause) (ha : a ∈ clause.atoms)
    (hb : b ∈ clause.atoms) (heq : moved registry clause a = moved registry clause b) : a = b := by
  have hvariables : ∀ {a}, a ∈ clause.atoms → ∀ key ∈ a.variables, key ∈ clause.variables :=
    fun ha key hkey => mem_clause_variables.mpr ⟨_, ha, hkey⟩
  have hid : a.predicateId = b.predicateId := by
    have := congrArg RuleAtom.predicateId heq
    simpa [moved, RuleAtom.renamed] using this
  -- up to the order of two arguments the atoms are renamed to the same atom
  have hturned : ∀ {a b : RuleAtom}, a ∈ clause.atoms → b ∈ clause.atoms →
      isSymmetric registry a.predicateId = true →
      (a.renamed clause.number).swapped = b.renamed clause.number → a = b := by
    intro a b ha hb hsymmetric hswap
    rw [← renamed_swapped] at hswap
    have hab : a.swapped = b := renamed_injOn (fun key hkey => hvariables ha key
      (mem_variables.mpr ((swapFirst_perm _).mem_iff.mp (mem_variables.mp hkey)))) hswap
    rw [← h.oriented a ha, ← h.oriented b hb, ← hab, orient_swapped hsymmetric]
  rw [moved, moved, orient, orient] at heq
  by_cases hta : turns registry (a.renamed clause.number) = true <;>
    by_cases htb : turns registry (b.renamed clause.number) = true
  · rw [if_pos hta, if_pos htb] at heq
    have heq' := congrArg RuleAtom.swapped heq
    rw [swapped_swapped, swapped_swapped] at heq'
    exact renamed_injOn (hvariables ha) heq'
  · rw [if_pos hta, if_neg htb] at heq
    rw [turns, Bool.and_eq_true] at hta
    exact hturned ha hb hta.1 heq
  · rw [if_neg hta, if_pos htb] at heq
    rw [turns, Bool.and_eq_true] at htb
    exact (hturned hb ha htb.1 heq.symm).symm
  · rw [if_neg hta, if_neg htb] at heq
    exact renamed_injOn (hvariables ha) heq

theorem mem_atoms_sortedSet {κ : Type} [LinearOrder κ] {key : RuleAtom → κ}
    {f : RuleAtom → RuleAtom} :
    atom ∈ (⟨sortedSet key (clause.body.map f), sortedSet key (clause.head.map f)⟩ : Clause).atoms ↔
      ∃ a ∈ clause.atoms, atom = f a := by
  simp only [Clause.atoms, mem_append, mem_sortedSet, mem_map]
  constructor
  · rintro (⟨a, ha, rfl⟩ | ⟨a, ha, rfl⟩)
    · exact ⟨a, .inl ha, rfl⟩
    · exact ⟨a, .inr ha, rfl⟩
  · rintro ⟨a, ha | ha, rfl⟩
    · exact .inl ⟨a, ha, rfl⟩
    · exact .inr ⟨a, ha, rfl⟩

theorem mem_nextClause_atoms :
    atom ∈ (nextClause registry clause).atoms ↔
      ∃ a ∈ clause.atoms, atom = moved registry clause a :=
  mem_atoms_sortedSet

theorem mem_nextClause_variables : key ∈ (nextClause registry clause).variables ↔
      ∃ key' ∈ clause.variables, key = ⟨key'.sort, clause.number key'⟩ := by
  rw [mem_clause_variables]
  constructor
  · rintro ⟨atom, hatom, hkey⟩
    obtain ⟨a, ha, rfl⟩ := mem_nextClause_atoms.mp hatom
    rw [moved, mem_variables_orient, mem_variables_renamed] at hkey
    obtain ⟨key', hkey', rfl⟩ := hkey
    exact ⟨key', mem_clause_variables.mpr ⟨a, ha, hkey'⟩, rfl⟩
  · rintro ⟨key', hkey', rfl⟩
    obtain ⟨a, ha, hmem⟩ := mem_clause_variables.mp hkey'
    refine ⟨_, mem_nextClause_atoms.mpr ⟨a, ha, rfl⟩, ?_⟩
    rw [moved, mem_variables_orient, mem_variables_renamed]
    exact ⟨key', hmem, rfl⟩

theorem length_eraseDups_nextClause :
    (nextClause registry clause).variables.eraseDups.length =
      clause.variables.eraseDups.length := by
  have hinj : ∀ a ∈ clause.variables.eraseDups, ∀ b ∈ clause.variables.eraseDups,
      (⟨a.sort, clause.number a⟩ : VariableKey) = ⟨b.sort, clause.number b⟩ → a = b :=
    fun a ha b _ heq => number_injOn (mem_eraseDups.mp ha) (VariableKey.mk.inj heq).2
  have hperm : (nextClause registry clause).variables.eraseDups.Perm
      (clause.variables.eraseDups.map fun key => ⟨key.sort, clause.number key⟩) := by
    refine (perm_ext_iff_of_nodup (nodup_eraseDups _) ((nodup_eraseDups _).map_on hinj)).mpr
      fun key => ?_
    rw [mem_eraseDups, mem_nextClause_variables, mem_map]
    constructor
    · rintro ⟨key', hkey', rfl⟩
      exact ⟨key', mem_eraseDups.mpr hkey', rfl⟩
    · rintro ⟨key', hkey', rfl⟩
      exact ⟨key', mem_eraseDups.mp hkey', rfl⟩
  rw [hperm.length_eq, length_map]

theorem Fit.next (h : Fit registry n clause) : Fit registry n (nextClause registry clause) where
  shaped atom hatom := by
    obtain ⟨a, ha, rfl⟩ := mem_nextClause_atoms.mp hatom
    exact ((h.shaped a ha).renamed _).orient
  oriented atom hatom := by
    obtain ⟨a, ha, rfl⟩ := mem_nextClause_atoms.mp hatom
    exact orient_orient
  body_nodup := nodup_sortedSet
  head_nodup := nodup_sortedSet
  count := length_eraseDups_nextClause.trans h.count

/-! ## What a pass gains -/

/-- A clause whose atoms are sorted, whose variables are numbered below `n`, and in which
the first numbers to occur are those below `j`. -/
structure Ready (registry : List RulePredicate) (n j : Nat) (clause : Clause) : Prop
    extends Fit registry n clause where
  body_sorted : clause.body.Pairwise fun a b => a.canonicalBytes ≤ b.canonicalBytes
  head_sorted : clause.head.Pairwise fun a b => a.canonicalBytes ≤ b.canonicalBytes
  id_lt : ∀ key ∈ clause.variables, key.variableId < n
  id_inj : ∀ key ∈ clause.variables, ∀ key' ∈ clause.variables,
    key.variableId = key'.variableId → key = key'
  first : List.range j <+: Clauses.firstOccurrence clause

theorem Fit.next_ready (h : Fit registry n clause)
    (hfirst : List.range j <+: firstOccurrence (nextClause registry clause)) :
    Ready registry n j (nextClause registry clause) where
  toFit := h.next
  body_sorted := pairwise_sortedSet
  head_sorted := pairwise_sortedSet
  id_lt key hkey := by
    obtain ⟨key', hkey', rfl⟩ := mem_nextClause_variables.mp hkey
    exact h.number_lt hkey'
  id_inj key hkey key' hkey' heq := by
    obtain ⟨k, hk, rfl⟩ := mem_nextClause_variables.mp hkey
    obtain ⟨k', hk', rfl⟩ := mem_nextClause_variables.mp hkey'
    rw [number_injOn hk heq]
  first := hfirst

theorem late_var : numAlphabet.Late j (numLetter (.var key)) ↔ j ≤ key.variableId :=
  ⟨fun ⟨_, hm, hle⟩ => hle.trans_eq (Option.some.inj hm).symm, fun hle => ⟨_, number_var key, hle⟩⟩

theorem not_turns_of_oriented (h : orient registry atom = atom) : turns registry atom = false := by
  by_contra hturns
  rw [Bool.not_eq_false] at hturns
  have hswap : atom.swapped = atom := by rwa [orient, if_pos hturns] at h
  rw [turns, Bool.and_eq_true] at hturns
  have hout := outOfOrder_swapFirst hturns.2
  rw [show swapFirst atom.arguments = atom.arguments from congrArg RuleAtom.arguments hswap,
    hturns.2] at hout
  cases hout

namespace Ready

section
variable (h : Ready registry n j clause)
include h

theorem number_eq (hkey : key ∈ clause.variables) :
    clause.number key = (firstOccurrence clause).idxOf key.variableId := by
  rw [firstOccurrence, eraseDups_map h.id_inj]
  refine (idxOf_map fun key' hkey' heq => ?_).symm
  exact h.id_inj _ (mem_eraseDups.mp hkey') _ hkey heq

theorem number_of_lt (hkey : key ∈ clause.variables)
    (hlt : key.variableId < j) : clause.number key = key.variableId := by
  rw [h.number_eq hkey, idxOf_eq_of_lt h.first hlt]

theorem le_number (hkey : key ∈ clause.variables) (hle : j ≤ key.variableId) :
    j ≤ clause.number key := by
  rw [h.number_eq hkey]
  exact le_idxOf h.first hle

/-- A symmetric atom is turned round only if both its variables are still to be placed. -/
theorem le_of_turns (hatom : atom ∈ clause.atoms)
    (hturns : turns registry (atom.renamed clause.number) = true) :
    ∃ left right rest, atom.arguments = .var left :: .var right :: rest ∧ j ≤ left.variableId ∧
      j ≤ right.variableId ∧ clause.number right < clause.number left := by
  rw [turns, Bool.and_eq_true] at hturns
  obtain ⟨hsymmetric, hout⟩ := hturns
  have hsymmetric : isSymmetric registry atom.predicateId = true := hsymmetric
  obtain ⟨predicate, hget, -⟩ := id (h.shaped atom hatom)
  have hkind := hsymmetric
  rw [isSymmetric_eq hget, decide_eq_true_eq] at hkind
  obtain ⟨left, right, rest, harguments, hsort, -⟩ :=
    (h.shaped atom hatom).symmetric_arguments hget hkind
  have hin : ¬ Encoded.termKey right < Encoded.termKey left := by
    have hfalse := not_turns_of_oriented (h.oriented atom hatom)
    rw [turns, hsymmetric, Bool.true_and, harguments, outOfOrder, decide_eq_false_iff_not] at hfalse
    exact hfalse
  rw [RuleAtom.renamed, harguments, map_cons, map_cons, outOfOrder, decide_eq_true_eq] at hout
  cases left with
  | var l =>
    cases right with
    | var r =>
      have hkeys : ∀ number : VariableKey → Nat,
          Encoded.termKey (renamed number (.var r)) < Encoded.termKey (renamed number (.var l)) ↔
            number r < number l := by
        intro number
        obtain ⟨sort, i⟩ := l
        obtain ⟨sort', k⟩ := r
        obtain rfl : sort = sort' := hsort
        cases sort <;> simp [renamed, Encoded.termKey, Prod.Lex.toLex_lt_toLex]
      have hl : l ∈ clause.variables :=
        mem_clause_variables.mpr ⟨atom, hatom, mem_variables.mpr (by rw [harguments]; simp)⟩
      have hr : r ∈ clause.variables :=
        mem_clause_variables.mpr ⟨atom, hatom, mem_variables.mpr (by rw [harguments]; simp)⟩
      have hlt := (hkeys clause.number).mp hout
      have hle : l.variableId ≤ r.variableId :=
        not_lt.mp fun hlt => hin ((hkeys (·.variableId)).mpr hlt)
      have hjl : j ≤ l.variableId := by
        by_contra hsmall
        have hnl := h.number_of_lt hl (by omega)
        by_cases hr' : r.variableId < j
        · have hnr := h.number_of_lt hr hr'
          omega
        · have hnr := h.le_number hr (by omega)
          omega
      exact ⟨l, r, rest, harguments, hjl, hjl.trans hle, hlt⟩
    | individual | dataConstant =>
      obtain ⟨_ | _, i⟩ := l <;> simp [renamed, Encoded.termKey, Prod.Lex.toLex_lt_toLex] at hout
  | individual | dataConstant =>
    cases right with
    | var r => obtain ⟨_ | _, i⟩ := r <;> simp [Encoded.termKey, Prod.Lex.toLex_lt_toLex] at hin
    | individual | dataConstant => exact absurd hout hin

variable {ts : List Term} {u r : List NumLetter} {x : NumLetter} {m : Nat}

/-- Renaming keeps a word up to its first variable that is still to be placed. -/
theorem cut_renamed (tail : List NumLetter) (hts : ∀ key, var key ∈ ts → key ∈ clause.variables) :
    numAlphabet.cut j ((ts.map (renamed clause.number)).map numLetter ++ tail) =
      numAlphabet.cut j (ts.map numLetter ++ tail) := by
  induction ts with
  | nil => rfl
  | cons t ts ih =>
    have hrest := ih fun key hkey => hts key (mem_cons_of_mem _ hkey)
    simp only [map_cons, cons_append, Alphabet.cut]
    cases t with
    | var key =>
      have hkey := hts key mem_cons_self
      by_cases hj : j ≤ key.variableId
      · rw [renamed, if_pos (late_var.mpr (h.le_number hkey hj)), if_pos (late_var.mpr hj)]
      · have hsame : renamed clause.number (.var key) = .var key := by
          rw [renamed, h.number_of_lt hkey (by omega)]
        rw [hsame, if_neg (late_var.not.mpr hj), if_neg (late_var.not.mpr hj), hrest]
    | individual | dataConstant => rw [renamed, hrest]

/-- A pass keeps the word of an atom up to its first variable that is still to be placed. -/
theorem cut_moved (hatom : atom ∈ clause.atoms) :
    numAlphabet.cut j (moved registry clause atom).numWord = numAlphabet.cut j atom.numWord := by
  have hrenamed : numAlphabet.cut j (atom.renamed clause.number).numWord =
    numAlphabet.cut j atom.numWord :=
    h.cut_renamed _ fun key hkey => mem_clause_variables.mpr ⟨atom, hatom, mem_variables.mpr hkey⟩
  by_cases hturns : turns registry (atom.renamed clause.number) = true
  · -- both words are cut at once
    obtain ⟨left, right, rest, harguments, hl, hr, -⟩ := h.le_of_turns hatom hturns
    have hright := mem_clause_variables.mpr ⟨atom, hatom, mem_variables.mpr
      (show var right ∈ atom.arguments by rw [harguments]; simp)⟩
    have hmoved : (moved registry clause atom).arguments =
        .var ⟨right.sort, clause.number right⟩ :: .var ⟨left.sort, clause.number left⟩ ::
          rest.map (renamed clause.number) := by
      rw [moved, orient, if_pos hturns, RuleAtom.swapped, RuleAtom.renamed, harguments]
      rfl
    rw [RuleAtom.numWord, RuleAtom.numWord, hmoved, harguments]
    simp only [map_cons, cons_append, Alphabet.cut]
    rw [if_pos (late_var.mpr (h.le_number hright hr)), if_pos (late_var.mpr hl)]
  · rw [moved, orient, if_neg hturns, hrenamed]

/-- The first variable that is still to be placed gets number `j`. -/
theorem split_renamed (tail : List NumLetter) (hts : ∀ key, var key ∈ ts → key ∈ clause.variables)
    (htail : ∀ y ∈ tail, numAlphabet.number y = none)
    (hword : ts.map numLetter ++ tail = u ++ x :: r) (hu : ∀ z ∈ u, ¬ numAlphabet.Late j z)
    (hx : numAlphabet.number x = some m) (hm : j ≤ m)
    (hnext : List.range j ++ [m] <+: firstOccurrence clause) :
    ∃ z s, (ts.map (renamed clause.number)).map numLetter ++ tail = u ++ z :: s ∧
      numAlphabet.number z = some j := by
  induction ts generalizing u with
  | nil =>
    have hmem : x ∈ tail := by
      rw [show tail = u ++ x :: r from hword]
      simp
    rw [htail x hmem] at hx
    cases hx
  | cons t ts ih =>
    cases u with
    | nil =>
      obtain ⟨rfl, -⟩ := hword
      cases t with
      | var key =>
        obtain rfl : key.variableId = m := Option.some.inj hx
        refine ⟨_, _, rfl, ?_⟩
        rw [renamed, number_var, h.number_eq (hts key mem_cons_self), idxOf_next hnext hm]
      | individual | dataConstant => cases hx
    | cons y u =>
      rw [map_cons, cons_append, cons_append, List.cons.injEq] at hword
      obtain ⟨rfl, hrest⟩ := hword
      obtain ⟨z, s, heq, hz⟩ := ih (fun key hkey => hts key (mem_cons_of_mem _ hkey)) hrest
        (fun z hz => hu z (mem_cons_of_mem _ hz))
      refine ⟨z, s, ?_, hz⟩
      have hsame : (renamed clause.number t) = t := by
        cases t with
        | var key =>
          have hearly : ¬ j ≤ key.variableId := fun hj => hu _ mem_cons_self (late_var.mpr hj)
          rw [renamed, h.number_of_lt (hts key mem_cons_self) (by omega)]
        | individual | dataConstant => rfl
      rw [map_cons, map_cons, hsame, cons_append, cons_append, heq]

theorem split_moved (hatom : atom ∈ clause.atoms) (hword : atom.numWord = u ++ x :: r)
    (hu : ∀ z ∈ u, ¬ numAlphabet.Late j z) (hx : numAlphabet.number x = some m) (hm : j ≤ m)
    (hnext : List.range j ++ [m] <+: firstOccurrence clause) :
    ∃ z s, (moved registry clause atom).numWord = u ++ z :: s ∧ numAlphabet.number z = some j := by
  have hvariables : ∀ key, var key ∈ atom.arguments → key ∈ clause.variables :=
    fun key hkey => mem_clause_variables.mpr ⟨atom, hatom, mem_variables.mpr hkey⟩
  have hturns : ¬ turns registry (atom.renamed clause.number) = true := by
    intro hturns
    obtain ⟨left, right, rest, harguments, hl, hr, hlt⟩ := h.le_of_turns hatom hturns
    -- the left variable is the first to be placed, so the right one is not below it
    have hfirst : left.variableId = m := by
      rw [RuleAtom.numWord, harguments] at hword
      cases u with
      | nil =>
        rw [map_cons, cons_append, nil_append, List.cons.injEq] at hword
        rw [← hword.1] at hx
        exact Option.some.inj hx
      | cons y u =>
        rw [map_cons, cons_append, cons_append, List.cons.injEq] at hword
        exact absurd (late_var.mpr hl) (hword.1 ▸ hu y mem_cons_self)
    have hleft : clause.number left = j := by
      rw [h.number_eq (hvariables left (by rw [harguments]; simp)), hfirst, idxOf_next hnext hm]
    have hright := h.le_number (hvariables right (by rw [harguments]; simp)) hr
    omega
  rw [moved, orient, if_neg hturns]
  exact h.split_renamed _ hvariables (by simp) hword hu hx hm hnext

end

end Ready

/-! ## The clause as one list of words -/

/-- The atoms of a clause, each with the side it stands on. -/
def tagged (clause : Clause) : List (Bool × RuleAtom) :=
  clause.body.map (false, ·) ++ clause.head.map (true, ·)

def taggedWord (entry : Bool × RuleAtom) : List NumLetter := sideLetter entry.1 :: entry.2.numWord

theorem mem_tagged {entry : Bool × RuleAtom} (h : entry ∈ tagged clause) :
    entry.2 ∈ clause.atoms := by
  rcases mem_append.mp h with hmem | hmem
  · obtain ⟨a, ha, rfl⟩ := mem_map.mp hmem
    exact mem_append_left _ ha
  · obtain ⟨a, ha, rfl⟩ := mem_map.mp hmem
    exact mem_append_right _ ha

theorem numbers_tagged (clause : Clause) :
    numAlphabet.numbers ((tagged clause).map taggedWord) = clause.variables.map (·.variableId) := by
  have hside : ∀ (side : Bool) (atoms : List RuleAtom),
      numAlphabet.numbers ((atoms.map (side, ·)).map taggedWord) =
        (atoms.flatMap RuleAtom.variables).map (·.variableId) := by
    intro side atoms
    induction atoms with
    | nil => rfl
    | cons atom atoms ih =>
      rw [Alphabet.numbers] at ih ⊢
      rw [map_cons, map_cons, flatten_cons, filterMap_append, ih, flatMap_cons,
        map_append, ← numbers_numWord, taggedWord, filterMap_cons_none (number_side side)]
  have happend : ∀ ws vs : List (List NumLetter),
      numAlphabet.numbers (ws ++ vs) = numAlphabet.numbers ws ++ numAlphabet.numbers vs := by
    intro ws vs
    rw [Alphabet.numbers, flatten_append, filterMap_append]
    rfl
  rw [tagged, map_append, happend, hside, hside, Clause.variables, Clause.atoms, flatMap_append,
    map_append]

theorem Ready.pairwise_tagged (h : Ready registry n j clause) (hn : n ≤ 10) :
    ((tagged clause).map taggedWord).Pairwise (· ≤ ·) := by
  have hside : ∀ (side : Bool) (atoms : List RuleAtom), (∀ atom ∈ atoms, atom ∈ clause.atoms) →
      atoms.Pairwise (fun a b => a.canonicalBytes ≤ b.canonicalBytes) →
      ((atoms.map (side, ·)).map taggedWord).Pairwise (· ≤ ·) := by
    intro side atoms hatoms hsorted
    rw [map_map, pairwise_map]
    refine hsorted.imp_of_mem fun {a b} ha hb hle => ?_
    refine Alphabet.cons_le_cons_iff.mpr (.inr ⟨rfl, ?_⟩)
    have hsmall : ∀ atom ∈ clause.atoms, ∀ key ∈ atom.variables, key.variableId < 10 :=
      fun atom hatom key hkey =>
        (h.id_lt key (mem_clause_variables.mpr ⟨atom, hatom, hkey⟩)).trans_le hn
    exact numWord_le_of_canonicalBytes_le (h.shaped a (hatoms a ha)).arguments_ne_nil
      (h.shaped b (hatoms b hb)).arguments_ne_nil (hsmall a (hatoms a ha))
        (hsmall b (hatoms b hb)) hle
  rw [tagged, map_append, pairwise_append]
  refine ⟨hside false _ (fun _ => mem_append_left _) h.body_sorted,
    hside true _ (fun _ => mem_append_right _) h.head_sorted, fun w hw v hv => ?_⟩
  -- the side comes first
  rw [map_map] at hw hv
  obtain ⟨a, -, rfl⟩ := mem_map.mp hw
  obtain ⟨b, -, rfl⟩ := mem_map.mp hv
  exact Alphabet.cons_le_cons_iff.mpr (.inl (numLetter_lt.mpr (.inr ⟨rfl, .inl Nat.zero_lt_one⟩)))

theorem Fit.tagged_perm (h : Fit registry n clause) : (tagged (nextClause registry clause)).Perm
      ((tagged clause).map fun entry => (entry.1, moved registry clause entry.2)) := by
  have hside : ∀ (side : Bool) (atoms : List RuleAtom),
      (∀ atom ∈ atoms, atom ∈ clause.atoms) → atoms.Nodup →
      ((sortedSet (·.canonicalBytes) (atoms.map (moved registry clause))).map (side, ·)).Perm
        ((atoms.map (side, ·)).map fun entry : Bool × RuleAtom =>
          (entry.1, moved registry clause entry.2)) := by
    intro side atoms hatoms hnodup
    have hmoved : (atoms.map (moved registry clause)).Nodup :=
      hnodup.map_on fun a ha b hb heq => h.moved_injOn (hatoms a ha) (hatoms b hb) heq
    refine ((sortedSet_perm hmoved).map _).trans (.of_eq ?_)
    rw [map_map, map_map]
    rfl
  rw [tagged, tagged, map_append]
  exact (hside false _ (fun _ => mem_append_left _) h.body_nodup).append
    (hside true _ (fun _ => mem_append_right _) h.head_nodup)

theorem Ready.mem_firstOccurrence (h : Ready registry n j clause) {i : Nat} (hi : i < n) :
    i ∈ firstOccurrence clause := by
  have hlength : (firstOccurrence clause).length = n := by
    rw [firstOccurrence, eraseDups_map h.id_inj, length_map, h.count]
  have hsub : firstOccurrence clause ⊆ List.range n := by
    intro i hi
    obtain ⟨key, hkey, rfl⟩ := mem_map.mp (mem_eraseDups.mp hi)
    exact mem_range.mpr (h.id_lt key hkey)
  have hperm : (firstOccurrence clause).Perm (List.range n) :=
    ((nodup_eraseDups _).subperm hsub).perm_of_length_le (by rw [length_range]; exact hlength.ge)
  exact hperm.mem_iff.mpr (mem_range.mpr hi)

/-- **One pass puts one more variable in its place.** -/
theorem Ready.next (h : Ready registry n j clause) (hn : n ≤ 10) (hj : j < n) :
    Ready registry n (j + 1) (nextClause registry clause) := by
  have hstart : Ready registry n 0 (nextClause registry clause) :=
    h.toFit.next_ready nil_prefix
  refine h.toFit.next_ready ?_
  have hfirst : ∀ clause : Clause, firstOccurrence clause =
      (numAlphabet.numbers ((tagged clause).map taggedWord)).eraseDups :=
    fun clause => by rw [numbers_tagged, firstOccurrence]
  rw [hfirst]
  refine Alphabet.range_succ_initial (h.pairwise_tagged hn) (hstart.pairwise_tagged hn)
    h.toFit.tagged_perm
    (fun entry hentry => ?_) (fun entry hentry u x r m hword hu hx hm hnext => ?_)
      ⟨n - 1, ?_, by omega⟩
    (hfirst clause ▸ h.first)
  · show numAlphabet.cut j (sideLetter entry.1 :: _) = numAlphabet.cut j (sideLetter entry.1 :: _)
    have hside : ¬ numAlphabet.Late j (sideLetter entry.1) := fun ⟨m, hm, _⟩ => by cases hm
    rw [Alphabet.cut, Alphabet.cut, if_neg hside, if_neg hside, h.cut_moved (mem_tagged hentry)]
  · rw [← hfirst clause] at hnext
    cases u with
    | nil =>
      rw [taggedWord, nil_append, List.cons.injEq] at hword
      rw [← hword.1] at hx
      cases hx
    | cons y u =>
      rw [taggedWord, cons_append, List.cons.injEq] at hword
      obtain ⟨z, s, heq, hz⟩ := h.split_moved (mem_tagged hentry) hword.2
        (fun z hz => hu z (mem_cons_of_mem _ hz)) hx hm hnext
      exact ⟨z, s, by rw [taggedWord, heq, hword.1, cons_append], hz⟩
  · have hmem := h.mem_firstOccurrence (i := n - 1) (by omega)
    rw [hfirst, mem_eraseDups] at hmem
    exact hmem

/-! ## The loop -/

theorem Ready.firstOccurrence_eq (h : Ready registry n n clause) :
    firstOccurrence clause = List.range n := by
  refine (h.first.eq_of_length ?_).symm
  rw [firstOccurrence, eraseDups_map h.id_inj, length_map, h.count, length_range]

theorem Ready.nextClause_eq (h : Ready registry n n clause) :
    nextClause registry clause = clause := by
  have hmoved : ∀ atom ∈ clause.atoms, moved registry clause atom = atom := by
    intro atom hatom
    have hrenamed : atom.renamed clause.number = atom := by
      refine (renamed_congr fun key hkey => ?_).trans (renamed_variableId atom)
      have hkey := mem_clause_variables.mpr ⟨atom, hatom, hkey⟩
      exact h.number_of_lt hkey (h.id_lt key hkey)
    rw [moved, hrenamed, h.oriented atom hatom]
  have hside : ∀ atoms : List RuleAtom, (∀ atom ∈ atoms, atom ∈ clause.atoms) → atoms.Nodup →
      atoms.Pairwise (fun a b => a.canonicalBytes ≤ b.canonicalBytes) →
      sortedSet (·.canonicalBytes) (atoms.map (moved registry clause)) = atoms := by
    intro atoms hatoms hnodup hsorted
    have hmap : atoms.map (moved registry clause) = atoms := by
      conv_rhs => rw [← map_id atoms]
      exact map_congr_left fun atom hatom => hmoved atom (hatoms atom hatom)
    rw [hmap, sortedSet_eq_self hnodup hsorted]
  rw [nextClause, hside _ (fun _ => mem_append_left _) h.body_nodup h.body_sorted,
    hside _ (fun _ => mem_append_right _) h.head_nodup h.head_sorted]

theorem Fit.ready_iterate (h : Fit registry n clause) (hn : n ≤ 10) {k : Nat} (hk : k ≤ n) :
    Ready registry n k ((nextClause registry)^[k + 1] clause) := by
  induction k with
  | zero => exact h.next_ready nil_prefix
  | succ k ih =>
    rw [Function.iterate_succ_apply']
    exact (ih (by omega)).next hn hk

/-- A pass changes nothing, and the variables are numbered as they occur: the loops stop here. -/
def PassStable (registry : List RulePredicate) (clause : Clause) : Prop :=
  nextClause registry clause = clause ∧
    firstOccurrence clause = List.range clause.variables.eraseDups.length

theorem Fit.ready_of_stable (h : Fit registry n clause) (hstable : PassStable registry clause) :
    Ready registry n n clause := by
  obtain ⟨hfix, hfirst⟩ := hstable
  rw [h.count] at hfirst
  have hready : Ready registry n n (nextClause registry clause) :=
    h.next_ready (by rw [hfix, hfirst])
  rwa [hfix] at hready

/-- The clause the loops start from. -/
def startClause (registry : List RulePredicate) (clause : Clause) : Clause where
  body := Clauses.sortedSet Encoded.alphaKey (clause.body.map (orient registry))
  head := Clauses.sortedSet Encoded.alphaKey (clause.head.map (orient registry))

theorem mem_startClause_atoms :
    atom ∈ (startClause registry clause).atoms ↔ ∃ a ∈ clause.atoms, atom = orient registry a :=
  mem_atoms_sortedSet

theorem mem_startClause_variables :
    key ∈ (startClause registry clause).variables ↔ key ∈ clause.variables := by
  rw [mem_clause_variables, mem_clause_variables]
  constructor
  · rintro ⟨atom, hatom, hkey⟩
    obtain ⟨a, ha, rfl⟩ := mem_startClause_atoms.mp hatom
    exact ⟨a, ha, mem_variables_orient.mp hkey⟩
  · rintro ⟨a, ha, hkey⟩
    exact ⟨_, mem_startClause_atoms.mpr ⟨a, ha, rfl⟩, mem_variables_orient.mpr hkey⟩

section
variable (h : ∀ atom ∈ clause.atoms, Shaped registry atom)
include h

theorem fit_startClause : Fit registry clause.variables.eraseDups.length
      (startClause registry clause) where
  shaped atom hatom := by
    obtain ⟨a, ha, rfl⟩ := mem_startClause_atoms.mp hatom
    exact (h a ha).orient
  oriented atom hatom := by
    obtain ⟨a, ha, rfl⟩ := mem_startClause_atoms.mp hatom
    exact orient_orient
  body_nodup := nodup_sortedSet
  head_nodup := nodup_sortedSet
  count := by
    refine List.Perm.length_eq
      ((perm_ext_iff_of_nodup (nodup_eraseDups _) (nodup_eraseDups _)).mpr ?_)
    intro key
    rw [mem_eraseDups, mem_eraseDups, mem_startClause_variables]

/-- The canonical form of a clause: the state after one pass more than it has variables. -/
def canonicalClause (registry : List RulePredicate) (clause : Clause) : Clause :=
  (nextClause registry)^[clause.variables.eraseDups.length + 1] (startClause registry clause)

theorem canonicalClause_ready (hsettles : clause.variables.eraseDups.length ≤ 10 ∨
      PassStable registry (startClause registry clause)) :
    Ready registry clause.variables.eraseDups.length clause.variables.eraseDups.length
      (canonicalClause registry clause) := by
  rcases hsettles with hfew | hstable
  · exact (fit_startClause h).ready_iterate hfew le_rfl
  · rw [canonicalClause, Function.iterate_fixed hstable.1]
    exact (fit_startClause h).ready_of_stable hstable

/-! ## Passes over words -/

/-- A pass that sorts by words in place of texts. -/
def wordNext (registry : List RulePredicate) (clause : Clause) : Clause where
  body := Clauses.sortedSet (·.textWord) (clause.body.map (moved registry clause))
  head := Clauses.sortedSet (·.textWord) (clause.head.map (moved registry clause))

theorem nextClause_eq_wordNext : nextClause registry clause = wordNext registry clause := by
  have hside : ∀ atoms : List RuleAtom, (∀ atom ∈ atoms, atom ∈ clause.atoms) →
      sortedSet (·.canonicalBytes) (atoms.map (moved registry clause)) =
        sortedSet (·.textWord) (atoms.map (moved registry clause)) := by
    intro atoms hatoms
    have hmoved : ∀ atom ∈ atoms.map (moved registry clause), atom.arguments ≠ [] := by
      intro atom hatom
      obtain ⟨a, ha, rfl⟩ := mem_map.mp hatom
      exact ((h a (hatoms a ha)).renamed _).orient.arguments_ne_nil
    exact sortedSet_congr fun a ha b hb =>
      RuleAtom.canonicalBytes_le_iff (hmoved a ha) (hmoved b hb)
  rw [nextClause, wordNext, hside _ fun _ => mem_append_left _, hside _ fun _ => mem_append_right _]

/-- The loop of both compilers with its passes over words: they differ in what they report. -/
def wordLoop {ε : Type} (registry : List RulePredicate) (clause : Clause) (cycle exceeded : ε) :
    Except ε Clause :=
  settle (fun state => .ok (wordNext registry state)) id
    (fun state next => next = state ∧
      Clauses.firstOccurrence next = List.range clause.variables.eraseDups.length)
    cycle exceeded (clause.variables.eraseDups.length + 2) [] (startClause registry clause)

theorem wordLoop_eq {ε : Type} {cycle exceeded : ε}
    (hsettles : clause.variables.eraseDups.length ≤ 10 ∨
      PassStable registry (startClause registry clause)) :
    wordLoop registry clause cycle exceeded = .ok (canonicalClause registry clause) := by
  have hready := canonicalClause_ready h hsettles
  refine settle_eq_ok (fun result => firstOccurrence result = List.range _)
    (fun s hs => congrArg Except.ok (nextClause_eq_wordNext hs.shaped).symm) (fun s hs => hs.next)
    (fun s t _ _ heq => heq) (fun s hs => ?_) (fit_startClause h) hready.nextClause_eq
    hready.firstOccurrence_eq (by omega)
  rw [decide_eq_true_eq]
  constructor
  · rintro ⟨heq, hrange⟩
    exact ⟨heq, heq ▸ hrange⟩
  · rintro ⟨heq, hrange⟩
    exact ⟨heq, heq.symm ▸ hrange⟩

/-- The clauses a loop goes through. -/
def passStates (registry : List RulePredicate) (clause : Clause) : Set Clause :=
  Set.range fun passes => (nextClause registry)^[passes] (startClause registry clause)

theorem settle_eq_wordLoop {ε κ : Type} [DecidableEq κ] {pass : Clause → Except ε Clause}
    {key : Clause → κ} {stable : Clause → Clause → Bool} {cycle exceeded : ε}
    (hpass : ∀ s, Fit registry clause.variables.eraseDups.length s →
      pass s = .ok (nextClause registry s))
    (hkey : Set.InjOn key (passStates registry clause))
    (hstable : ∀ s t, stable s t = decide (t = s ∧
      firstOccurrence t = List.range clause.variables.eraseDups.length)) :
    settle pass key stable cycle exceeded (clause.variables.eraseDups.length + 2) []
      (startClause registry clause) = wordLoop registry clause cycle exceeded := by
  refine settle_congr (fun s (hs : Fit registry _ s ∧ s ∈ passStates registry clause) => ?_)
    (fun s t hs heq => ?_) (fun s t hs ht => hkey.eq_iff hs.2 ht.2)
      (fun s t _ _ => hstable s t) _ [] _
    (by simp) ⟨fit_startClause h, 0, rfl⟩
  · rw [hpass s hs.1, nextClause_eq_wordNext hs.1.shaped]
  · obtain ⟨hfit, passes, rfl⟩ := hs
    rw [hpass _ hfit] at heq
    obtain rfl := Except.ok.inj heq
    exact ⟨hfit.next, passes + 1, Function.iterate_succ_apply' _ _ _⟩

theorem Clauses.freezeClauseAtoms_eq_words : freezeClauseAtoms registry clause =
      wordLoop registry clause (.runtimeError "alpha-canonical clause ordering did not converge")
        (.runtimeError "alpha-canonical clause ordering exceeded its bounded passes") := by
  obtain ⟨hbody, hhead⟩ := mapM_sides fun atom hatom => canonicalizeSymmetricAtom_eq (h atom hatom)
  rw [freezeClauseAtoms, hbody, hhead]
  simp only [bind, Except.bind, sortedSet_alphaSkeletonKey]
  rw [show (⟨_, _⟩ : Clause) = startClause registry clause from rfl, (fit_startClause h).count,
    Nat.max_eq_right (Nat.le_add_left 2 _)]
  exact settle_eq_wordLoop h (fun s hs => renamePass_eq hs.shaped) (Set.injOn_id _) fun _ _ => rfl

end

theorem firstOccurrenceDense_iff :
    firstOccurrenceDense clause n = true ↔ firstOccurrence clause = List.range n := by
  rw [firstOccurrenceDense, firstOccurrence]
  generalize (clause.variables.map (·.variableId)).eraseDups = order
  rw [Bool.and_eq_true, decide_eq_true_eq, all_eq_true]
  constructor
  · rintro ⟨hlength, hall⟩
    refine ext_getElem (by rw [hlength, length_range]) fun i hi _ => ?_
    have := hall (order[i], i) (mem_zipIdx_iff_getElem?.mpr (getElem?_eq_getElem hi))
    simpa using this
  · rintro rfl
    refine ⟨length_range, ?_⟩
    rintro ⟨value, index⟩ hmem
    have := mem_zipIdx_iff_getElem?.mp hmem
    rw [List.getElem?_eq_some_iff] at this
    obtain ⟨hbound, heq⟩ := this
    rw [getElem_range] at heq
    exact decide_eq_true heq.symm

theorem Encoded.stable_iff {next : Clause} :
    (decide (ruleKey clause = ruleKey next) && firstOccurrenceDense next n) =
      decide (next = clause ∧ firstOccurrence next = List.range n) := by
  rw [Bool.eq_iff_iff, Bool.and_eq_true, decide_eq_true_eq, decide_eq_true_eq,
    firstOccurrenceDense_iff, ruleKey_injective.eq_iff, eq_comm]

theorem Encoded.canonicalizeClause_eq_words {δ : Type} [DecidableEq δ] {digest : String → δ}
    (hdigest : Set.InjOn (fun state => digest (ruleKey state)) (passStates registry clause))
    (h : ∀ atom ∈ clause.atoms, Shaped registry atom)
    (hcount : clause.variables.eraseDups.length ≤ u32Max) :
    canonicalizeClause digest registry clause =
      wordLoop registry clause
      (.invariant "permanent-program alpha-canonicalization entered a cycle")
        (.invariant "permanent-program alpha-canonicalization exceeded its bounded passes") := by
  obtain ⟨hbody, hhead⟩ := mapM_sides fun atom hatom => canonicalizeSymmetricAtom_eq (h atom hatom)
  rw [canonicalizeClause, hbody, hhead]
  simp only [bind, Except.bind, sortAtomsAlpha_eq]
  rw [show (⟨_, _⟩ : Clause) = startClause registry clause from rfl, (fit_startClause h).count,
    Nat.max_eq_left (Nat.le_add_left 2 _)]
  exact settle_eq_wordLoop h (fun s hs => renamePass_eq hs.shaped (hs.count.trans_le hcount))
    hdigest fun _ _ => stable_iff

/-! ## Nothing is lost but the names -/

/-- The clause is another one with its variables renamed, two of one sort never to the same
number, and its symmetric atoms turned round. -/
structure IsRenaming (registry : List RulePredicate) (clause result : Clause)
    (number : VariableKey → Nat) : Prop where
  injOn : ∀ key ∈ clause.variables, ∀ key' ∈ clause.variables, key.sort = key'.sort →
    number key = number key' → key = key'
  body : ∀ atom, atom ∈ result.body ↔ ∃ a ∈ clause.body, atom = orient registry (a.renamed number)
  head : ∀ atom, atom ∈ result.head ↔ ∃ a ∈ clause.head, atom = orient registry (a.renamed number)

theorem isRenaming_startClause (registry : List RulePredicate) (clause : Clause) :
    IsRenaming registry clause (startClause registry clause) (·.variableId) where
  injOn key _ key' _ hsort hid := by
    obtain ⟨sort, id⟩ := key
    exact congrArg₂ VariableKey.mk hsort hid
  body atom := by
    simp only [startClause, mem_sortedSet, mem_map, renamed_variableId, eq_comm]
  head atom := by
    simp only [startClause, mem_sortedSet, mem_map, renamed_variableId, eq_comm]

theorem renamed_renamed (number number' : VariableKey → Nat) (atom : RuleAtom) :
    (atom.renamed number).renamed number' = atom.renamed fun key =>
      number' ⟨key.sort, number key⟩ := by
  rw [RuleAtom.renamed, RuleAtom.renamed, RuleAtom.renamed, map_map]
  congr 1
  exact map_congr_left fun term _ => by cases term <;> rfl

variable {result : Clause} {number : VariableKey → Nat}

theorem IsRenaming.variable_mem (h : IsRenaming registry clause result number)
    (hkey : key ∈ clause.variables) :
    (⟨key.sort, number key⟩ : VariableKey) ∈ result.variables := by
  obtain ⟨a, ha, hmem⟩ := mem_clause_variables.mp hkey
  refine mem_clause_variables.mpr ⟨orient registry (a.renamed number), ?_, ?_⟩
  · rcases mem_append.mp ha with ha | ha
    · exact mem_append_left _ ((h.body _).mpr ⟨a, ha, rfl⟩)
    · exact mem_append_right _ ((h.head _).mpr ⟨a, ha, rfl⟩)
  · exact mem_variables_orient.mpr (mem_variables_renamed.mpr ⟨key, hmem, rfl⟩)

theorem mem_moved_iff {atoms atoms' : List RuleAtom}
    (h : ∀ atom, atom ∈ atoms' ↔ ∃ a ∈ atoms, atom = orient registry (a.renamed number))
    (atom : RuleAtom) :
    atom ∈ sortedSet (·.canonicalBytes) (atoms'.map (moved registry result)) ↔
      ∃ a ∈ atoms, atom = orient registry
      (a.renamed fun key => result.number ⟨key.sort, number key⟩) := by
  rw [mem_sortedSet, mem_map]
  constructor
  · rintro ⟨b, hb, rfl⟩
    obtain ⟨a, ha, rfl⟩ := (h b).mp hb
    exact ⟨a, ha, by rw [moved, orient_rename_orient, renamed_renamed]⟩
  · rintro ⟨a, ha, rfl⟩
    exact ⟨_, (h _).mpr ⟨a, ha, rfl⟩, by rw [moved, orient_rename_orient, renamed_renamed]⟩

theorem IsRenaming.next (h : IsRenaming registry clause result number) :
    IsRenaming registry clause (nextClause registry result)
      fun key => result.number ⟨key.sort, number key⟩ where
  injOn key hkey key' hkey' hsort heq := by
    have hsame := number_injOn (h.variable_mem hkey) heq
    exact h.injOn key hkey key' hkey' hsort (VariableKey.mk.inj hsame).2
  body := mem_moved_iff h.body
  head := mem_moved_iff h.head

theorem canonicalClause_isRenaming (registry : List RulePredicate) (clause : Clause) :
    ∃ number, IsRenaming registry clause (canonicalClause registry clause) number := by
  rw [canonicalClause]
  generalize clause.variables.eraseDups.length + 1 = k
  induction k with
  | zero => exact ⟨_, isRenaming_startClause registry clause⟩
  | succ k ih =>
    obtain ⟨number, h⟩ := ih
    rw [Function.iterate_succ_apply']
    exact ⟨_, h.next⟩

end PyHermit
