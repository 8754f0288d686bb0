import PyHermit.Clauses.Canonical

/-!
# The order of serialised atoms

Atoms are sorted by their JSON text, a sequence of tokens, one for each argument and one for
the predicate. Two different tokens part ways inside the shorter of them, so the order of
the texts is the lexicographic order of the tokens (`canonicalBytes_lt_iff`), and a token is
ordered by its kind first and then by the decimal digits of its numbers, compared as text:
`"10"` comes before `"2"`.
-/

open List

namespace PyHermit

open Term

/-! ## Texts that part ways -/

/-- The two texts agree up to a position at which the first has the smaller character. -/
def Before (u v : List Char) : Prop :=
  ∃ common a b r s, u = common ++ a :: r ∧ v = common ++ b :: s ∧ a < b

namespace Before

variable {u v : List Char}

theorem cons_of_lt {a b : Char} (h : a < b) (r s : List Char) : Before (a :: r) (b :: s) :=
  ⟨[], a, b, r, s, rfl, rfl, h⟩

variable (h : Before u v)
include h

theorem append (x y : List Char) : Before (u ++ x) (v ++ y) := by
  obtain ⟨common, a, b, r, s, rfl, rfl, hlt⟩ := h
  exact ⟨common, a, b, r ++ x, s ++ y, by simp, by simp, hlt⟩

theorem prepend (p : List Char) : Before (p ++ u) (p ++ v) := by
  obtain ⟨common, a, b, r, s, rfl, rfl, hlt⟩ := h
  exact ⟨p ++ common, a, b, r, s, by simp, by simp, hlt⟩

theorem cons (c : Char) : Before (c :: u) (c :: v) := h.prepend [c]

theorem lt : u < v := by
  obtain ⟨common, a, b, r, s, rfl, rfl, hlt⟩ := h
  exact List.Lex.append_left _ (cons_lt_cons_iff.mpr (.inl hlt)) common

theorem append_ne_append (x y : List Char) : u ++ x ≠ v ++ y :=
  ((h.append x y).lt).ne

end Before

variable {c : Char} {n m : Nat}

/-- A list of larger characters that is above another one parts ways with it as soon as the
latter is followed by a smaller character. -/
theorem before_of_lt {u v : List Char} (h : u < v) (hv : ∀ a ∈ v, c < a) (x y : List Char) :
    Before (u ++ c :: x) (v ++ y) := by
  induction u generalizing v with
  | nil =>
    cases v with
    | nil => exact absurd h (not_lt_nil _)
    | cons b v => exact .cons_of_lt (hv b mem_cons_self) _ _
  | cons a u ih =>
    cases v with
    | nil => exact absurd h (not_lt_nil _)
    | cons b v =>
      rcases cons_lt_cons_iff.mp h with hlt | ⟨rfl, hlt⟩
      · exact .cons_of_lt hlt _ _
      · exact (ih hlt fun b hb => hv b (mem_cons_of_mem _ hb)).cons a

/-! ## Decimal digits -/

def digits (n : Nat) : List Char := Nat.toDigits 10 n

theorem toList_toString (n : Nat) : (toString n).toList = digits n := by
  rw [Nat.toString_eq_ofList_toDigits, String.toList_ofList, digits]

theorem digits_injective : Function.Injective digits := by
  intro m n h
  have hread := congrArg (fun text => Nat.ofDigitChars 10 text 0) h
  simpa only [digits, Nat.ofDigitChars_ten_toDigits] using hread

theorem comma_lt_of_mem_digits (h : c ∈ digits n) : ',' < c := by
  have hdigit : c.isDigit = true := Nat.isDigit_of_mem_toDigits (by decide) (by decide) h
  have hge : '0'.val ≤ c.val := by
    simp only [Char.isDigit, Bool.and_eq_true, decide_eq_true_eq] at hdigit
    exact hdigit.1
  exact lt_of_lt_of_le (show ','.val < '0'.val by decide) hge

theorem before_of_digits_lt (h : digits m < digits n) (x y : List Char) :
    Before (digits m ++ ',' :: x) (digits n ++ y) :=
  before_of_lt h (fun _ hc => comma_lt_of_mem_digits hc) x y

theorem digits_of_lt (h : n < 10) : digits n = [n.digitChar] := Nat.toDigits_of_lt_base h

theorem digits_lt_digits_iff (hm : m < 10) (hn : n < 10) : digits m < digits n ↔ m < n := by
  rw [digits_of_lt hm, digits_of_lt hn, cons_lt_cons_iff]
  have hchars : ∀ m < 10, ∀ n < 10, (m.digitChar < n.digitChar ↔ m < n) := by decide
  rw [hchars m hm n hn]
  simp

/-! ## Tokens -/

/-- A token: its kind, then the digits and characters it is ordered by. -/
abbrev Letter : Type := ℕ ×ₗ List Char ×ₗ List Char

def TermSort.initial : TermSort → Char
  | data => 'd'
  | object => 'o'

def Term.letter : Term → Letter
  | dataConstant source identity => toLex (0, toLex (digits identity, digits source))
  | var key => toLex (1, toLex (digits key.variableId, [key.sort.initial]))
  | individual id => toLex (2, toLex (digits id, []))

def stopLetter (predicateId : Nat) : Letter := toLex (3, toLex (digits predicateId, []))

/-- An atom as the list of its tokens. -/
def RuleAtom.textWord (atom : RuleAtom) : List Letter :=
  atom.arguments.map Term.letter ++ [stopLetter atom.predicateId]

theorem Term.letter_injective : Function.Injective letter := by
  intro t u h
  cases t with
  | var key =>
    cases u with
    | var key' =>
      obtain ⟨sort, index⟩ := key
      obtain ⟨sort', index'⟩ := key'
      cases sort <;> cases sort' <;> simp_all [letter, TermSort.initial, digits_injective.eq_iff]
    | individual | dataConstant => simp [letter] at h
  | individual | dataConstant => cases u <;> simp_all [letter, digits_injective.eq_iff]

theorem RuleAtom.textWord_injective : Function.Injective RuleAtom.textWord := by
  intro ⟨predicate, arguments⟩ ⟨predicate', arguments'⟩ h
  have hsplit := append_inj' h rfl
  have harguments := map_injective_iff.mpr letter_injective hsplit.1
  have hpredicate : predicate = predicate' := by
    simpa [stopLetter, digits_injective.eq_iff] using hsplit.2
  exact congrArg₂ RuleAtom.mk hpredicate harguments

/-! ## The texts of tokens -/

theorem Term.toList_json_var (key : VariableKey) : (var key).json.toList =
    ['{', '"', 'i', 'n', 'd', 'e', 'x', '"', ':'] ++ (digits key.variableId ++
      ',' :: ("\"schema_version\":1,\"sort\":\"".toList ++ (key.sort.value.toList ++
        "\",\"type\":\"Variable\"\x7d".toList))) := by
  have htext : (var key).json = "\x7b\"index\":" ++ toString key.variableId ++
      ",\"schema_version\":1,\"sort\":\"" ++ key.sort.value ++ "\",\"type\":\"Variable\"\x7d" := by
    obtain ⟨sort, index⟩ := key
    cases sort <;> rfl
  rw [htext]
  simp only [String.toList_append, toList_toString, String.reduceToList, append_assoc,
    cons_append, nil_append]

theorem Term.toList_json_individual (id : Nat) : (individual id).json.toList =
    ['{', '"', 'i', 'n', 'd', 'i', 'v', 'i', 'd', 'u', 'a', 'l', '_', 'i', 'd', '"', ':'] ++
      (digits id ++ ',' :: "\"schema_version\":1,\"type\":\"IndividualTerm\"\x7d".toList) := by
  have htext : (individual id).json = "\x7b\"individual_id\":" ++ toString id ++
      ",\"schema_version\":1,\"type\":\"IndividualTerm\"\x7d" := rfl
  rw [htext]
  simp only [String.toList_append, toList_toString, String.reduceToList, cons_append,
    nil_append]

theorem Term.toList_json_dataConstant (source identity : Nat) :
    (dataConstant source identity).json.toList =
    ['{', '"', 'd', 'a', 't', 'a', '_', 'i', 'd', 'e', 'n', 't', 'i', 't', 'y', '_', 'i', 'd',
      '"', ':'] ++
      (digits identity ++ ',' :: ("\"schema_version\":1,\"source_literal_id\":".toList ++
        (digits source ++ ',' :: "\"type\":\"DataConstant\"\x7d".toList))) := by
  have htext : (dataConstant source identity).json = "\x7b\"data_identity_id\":" ++
      toString identity ++ ",\"schema_version\":1,\"source_literal_id\":" ++ toString source ++
      ",\"type\":\"DataConstant\"\x7d" := rfl
  rw [htext]
  simp only [String.toList_append, toList_toString, String.reduceToList, append_assoc,
    cons_append, nil_append]

/-- What follows the first argument of an atom. -/
def restText : List Term → Nat → List Char
  | [], predicateId => ']' :: (",\"predicate_id\":".toList ++ (digits predicateId ++
      ',' :: "\"schema_version\":1,\"type\":\"Atom\"\x7d".toList))
  | term :: terms, predicateId => ',' :: (term.json.toList ++ restText terms predicateId)

theorem canonicalBytes_mk (predicateId : Nat) (arguments : List Term) :
    (RuleAtom.mk predicateId arguments).canonicalBytes =
      "\x7b\"arguments\":[" ++ ",".intercalate (arguments.map json) ++ "],\"predicate_id\":" ++
        toString predicateId ++ ",\"schema_version\":1,\"type\":\"Atom\"\x7d" := rfl

theorem toList_canonicalBytes_nil (predicateId : Nat) :
    (RuleAtom.mk predicateId []).canonicalBytes.toList =
      "\x7b\"arguments\":[".toList ++ restText [] predicateId := by
  rw [canonicalBytes_mk]
  simp only [restText, map_nil, String.intercalate_nil, String.toList_append, toList_toString,
    String.reduceToList, cons_append, nil_append]

theorem toList_canonicalBytes_cons (predicateId : Nat) (term : Term) (terms : List Term) :
    (RuleAtom.mk predicateId (term :: terms)).canonicalBytes.toList =
      "\x7b\"arguments\":[".toList ++ (term.json.toList ++ restText terms predicateId) := by
  have hrest : ∀ (term : Term) (terms : List Term),
      (",".intercalate ((term :: terms).map json)).toList ++
        ("],\"predicate_id\":" ++ toString predicateId ++
          ",\"schema_version\":1,\"type\":\"Atom\"\x7d").toList =
      term.json.toList ++ restText terms predicateId := by
    intro term terms
    induction terms generalizing term with
    | nil =>
      simp only [restText, map_cons, map_nil, String.intercalate_singleton, String.toList_append,
        toList_toString, String.reduceToList, cons_append, nil_append]
    | cons next terms ih =>
      rw [map_cons, map_cons, String.intercalate_cons_cons, ← map_cons, restText, ← ih next]
      simp
  rw [← hrest, canonicalBytes_mk]
  simp only [String.toList_append, append_assoc]

theorem Term.before_of_letter_lt {t u : Term} (h : t.letter < u.letter) :
    Before t.json.toList u.json.toList := by
  cases t with
  | var key =>
    rw [toList_json_var]
    cases u with
    | var key' =>
      rw [toList_json_var]
      apply Before.prepend
      simp only [letter, Prod.Lex.toLex_lt_toLex, lt_irrefl, false_or, true_and] at h
      rcases h with hlt | ⟨heq, hsort⟩
      · exact before_of_digits_lt hlt _ _
      · rw [heq]
        refine ((Before.append ?_ _ _).prepend _).cons _ |>.prepend _
        obtain ⟨sort, index⟩ := key
        obtain ⟨sort', index'⟩ := key'
        cases sort <;> cases sort' <;>
          simp only [TermSort.initial, lt_irrefl, TermSort.value, String.reduceToList] at hsort ⊢
        · exact .cons_of_lt (show 'd' < 'o' by decide) _ _
        · exact absurd hsort (by decide)
    | individual id =>
      rw [toList_json_individual]
      exact (Before.cons_of_lt (by decide) _ _).prepend ['{', '"', 'i', 'n', 'd']
    | dataConstant source identity => simp [letter, Prod.Lex.toLex_lt_toLex] at h
  | individual id =>
    cases u with
    | individual id' =>
      rw [toList_json_individual, toList_json_individual]
      simp only [letter, Prod.Lex.toLex_lt_toLex, lt_irrefl, false_or, true_and, and_false,
        or_false] at h
      exact (before_of_digits_lt h _ _).prepend _
    | var | dataConstant => simp [letter, Prod.Lex.toLex_lt_toLex] at h
  | dataConstant source identity =>
    rw [toList_json_dataConstant]
    cases u with
    | var key =>
      rw [toList_json_var]
      exact (Before.cons_of_lt (by decide) _ _).prepend ['{', '"']
    | individual id =>
      rw [toList_json_individual]
      exact (Before.cons_of_lt (by decide) _ _).prepend ['{', '"']
    | dataConstant source' identity' =>
      rw [toList_json_dataConstant]
      apply Before.prepend
      simp only [letter, Prod.Lex.toLex_lt_toLex, lt_irrefl, false_or, true_and] at h
      rcases h with hlt | ⟨heq, hlt⟩
      · exact before_of_digits_lt hlt _ _
      · rw [heq]
        exact (((before_of_digits_lt hlt _ _).prepend _).cons _).prepend _

/-! ## The order of atoms -/

theorem stopLetter_not_lt (predicateId : Nat) (t : Term) : ¬ stopLetter predicateId < t.letter := by
  cases t <;> simp [stopLetter, letter, Prod.Lex.toLex_lt_toLex]

theorem before_restText {ts us : List Term} {p q : Nat}
    (h : ts.map letter ++ [stopLetter p] < us.map letter ++ [stopLetter q]) :
    Before (restText ts p) (restText us q) := by
  induction ts generalizing us with
  | nil =>
    cases us with
    | nil =>
      have hlt : digits p < digits q := by
        simpa [stopLetter, Prod.Lex.toLex_lt_toLex, cons_lt_cons_iff] using h
      exact ((before_of_digits_lt hlt _ _).prepend _).cons _
    | cons u us =>
      rcases cons_lt_cons_iff.mp h with hlt | ⟨heq, -⟩
      · exact absurd hlt (stopLetter_not_lt p u)
      · cases u <;> simp [stopLetter, letter] at heq
  | cons t ts ih =>
    cases us with
    | nil => exact .cons_of_lt (by decide) _ _
    | cons u us =>
      apply Before.cons
      rcases cons_lt_cons_iff.mp h with hlt | ⟨heq, hlt⟩
      · exact (before_of_letter_lt hlt).append _ _
      · rw [letter_injective heq]
        exact (ih hlt).prepend _

namespace RuleAtom

variable {a b : RuleAtom}

section
variable (ha : a.arguments ≠ []) (hb : b.arguments ≠ [])
include ha hb

theorem before_canonicalBytes (h : a.textWord < b.textWord) :
    Before a.canonicalBytes.toList b.canonicalBytes.toList := by
  obtain ⟨p, _ | ⟨t, ts⟩⟩ := a
  · exact absurd rfl ha
  obtain ⟨q, _ | ⟨u, us⟩⟩ := b
  · exact absurd rfl hb
  rw [toList_canonicalBytes_cons, toList_canonicalBytes_cons]
  apply Before.prepend
  rcases cons_lt_cons_iff.mp h with hlt | ⟨heq, hlt⟩
  · exact (before_of_letter_lt hlt).append _ _
  · rw [letter_injective heq]
    exact (before_restText hlt).prepend _

/-- The order of the texts is the order of the words. -/
theorem canonicalBytes_lt_iff : a.canonicalBytes < b.canonicalBytes ↔ a.textWord < b.textWord := by
  constructor
  · intro h
    rcases lt_trichotomy a.textWord b.textWord with hlt | heq | hgt
    · exact hlt
    · rw [textWord_injective heq] at h
      exact absurd h (lt_irrefl _)
    · exact absurd (before_canonicalBytes hb ha hgt).lt (not_lt_of_gt h)
  · intro h
    exact (before_canonicalBytes ha hb h).lt

theorem canonicalBytes_le_iff : a.canonicalBytes ≤ b.canonicalBytes ↔ a.textWord ≤ b.textWord := by
  rw [← not_lt, ← not_lt, canonicalBytes_lt_iff hb ha]

end

/-- The texts of two atoms part ways unless the atoms are the same. -/
theorem before_or_eq_or_before (a b : RuleAtom) :
    Before a.canonicalBytes.toList b.canonicalBytes.toList ∨ a = b ∨
      Before b.canonicalBytes.toList a.canonicalBytes.toList := by
  -- an atom without arguments has `]` where the others have an opening brace
  have hbrace : ∀ term : Term, ∃ text, term.json.toList = '{' :: text := by
    intro term
    cases term with
    | var key => exact ⟨_, toList_json_var key⟩
    | individual id => exact ⟨_, toList_json_individual id⟩
    | dataConstant source identity => exact ⟨_, toList_json_dataConstant source identity⟩
  have hempty : ∀ (p q : Nat) (term : Term) (terms : List Term),
      Before (RuleAtom.mk p []).canonicalBytes.toList
      (RuleAtom.mk q (term :: terms)).canonicalBytes.toList := by
    intro p q term terms
    obtain ⟨text, htext⟩ := hbrace term
    rw [toList_canonicalBytes_cons, toList_canonicalBytes_nil, htext]
    exact (Before.cons_of_lt (by decide) _ _).prepend _
  obtain ⟨p, ts⟩ := a
  obtain ⟨q, us⟩ := b
  cases ts with
  | nil =>
    cases us with
    | nil =>
      rw [toList_canonicalBytes_nil, toList_canonicalBytes_nil]
      rcases lt_trichotomy (digits p) (digits q) with hlt | heq | hgt
      · exact .inl ((((before_of_digits_lt hlt _ _).prepend _).cons _).prepend _)
      · exact .inr (.inl (by rw [digits_injective heq]))
      · exact .inr (.inr ((((before_of_digits_lt hgt _ _).prepend _).cons _).prepend _))
    | cons u us => exact .inl (hempty p q u us)
  | cons t ts =>
    cases us with
    | nil => exact .inr (.inr (hempty q p t ts))
    | cons u us =>
      rcases lt_trichotomy (RuleAtom.mk p (t :: ts)).textWord
        (RuleAtom.mk q (u :: us)).textWord with hlt | heq | hgt
      · exact .inl (before_canonicalBytes (cons_ne_nil _ _) (cons_ne_nil _ _) hlt)
      · exact .inr (.inl (textWord_injective heq))
      · exact .inr (.inr (before_canonicalBytes (cons_ne_nil _ _) (cons_ne_nil _ _) hgt))

theorem canonicalBytes_injective : Function.Injective canonicalBytes := by
  intro a b h
  have htext := congrArg String.toList h
  rcases before_or_eq_or_before a b with hlt | heq | hgt
  · exact absurd htext hlt.lt.ne
  · exact heq
  · exact absurd htext hgt.lt.ne'

end RuleAtom

/-! ## The text of a clause -/

theorem eq_of_joined_append_eq {as bs : List RuleAtom} {x y : List Char}
    (h : (",".intercalate (as.map (·.canonicalBytes))).toList ++ ']' :: x =
      (",".intercalate (bs.map (·.canonicalBytes))).toList ++ ']' :: y) : as = bs ∧ x = y := by
  have hbrace : ∀ atom : RuleAtom, ∃ text, atom.canonicalBytes.toList = '{' :: text := by
    intro ⟨predicateId, arguments⟩
    cases arguments with
    | nil => exact ⟨_, toList_canonicalBytes_nil predicateId⟩
    | cons term terms => exact ⟨_, toList_canonicalBytes_cons predicateId term terms⟩
  have hjoined : ∀ (atom : RuleAtom) (atoms : List RuleAtom), ∃ text,
      (",".intercalate ((atom :: atoms).map (·.canonicalBytes))).toList = '{' :: text := by
    intro atom atoms
    obtain ⟨text, htext⟩ := hbrace atom
    cases atoms with
    | nil => exact ⟨text, by simp [htext]⟩
    | cons next atoms => exact ⟨_, by
        rw [map_cons, map_cons, String.intercalate_cons_cons, String.toList_append,
          String.toList_append, htext, cons_append, cons_append]⟩
  induction as generalizing bs with
  | nil =>
    cases bs with
    | nil => exact ⟨rfl, by simpa using h⟩
    | cons b bs =>
      obtain ⟨text, htext⟩ := hjoined b bs
      rw [htext] at h
      simp at h
  | cons a as ih =>
    cases bs with
    | nil =>
      obtain ⟨text, htext⟩ := hjoined a as
      rw [htext] at h
      simp at h
    | cons b bs =>
      -- what follows the first atom: a comma and the others, or the closing bracket
      have hrest : ∀ (atom : RuleAtom) (atoms : List RuleAtom) (tail : List Char), ∃ rest,
          (",".intercalate ((atom :: atoms).map (·.canonicalBytes))).toList ++ ']' :: tail =
            atom.canonicalBytes.toList ++ rest ∧
          (atoms = [] → rest = ']' :: tail) ∧ (atoms ≠ [] → rest =
            ',' :: ((",".intercalate (atoms.map (·.canonicalBytes))).toList ++ ']' :: tail)) := by
        intro atom atoms tail
        cases atoms with
        | nil => exact ⟨_, by simp, fun _ => rfl, fun hne => absurd rfl hne⟩
        | cons next atoms =>
          refine ⟨_, ?_, fun hnil => absurd hnil (cons_ne_nil _ _), fun _ => rfl⟩
          simp
      obtain ⟨rest, hrest₁, hnil₁, hcons₁⟩ := hrest a as x
      obtain ⟨rest', hrest₂, hnil₂, hcons₂⟩ := hrest b bs y
      rw [hrest₁, hrest₂] at h
      rcases RuleAtom.before_or_eq_or_before a b with hlt | rfl | hgt
      · exact absurd h (hlt.append_ne_append _ _)
      · have heq := append_cancel_left h
        by_cases has : as = [] <;> by_cases hbs : bs = []
        · rw [hnil₁ has, hnil₂ hbs, List.cons.injEq] at heq
          exact ⟨by rw [has, hbs], heq.2⟩
        · rw [hnil₁ has, hcons₂ hbs] at heq
          simp at heq
        · rw [hcons₁ has, hnil₂ hbs] at heq
          simp at heq
        · rw [hcons₁ has, hcons₂ hbs, List.cons.injEq] at heq
          obtain ⟨rfl, hxy⟩ := ih heq.2
          exact ⟨rfl, hxy⟩
      · exact absurd h.symm (hgt.append_ne_append _ _)

theorem Encoded.ruleKey_injective : Function.Injective Encoded.ruleKey := by
  intro ⟨body, head⟩ ⟨body', head'⟩ h
  have htext := congrArg String.toList h
  simp only [Encoded.ruleKey, String.toList_append, String.reduceToList, append_assoc,
    cons_append, nil_append, List.cons.injEq, true_and] at htext
  obtain ⟨hbody, hrest⟩ := eq_of_joined_append_eq htext
  simp only [List.cons.injEq, true_and] at hrest
  obtain ⟨hhead, -⟩ := eq_of_joined_append_eq hrest
  rw [hbody, hhead]

end PyHermit
