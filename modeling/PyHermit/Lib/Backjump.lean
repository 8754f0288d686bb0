import Mathlib.Data.Set.Insert

/-!
# Backjumping over a stack of choices

A search keeps, for every choice, the earlier choices it rests on: those that made it
necessary (`base`) and those that ruled out the alternatives already tried (`learned`). A
set of levels is refuted when no solution agrees with the selected alternatives there.
Moving a choice on under a refuted set, or dropping an exhausted one, loses no solution,
however many newer choices the jump skips. Solutions are functions from choices to
alternatives, and `M` is any set of them.
-/

namespace Backjump

/-- One choice: its alternatives, which is selected, and the levels it rests on. -/
structure Choice (ι α : Type) where
  id : ι
  alternatives : List α
  current : Nat
  base : Set Nat
  learned : Set Nat

variable {ι α : Type}

namespace Choice

def selected (c : Choice ι α) : Option α := c.alternatives[c.current]?

/-- The next alternative, the current one having failed because of `levels`. -/
def advance (c : Choice ι α) (levels : Set Nat) : Choice ι α :=
  { c with current := c.current + 1, learned := c.learned ∪ levels }

end Choice

/-- The solution takes the selected alternative at the level. -/
def AgreesAt (stack : List (Choice ι α)) (f : ι → α) (level : Nat) : Prop :=
  ∃ c, stack[level]? = some c ∧ c.selected = some (f c.id)

def Agrees (stack : List (Choice ι α)) (f : ι → α) (levels : Set Nat) : Prop :=
  ∀ level ∈ levels, AgreesAt stack f level

/-- The levels are levels of the stack, and no solution agrees with all of them. -/
structure Refuted (M : Set (ι → α)) (stack : List (Choice ι α)) (levels : Set Nat) : Prop where
  live : ∀ level ∈ levels, level < stack.length
  none_agrees : ∀ f ∈ M, ¬ Agrees stack f levels

/-- What is known about the choice at level `i`. -/
structure Choice.Sound (M : Set (ι → α)) (stack : List (Choice ι α)) (i : Nat) (c : Choice ι α) :
    Prop where
  base_lt : ∀ level ∈ c.base, level < i
  learned_lt : ∀ level ∈ c.learned, level < i
  /-- A solution that agrees with the base takes one of the alternatives. -/
  base : ∀ f ∈ M, Agrees stack f c.base → f c.id ∈ c.alternatives
  /-- A solution that agrees with what was learned takes none of the earlier ones. -/
  learned : ∀ f ∈ M, Agrees stack f c.learned → ∀ j < c.current, c.alternatives[j]? ≠ some (f c.id)

def Sound (M : Set (ι → α)) (stack : List (Choice ι α)) : Prop :=
  ∀ (i : Nat) (c : Choice ι α), stack[i]? = some c → c.Sound M stack i

variable {M : Set (ι → α)} {stack stack' : List (Choice ι α)} {f : ι → α} {levels levels' : Set Nat}
  {t : Nat} {c : Choice ι α}

theorem Agrees.mono (h : Agrees stack f levels) (hsub : levels' ⊆ levels) :
    Agrees stack f levels' :=
  fun level hl => h level (hsub hl)

theorem agrees_congr (hlt : ∀ level ∈ levels, level < t)
    (hsame : ∀ i : Nat, i < t → stack'[i]? = stack[i]?) :
    Agrees stack' f levels ↔ Agrees stack f levels := by
  have hat : ∀ level ∈ levels, (AgreesAt stack' f level ↔ AgreesAt stack f level) := by
    intro level hl
    unfold AgreesAt
    rw [hsame level (hlt level hl)]
  exact forall₂_congr hat

theorem Choice.Sound.congr {i : Nat} (h : c.Sound M stack i)
    (hsame : ∀ j : Nat, j < i → stack'[j]? = stack[j]?) : c.Sound M stack' i where
  base_lt := h.base_lt
  learned_lt := h.learned_lt
  base f hf ha := h.base f hf ((agrees_congr h.base_lt hsame).mp ha)
  learned f hf ha := h.learned f hf ((agrees_congr h.learned_lt hsame).mp ha)

theorem Sound.of_below (h : Sound M stack) (hlen : stack'.length ≤ t + 1)
    (hsame : ∀ i : Nat, i < t → stack'[i]? = stack[i]?)
    (htop : ∀ c, stack'[t]? = some c → c.Sound M stack' t) : Sound M stack' := by
  intro i c hc
  have hi := (List.getElem?_eq_some_iff.mp hc).1
  by_cases hit : i < t
  · rw [hsame i hit] at hc
    exact (h i c hc).congr fun j hj => hsame j (by omega)
  · have heq : i = t := by omega
    subst heq
    exact htop c hc

/-- A solution that agrees with everything below a choice takes an alternative the choice
has not passed. -/
theorem Sound.ahead (h : Sound M stack) (hc : stack[t]? = some c) (hf : f ∈ M)
    (ha : ∀ level < t, AgreesAt stack f level) :
    ∃ j, c.current ≤ j ∧ c.alternatives[j]? = some (f c.id) := by
  have hs := h t c hc
  obtain ⟨j, hj⟩ := List.mem_iff_getElem?.mp (hs.base f hf fun level hl =>
    ha level (hs.base_lt level hl))
  refine ⟨j, Nat.le_of_not_lt fun hlt => ?_, hj⟩
  exact hs.learned f hf (fun level hl => ha level (hs.learned_lt level hl)) j hlt hj

section Refuting

variable (h : Sound M stack) (hr : Refuted M stack levels) (hc : stack[t]? = some c)
  (htop : ∀ level ∈ levels, level ≤ t)

include htop in
theorem lt_of_mem_diff : ∀ level ∈ levels \ {t}, level < t := by
  rintro level ⟨hl, hne⟩
  have hle := htop level hl
  have hne' : level ≠ t := hne
  omega

include hr hc in
/-- Under the rest of a refuted set, the selected alternative is ruled out. -/
theorem Refuted.selected_ne (hf : f ∈ M) (ha : Agrees stack f (levels \ {t})) :
    c.selected ≠ some (f c.id) := by
  intro hsel
  refine hr.none_agrees f hf fun level hl => ?_
  by_cases heq : level = t
  · subst heq
    exact ⟨c, hc, hsel⟩
  · exact ha level ⟨hl, heq⟩

include h hr hc htop in
/-- Moving the choice on under the rest of a refuted set. -/
theorem Sound.advance (hlen : stack'.length ≤ t + 1)
    (hsame : ∀ i : Nat, i < t → stack'[i]? = stack[i]?)
    (hnew : ∀ c', stack'[t]? = some c' → c' = c.advance (levels \ {t})) : Sound M stack' := by
  refine h.of_below hlen hsame fun c' hc' => ?_
  rw [hnew c' hc']
  have hs := h t c hc
  have hlt := lt_of_mem_diff htop
  refine ⟨hs.base_lt, fun level hl => ?_, fun f hf ha => ?_, fun f hf ha j hj hsome => ?_⟩
  · exact hl.elim (hs.learned_lt level) (hlt level)
  · exact hs.base f hf ((agrees_congr hs.base_lt hsame).mp ha)
  · have hlearned := (agrees_congr hs.learned_lt hsame).mp (ha.mono Set.subset_union_left)
    have hrest := (agrees_congr hlt hsame).mp (ha.mono Set.subset_union_right)
    have hj' : j < c.current + 1 := hj
    by_cases hcur : j < c.current
    · exact hs.learned f hf hlearned j hcur hsome
    · have heq : j = c.current := by omega
      subst heq
      exact hr.selected_ne hc hf hrest hsome

include h hr hc htop in
/-- An exhausted choice: what it rests on is refuted without it. -/
theorem Sound.exhaust (hlast : c.alternatives.length ≤ c.current + 1) (hlen : stack'.length = t)
    (hsame : ∀ i : Nat, i < t → stack'[i]? = stack[i]?) :
    Refuted M stack' (c.base ∪ c.learned ∪ levels \ {t}) := by
  have hs := h t c hc
  have hlt := lt_of_mem_diff htop
  refine ⟨fun level hl => ?_, fun f hf ha => ?_⟩
  · rw [hlen]
    rcases hl with (hl | hl) | hl
    · exact hs.base_lt level hl
    · exact hs.learned_lt level hl
    · exact hlt level hl
  · have hbase := (agrees_congr hs.base_lt hsame).mp
      (ha.mono (Set.subset_union_left.trans Set.subset_union_left))
    have hlearned := (agrees_congr hs.learned_lt hsame).mp
      (ha.mono (Set.subset_union_right.trans Set.subset_union_left))
    have hrest := (agrees_congr hlt hsame).mp (ha.mono Set.subset_union_right)
    -- it takes some alternative, but each of them is ruled out
    obtain ⟨j, hj⟩ := List.mem_iff_getElem?.mp (hs.base f hf hbase)
    have hjlt := (List.getElem?_eq_some_iff.mp hj).1
    by_cases hcur : j < c.current
    · exact hs.learned f hf hlearned j hcur hj
    · have heq : j = c.current := by omega
      subst heq
      exact hr.selected_ne hc hf hrest hj

end Refuting

/-- When nothing is left to blame, there is no solution. -/
theorem Refuted.eq_empty (hr : Refuted M stack levels) (hnone : ∀ level, level ∉ levels) :
    M = ∅ := by
  rw [Set.eq_empty_iff_forall_notMem]
  exact fun f hf => hr.none_agrees f hf fun level hl => absurd hl (hnone level)

end Backjump
