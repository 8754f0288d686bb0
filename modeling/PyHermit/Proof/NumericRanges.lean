import Mathlib.Algebra.Order.Archimedean.Basic
import Mathlib.Data.Nat.Prime.Basic
import Mathlib.Data.Prod.Lex
import Mathlib.Data.Set.Finite.Basic
import PyHermit.Datatypes.Numeric

/-!
# Numeric ranges are unions of intervals

An end of an interval cuts the rationals in two: before a value, or right after it
(`Cut`). Between its two cuts an interval is half-open, so open and closed ends need no
cases: the stronger of two ends is a maximum or a minimum, intervals can be merged when one
starts no later than the other ends, and a gap ends where the next interval starts.
-/

open Prog List

namespace PyHermit

open NumericInterval

/-- A place between the rationals: before a value, or right after it. -/
abbrev Cut := WithBot (WithTop (ℚ ×ₗ ℕ))

def cutAt (value : Rat) (after : Bool) : Cut :=
  ((toLex (value, after.toNat) : ℚ ×ₗ ℕ) : WithTop (ℚ ×ₗ ℕ))

section Cuts

variable {a b : Rat} {x y : Bool}

theorem cutAt_le : cutAt a x ≤ cutAt b y ↔ a < b ∨ (a = b ∧ x.toNat ≤ y.toNat) := by
  unfold cutAt
  rw [WithBot.coe_le_coe, WithTop.coe_le_coe, Prod.Lex.toLex_le_toLex]

theorem cutAt_lt : cutAt a x < cutAt b y ↔ a < b ∨ (a = b ∧ x.toNat < y.toNat) := by
  unfold cutAt
  rw [WithBot.coe_lt_coe, WithTop.coe_lt_coe, Prod.Lex.toLex_lt_toLex]

theorem cutAt_lt_top : cutAt a x < ⊤ := WithBot.coe_lt_coe.mpr (WithTop.coe_lt_top _)

theorem exactCompare_eq : exactCompare a b = compare a b := by
  unfold exactCompare
  rcases lt_trichotomy a b with h | rfl | h
  · rw [compare_lt_iff_lt.mpr h, compare_lt_iff_lt, ← Rat.lt_iff]
    exact h
  · rw [compare_eq_iff_eq.mpr rfl, compare_eq_iff_eq.mpr rfl]
  · rw [compare_gt_iff_gt.mpr h, compare_gt_iff_gt, ← Rat.lt_iff]
    exact h

theorem exactCompare_lt : exactCompare a b = .lt ↔ a < b := by
  rw [exactCompare_eq, compare_lt_iff_lt]

theorem exactCompare_gt : exactCompare a b = .gt ↔ b < a := by
  rw [exactCompare_eq, compare_gt_iff_gt]

theorem exactCompare_eq_eq : exactCompare a b = .eq ↔ a = b := by
  rw [exactCompare_eq, compare_eq_iff_eq]

theorem max_cutAt : max (cutAt a x) (cutAt b y) = match exactCompare a b with
    | .gt => cutAt a x
    | .lt => cutAt b y
    | .eq => cutAt a (x || y) := by
  rcases lt_trichotomy a b with h | rfl | h
  · simp [exactCompare_lt.mpr h, cutAt_le, h]
  · rw [exactCompare_eq_eq.mpr rfl]
    cases x <;> cases y <;> simp [cutAt_le]
  · simp [exactCompare_gt.mpr h, cutAt_le, h]

theorem min_cutAt : min (cutAt a x) (cutAt b y) = match exactCompare a b with
    | .lt => cutAt a x
    | .gt => cutAt b y
    | .eq => cutAt a (x && y) := by
  rcases lt_trichotomy a b with h | rfl | h
  · simp [exactCompare_lt.mpr h, cutAt_le, h]
  · rw [exactCompare_eq_eq.mpr rfl]
    cases x <;> cases y <;> simp [cutAt_le]
  · simp [exactCompare_gt.mpr h, cutAt_le, h]

end Cuts

namespace NumericInterval

def low (interval : NumericInterval) : Cut :=
  interval.lower.elim ⊥ fun bound => cutAt bound.value !bound.inclusive

def high (interval : NumericInterval) : Cut :=
  interval.upper.elim ⊤ fun bound => cutAt bound.value bound.inclusive

variable {i j : NumericInterval} {d : NumericDomain} {v : Rat}

theorem contains_iff : i.contains v d = true ↔
    numericDomainContains d v = true ∧ i.low ≤ cutAt v false ∧ cutAt v false < i.high := by
  unfold contains low high
  rw [Bool.and_eq_true, Bool.and_eq_true, and_assoc]
  refine and_congr_right fun _ => and_congr ?_ ?_
  · cases i.lower with
    | none => simp
    | some b =>
      cases hb : b.inclusive <;>
        simp [cutAt_le, exactCompare_lt, exactCompare_eq_eq, hb] <;> grind
  · cases i.upper with
    | none => simp [cutAt_lt_top]
    | some b =>
      cases hb : b.inclusive <;>
        simp [cutAt_lt, exactCompare_gt, exactCompare_eq_eq, hb] <;> grind

theorem canMerge_iff : i.canMerge j = true ↔ j.low ≤ i.high := by
  unfold canMerge low high
  cases i.upper with
  | none => simp
  | some u =>
    cases j.lower with
    | none => simp
    | some l =>
      simp only [Option.elim_some, cutAt_le]
      rcases lt_trichotomy u.value l.value with h | h | h
      · simp [exactCompare_lt.mpr h, h.le, h.ne']
      · rw [h, exactCompare_eq_eq.mpr rfl]
        cases u.inclusive <;> cases l.inclusive <;> simp
      · simp [exactCompare_gt.mpr h, h]

theorem high_merge : (i.merge j).high = max i.high j.high := by
  unfold merge high
  cases i.upper with
  | none => simp
  | some u =>
    cases j.upper with
    | none => simp
    | some l =>
      simp only [Option.elim_some, max_cutAt]
      cases exactCompare u.value l.value <;> simp

theorem low_intersection : (i.intersection j).low = max i.low j.low := by
  unfold intersection strongerLower low
  cases i.lower with
  | none => simp
  | some u =>
    cases j.lower with
    | none => simp
    | some l =>
      simp only [Option.elim_some, max_cutAt]
      cases exactCompare u.value l.value <;> simp

theorem high_intersection : (i.intersection j).high = min i.high j.high := by
  unfold intersection strongerUpper high
  cases i.upper with
  | none => simp
  | some u =>
    cases j.upper with
    | none => simp
    | some l =>
      simp only [Option.elim_some, min_cutAt]
      cases exactCompare u.value l.value <;> simp

theorem compareLower_iff : (compareLower i j).isLE = true ↔ i.low ≤ j.low := by
  unfold compareLower low
  cases i.lower with
  | none => cases j.lower <;> simp
  | some u =>
    cases j.lower with
    | none => simp [cutAt]
    | some l =>
      simp only [Option.elim_some, cutAt_le]
      rcases lt_trichotomy u.value l.value with h | h | h
      · simp [exactCompare_lt.mpr h, h]
      · rw [h, exactCompare_eq_eq.mpr rfl]
        cases u.inclusive <;> cases l.inclusive <;> simp <;> decide
      · simp [exactCompare_gt.mpr h, h.le, h.ne']

theorem compareUpper_eq : compareUpper i j = .eq ↔
      i.upper.map (·.value) = j.upper.map (·.value) := by
  unfold compareUpper
  cases i.upper <;> cases j.upper <;> simp [exactCompare_eq_eq]

theorem not_between (h : i.upper.map (·.value) = j.upper.map (·.value)) {k : NumericInterval}
    (hk : j.high < k.low) : i.high ≤ k.low := by
  unfold high low at *
  cases hi : i.upper with
  | none => cases hj : j.upper <;> simp_all
  | some u =>
    cases hj : j.upper with
    | none => simp_all
    | some l =>
      cases hl : k.lower with
      | none => simp_all
      | some b =>
        simp only [hi, hj, hl, Option.map_some, Option.some.injEq, Option.elim_some, cutAt_lt,
          cutAt_le] at h hk ⊢
        rw [h]
        refine hk.imp_right fun hk => ⟨hk.1, ?_⟩
        have := Bool.toNat_le u.inclusive
        omega

theorem compareUpper_lt (h : compareUpper i j = .lt) : i.high < j.high := by
  unfold compareUpper at h
  unfold high
  cases hi : i.upper <;> cases hj : j.upper <;> simp_all [cutAt_lt, cutAt_lt_top, exactCompare_lt]

theorem compareUpper_gt (h : compareUpper i j = .gt) : j.high < i.high := by
  unfold compareUpper at h
  unfold high
  cases hi : i.upper <;> cases hj : j.upper <;> simp_all [cutAt_lt, cutAt_lt_top, exactCompare_gt]

end NumericInterval

/-! ## Values of a domain -/

theorem stripFactor_spec (factor : Nat) {n rounds : Nat} (hf : 1 < factor) (hn : 0 < n)
    (hr : n ≤ rounds) :
    stripFactor factor rounds n ∣ n ∧ ¬ factor ∣ stripFactor factor rounds n := by
  induction rounds generalizing n with
  | zero => omega
  | succ rounds ih =>
    unfold stripFactor
    split
    · rename_i hdvd
      obtain ⟨m, rfl⟩ := Nat.dvd_of_mod_eq_zero hdvd
      have hm : 0 < m := Nat.pos_of_mul_pos_left hn
      have hlt : m < factor * m := lt_mul_of_one_lt_left hm hf
      rw [Nat.mul_div_cancel_left m (by omega)]
      obtain ⟨h1, h2⟩ := ih hm (by omega)
      exact ⟨h1.mul_left factor, h2⟩
    · rename_i hdvd
      exact ⟨Nat.dvd_refl n, fun h => hdvd (Nat.mod_eq_zero_of_dvd h)⟩

variable {v : Rat} {d : NumericDomain}

theorem decimal_of_den_dvd {n : Nat} (h : v.den ∣ 10 ^ n) :
    numericDomainContains .decimal v = true := by
  have hpos := v.den_pos
  obtain ⟨h1, h2⟩ := stripFactor_spec 2 (by omega) hpos (Nat.le_refl v.den)
  have hpos' := Nat.pos_of_dvd_of_pos h1 hpos
  obtain ⟨h3, h4⟩ := stripFactor_spec 5 (by omega) hpos' (Nat.le_of_dvd hpos h1)
  have hcop2 : Nat.Coprime (stripFactor 5 v.den (stripFactor 2 v.den v.den)) 2 :=
    ((Nat.Prime.coprime_iff_not_dvd Nat.prime_two).mpr fun h => h2 (h.trans h3)).symm
  have hcop5 : Nat.Coprime (stripFactor 5 v.den (stripFactor 2 v.den v.den)) 5 :=
    ((Nat.Prime.coprime_iff_not_dvd Nat.prime_five).mpr h4).symm
  have hcop : Nat.Coprime (stripFactor 5 v.den (stripFactor 2 v.den v.den)) (10 ^ n) :=
    (Nat.Coprime.mul_right hcop2 hcop5).pow_right n
  have hone := Nat.Coprime.eq_one_of_dvd hcop ((h3.trans h1).trans h)
  simp [numericDomainContains, hone]

theorem contains_int (n : Int) (d : NumericDomain) : numericDomainContains d n = true := by
  cases d with
  | decimal => exact decimal_of_den_dvd (n := 0) (by simp)
  | _ => simp [numericDomainContains]

theorem integer_iff : numericDomainContains .integer v = true ↔ ∃ n : Int, v = n := by
  rw [show numericDomainContains .integer v = decide (v.den = 1) from rfl, decide_eq_true_iff]
  exact ⟨fun h => ⟨v.num, (Rat.den_eq_one_iff v).mp h ▸ rfl⟩, fun ⟨n, hn⟩ => by rw [hn]; rfl⟩

theorem exists_between {a b : Rat} (hab : a < b) (hd : d ≠ .integer) :
    ∃ v, a < v ∧ v < b ∧ numericDomainContains d v = true := by
  obtain ⟨n, hn⟩ := pow_unbounded_of_one_lt (1 / (b - a)) (show (1 : ℚ) < 10 by norm_num)
  have hpos : (0 : ℚ) < 10 ^ n := by positivity
  have hgap : 1 < 10 ^ n * (b - a) := by
    rw [div_lt_iff₀ (by linarith)] at hn
    exact hn
  have hfloor := Int.lt_floor_add_one (a * 10 ^ n)
  have hle := Int.floor_le (a * 10 ^ n)
  refine ⟨(⌊a * 10 ^ n⌋ + 1 : Int) / (10 ^ n : Int), ?_, ?_, ?_⟩
  · push_cast
    rw [lt_div_iff₀ hpos]
    exact hfloor
  · push_cast
    rw [div_lt_iff₀ hpos]
    linarith
  · cases d with
    | integer => exact absurd rfl hd
    | decimal =>
      refine decimal_of_den_dvd (n := n) ?_
      have := Rat.den_dvd (⌊a * 10 ^ n⌋ + 1) (10 ^ n)
      exact_mod_cast this
    | rational | real => rfl

namespace NumericInterval

variable {i j p : NumericInterval} {l : List NumericInterval}

/-- An interval without one of its ends holds the integers along a ray. -/
theorem exists_ray (h : i.lower = none ∨ i.upper = none) :
    ∃ f : Nat → Int, Function.Injective f ∧
      ∀ k, i.low ≤ cutAt (f k) false ∧ cutAt (f k) false < i.high := by
  by_cases hu : i.upper = none
  · refine ⟨fun k => ⌊(i.lower.elim 0 (·.value))⌋ + 1 + k, fun k k' h => by simpa using h,
      fun k => ?_⟩
    unfold low high
    rw [hu]
    refine ⟨?_, cutAt_lt_top⟩
    cases i.lower with
    | none => exact bot_le
    | some b =>
      have := Int.lt_floor_add_one b.value
      refine cutAt_le.mpr (.inl ?_)
      push_cast
      simp only [Option.elim_some]
      linarith [Nat.cast_nonneg (α := ℚ) k]
  · obtain ⟨b, hb⟩ := Option.ne_none_iff_exists'.mp hu
    refine ⟨fun k => ⌊b.value⌋ - 1 - k, fun k k' h => by simpa using h, fun k => ?_⟩
    unfold low high
    rw [h.resolve_right hu, hb]
    refine ⟨bot_le, cutAt_lt.mpr (.inl ?_)⟩
    have := Int.floor_le b.value
    push_cast
    linarith [Nat.cast_nonneg (α := ℚ) k]

theorem integerBounds_eq_none : i.integerBounds = none ↔ i.lower = none ∨ i.upper = none := by
  unfold integerBounds
  cases i.lower <;> cases i.upper <;> simp

theorem mem_integerBounds {lo hi : Int} (h : i.integerBounds = some (lo, hi)) (n : Int) :
    (lo ≤ n ∧ n ≤ hi) ↔ i.low ≤ cutAt n false ∧ cutAt n false < i.high := by
  unfold integerBounds at h
  unfold low high
  cases hl : i.lower with
  | none => simp [hl] at h
  | some l =>
    cases hu : i.upper with
    | none => simp [hl, hu] at h
    | some u =>
      simp only [hl, hu, Option.some.injEq, Prod.mk.injEq] at h
      obtain ⟨rfl, rfl⟩ := h
      simp only [Option.elim_some, cutAt_le, cutAt_lt]
      refine and_congr ?_ ?_
      · cases l.inclusive with
        | true => simp [Int.ceil_le, ← le_iff_lt_or_eq]
        | false => simpa using Int.add_one_le_iff.trans Int.floor_lt
      · cases u.inclusive with
        | true => simp [Int.le_floor, ← le_iff_lt_or_eq]
        | false => simpa using Int.le_sub_one_iff.trans Int.lt_ceil

theorem isEmptyExact_integer :
    i.isEmptyExact .integer = i.integerBounds.any fun (lower, upper) => upper < lower := rfl

theorem isEmptyExact_iff : i.isEmptyExact d = false ↔ ∃ v, i.contains v d = true := by
  simp only [contains_iff]
  by_cases hd : d = .integer
  · subst hd
    simp only [integer_iff]
    rw [isEmptyExact_integer]
    cases hb : i.integerBounds with
    | none =>
      obtain ⟨f, -, hf⟩ := exists_ray (integerBounds_eq_none.mp hb)
      exact iff_of_true rfl ⟨f 0, ⟨f 0, rfl⟩, hf 0⟩
    | some bounds =>
      obtain ⟨lo, hi⟩ := bounds
      simp only [Option.any_some, decide_eq_false_iff_not, not_lt]
      constructor
      · intro hle
        exact ⟨lo, ⟨lo, rfl⟩, (mem_integerBounds hb lo).mp ⟨le_refl lo, hle⟩⟩
      · rintro ⟨_, ⟨n, rfl⟩, hn⟩
        obtain ⟨h1, h2⟩ := (mem_integerBounds hb n).mpr hn
        exact h1.trans h2
  · by_cases hray : i.lower = none ∨ i.upper = none
    · obtain ⟨f, -, hf⟩ := exists_ray hray
      refine iff_of_true ?_ ⟨f 0, contains_int _ d, hf 0⟩
      unfold isEmptyExact
      rw [if_neg hd]
      rcases hray with h | h <;> cases hl : i.lower <;> cases hu : i.upper <;> simp_all
    · obtain ⟨⟨l, hl⟩, u, hu⟩ :=
        (not_or.mp hray).imp Option.ne_none_iff_exists'.mp Option.ne_none_iff_exists'.mp
      unfold isEmptyExact low high
      rw [if_neg hd, hl, hu]
      simp only [Option.elim_some, cutAt_le, cutAt_lt]
      rcases lt_trichotomy l.value u.value with h | h | h
      · obtain ⟨v, h1, h2, h3⟩ := exists_between h hd
        exact iff_of_true (by rw [exactCompare_lt.mpr h]) ⟨v, h3, .inl h1, .inl h2⟩
      · rw [exactCompare_eq_eq.mpr h]
        constructor
        · intro hin
          simp only [Bool.not_eq_false', Bool.and_eq_true] at hin
          exact ⟨l.value, hin.2, .inr ⟨rfl, by simp [hin.1.1]⟩, .inr ⟨h, by simp [hin.1.2]⟩⟩
        · rintro ⟨v, hv, hv1 | ⟨rfl, hv1⟩, hv2 | ⟨hv2, hv3⟩⟩
          · linarith
          · linarith
          · linarith
          · cases hl : l.inclusive <;> cases hu : u.inclusive <;> simp_all
      · refine iff_of_false (by simp [exactCompare_gt.mpr h]) ?_
        rintro ⟨v, -, hv1, hv2⟩
        have : l.value ≤ v := by rcases hv1 with hv1 | hv1 <;> linarith
        have : v ≤ u.value := by rcases hv2 with hv2 | hv2 <;> linarith
        linarith

/-! ## Lists of intervals -/

/-- The cut lies in one of the intervals. -/
def Covered (l : List NumericInterval) (x : Cut) : Prop := ∃ i ∈ l, i.low ≤ x ∧ x < i.high

/-- Sorted, with room between any two. -/
def Apart (l : List NumericInterval) : Prop := l.Pairwise fun a b => a.high < b.low

theorem covered_cons {x : Cut} : Covered (i :: l) x ↔ (i.low ≤ x ∧ x < i.high) ∨ Covered l x := by
  simp [Covered]

theorem covered_append {m : List NumericInterval} {x : Cut} :
    Covered (l ++ m) x ↔ Covered l x ∨ Covered m x := by
  simp [Covered, or_and_right, exists_or]

theorem coalesce_spec (hp : ∀ i ∈ l, p.low ≤ i.low) (hl : l.Pairwise fun a b => a.low ≤ b.low) :
    Apart (coalesce p l) ∧ (∀ i ∈ coalesce p l, p.low ≤ i.low) ∧
      ∀ x, Covered (coalesce p l) x ↔ (p.low ≤ x ∧ x < p.high) ∨ Covered l x := by
  induction l generalizing p with
  | nil => simp [coalesce, Apart, Covered]
  | cons i l ih =>
    obtain ⟨hi, hl⟩ := pairwise_cons.mp hl
    have hpi := hp i mem_cons_self
    unfold coalesce
    split
    · rename_i hmerge
      rw [canMerge_iff] at hmerge
      obtain ⟨h1, h2, h3⟩ := ih (p := p.merge i) (fun j hj => hp j (mem_cons_of_mem i hj)) hl
      refine ⟨h1, h2, fun x => ?_⟩
      rw [h3 x, covered_cons, ← or_assoc, high_merge, lt_max_iff]
      refine or_congr_left ?_
      -- past the end of `p` the cut is past the start of `i`
      constructor
      · rintro ⟨hx, hlt | hlt⟩
        · exact .inl ⟨hx, hlt⟩
        · rcases lt_or_ge x p.high with h | h
          · exact .inl ⟨hx, h⟩
          · exact .inr ⟨hmerge.trans h, hlt⟩
      · rintro (⟨hx, hlt⟩ | ⟨hx, hlt⟩)
        · exact ⟨hx, .inl hlt⟩
        · exact ⟨hpi.trans hx, .inr hlt⟩
    · rename_i hmerge
      rw [canMerge_iff, not_le] at hmerge
      obtain ⟨h1, h2, h3⟩ := ih hi hl
      refine ⟨pairwise_cons.mpr ⟨fun j hj => hmerge.trans_le (h2 j hj), h1⟩, ?_, fun x => ?_⟩
      · exact forall_mem_cons.mpr ⟨le_rfl, fun j hj => hpi.trans (h2 j hj)⟩
      · rw [covered_cons, covered_cons, h3 x]

theorem coalesce_nonempty (h : ∀ i ∈ p :: l, ∃ v, i.contains v d = true) :
    ∀ i ∈ coalesce p l, ∃ v, i.contains v d = true := by
  induction l generalizing p with
  | nil => exact h
  | cons i l ih =>
    obtain ⟨hp, hrest⟩ := forall_mem_cons.mp h
    unfold coalesce
    split
    · refine ih (forall_mem_cons.mpr ⟨?_, (forall_mem_cons.mp hrest).2⟩)
      obtain ⟨v, hv⟩ := hp
      obtain ⟨h1, h2, h3⟩ := contains_iff.mp hv
      exact ⟨v, contains_iff.mpr ⟨h1, h2, by rw [high_merge]; exact lt_max_of_lt_left h3⟩⟩
    · exact forall_mem_cons.mpr ⟨hp, ih hrest⟩

/-- What a range is made of: sorted, disjoint, non-mergeable intervals that hold a value. -/
structure Regular (d : NumericDomain) (l : List NumericInterval) : Prop where
  nonempty : ∀ i ∈ l, ∃ v, i.contains v d = true
  apart : Apart l

theorem normalize_spec (d : NumericDomain) (l : List NumericInterval) :
    Regular d (normalizeNumeric d l) ∧ ∀ v, numericDomainContains d v = true →
      (Covered (normalizeNumeric d l) (cutAt v false) ↔ Covered l (cutAt v false)) := by
  have hperm := mergeSort_perm (l.filter (!·.isEmptyExact d)) fun a b => (compareLower a b).isLE
  have hsorted := @pairwise_mergeSort _ (fun a b => (compareLower a b).isLE)
    (fun a b c hab hbc => compareLower_iff.mpr ((compareLower_iff.mp hab).trans
      (compareLower_iff.mp hbc)))
    (fun a b => by rw [Bool.or_eq_true, compareLower_iff, compareLower_iff]; exact le_total _ _)
    (l.filter (!·.isEmptyExact d))
  unfold normalizeNumeric
  generalize
    (l.filter (!·.isEmptyExact d)).mergeSort (fun a b => (compareLower a b).isLE) = sorted at *
  have hcovered : ∀ v, numericDomainContains d v = true →
      (Covered sorted (cutAt v false) ↔ Covered l (cutAt v false)) := by
    intro v hv
    unfold Covered
    refine exists_congr fun i => and_congr_left fun hi => ?_
    rw [hperm.mem_iff, mem_filter, Bool.not_eq_true', isEmptyExact_iff]
    exact and_iff_left ⟨v, contains_iff.mpr ⟨hv, hi⟩⟩
  have hnonempty : ∀ i ∈ sorted, ∃ v, i.contains v d = true := by
    intro i hi
    rw [hperm.mem_iff, mem_filter, Bool.not_eq_true', isEmptyExact_iff] at hi
    exact hi.2
  cases sorted with
  | nil => exact ⟨⟨nofun, .nil⟩, hcovered⟩
  | cons i rest =>
    obtain ⟨hi, hrest⟩ := pairwise_cons.mp hsorted
    obtain ⟨h1, -, h3⟩ := coalesce_spec (fun j hj => compareLower_iff.mp (hi j hj))
      (hrest.imp fun h => compareLower_iff.mp h)
    refine ⟨⟨coalesce_nonempty hnonempty, h1⟩, fun v hv => ?_⟩
    rw [← hcovered v hv, h3, covered_cons]

end NumericInterval

/-! ## Ranges -/

namespace NumericRange

open NumericInterval

variable {r s t : NumericRange} {l m : List NumericInterval} {x : Cut}

theorem contains_iff_covered : r.contains v = true ↔
    numericDomainContains r.domain v = true ∧ Covered r.intervals (cutAt v false) := by
  simp only [contains, any_eq_true, contains_iff, Covered]
  exact ⟨fun ⟨i, hi, h1, h2⟩ => ⟨h1, i, hi, h2⟩, fun ⟨h1, i, hi, h2⟩ => ⟨i, hi, h1, h2⟩⟩

theorem contains_new : (new d l).contains v = true ↔
    numericDomainContains d v = true ∧ Covered l (cutAt v false) := by
  rw [contains_iff_covered]
  exact and_congr_right fun h => (normalize_spec d l).2 v h

/-- Two lists meet in their first intervals, or one behind a first interval. -/
theorem meet_iff {A B L M : Prop} (h : ¬ (A ∧ M)) :
    (A ∧ B) ∨ (L ∧ (B ∨ M)) ↔ (A ∨ L) ∧ (B ∨ M) := by
  tauto

/-- An interval that ends first meets nothing of what follows the other. -/
theorem not_covered_behind {a b : NumericInterval} (hm : ∀ k ∈ m, b.high < k.low)
    (hle : a.high ≤ b.high ∨ a.upper.map (·.value) = b.upper.map (·.value)) :
    ¬ ((a.low ≤ x ∧ x < a.high) ∧ Covered m x) := by
  rintro ⟨⟨-, hx⟩, k, hk, hkx, -⟩
  rcases hle with hle | heq
  · exact absurd (hx.trans_le (hle.trans (hm k hk).le)) hkx.not_gt
  · exact absurd (hx.trans_le (not_between heq (hm k hk))) hkx.not_gt

theorem covered_overlaps (hl : Apart l) (hm : Apart m) :
    Covered (overlaps l m) x ↔ Covered l x ∧ Covered m x := by
  fun_induction overlaps l m with
  | case1 a l b m ih1 ih2 ih3 =>
    have hinter : ((a.intersection b).low ≤ x ∧ x < (a.intersection b).high) ↔
        (a.low ≤ x ∧ x < a.high) ∧ (b.low ≤ x ∧ x < b.high) := by
      rw [low_intersection, high_intersection, max_le_iff, lt_min_iff]
      tauto
    obtain ⟨ha, hl'⟩ := pairwise_cons.mp hl
    obtain ⟨hb, hm'⟩ := pairwise_cons.mp hm
    rw [covered_cons, hinter]
    cases hcmp : compareUpper a b with
    | lt =>
      have hnot := not_covered_behind (x := x) hb (.inl (compareUpper_lt hcmp).le)
      simp only [ih1 hl' hm, covered_cons]
      exact meet_iff hnot
    | gt =>
      have hnot := not_covered_behind (x := x) ha (.inl (compareUpper_gt hcmp).le)
      simp only [ih2 hl hm', covered_cons]
      rw [and_comm, and_comm (b := Covered m x), meet_iff hnot, and_comm]
    | eq =>
      have hnot := not_covered_behind (x := x) hb (.inr (compareUpper_eq.mp hcmp))
      have hnot' := not_covered_behind (x := x) ha (.inr (compareUpper_eq.mp hcmp).symm)
      simp only [ih3 hl' hm', covered_cons]
      rw [← meet_iff hnot]
      exact or_congr_right (and_congr_right fun h => (or_iff_right fun hb => hnot' ⟨hb, h⟩).symm)
  | case2 l m h =>
    cases l with
    | nil => simp [Covered]
    | cons a l =>
      cases m with
      | nil => simp [Covered]
      | cons b m => exact (h a l b m rfl rfl).elim

/-- Behind its start, the gaps hold what the intervals leave. -/
theorem covered_gaps {lower : Option Bound} (hl : Regular d l)
    (hstart : ∀ i ∈ l, low ⟨lower, none⟩ ≤ i.low) (hx : x < ⊤) :
    Covered (gaps lower l) x ↔ low ⟨lower, none⟩ ≤ x ∧ ¬ Covered l x := by
  induction l generalizing lower with
  | nil =>
    have hhigh : high ⟨lower, none⟩ = ⊤ := rfl
    simp [gaps, Covered, hhigh, hx]
  | cons i l ih =>
    obtain ⟨happ, htail⟩ := pairwise_cons.mp hl.apart
    have hi := hstart i mem_cons_self
    obtain ⟨v, hv⟩ := hl.nonempty i mem_cons_self
    have hproper : i.low < i.high := (contains_iff.mp hv).2.1.trans_lt (contains_iff.mp hv).2.2
    have hbehind : Covered l x → i.high < x := fun ⟨j, hj, hle, _⟩ => (happ j hj).trans_le hle
    have hfirst : Covered (i.lower.toList.map fun bound =>
        (⟨lower, some ⟨bound.value, !bound.inclusive⟩⟩ : NumericInterval)) x ↔
          low ⟨lower, none⟩ ≤ x ∧ x < i.low := by
      unfold Covered low high
      cases i.lower <;> simp
    have hrest : Covered (i.upper.elim [] fun bound =>
        gaps (some ⟨bound.value, !bound.inclusive⟩) l) x ↔ i.high ≤ x ∧ ¬ Covered l x := by
      cases hu : i.upper with
      | none =>
        have htop : i.high = ⊤ := by
          unfold high
          rw [hu]
          rfl
        simp [Covered, htop, hx.ne]
      | some u =>
        have hhigh : i.high = low ⟨some ⟨u.value, !u.inclusive⟩, none⟩ := by
          unfold high low
          simp [hu]
        rw [hhigh] at happ ⊢
        exact ih ⟨fun j hj => hl.nonempty j (mem_cons_of_mem i hj), htail⟩
          fun j hj => (happ j hj).le
    unfold gaps
    rw [covered_append, hfirst, hrest, covered_cons]
    constructor
    · rintro (⟨hle, hlt⟩ | ⟨hle, hnot⟩)
      · refine ⟨hle, ?_⟩
        rintro (h | h)
        · exact h.1.not_gt hlt
        · exact (hbehind h).not_gt (hlt.trans hproper)
      · exact ⟨hi.trans (hproper.le.trans hle), fun h => h.elim (fun h => hle.not_gt h.2) hnot⟩
    · rintro ⟨hle, hnot⟩
      rcases lt_or_ge x i.low with h | h
      · exact .inl ⟨hle, h⟩
      · exact .inr ⟨le_of_not_gt fun hlt => hnot (.inl ⟨h, hlt⟩), fun h => hnot (.inr h)⟩

/-! ### The operations -/

theorem contains_smaller {a b : NumericDomain} : numericDomainContains (smaller a b) v = true ↔
    numericDomainContains a v = true ∧ numericDomainContains b v = true := by
  have hint : numericDomainContains .integer v = true → ∀ c, numericDomainContains c v = true := by
    intro h c
    obtain ⟨n, rfl⟩ := integer_iff.mp h
    exact contains_int n c
  have hreal : numericDomainContains .real v = true := rfl
  have hrational : numericDomainContains .rational v = true := rfl
  cases a <;> cases b <;> simp [smaller, hreal, hrational] <;> exact fun h => hint h _

theorem contains_intersection (hr : Apart r.intervals) (hs : Apart s.intervals) :
    (r.intersection s).contains v = true ↔ r.contains v = true ∧ s.contains v = true := by
  unfold intersection
  rw [contains_new, covered_overlaps hr hs, contains_smaller, contains_iff_covered,
    contains_iff_covered, and_and_and_comm]

theorem union_eq_ok : r.union s = .ok t ↔
    r.domain = s.domain ∧ t = new r.domain (r.intervals ++ s.intervals) := by
  unfold union
  rw [bind_eq_ok]
  constructor
  · rintro ⟨_, h, ht⟩
    cases ht
    exact ⟨ensure_eq_ok.mp h, rfl⟩
  · rintro ⟨h, rfl⟩
    exact ⟨(), ensure_eq_ok.mpr h, rfl⟩

theorem contains_union (h : r.union s = .ok t) :
    t.contains v = true ↔ r.contains v = true ∨ s.contains v = true := by
  obtain ⟨hd, rfl⟩ := union_eq_ok.mp h
  rw [contains_new, covered_append, contains_iff_covered, contains_iff_covered, ← hd, and_or_left]

theorem contains_complement (hr : Regular r.domain r.intervals)
    (hv : numericDomainContains r.domain v = true) :
    r.complement.contains v = true ↔ ¬ r.contains v = true := by
  unfold complement
  split
  · rename_i hnil
    refine iff_of_true (contains_iff_covered.mpr ?_) (by simp [contains, hnil])
    exact ⟨hv, .unbounded, mem_singleton_self _, bot_le, cutAt_lt_top⟩
  · rw [contains_new, covered_gaps hr (fun i _ => bot_le) cutAt_lt_top, contains_iff_covered]
    have hbot : low ⟨none, none⟩ ≤ cutAt v false := bot_le
    tauto

/-- The value order a facet asks for. -/
def facetAllows : OrderedFacet → Rat → Rat → Prop
  | .minInclusive, boundary, value => boundary ≤ value
  | .minExclusive, boundary, value => boundary < value
  | .maxInclusive, boundary, value => value ≤ boundary
  | .maxExclusive, boundary, value => value < boundary

theorem contains_applyFacet (hr : Apart r.intervals) (facet : OrderedFacet) (boundary : Rat) :
    (r.applyFacet facet boundary).contains v = true ↔
      r.contains v = true ∧ facetAllows facet boundary v := by
  have hfacet : Covered [facetInterval facet boundary] (cutAt v false) ↔
      facetAllows facet boundary v := by
    cases facet <;> simp [Covered, facetInterval, facetAllows, low, high, cutAt_le,
      cutAt_lt, cutAt_lt_top, ← le_iff_lt_or_eq]
  unfold applyFacet
  rw [contains_intersection hr (normalize_spec _ _).1.apart, contains_new, hfacet,
    contains_iff_covered]
  tauto

/-- The ranges that the operations build. -/
inductive Reachable : NumericRange → Prop
  | all (d : NumericDomain) : Reachable (all d)
  | empty (d : NumericDomain) : Reachable (empty d)
  | intersection {r s : NumericRange} : Reachable r → Reachable s → Reachable (r.intersection s)
  | union {r s t : NumericRange} : Reachable r → Reachable s → r.union s = .ok t → Reachable t
  | complement {r : NumericRange} : Reachable r → Reachable r.complement
  | applyFacet {r : NumericRange} (facet : OrderedFacet) (boundary : Rat) :
      Reachable r → Reachable (r.applyFacet facet boundary)

theorem regular_all (d : NumericDomain) : Regular d [.unbounded] := by
  refine ⟨fun i hi => ⟨((0 : Int) : Rat), ?_⟩, pairwise_singleton _ _⟩
  rw [mem_singleton.mp hi, contains_iff]
  exact ⟨contains_int 0 d, bot_le, cutAt_lt_top⟩

theorem Reachable.regular (h : Reachable r) : Regular r.domain r.intervals := by
  cases h with
  | all d => exact regular_all d
  | empty d => exact ⟨nofun, .nil⟩
  | intersection _ _ => exact (normalize_spec _ _).1
  | union _ _ h =>
    obtain ⟨-, rfl⟩ := union_eq_ok.mp h
    exact (normalize_spec _ _).1
  | complement h =>
    unfold NumericRange.complement
    split
    · exact regular_all _
    · exact (normalize_spec _ _).1
  | applyFacet _ _ _ => exact (normalize_spec _ _).1

/-! ### Counting integers -/

theorem intervalValues_integer {i : NumericInterval} {lo hi : Int}
    (hb : i.integerBounds = some (lo, hi)) :
    ∃ values, intervalValues .integer i = .ok values ∧ values.length = (hi - lo + 1).toNat ∧
      values.Pairwise (· < ·) ∧ ∀ v, v ∈ values ↔ i.contains v .integer = true := by
  refine ⟨_, by unfold intervalValues; rw [if_pos rfl, hb], by simp, ?_, fun v => ?_⟩
  · refine pairwise_map.mpr (pairwise_lt_range.imp fun h => ?_)
    push_cast
    have : ((_ : Nat) : ℚ) < _ := Nat.cast_lt.mpr h
    linarith
  · rw [contains_iff, integer_iff, mem_map]
    constructor
    · rintro ⟨k, hk, rfl⟩
      rw [mem_range] at hk
      exact ⟨⟨lo + k, rfl⟩, (mem_integerBounds hb _).mp ⟨by omega, by omega⟩⟩
    · rintro ⟨⟨n, rfl⟩, hn⟩
      obtain ⟨h1, h2⟩ := (mem_integerBounds hb n).mpr hn
      refine ⟨(n - lo).toNat, mem_range.mpr (by omega), ?_⟩
      rw [show lo + ((n - lo).toNat : Int) = n by omega]

theorem countValues_integer (h : ∀ i ∈ l, ∃ v, i.contains v .integer = true) (total : Nat) :
    ((∃ i ∈ l, i.integerBounds = none) ∧ countValues .integer l total = .infinite) ∨
      ∃ lists, l.mapM (intervalValues .integer) = .ok lists ∧
        countValues .integer l total = .ofNat (total + lists.flatten.length) := by
  induction l generalizing total with
  | nil => exact .inr ⟨[], rfl, rfl⟩
  | cons i l ih =>
    have hne := isEmptyExact_iff.mpr (h i mem_cons_self)
    unfold countValues NumericInterval.cardinality
    rw [hne]
    cases hb : i.integerBounds with
    | none => exact .inl ⟨⟨i, mem_cons_self, hb⟩, rfl⟩
    | some bounds =>
      obtain ⟨lo, hi⟩ := bounds
      obtain ⟨values, hvalues, hlength, -⟩ := intervalValues_integer hb
      have hle : lo ≤ hi := by
        rw [isEmptyExact_integer, hb] at hne
        simpa using hne
      have hcount : Cardinality.ofNat (hi - lo + 1).toNat = .finite values.length := by
        unfold Cardinality.ofNat
        rw [if_neg (by omega), hlength]
      simp only [Bool.false_eq_true, if_false, if_true, hcount]
      rcases ih (fun j hj => h j (mem_cons_of_mem i hj)) (total + values.length) with
        ⟨⟨j, hj, hjb⟩, hinf⟩ | ⟨lists, hlists, hcard⟩
      · exact .inl ⟨⟨j, mem_cons_of_mem i hj, hjb⟩, hinf⟩
      · refine .inr ⟨values :: lists, ?_, ?_⟩
        · rw [mapM_cons, hvalues, hlists]
          rfl
        · rw [hcard, flatten_cons, length_append, Nat.add_assoc]

theorem flatten_values {lists : List (List Rat)} (hl : Apart l)
    (h : List.Forall₂ (fun i values => intervalValues .integer i = .ok values) l lists) :
    lists.flatten.Pairwise (· < ·) ∧ ∀ v, v ∈ lists.flatten ↔
      ∃ i ∈ l, i.contains v .integer = true := by
  induction h with
  | nil => simp
  | cons hi _ ih =>
    rename_i i values l lists _
    obtain ⟨happ, hl⟩ := pairwise_cons.mp hl
    obtain ⟨h1, h2⟩ := ih hl
    cases hb : i.integerBounds with
    | none =>
      unfold intervalValues at hi
      rw [if_pos rfl, hb] at hi
      cases hi
    | some bounds =>
      obtain ⟨_, hvalues, -, h3, h4⟩ := intervalValues_integer hb
      rw [hi] at hvalues
      cases hvalues
      rw [flatten_cons]
      refine ⟨pairwise_append.mpr ⟨h3, h1, fun v hv w hw => ?_⟩, fun v => ?_⟩
      · obtain ⟨j, hj, hwj⟩ := (h2 w).mp hw
        have hlt := (contains_iff.mp ((h4 v).mp hv)).2.2.trans
          ((happ j hj).trans_le (contains_iff.mp hwj).2.1)
        rcases cutAt_lt.mp hlt with h | h
        · exact h
        · exact absurd h.2 (Nat.lt_irrefl _)
      · rw [mem_append, h4, h2]
        simp

/-- Cardinality and enumeration are those of the values contained. -/
def Counted (r : NumericRange) : Prop :=
  (r.cardinality = .infinite ∧ {v | r.contains v = true}.Infinite ∧
    ∀ maximum, r.enumerateValues maximum = .error (tooMany maximum)) ∨
  ∃ values : List Rat, values.Pairwise (· < ·) ∧ (∀ v, v ∈ values ↔ r.contains v = true) ∧
    r.cardinality = .ofNat values.length ∧
    ∀ maximum, r.enumerateValues maximum =
      if values.length ≤ maximum then .ok values else .error (tooMany maximum)

theorem counted_of_regular (hd : r.domain = .integer) (hr : Regular r.domain r.intervals) :
    Counted r := by
  have hcontains : ∀ v, r.contains v = true ↔ ∃ i ∈ r.intervals, i.contains v .integer = true := by
    intro v
    rw [contains, hd, any_eq_true]
  rw [hd] at hr
  rcases countValues_integer hr.nonempty 0 with ⟨⟨i, hi, hb⟩, hinf⟩ | ⟨lists, hlists, hcard⟩
  · have hcard : r.cardinality = .infinite := by rw [cardinality, hd, hinf]
    refine .inl ⟨hcard, ?_, fun maximum => by rw [enumerateValues, hcard]; rfl⟩
    obtain ⟨f, hf, hmem⟩ := exists_ray (integerBounds_eq_none.mp hb)
    refine Set.infinite_of_injective_forall_mem (f := fun k => ((f k : Int) : Rat)) ?_ fun k => ?_
    · exact Int.cast_injective.comp hf
    · exact (hcontains _).mpr ⟨i, hi, contains_iff.mpr ⟨contains_int _ _, hmem k⟩⟩
  · obtain ⟨hsorted, hmem⟩ := flatten_values hr.apart (mapM_eq_ok.mp hlists)
    have hcard' : r.cardinality = .ofNat lists.flatten.length := by
      rw [cardinality, hd, hcard, Nat.zero_add]
    refine .inr ⟨lists.flatten, hsorted, fun v => by rw [hmem, hcontains], hcard',
      fun maximum => ?_⟩
    unfold enumerateValues
    rw [hcard', hd, hlists]
    unfold Cardinality.ofNat
    split
    · rename_i hzero
      rw [if_pos (by omega)]
      rfl
    · unfold materializableCount
      dsimp only
      by_cases hle : lists.flatten.length ≤ maximum
      · rw [if_neg (by omega), if_pos hle]
        rfl
      · rw [if_pos (by omega), if_neg hle]
        rfl

/-- Integer ranges with the same members count and enumerate the same. -/
theorem Counted.congr (hr : Counted r) (hs : Counted s) (h : ∀ v, r.contains v = s.contains v) :
    r.cardinality = s.cardinality ∧ r.enumerateValues = s.enumerateValues := by
  have hset : {v | r.contains v = true} = {v | s.contains v = true} := by simp only [h]
  have hfinite : ∀ {t : NumericRange} {values : List Rat}, (∀ v, v ∈ values ↔ t.contains v = true) →
      ¬ {v | t.contains v = true}.Infinite := fun {t values} hmem =>
    Set.not_infinite.mpr ((finite_toSet values).subset fun v hv => (hmem v).mpr hv)
  rcases hr with ⟨hc, hinf, hen⟩ | ⟨values, hsorted, hmem, hc, hen⟩
  · rcases hs with ⟨hc', -, hen'⟩ | ⟨values', -, hmem', -, -⟩
    · exact ⟨hc.trans hc'.symm, funext fun m => (hen m).trans (hen' m).symm⟩
    · exact absurd (hset ▸ hinf) (hfinite hmem')
  · rcases hs with ⟨-, hinf', -⟩ | ⟨values', hsorted', hmem', hc', hen'⟩
    · exact absurd (hset ▸ hinf') (hfinite hmem)
    · have heq : values = values' := by
        refine List.Perm.eq_of_pairwise (fun a b _ _ hab hba => absurd hab hba.not_gt)
          hsorted hsorted'
          ((perm_ext_iff_of_nodup (hsorted.imp ne_of_lt) (hsorted'.imp ne_of_lt)).mpr fun v => ?_)
        rw [hmem, hmem', h]
      subst heq
      exact ⟨hc.trans hc'.symm, funext fun m => (hen m).trans (hen' m).symm⟩

/-- A sorted list of nonempty intervals, disjoint and not mergeable. -/
def Canonical (r : NumericRange) : Prop :=
  (∀ i ∈ r.intervals, ∃ v, i.contains v r.domain = true) ∧ r.intervals.Pairwise fun a b =>
    (compareLower b a).isLE = false ∧ a.canMerge b = false ∧
      ∀ v, ¬ (a.contains v r.domain = true ∧ b.contains v r.domain = true)

theorem canonical_of_regular (h : Regular r.domain r.intervals) : r.Canonical := by
  refine ⟨h.nonempty, h.apart.imp_of_mem fun {a b} ha _ hab => ⟨?_, ?_, ?_⟩⟩
  · obtain ⟨v, hv⟩ := h.nonempty a ha
    have hproper := (contains_iff.mp hv).2.1.trans_lt (contains_iff.mp hv).2.2
    rw [Bool.eq_false_iff, ne_eq, compareLower_iff, not_le]
    exact hproper.trans hab
  · rw [Bool.eq_false_iff, ne_eq, canMerge_iff, not_le]
    exact hab
  · rintro v ⟨hva, hvb⟩
    exact absurd (((contains_iff.mp hva).2.2.trans hab).trans_le (contains_iff.mp hvb).2.1)
      (lt_irrefl _)

/-- Numeric ranges are an exact Boolean algebra of intervals. -/
theorem reachable_exact (h : Reachable r) : r.Canonical ∧
    (∀ s, Reachable s → ∀ v, (r.intersection s).contains v = true ↔ r.contains v = true ∧
      s.contains v = true) ∧
    (∀ s, r.domain = s.domain → ∃ t, r.union s = .ok t ∧
      ∀ v, t.contains v = true ↔ r.contains v = true ∨ s.contains v = true) ∧
    (∀ v, numericDomainContains r.domain v = true →
      (r.complement.contains v = true ↔ ¬ r.contains v = true)) ∧
    (∀ facet boundary v, (r.applyFacet facet boundary).contains v = true ↔
      r.contains v = true ∧ facetAllows facet boundary v) ∧
    (r.domain = .integer → Counted r ∧ ∀ s, Reachable s → s.domain = .integer →
      (∀ v, r.contains v = s.contains v) →
        r.cardinality = s.cardinality ∧ r.enumerateValues = s.enumerateValues) := by
  have hr := h.regular
  refine ⟨canonical_of_regular hr, ?_, ?_, ?_, ?_, ?_⟩
  · exact fun s hs v => contains_intersection hr.apart hs.regular.apart
  · exact fun s hd => ⟨_, union_eq_ok.mpr ⟨hd, rfl⟩, fun v =>
      contains_union (union_eq_ok.mpr ⟨hd, rfl⟩)⟩
  · exact fun v hv => contains_complement hr hv
  · exact fun facet boundary v => contains_applyFacet hr.apart facet boundary
  · intro hd
    have hcounted := counted_of_regular hd hr
    exact ⟨hcounted, fun s hs hsd hsame => hcounted.congr (counted_of_regular hsd hs.regular) hsame⟩

end NumericRange

namespace NumericSample

open NumericRange

/-- The integers from zero on. -/
def naturals : NumericRange := (all .integer).applyFacet .minInclusive 0

/-- The integers above minus one. -/
def aboveMinusOne : NumericRange := (all .integer).applyFacet .minExclusive (-1)

theorem naturals_reachable : Reachable naturals := (Reachable.all _).applyFacet _ _

/-- Ends are not rounded to integers, so two ranges with the same members may differ. -/
theorem same_members_differ :
    Reachable naturals ∧ Reachable aboveMinusOne ∧ naturals.domain = .integer ∧
    aboveMinusOne.domain = .integer ∧ (∀ v, naturals.contains v = aboveMinusOne.contains v) ∧
    naturals ≠ aboveMinusOne := by
  refine ⟨naturals_reachable, (Reachable.all _).applyFacet _ _, rfl, rfl, fun v => ?_, ?_⟩
  · have happ := (regular_all .integer).apart
    unfold naturals aboveMinusOne
    rw [Bool.eq_iff_iff, contains_applyFacet happ, contains_applyFacet happ]
    refine and_congr_right fun h => ?_
    obtain ⟨n, rfl⟩ := integer_iff.mp (contains_iff_covered.mp h).1
    change (0 : ℚ) ≤ n ↔ (-1 : ℚ) < n
    rw [Int.cast_nonneg_iff, show (-1 : ℚ) = ((-1 : Int) : ℚ) by norm_num, Int.cast_lt]
    omega
  · decide +kernel

theorem naturals_exact : Reachable naturals ∧ naturals.Canonical :=
  ⟨naturals_reachable, (reachable_exact naturals_reachable).1⟩

end NumericSample

end PyHermit
