import PyHermit.Lib.Renumber
import PyHermit.Engine.Distinct

/-!
# The search finds the first pairwise different candidates

Lists of indices are compared from the left. Between two steps every solution is at or after
the selected indices followed by the index to try next: skipping an index or giving up a
selection passes over no solution, since ascending indices need as many candidates as there
are of them (`Solves.room`). The indices still to be tried pay for the steps, so a limit
that allows for all subsets is never reached.
-/

open Prog List Renumber

namespace PyHermit.Distinct

/-- After a common beginning the rest decides. -/
theorem append_le_of {a b b' l : List Nat} (h : a ++ b ≤ l)
    (hb : ∀ rest, l = a ++ rest → b ≤ rest → b' ≤ rest) : a ++ b' ≤ l := by
  induction a generalizing l with
  | nil => exact hb l rfl h
  | cons x a ih =>
    cases l with
    | nil => exact absurd h (by simp)
    | cons y l =>
      rw [cons_append, Alphabet.cons_le_cons_iff] at h ⊢
      refine h.imp_right fun ⟨hxy, hle⟩ => ⟨hxy, ih hle fun rest heq => hb rest ?_⟩
      rw [hxy, heq, cons_append]

theorem singleton_le {i : Nat} {l : List Nat} : [i] ≤ l ↔ ∃ y rest, l = y :: rest ∧ i ≤ y := by
  cases l with
  | nil => simp
  | cons y rest =>
    simp [Alphabet.cons_le_cons_iff, Nat.le_iff_lt_or_eq, not_lt.mp (not_lt_nil rest)]

variable {σ T : Type} (d : T → T → Bool) (cs : List T) (k : Nat)

/-- Ascending indices of candidates, each known to be different from those before it. -/
structure Solves (l : List Nat) : Prop where
  length : l.length = k
  inside : ∀ i ∈ l, i < cs.length
  apart : l.Pairwise fun i j => i < j ∧ ∃ a ∈ cs[i]?, ∃ b ∈ cs[j]?, d b a = true

/-- The result says whether there is a solution, and which is the first. -/
structure Found (result : DistinctSearchResult) : Prop where
  satisfied : result.satisfied = true ↔ ∃ l, Solves d cs k l
  first : result.satisfied = true → Solves d cs k result.selectedIndices ∧
    ∀ l, Solves d cs k l → result.selectedIndices ≤ l
  empty : result.satisfied = false → result.selectedIndices = []

/-- The control lets the search run. -/
structure ExpansionControl.Willing (control : ExpansionControl σ) : Prop where
  poll : ∀ s, wp control.poll (fun _ _ => True) (fun _ _ => False) s
  addWork : ∀ amount s, wp (control.addWork amount) (fun _ _ => True) (fun _ _ => False) s

/-- The errors of the step counter, which stops at the first step too many. -/
def OutOfSteps (limits : ExpansionLimits) (e : ExpansionError) : Prop :=
  e = .invariant "distinct-search step counter overflow" ∨
    e = .resource "pairwise-distinct successor search limit exceeded" "max_distinct_search_steps"
      (limits.maxDistinctSearchSteps + 1) limits.maxDistinctSearchSteps

/-- The steps it takes at most to try an index and all after it. -/
def cost (index : Nat) : Nat := 2 ^ (cs.length - index + 1) - 1

/-- No solution has been passed over. -/
def Ahead (selected : List Nat) (index : Nat) : Prop :=
  ∀ l, Solves d cs k l → selected ++ [index] ≤ l

/-- Between two steps the stacks are aligned, or the search is over. -/
structure Searching (limits : ExpansionLimits) (search : Search) : Prop where
  steps_le : search.steps ≤ limits.maxDistinctSearchSteps
  paid : search.steps + (search.nextIndices.map (cost cs)).sum ≤ cost cs 0
  short : search.selected.length < k
  fits : Solves d cs search.selected.length search.selected
  ahead : (search.nextIndices = [] ∧ ∀ l, ¬ Solves d cs k l) ∨ ∃ index,
    search.nextIndices = search.selected.map (· + 1) ++ [index] ∧
    (∀ i ∈ search.selected, i < index) ∧
      Ahead d cs k search.selected index

variable {d cs k} {index : Nat} {limits : ExpansionLimits} {control : ExpansionControl σ}
  {search : Search} {s : σ} {selected : List Nat}

theorem differsFrom_eq (c : T) (hselected : ∀ i ∈ selected, i < cs.length) :
    ∃ known, differsFrom cs (fun a b => .ok (d a b)) c selected = .ok known ∧
      (known = true ↔ ∀ i ∈ selected, ∃ a ∈ cs[i]?, d c a = true) := by
  induction selected with
  | nil => exact ⟨true, rfl, by simp⟩
  | cons i selected ih =>
    rw [forall_mem_cons] at hselected
    obtain ⟨known, hknown, hiff⟩ := ih hselected.2
    have hi := getElem?_eq_getElem hselected.1
    refine ⟨d c cs[i] && known, bind_eq_ok.mpr ⟨cs[i], by rw [candidateAt, hi]; rfl, ?_⟩, ?_⟩
    · cases hone : d c cs[i] with
      | true => simpa [bind, Except.bind, hone] using hknown
      | false => simp [bind, Except.bind, hone, pure, Except.pure]
    · simp [hi, hiff]

/-- The rest of a solution fits into the candidates from its first index on. -/
theorem Solves.room {y : Nat} {a rest : List Nat} (h : Solves d cs k (a ++ y :: rest)) :
    y + (k - a.length) ≤ cs.length := by
  have hroom : ∀ y, (y :: rest).Pairwise (· < ·) → (∀ i ∈ y :: rest, i < cs.length) →
      y + (rest.length + 1) ≤ cs.length := by
    clear h
    induction rest with
    | nil => exact fun y _ hn => hn y mem_cons_self
    | cons z rest ih =>
      intro y hpair hn
      obtain ⟨hy, hz⟩ := pairwise_cons.mp hpair
      have hroom := ih z hz fun i hi => hn i (mem_cons_of_mem _ hi)
      have hlt := hy z mem_cons_self
      rw [length_cons]
      omega
  have hroom := hroom y ((pairwise_append.mp h.apart).2.1.imp And.left) fun i hi =>
    h.inside i (mem_append_right _ hi)
  have hlength := h.length
  rw [length_append, length_cons] at hlength
  omega

/-! ## Steps -/

theorem Ahead.skip (h : Ahead d cs k selected index)
    (hno : ∀ rest, ¬ Solves d cs k (selected ++ index :: rest)) :
    Ahead d cs k selected (index + 1) := by
  refine fun l hl => append_le_of (h l hl) fun rest heq hrest => ?_
  obtain ⟨y, rest, rfl, hy⟩ := singleton_le.mp hrest
  refine singleton_le.mpr ⟨y, rest, rfl, hy.lt_of_ne ?_⟩
  rintro rfl
  exact hno rest (heq ▸ hl)

theorem Ahead.push (h : Ahead d cs k selected index) (hmore : (selected ++ [index]).length ≠ k) :
    Ahead d cs k (selected ++ [index]) (index + 1) := by
  intro l hl
  rw [append_assoc]
  refine append_le_of (h l hl) fun rest heq hrest => ?_
  obtain ⟨y, rest, rfl, hy⟩ := singleton_le.mp hrest
  refine Alphabet.cons_le_cons_iff.mpr (hy.lt_or_eq.imp_right fun hy => ⟨hy, singleton_le.mpr ?_⟩)
  subst heq hy
  cases rest with
  | nil => exact absurd hl.length hmore
  | cons z rest =>
    have hpair := (pairwise_append.mp hl.apart).2.1
    exact ⟨z, rest, rfl, ((pairwise_cons.mp hpair).1 z mem_cons_self).1⟩

theorem Ahead.pop {x : Nat} (h : Ahead d cs k (selected ++ [x]) index)
    (hno : ∀ y rest, index ≤ y → ¬ Solves d cs k (selected ++ [x] ++ y :: rest)) :
    Ahead d cs k selected (x + 1) := by
  intro l hl
  have hle := h l hl
  rw [append_assoc] at hle
  refine append_le_of hle fun rest heq hrest => ?_
  cases rest with
  | nil => exact absurd hrest (by simp)
  | cons y rest =>
    rcases Alphabet.cons_le_cons_iff.mp hrest with hxy | ⟨rfl, hindex⟩
    · exact singleton_le.mpr ⟨y, rest, rfl, hxy⟩
    · obtain ⟨z, rest, rfl, hz⟩ := singleton_le.mp hindex
      exact absurd (by simpa [heq] using hl) (hno z rest hz)

variable (cs) in
theorem cost_pos (index : Nat) : 0 < cost cs index := by
  have := Nat.two_pow_pos (cs.length - index)
  rw [cost, Nat.pow_succ]
  omega

theorem cost_eq (h : index < cs.length) : cost cs index = 2 * cost cs (index + 1) + 1 := by
  have := Nat.two_pow_pos (cs.length - (index + 1) + 1)
  rw [cost, cost, show cs.length - index + 1 = cs.length - (index + 1) + 1 + 1 by omega,
    Nat.pow_succ]
  omega

section Outcomes

variable (h : Searching d cs k limits search)
  (hnext : search.nextIndices = search.selected.map (· + 1) ++ [index])
  (hlt : ∀ i ∈ search.selected, i < index) (hahead : Ahead d cs k search.selected index)
  (hallowed : search.steps + 1 ≤ limits.maxDistinctSearchSteps)
include h hnext

/-- The stack of indices pays for the step, and for what is put in place of its top. -/
theorem Searching.pay (costs : Nat) (hcosts : costs + 1 ≤ cost cs index) :
    search.steps + 1 + ((search.selected.map (· + 1)).map (cost cs)).sum + costs ≤ cost cs 0 := by
  have hpaid := h.paid
  rw [hnext, map_append, sum_append, map_singleton, sum_singleton] at hpaid
  omega

include hahead hallowed

/-- With too few candidates left the last selection is given up. -/
theorem Searching.back (hfew : cs.length ≤ index ∨ cs.length - index < k - search.selected.length) :
    Searching d cs k limits
      ⟨search.selected.dropLast, search.nextIndices.dropLast, search.steps + 1⟩ := by
  have hpaid := h.pay hnext 0 (cost_pos cs index)
  have hshort := h.short
  have hfits := h.fits
  have hno : ∀ y rest, index ≤ y → ¬ Solves d cs k (search.selected ++ y :: rest) := by
    intro y rest hy hl
    have hroom := hl.room
    omega
  obtain ⟨selected, nextIndices, steps⟩ := search
  dsimp only at hnext hahead hpaid hshort hfits hno ⊢
  subst hnext
  rw [dropLast_concat]
  rcases eq_nil_or_concat' selected with rfl | ⟨selected, x, rfl⟩
  · -- nothing was selected, so nothing is left to try
    refine ⟨hallowed, hpaid, hshort, hfits, .inl ⟨rfl, fun l hl => ?_⟩⟩
    obtain ⟨y, rest, rfl, hy⟩ := singleton_le.mp (hahead l hl)
    exact hno y rest hy hl
  · have hapart := pairwise_append.mp hfits.apart
    rw [length_append] at hshort
    rw [dropLast_concat]
    refine ⟨hallowed, hpaid, Nat.lt_of_le_of_lt (Nat.le_add_right _ _) hshort,
      ⟨rfl, fun i hi => hfits.inside i (mem_append_left _ hi), hapart.1⟩,
      .inr ⟨x + 1, map_append, fun i hi => ?_, hahead.pop hno⟩⟩
    exact Nat.lt_succ_of_lt (hapart.2.2 i hi x mem_cons_self).1

include hlt

/-- A candidate that may be equal to a selected one is passed over. -/
theorem Searching.skip (hin : index < cs.length)
    (hno : ∀ rest, ¬ Solves d cs k (search.selected ++ index :: rest)) :
    Searching d cs k limits { search with
      nextIndices := search.selected.map (· + 1) ++ [index + 1], steps := search.steps + 1 } := by
  have hcost := cost_eq hin
  have hpaid := h.pay hnext (cost cs (index + 1)) (by omega)
  refine ⟨hallowed, ?_, h.short, h.fits, .inr ⟨index + 1, rfl, fun i hi => ?_, hahead.skip hno⟩⟩
  · simpa [Nat.add_assoc] using hpaid
  · exact Nat.lt_succ_of_lt (hlt i hi)

/-- A candidate known to be different from all selected ones joins them. -/
theorem Searching.select (hin : index < cs.length)
    (hselected : Solves d cs (search.selected ++ [index]).length (search.selected ++ [index]))
    (hmore : (search.selected ++ [index]).length ≠ k) :
    Searching d cs k limits ⟨search.selected ++ [index],
      search.selected.map (· + 1) ++ [index + 1] ++ [index + 1], search.steps + 1⟩ := by
  have hcost := cost_eq hin
  have hpaid := h.pay hnext (cost cs (index + 1) + cost cs (index + 1)) (by omega)
  refine ⟨hallowed, by simpa [Nat.add_assoc] using hpaid, ?_, hselected,
    .inr ⟨index + 1, by simp, ?_, hahead.push hmore⟩⟩
  · exact lt_of_le_of_ne (by simpa using Nat.succ_le_of_lt h.short) hmore
  · exact forall_mem_append.mpr
      ⟨fun i hi => Nat.lt_succ_of_lt (hlt i hi), forall_mem_singleton.mpr (Nat.lt_succ_self _)⟩

end Outcomes

theorem Solves.concat {c : T} (hfits : Solves d cs selected.length selected)
    (hc : cs[index]? = some c) (hlt : ∀ i ∈ selected, i < index)
    (hdiffers : ∀ i ∈ selected, ∃ a ∈ cs[i]?, d c a = true) :
    Solves d cs (selected ++ [index]).length (selected ++ [index]) := by
  refine ⟨rfl,
    forall_mem_append.mpr ⟨hfits.inside, forall_mem_singleton.mpr (lt_of_getElem? hc)⟩, ?_⟩
  refine pairwise_append.mpr ⟨hfits.apart, pairwise_singleton _ _, fun i hi j hj => ?_⟩
  obtain rfl := mem_singleton.mp hj
  obtain ⟨a, ha, hd⟩ := hdiffers i hi
  exact ⟨hlt i hi, a, ha, c, hc, hd⟩

theorem wp_searchAt (hcontrol : control.Willing) (h : Searching d cs k limits search)
    (hnext : search.nextIndices = search.selected.map (· + 1) ++ [index])
    (hlt : ∀ i ∈ search.selected, i < index) (hahead : Ahead d cs k search.selected index) :
    wp (searchAt cs k limits control (fun a b => .ok (d a b)) index search)
      (fun out _ => match out with
        | .again search' => Searching d cs k limits search' ∧ search.steps < search'.steps
        | .done result => Found d cs k result)
      (fun e _ => limits.maxDistinctSearchSteps < cost cs 0 ∧ OutOfSteps limits e) s := by
  have hpaid := h.pay hnext 0 (cost_pos cs index)
  have hsteps := h.steps_le
  have hbounded := limits.bounded
  -- the counter: a step is refused only when all allowed ones have been made
  refine wp_ensure_then (fun _ => ?_) fun hno => ⟨by omega, .inl rfl⟩
  refine wp_ensure_then (fun hallowed => ?_) fun hno => ⟨by omega, .inr ?_⟩
  rotate_left
  · rw [show search.steps = limits.maxDistinctSearchSteps by omega]
  have hreport : wp (reportSteps limits control (search.steps + 1)) (fun _ _ => True)
    (fun _ _ => False) s :=
    wp_ite (fun _ => wp_seq (hcontrol.addWork _ s) fun _ s' _ => hcontrol.poll s') fun _ => trivial
  refine wp_then hreport (fun _ s' _ => ?_) fun _ _ hno => hno.elim
  refine wp_ite (fun hfew => wp_pure.mpr ⟨?_, Nat.lt_succ_self _⟩) fun hgo => ?_
  · exact h.back hnext hahead hallowed hfew
  rw [not_or, Nat.not_le, Nat.not_lt] at hgo
  have hc := getElem?_eq_getElem hgo.1
  obtain ⟨known, hknown, hiff⟩ := differsFrom_eq (d := d) cs[index] h.fits.inside
  refine wp_ask_known (b := cs[index]) (by rw [candidateAt, hc]; rfl) (wp_ask_known hknown ?_)
  rw [hnext, dropLast_concat]
  refine wp_ite (fun htrue => ?_) fun hfalse => ?_
  · have hselected := h.fits.concat hc hlt (hiff.mp htrue)
    refine wp_ite (fun hfull => ?_) fun hmore => wp_pure.mpr ⟨?_, Nat.lt_succ_self _⟩
    · -- nothing before the selection was a solution, and it is one
      refine wp_then (hcontrol.addWork _ s') (fun _ _ _ => wp_pure.mpr ?_) fun _ _ hno => hno.elim
      rw [hfull] at hselected
      exact ⟨⟨fun _ => ⟨_, hselected⟩, fun _ => rfl⟩, fun _ => ⟨hselected, hahead⟩, nofun⟩
    · exact h.select hnext hlt hahead hallowed hgo.1 hselected hmore
  · refine wp_pure.mpr
      ⟨h.skip hnext hlt hahead hallowed hgo.1 fun rest hl => ?_, Nat.lt_succ_self _⟩
    -- a solution that went on with this index would differ from all selected
    refine hfalse (hiff.mpr fun i hi => ?_)
    obtain ⟨-, a, ha, b, hb, hd⟩ := (pairwise_append.mp hl.apart).2.2 i hi index mem_cons_self
    cases hc.symm.trans hb
    exact ⟨a, ha, hd⟩

/-- **The search finds the first pairwise different candidates**, unless it runs out of
steps, which a limit of all subsets rules out. -/
theorem pairwiseDistinctSubset_first (candidates : List T) (cardinality : Nat)
    (limits : ExpansionLimits)
    (control : ExpansionControl σ) (hcontrol : control.Willing) (different : T → T → Bool) (s : σ) :
    wp (pairwiseDistinctSubset candidates cardinality limits control fun a b => .ok (different a b))
      (fun result _ => Found different candidates cardinality result)
      (fun e _ => limits.maxDistinctSearchSteps < 2 ^ (candidates.length + 1) - 1 ∧
        OutOfSteps limits e) s := by
  have hnext : ∀ l, Solves different candidates cardinality l → cardinality ≠ 0 →
      ∃ y rest, l = y :: rest ∧ y + cardinality ≤ candidates.length := by
    intro l hl hzero
    cases l with
    | nil => exact absurd hl.length.symm hzero
    | cons y rest => exact ⟨y, rest, rfl, Solves.room (a := []) hl⟩
  refine wp_then (hcontrol.poll s) (fun _ s' _ => ?_) fun _ _ hno => hno.elim
  refine wp_ite (fun hzero => wp_pure.mpr ?_) fun hzero =>
    wp_ite (fun hfew => wp_pure.mpr ?_) fun hfew =>
    wp_ite (fun hone => wp_pure.mpr ?_) fun hone => ?_
  · have hnil : Solves different candidates cardinality [] := ⟨hzero.symm, by simp, .nil⟩
    exact ⟨⟨fun _ => ⟨_, hnil⟩, fun _ => rfl⟩,
      fun _ => ⟨hnil, fun l _ => not_lt.mp (not_lt_nil l)⟩, nofun⟩
  · refine ⟨⟨nofun, fun ⟨l, hl⟩ => ?_⟩, nofun, fun _ => rfl⟩
    obtain ⟨y, rest, -, hroom⟩ := hnext l hl hzero
    omega
  · have hfirst : Solves different candidates cardinality [0] :=
      ⟨hone.symm, forall_mem_singleton.mpr (by omega), pairwise_singleton _ _⟩
    refine ⟨⟨fun _ => ⟨_, hfirst⟩, fun _ => rfl⟩,
      fun _ => ⟨hfirst, fun l hl => singleton_le.mpr ?_⟩, nofun⟩
    obtain ⟨y, rest, rfl, -⟩ := hnext l hl hzero
    exact ⟨y, rest, rfl, Nat.zero_le y⟩
  · refine wp_loop (fun search _ => Searching different candidates cardinality limits search)
      (fun search => limits.maxDistinctSearchSteps + 1 - search.steps)
      (fun search s h => ?_) _ _ _ ?_ (by simp)
    · rcases h.ahead with ⟨hnil, hnone⟩ | ⟨index, hindex, hlt, hahead⟩
      · rw [searchRound, hnil]
        refine wp_then (hcontrol.addWork _ s) (fun _ _ _ => ?_) fun _ _ hno => hno.elim
        exact wp_pure.mpr ⟨⟨nofun, fun ⟨l, hl⟩ => absurd hl (hnone l)⟩, nofun, fun _ => rfl⟩
      · rw [searchRound, hindex, getLast?_concat]
        refine wp_imp (wp_searchAt hcontrol h hindex hlt hahead) fun out _ hout => ?_
        cases out with
        | done result => exact hout
        | again search' =>
          have hsteps := hout.1.steps_le
          exact ⟨hout.1, by omega⟩
    · refine ⟨Nat.zero_le _, by simp, by simp; omega, ⟨rfl, by simp, .nil⟩,
        .inr ⟨0, rfl, by simp, fun l hl => ?_⟩⟩
      obtain ⟨y, rest, rfl, -⟩ := hnext l hl hzero
      exact singleton_le.mpr ⟨y, rest, rfl, Nat.zero_le y⟩

/-- Of 1, 1 and 2 the first two that differ are found. -/
theorem pairwiseDistinctSubset_sample : Found (fun a b : Nat => a != b) [1, 1, 2] 2
    { satisfied := true, steps := 3, selectedIndices := [0, 2] } := by
  have hfound := pairwiseDistinctSubset_first [1, 1, 2] 2 ⟨15, 1, by decide, by decide⟩
    ⟨pure (), fun _ => pure ()⟩ ⟨fun _ => trivial, fun _ _ => trivial⟩ (fun a b => a != b) ()
  exact hfound

end PyHermit.Distinct
