import Mathlib.Dynamics.PeriodicPts.Defs

/-!
# Renumbering sorted words

Words over an alphabet some of whose letters carry a number are sorted, and the numbers
are then replaced in the order of their first occurrence. The replacement changes the
words, hence the sorting, hence the first occurrences: it has to be repeated.

Two facts make that end. The numbered letters are ordered by their number and no other
letter lies between them (`Alphabet`). And once the first `j` numbers to occur are
`0, …, j - 1`, a word can be read up to its first number that is not one of these: neither
what is read nor its order changes under the replacement, so the next round has the first
`j + 1` numbers in place (`Alphabet.range_succ_initial`).

`settle` is the loop around it: it gives up when a state comes back or the rounds are used
up, which does not happen when the orbit of the state reaches a stable fixed point in time
(`settle_eq_ok`).
-/

open List

namespace Renumber

/-! ## Repeating a step until nothing changes -/

section Settle

variable {σ κ ε : Type} [DecidableEq κ]

def settle (step : σ → Except ε σ) (key : σ → κ) (stable : σ → σ → Bool) (cycle exceeded : ε) :
    Nat → List κ → σ → Except ε σ
  | 0, _, _ => .error exceeded
  | rounds + 1, seen, state => do
    if key state ∈ seen then .error cycle
    else
      let next ← step state
      if stable state next then .ok next
      else settle step key stable cycle exceeded rounds (seen ++ [key state]) next

variable {step : σ → Except ε σ} {key : σ → κ} {stable : σ → σ → Bool} {cycle exceeded : ε}
  {next : σ → σ} {Valid : σ → Prop}

theorem settle_congr {κ' : Type} [DecidableEq κ'] {step' : σ → Except ε σ} {key' : σ → κ'}
    {stable' : σ → σ → Bool} (hstep : ∀ s, Valid s → step s = step' s)
    (hvalid : ∀ s t, Valid s → step s = .ok t → Valid t)
    (hkey : ∀ s t, Valid s → Valid t → (key s = key t ↔ key' s = key' t))
    (hstable : ∀ s t, Valid s → Valid t → stable s t = stable' s t) (rounds : Nat) :
    ∀ (seen : List σ) (s : σ), (∀ t ∈ seen, Valid t) → Valid s →
      settle step key stable cycle exceeded rounds (seen.map key) s =
        settle step' key' stable' cycle exceeded rounds (seen.map key') s := by
  induction rounds with
  | zero => intro seen s _ _; rfl
  | succ rounds ih =>
    intro seen s hseen hs
    have hmem : key s ∈ seen.map key ↔ key' s ∈ seen.map key' := by
      rw [mem_map, mem_map]
      constructor
      · rintro ⟨t, ht, heq⟩
        exact ⟨t, ht, (hkey t s (hseen t ht) hs).mp heq⟩
      · rintro ⟨t, ht, heq⟩
        exact ⟨t, ht, (hkey t s (hseen t ht) hs).mpr heq⟩
    rw [settle, settle]
    by_cases hcycle : key s ∈ seen.map key
    · rw [if_pos hcycle, if_pos (hmem.mp hcycle)]
    rw [if_neg hcycle, if_neg (hmem.not.mp hcycle), ← hstep s hs]
    cases hnext : step s with
    | error e => rfl
    | ok next =>
      have hn := hvalid s next hs hnext
      have hrest := ih (seen ++ [s]) next (forall_mem_append.mpr ⟨hseen, by simpa using hs⟩) hn
      rw [map_append, map_append] at hrest
      show (if _ then _ else settle _ _ _ _ _ _ (_ ++ map key [s]) _) =
        (if _ then _ else settle _ _ _ _ _ _ (_ ++ map key' [s]) _)
      rw [hstable s next hs hn, hrest]

variable {s : σ} {m t rounds : Nat}

/-- A state that comes back on the way to a fixed point is the fixed point. -/
theorem iterate_eq_of_recurs {i : Nat} (hfix : next (next^[m] s) = next^[m] s)
    (hit : i < t) (heq : next^[t] s = next^[i] s) : next^[i] s = next^[m] s := by
  have hperiod : Function.IsPeriodicPt next (t - i) (next^[i] s) := by
    show next^[t - i] (next^[i] s) = next^[i] s
    rw [← Function.iterate_add_apply, Nat.sub_add_cancel hit.le, heq]
  have hback : next^[m * (t - i)] (next^[i] s) = next^[i] s := hperiod.const_mul m
  have hlate : m ≤ m * (t - i) + i :=
    Nat.le_add_right_of_le (Nat.le_mul_of_pos_right m (Nat.sub_pos_of_lt hit))
  have hstay : next^[m * (t - i) + i - m] (next^[m] s) = next^[m] s :=
    (show Function.IsFixedPt next (next^[m] s) from hfix).iterate _
  rw [← hback, ← Function.iterate_add_apply, ← hstay, ← Function.iterate_add_apply,
    Nat.sub_add_cancel hlate]

theorem valid_iterate (hvalid : ∀ s, Valid s → Valid (next s)) (hs : Valid s) (t : Nat) :
    Valid (next^[t] s) := by
  induction t with
  | zero => exact hs
  | succ t ih =>
    rw [Function.iterate_succ_apply']
    exact hvalid _ ih

theorem settle_eq_ok (Good : σ → Prop) (hstep : ∀ s, Valid s → step s = .ok (next s))
    (hvalid : ∀ s, Valid s → Valid (next s))
    (hkey : ∀ s t, Valid s → Valid t → key s = key t → s = t)
    (hstable : ∀ s, Valid s → (stable s (next s) = true ↔ next s = s ∧ Good s)) (hs : Valid s)
    (hfix : next (next^[m] s) = next^[m] s) (hgood : Good (next^[m] s)) (hrounds : m < rounds) :
    settle step key stable cycle exceeded rounds [] s = .ok (next^[m] s) := by
  have hv := valid_iterate hvalid hs
  have hlimit : stable (next^[m] s) (next (next^[m] s)) = true :=
    (hstable _ (hv m)).mpr ⟨hfix, hgood⟩
  -- after `t` rounds none of which was stable, the keys seen are those of the first `t` states
  suffices h : ∀ rounds t, m < t + rounds →
      (∀ i < t, ¬ stable (next^[i] s) (next (next^[i] s)) = true) →
      settle step key stable cycle exceeded rounds
        ((range t).map fun i => key (next^[i] s)) (next^[t] s) = .ok (next^[m] s) from
    h rounds 0 (by omega) (fun i hi => absurd hi (Nat.not_lt_zero i))
  intro rounds
  induction rounds with
  | zero =>
    intro t hm hbefore
    exact absurd hlimit (hbefore m (by omega))
  | succ rounds ih =>
    intro t hm hbefore
    have htm : t ≤ m := by
      by_contra hlt
      exact hbefore m (by omega) hlimit
    have hnew : key (next^[t] s) ∉ (range t).map fun i => key (next^[i] s) := by
      intro hmem
      obtain ⟨i, hi, hkeys⟩ := mem_map.mp hmem
      have hback : next^[t] s = next^[i] s := (hkey _ _ (hv i) (hv t) hkeys).symm
      have hi' : i < t := mem_range.mp hi
      apply hbefore i hi'
      rw [iterate_eq_of_recurs hfix hi' hback]
      exact hlimit
    rw [settle, if_neg hnew, hstep _ (hv t)]
    show (if _ then _ else _) = _
    by_cases hst : stable (next^[t] s) (next (next^[t] s)) = true
    · rw [if_pos hst]
      have hfixed := ((hstable _ (hv t)).mp hst).1
      have hstay : next^[m - t] (next^[t] s) = next^[t] s :=
        (show Function.IsFixedPt next (next^[t] s) from hfixed).iterate _
      rw [hfixed, ← hstay, ← Function.iterate_add_apply, Nat.sub_add_cancel htm]
    · rw [if_neg hst]
      have hkeys : ((range t).map fun i => key (next^[i] s)) ++ [key (next^[t] s)] =
          (range (t + 1)).map fun i => key (next^[i] s) := by
        rw [range_succ, map_append, map_singleton]
      rw [hkeys, ← Function.iterate_succ_apply' next t s]
      refine ih (t + 1) (by omega) fun i hi => ?_
      by_cases hit : i = t
      · rw [hit]; exact hst
      · exact hbefore i (by omega)

/-- A run of unstable states that comes back to one of them is given up. -/
theorem settle_eq_cycle (path : Nat → σ) (hpath : ∀ k < t, step (path k) = .ok (path (k + 1)))
    (hunstable : ∀ k < t, stable (path k) (path (k + 1)) = false)
    (hback : key (path t) ∈ (range t).map fun i => key (path i)) (hrounds : t < rounds) :
    settle step key stable cycle exceeded rounds [] (path 0) = .error cycle := by
  suffices h : ∀ rounds k, k ≤ t → t < k + rounds →
      settle step key stable cycle exceeded rounds ((range k).map fun i => key (path i)) (path k) =
        .error cycle from h rounds 0 (Nat.zero_le t) (by omega)
  intro rounds
  induction rounds with
  | zero => intro k hk hrounds; omega
  | succ rounds ih =>
    intro k hk hrounds
    rw [settle]
    by_cases hseen : key (path k) ∈ (range k).map fun i => key (path i)
    · rw [if_pos hseen]
    have hlt : k < t := by
      by_contra hge
      obtain rfl : k = t := by omega
      exact hseen hback
    rw [if_neg hseen, hpath k hlt]
    show (if _ then _ else _) = _
    rw [hunstable k hlt, if_neg Bool.false_ne_true]
    have hrest := ih (k + 1) (by omega) (by omega)
    rwa [range_succ, map_append, map_singleton] at hrest

end Settle

/-! ## First occurrences -/

section FirstOccurrences

variable {α β : Type} {a : α} {f : α → β} {l : List α} [DecidableEq α]

theorem nodup_eraseDups : ∀ l : List α, l.eraseDups.Nodup
  | [] => nodup_nil
  | a :: l => by
    rw [eraseDups_cons, nodup_cons, mem_eraseDups]
    exact ⟨by simp, nodup_eraseDups _⟩
  termination_by l => l.length
  decreasing_by exact Nat.lt_succ_of_le (length_filter_le _ _)

theorem eraseDups_append_cons {p r : List α} (ha : a ∉ p) :
    ∃ q, (p ++ a :: r).eraseDups = p.eraseDups ++ a :: q := by
  have hsplit : (a :: r).removeAll p = a :: r.removeAll p := by simp [removeAll, ha]
  rw [eraseDups_append, hsplit, eraseDups_cons]
  exact ⟨_, rfl⟩

theorem eraseDups_snoc (l : List α) (a : α) :
    (l ++ [a]).eraseDups = if a ∈ l then l.eraseDups else l.eraseDups ++ [a] := by
  by_cases h : a ∈ l
  · rw [if_pos h, eraseDups_append]
    simp [removeAll, h]
  · rw [if_neg h, eraseDups_append]
    simp [removeAll, h, eraseDups_cons]

theorem eraseDups_map [DecidableEq β]
    (h : ∀ a ∈ l, ∀ b ∈ l, f a = f b → a = b) : (l.map f).eraseDups = l.eraseDups.map f := by
  induction l using reverseRecOn with
  | nil => rfl
  | append_singleton l a ih =>
    have hmem : f a ∈ l.map f ↔ a ∈ l := by
      constructor
      · intro hf
        obtain ⟨b, hb, heq⟩ := mem_map.mp hf
        rwa [← h b (mem_append_left _ hb) a (by simp) heq]
      · exact mem_map_of_mem
    rw [map_append, map_singleton, eraseDups_snoc, eraseDups_snoc,
      ih fun b hb c hc => h b (mem_append_left _ hb) c (mem_append_left _ hc)]
    by_cases ha : a ∈ l
    · rw [if_pos ha, if_pos (hmem.mpr ha)]
    · rw [if_neg ha, if_neg (hmem.not.mpr ha), map_append, map_singleton]

theorem idxOf_map [DecidableEq β]
    (h : ∀ b ∈ l, f b = f a → b = a) : (l.map f).idxOf (f a) = l.idxOf a := by
  induction l with
  | nil => rfl
  | cons b l ih =>
    by_cases hb : b = a
    · rw [hb, map_cons, idxOf_cons_self, idxOf_cons_self]
    · have hfb : f b ≠ f a := fun heq => hb (h b mem_cons_self heq)
      rw [map_cons, idxOf_cons_ne _ hfb, idxOf_cons_ne _ hb,
        ih fun c hc => h c (mem_cons_of_mem _ hc)]

variable {l : List Nat} {i : Nat} {p r : List Nat} {j n : Nat}

theorem idxOf_eq_of_lt (h : range j <+: l) (hi : i < j) : l.idxOf i = i := by
  obtain ⟨t, rfl⟩ := h
  rw [idxOf_append, if_pos (mem_range.mpr hi)]
  have hbound : i < (range j).length := by simpa using hi
  have hget : (range j)[i] = i := getElem_range _
  have hidx := (nodup_range (n := j)).idxOf_getElem i hbound
  rwa [hget] at hidx

theorem le_idxOf (h : range j <+: l) (hi : j ≤ i) : j ≤ l.idxOf i := by
  obtain ⟨t, rfl⟩ := h
  rw [idxOf_append, if_neg (by simpa using hi), length_range]
  exact Nat.le_add_left _ _

theorem idxOf_next (h : range j ++ [n] <+: l) (hn : j ≤ n) : l.idxOf n = j := by
  obtain ⟨t, rfl⟩ := h
  rw [append_assoc, idxOf_append, if_neg (by simpa using hn), length_range,
    singleton_append, idxOf_cons_self, Nat.zero_add]

variable (hp : ∀ i ∈ p, i < j) (hn : j ≤ n) (h : range j <+: (p ++ n :: r).eraseDups)
include hp hn h

/-- If the first numbers to occur are those below `j`, all of them occur before the
first number that is not below `j`. -/
theorem eraseDups_eq_range : p.eraseDups = range j := by
  have hnp : n ∉ p := fun hmem => absurd (hp n hmem) (by omega)
  obtain ⟨q, hq⟩ := eraseDups_append_cons (r := r) hnp
  rw [hq] at h
  have hle : p.eraseDups.length ≤ j := by
    have hsub : p.eraseDups ⊆ range j := fun i hi =>
      mem_range.mpr (hp i (mem_eraseDups.mp hi))
    simpa using ((nodup_eraseDups p).subperm hsub).length_le
  have hge : j ≤ p.eraseDups.length := by
    by_contra hlt
    have hat : (range j)[p.eraseDups.length]? = some n := by
      obtain ⟨t, ht⟩ := h
      have hget : (range j ++ t)[p.eraseDups.length]? = some n := by rw [ht]; simp
      rwa [getElem?_append_left (by simpa using hlt)] at hget
    have hmem : n ∈ range j := mem_of_getElem? hat
    exact absurd (mem_range.mp hmem) (by omega)
  have hinitial : range j <+: p.eraseDups :=
    prefix_of_prefix_length_le h (prefix_append _ _) (by simpa using hge)
  exact (hinitial.eq_of_length (by rw [length_range]; omega)).symm

theorem range_append_initial : range j ++ [n] <+: (p ++ n :: r).eraseDups := by
  have hnp : n ∉ p := fun hmem => absurd (hp n hmem) (by omega)
  obtain ⟨q, hq⟩ := eraseDups_append_cons (r := r) hnp
  rw [hq, eraseDups_eq_range hp hn h]
  exact ⟨q, by simp⟩

end FirstOccurrences

/-! ## Words over numbered letters -/

theorem map_lt_map_iff {α L L' : Type} [LinearOrder L] [LinearOrder L'] {f : α → L} {g : α → L'}
    {l m : List α} (h : ∀ a ∈ l, ∀ b ∈ m, (f a < f b ↔ g a < g b) ∧ (f b < f a ↔ g b < g a)) :
    l.map f < m.map f ↔ l.map g < m.map g := by
  induction l generalizing m with
  | nil => cases m <;> simp
  | cons a l ih =>
    cases m with
    | nil => simp
    | cons b m =>
      obtain ⟨hlt, hgt⟩ := h a mem_cons_self b mem_cons_self
      have heq : f a = f b ↔ g a = g b := by
        rw [eq_iff_le_not_lt, eq_iff_le_not_lt, ← not_lt, ← not_lt, hlt, hgt]
      rw [map_cons, map_cons, map_cons, map_cons, cons_lt_cons_iff,
        cons_lt_cons_iff, hlt, heq,
        ih fun a ha b hb => h a (mem_cons_of_mem _ ha) b (mem_cons_of_mem _ hb)]

/-- Letters, some of which carry a number. A numbered letter is compared by its number
first, and the other letters are below all numbered ones or above all of them; `mark j`
is the least letter numbered `j`. -/
structure Alphabet (L : Type) [LinearOrder L] where
  number : L → Option Nat
  mark : Nat → L
  number_mark : ∀ j, number (mark j) = some j
  mark_le : ∀ {x n j}, number x = some n → j ≤ n → mark j ≤ x
  lt_mark : ∀ {x n j}, number x = some n → n < j → x < mark j
  aside : ∀ {x}, number x = none → (∀ j, x < mark j) ∨ ∀ y n, number y = some n → y < x

namespace Alphabet

variable {L : Type} [LinearOrder L] (A : Alphabet L) (j : Nat)

/-- The letter carries a number that is not below `j`. -/
def Late (x : L) : Prop := ∃ n, A.number x = some n ∧ j ≤ n

instance (x : L) : Decidable (A.Late j x) :=
  match h : A.number x with
  | none => isFalse fun ⟨n, hn, _⟩ => by rw [h] at hn; cases hn
  | some n => decidable_of_iff (j ≤ n)
      ⟨fun hle => ⟨n, h, hle⟩, fun ⟨m, hm, hle⟩ => by rw [h] at hm; cases hm; exact hle⟩

/-- A word up to its first late letter. -/
def cut : List L → List L
  | [] => []
  | x :: w => if A.Late j x then [A.mark j] else x :: cut w

variable {A j} {x y : L} {w v u r : List L} {n : Nat} {before : List (List L)}

theorem cons_le_cons_iff : x :: w ≤ y :: v ↔ x < y ∨ x = y ∧ w ≤ v := by
  rw [le_iff_lt_or_eq, le_iff_lt_or_eq, cons_lt_cons_iff, cons.injEq]
  tauto

theorem late_mark : A.Late j (A.mark j) := ⟨j, A.number_mark j, le_rfl⟩

/-- A letter below a late one is below the mark, unless it is late as well. -/
theorem lt_mark_of_lt (hx : ¬ A.Late j x) (hy : A.Late j y) (h : x < y) : x < A.mark j := by
  cases hnum : A.number x with
  | some n => exact A.lt_mark hnum (by by_contra hle; exact hx ⟨n, hnum, by omega⟩)
  | none =>
    rcases A.aside hnum with hlow | hhigh
    · exact hlow j
    · obtain ⟨n, hn, _⟩ := hy
      exact absurd (hhigh y n hn) (not_lt_of_gt h)

/-- Reading two words up to their first late letters keeps their order. -/
theorem cut_mono : ∀ {w v : List L}, w ≤ v → A.cut j w ≤ A.cut j v
  | [], v, _ => not_lt.mp (not_lt_nil _)
  | x :: w, [], h => absurd h (by simp)
  | x :: w, y :: v, h => by
    rw [cut, cut]
    rcases cons_le_cons_iff.mp h with hlt | ⟨rfl, hle⟩
    · by_cases hx : A.Late j x <;> by_cases hy : A.Late j y
      · rw [if_pos hx, if_pos hy]
      · rw [if_pos hx, if_neg hy]
        obtain ⟨n, hn, hjn⟩ := hx
        exact cons_le_cons_iff.mpr (.inl ((A.mark_le hn hjn).trans_lt hlt))
      · rw [if_neg hx, if_pos hy]
        exact cons_le_cons_iff.mpr (.inl (lt_mark_of_lt hx hy hlt))
      · rw [if_neg hx, if_neg hy]
        exact cons_le_cons_iff.mpr (.inl hlt)
    · by_cases hx : A.Late j x
      · rw [if_pos hx, if_pos hx]
      · rw [if_neg hx, if_neg hx]
        exact cons_le_cons_iff.mpr (.inr ⟨rfl, cut_mono hle⟩)

theorem cut_of_early (h : ∀ x ∈ w, ¬ A.Late j x) : A.cut j w = w := by
  induction w with
  | nil => rfl
  | cons x w ih =>
    rw [cut, if_neg (h x mem_cons_self), ih fun y hy => h y (mem_cons_of_mem _ hy)]

theorem cut_append_cons (hu : ∀ z ∈ u, ¬ A.Late j z) (hx : A.Late j x) :
    A.cut j (u ++ x :: r) = u ++ [A.mark j] := by
  induction u with
  | nil => rw [nil_append, cut, if_pos hx, nil_append]
  | cons y u ih =>
    rw [cons_append, cut, if_neg (hu y mem_cons_self),
      ih fun z hz => hu z (mem_cons_of_mem _ hz), cons_append]

theorem early_or_split (A : Alphabet L) (j : Nat) (w : List L) : (∀ x ∈ w, ¬ A.Late j x) ∨
    ∃ u x r, w = u ++ x :: r ∧ (∀ z ∈ u, ¬ A.Late j z) ∧ A.Late j x := by
  induction w with
  | nil => exact .inl fun x hx => absurd hx not_mem_nil
  | cons y w ih =>
    by_cases hy : A.Late j y
    · exact .inr ⟨[], y, w, rfl, fun z hz => absurd hz not_mem_nil, hy⟩
    · rcases ih with hearly | ⟨u, x, r, rfl, hu, hx⟩
      · exact .inl (forall_mem_cons.mpr ⟨hy, hearly⟩)
      · exact .inr ⟨y :: u, x, r, rfl, forall_mem_cons.mpr ⟨hy, hu⟩, hx⟩

theorem eq_of_cut_eq (hw : ∀ x ∈ w, ¬ A.Late j x) (h : A.cut j w = A.cut j v) : v = w := by
  rcases early_or_split A j v with hv | ⟨u, x, r, rfl, hu, hx⟩
  · rw [cut_of_early hw, cut_of_early hv] at h
    exact h.symm
  · rw [cut_of_early hw, cut_append_cons hu hx] at h
    exact absurd late_mark (hw (A.mark j) (by rw [h]; simp))

theorem split_of_cut_eq (hu : ∀ z ∈ u, ¬ A.Late j z) (hx : A.Late j x)
    (h : A.cut j (u ++ x :: r) = A.cut j v) : ∃ y s, v = u ++ y :: s ∧ A.Late j y := by
  rcases early_or_split A j v with hv | ⟨u', y, s, rfl, hu', hy⟩
  · have heq := eq_of_cut_eq hv h.symm
    exact absurd hx (hv x (by rw [← heq]; simp))
  · rw [cut_append_cons hu hx, cut_append_cons hu' hy] at h
    exact ⟨y, s, by rw [append_cancel_right h], hy⟩

/-- Two lists of words that read alike are the same up to the first late letter. -/
theorem exists_first_late : ∀ {ws vs : List (List L)}, ws.map (A.cut j) = vs.map (A.cut j) →
    (∃ w ∈ ws, ∃ x ∈ w, A.Late j x) → ∃ before u x r after y s after',
      ws = before ++ (u ++ x :: r) :: after ∧ vs = before ++ (u ++ y :: s) :: after' ∧
      (∀ w ∈ before, ∀ z ∈ w, ¬ A.Late j z) ∧ (∀ z ∈ u, ¬ A.Late j z) ∧ A.Late j x ∧ A.Late j y
  | [], _, _, hlate => by
    obtain ⟨w, hw, _⟩ := hlate
    exact absurd hw not_mem_nil
  | w :: ws, [], h, _ => by simp at h
  | w :: ws, v :: vs, h, hlate => by
    rw [map_cons, map_cons, cons.injEq] at h
    rcases early_or_split A j w with hw | ⟨u, x, r, rfl, hu, hx⟩
    · have hv : v = w := eq_of_cut_eq hw h.1
      have hrest : ∃ w ∈ ws, ∃ x ∈ w, A.Late j x := by
        obtain ⟨w', hw', x, hx, hlx⟩ := hlate
        rcases mem_cons.mp hw' with rfl | hmem
        · exact absurd hlx (hw x hx)
        · exact ⟨w', hmem, x, hx, hlx⟩
      obtain ⟨before, u, x, r, after, y, s, after', rfl, rfl, hbefore, hrest⟩ :=
        exists_first_late h.2 hrest
      exact ⟨w :: before, u, x, r, after, y, s, after', rfl, by rw [hv]; rfl,
        forall_mem_cons.mpr ⟨hw, hbefore⟩, hrest⟩
    · obtain ⟨y, s, rfl, hy⟩ := split_of_cut_eq hu hx h.1
      exact ⟨[], u, x, r, ws, y, s, vs, rfl, rfl, by simp, hu, hx, hy⟩

/-! ## One round -/

variable (A) in
/-- The numbers of the words, as they are read. -/
def numbers (ws : List (List L)) : List Nat := ws.flatten.filterMap A.number

theorem mem_numbers {ws : List (List L)} :
    n ∈ A.numbers ws ↔ ∃ w ∈ ws, ∃ x ∈ w, A.number x = some n := by
  rw [numbers, mem_filterMap]
  constructor
  · intro ⟨x, hx, hn⟩
    obtain ⟨w, hw, hxw⟩ := mem_flatten.mp hx
    exact ⟨w, hw, x, hxw, hn⟩
  · intro ⟨w, hw, x, hx, hn⟩
    exact ⟨x, mem_flatten.mpr ⟨w, hw, hx⟩, hn⟩

theorem numbers_split {after : List (List L)}
    (hx : A.number x = some n) : A.numbers (before ++ (u ++ x :: r) :: after) =
      A.numbers (before ++ [u]) ++ n :: (r.filterMap A.number ++ A.numbers after) := by
  simp [numbers, filterMap_append, hx]

theorem lt_of_mem_numbers (hbefore : ∀ w ∈ before, ∀ z ∈ w, ¬ A.Late j z)
    (hu : ∀ z ∈ u, ¬ A.Late j z) : ∀ i ∈ A.numbers (before ++ [u]), i < j := by
  intro i hi
  obtain ⟨w, hw, x, hx, hnum⟩ := mem_numbers.mp hi
  by_contra hle
  have hlate : A.Late j x := ⟨i, hnum, by omega⟩
  rcases mem_append.mp hw with hmem | hmem
  · exact hbefore w hmem x hx hlate
  · rw [mem_singleton.mp hmem] at hx
    exact hu x hx hlate

variable {α : Type} {word : α → List L} {move : α → α} {before after : List α}

/-- What a round does: `move` keeps every word up to its first late letter, and the first
late letter of all becomes number `j`. Then the sorted words have one more number in place. -/
theorem range_succ_initial
    (hbefore : (before.map word).Pairwise (· ≤ ·)) (hafter : (after.map word).Pairwise (· ≤ ·))
    (hperm : after.Perm (before.map move))
    (hcut : ∀ a ∈ before, A.cut j (word (move a)) = A.cut j (word a))
    (hnext : ∀ a ∈ before, ∀ u x r n, word a = u ++ x :: r → (∀ z ∈ u, ¬ A.Late j z) →
      A.number x = some n → j ≤ n →
      range j ++ [n] <+: (A.numbers (before.map word)).eraseDups →
      ∃ z s, word (move a) = u ++ z :: s ∧ A.number z = some j)
    (hlate : ∃ n ∈ A.numbers (before.map word), j ≤ n)
    (h : range j <+: (A.numbers (before.map word)).eraseDups) :
    range (j + 1) <+: (A.numbers (after.map word)).eraseDups := by
  -- what is read of the two lists of words is sorted and has the same elements
  have hread : (before.map word).map (A.cut j) = (after.map word).map (A.cut j) := by
    refine Perm.eq_of_pairwise (fun u v _ _ huv hvu => le_antisymm huv hvu)
      (hbefore.map _ fun _ _ hle => cut_mono hle) (hafter.map _ fun _ _ hle => cut_mono hle) ?_
    have hmoved := (hperm.map word).map (A.cut j)
    have hsame : ((before.map move).map word).map (A.cut j) = (before.map word).map (A.cut j) := by
      simp only [map_map]
      exact map_congr_left hcut
    rw [hsame] at hmoved
    exact hmoved.symm
  have hlate' : ∃ w ∈ before.map word, ∃ x ∈ w, A.Late j x := by
    obtain ⟨n, hn, hjn⟩ := hlate
    obtain ⟨w, hw, x, hx, hnum⟩ := mem_numbers.mp hn
    exact ⟨w, hw, x, hx, n, hnum, hjn⟩
  obtain ⟨ws, u, x, r, tail, y, s, tail', hfirst, hthen, hws, hu, ⟨n, hn, hjn⟩, m, hm, hjm⟩ :=
    exists_first_late hread hlate'
  have hsmall := lt_of_mem_numbers hws hu
  rw [hfirst, numbers_split hn] at h
  have hrange := eraseDups_eq_range hsmall hjn h
  -- the word the first late letter was in, and where it went
  obtain ⟨a, ha, hword⟩ : ∃ a ∈ before, word a = u ++ x :: r := by
    have hmem : u ++ x :: r ∈ before.map word := by rw [hfirst]; simp
    obtain ⟨a, ha, heq⟩ := mem_map.mp hmem
    exact ⟨a, ha, heq⟩
  obtain ⟨z, t, hmoved, hz⟩ := hnext a ha u x r n hword hu hn hjn (by
    rw [hfirst, numbers_split hn]
    exact range_append_initial hsmall hjn h)
  -- it is not before the first late word, so that word's late letter is not above it
  have hle : u ++ y :: s ≤ u ++ z :: t := by
    have hmem : u ++ z :: t ∈ after.map word := by
      rw [← hmoved]
      exact mem_map_of_mem (hperm.mem_iff.mpr (mem_map_of_mem ha))
    rw [hthen] at hmem hafter
    rcases mem_append.mp hmem with hin | hin
    · exact absurd ⟨j, hz, le_rfl⟩ (hws _ hin z (by simp))
    · rcases mem_cons.mp hin with heq | hin
      · rw [heq]
      · exact (pairwise_cons.mp (pairwise_append.mp hafter).2.1).1 _ hin
  have hyz : y ≤ z := by
    by_contra hlt
    have hgt : u ++ z :: t < u ++ y :: s :=
      append_left_lt (cons_lt_cons_iff.mpr (.inl (not_le.mp hlt)))
    exact absurd hle (not_le.mpr hgt)
  have hmj : m = j := by
    by_contra hne
    have hlt : z < A.mark (j + 1) := A.lt_mark hz (by omega)
    have hge : A.mark (j + 1) ≤ y := A.mark_le hm (by omega)
    exact absurd (hlt.trans_le hge) (not_lt.mpr hyz)
  subst hmj
  have hnew : m ∉ A.numbers (ws ++ [u]) := fun hmem => absurd (hsmall m hmem) (lt_irrefl m)
  rw [hthen, numbers_split hm, range_succ]
  obtain ⟨q, hq⟩ := eraseDups_append_cons (r := s.filterMap A.number ++ A.numbers tail') hnew
  rw [hq, hrange]
  exact ⟨q, by simp⟩

end Alphabet

end Renumber
