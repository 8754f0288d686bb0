import PyHermit.Lib.Wp

/-!
# Computations that may panic

Bounds-checked code has two ways to give up: an error is returned and the caller goes on; a
panic is not. `Except (Fault ε)` tells the two apart: indexing, slicing and plain machine
addition fail with `Fault.panic`, everything else with `Fault.error`.

`Safe m Q`: `m` does not panic and every value it returns satisfies `Q`. The rules for the
building blocks are equivalences, so `simp` turns the safety of a straight-line computation
into arithmetic; loops have a rule each. `NoPanic m` makes such a rule of a call that is
known not to panic.
-/

open List

namespace Prog

/-- How a computation gives up: by a panic, or by returning an error. -/
inductive Fault (ε : Type) where
  | panic
  | error (e : ε)
  deriving DecidableEq

namespace Fault

variable {ε α β : Type}

/-! ## Building blocks -/

/-- The value, or the fault. -/
def ofOption (o : Option α) (f : Fault ε) : Except (Fault ε) α :=
  match o with
  | some a => .ok a
  | none => .error f

/-- `xs[i]`. -/
def index (xs : List α) (i : Nat) : Except (Fault ε) α := ofOption xs[i]? .panic

/-- `xs.get(first..last)`. -/
def range? (xs : List α) (first last : Nat) : Option (List α) :=
  if first ≤ last ∧ last ≤ xs.length then some ((xs.drop first).take (last - first)) else none

/-- `&xs[first..last]`. -/
def slice (xs : List α) (first last : Nat) : Except (Fault ε) (List α) :=
  ofOption (range? xs first last) .panic

/-- `a + b` on machine integers whose largest value is `top`. -/
def plus (top a b : Nat) : Except (Fault ε) Nat :=
  if a + b ≤ top then .ok (a + b) else .error .panic

variable {first last : Nat} {xs ys : List α} {a : α} {b : β} {i : Nat} {P : α → Prop}

theorem range?_eq_some : range? xs first last = some ys ↔
      first ≤ last ∧ last ≤ xs.length ∧ (xs.drop first).take (last - first) = ys := by
  unfold range?
  by_cases h : first ≤ last ∧ last ≤ xs.length
  · rw [if_pos h, Option.some_inj]
    exact ⟨fun heq => ⟨h.1, h.2, heq⟩, fun heq => heq.2.2⟩
  · rw [if_neg h]
    exact ⟨fun heq => (Option.some_ne_none _ heq.symm).elim, fun heq => (h ⟨heq.1, heq.2.1⟩).elim⟩

theorem length_of_range? (h : range? xs first last = some ys) : ys.length = last - first := by
  obtain ⟨hle, hlast, rfl⟩ := range?_eq_some.mp h
  simp only [length_take, length_drop]
  omega

/-! ## Safety -/

/-- `m` does not panic, and what it returns satisfies `Q`. -/
def Safe (m : Except (Fault ε) α) (Q : α → Prop := fun _ => True) : Prop :=
  match m with
  | .ok a => Q a
  | .error f => f ≠ .panic

variable {Q : α → Prop}

@[simp] theorem safe_ok : Safe (.ok a : Except (Fault ε) α) Q ↔ Q a := Iff.rfl

@[simp] theorem safe_pure : Safe (pure a : Except (Fault ε) α) Q ↔ Q a :=
  Iff.rfl

@[simp] theorem safe_error {f : Fault ε} : Safe (.error f) Q ↔ f ≠ .panic := Iff.rfl

@[simp] theorem safe_throw {f : Fault ε} : Safe (throw f : Except (Fault ε) α) Q ↔ f ≠ .panic :=
  Iff.rfl

variable {m : Except (Fault ε) α} {f : α → Except (Fault ε) β}

@[simp] theorem safe_bind {Q : β → Prop} : Safe (m >>= f) Q ↔ Safe m fun a => Safe (f a) Q := by
  cases m <;> exact Iff.rfl

@[simp] theorem safe_map {f : α → β} {Q : β → Prop} :
    Safe (f <$> m) Q ↔ Safe m fun a => Q (f a) := by
  cases m <;> exact Iff.rfl

@[simp] theorem safe_ite {c : Prop} [Decidable c] {m' : Except (Fault ε) α} :
    Safe (if c then m else m') Q ↔ (c → Safe m Q) ∧ (¬ c → Safe m' Q) := by
  by_cases h : c <;> simp [h]

@[simp] theorem safe_ensure {p : Prop} [Decidable p] {f : Fault ε} {Q : Unit → Prop} :
    Safe (ensure p f) Q ↔ (p → Q ()) ∧ (¬ p → f ≠ .panic) := safe_ite

@[simp] theorem safe_ofOption {o : Option α} {f : Fault ε} :
    Safe (ofOption o f) Q ↔ (∀ a, o = some a → Q a) ∧ (o = none → f ≠ .panic) := by
  cases o <;> simp [ofOption]

@[simp] theorem safe_plus {top a b : Nat} {Q : Nat → Prop} :
    Safe (plus top a b : Except (Fault ε) Nat) Q ↔ a + b ≤ top ∧ Q (a + b) := by
  unfold plus
  by_cases h : a + b ≤ top <;> simp [h]

variable {xs : List α}

theorem safe_index : Safe (index xs i : Except (Fault ε) α) Q ↔ ∃ a, xs[i]? = some a ∧ Q a := by
  unfold index
  cases xs[i]? <;> simp [ofOption]

theorem safe_index_of_lt (h : i < xs.length) :
    Safe (index xs i : Except (Fault ε) α) Q ↔ ∀ a, xs[i]? = some a → Q a := by
  simp [safe_index, getElem?_eq_getElem h]

theorem safe_slice {Q : List α → Prop} : Safe (slice xs first last : Except (Fault ε) (List α)) Q ↔
      (first ≤ last ∧ last ≤ xs.length) ∧ Q ((xs.drop first).take (last - first)) := by
  unfold slice range?
  by_cases h : first ≤ last ∧ last ≤ xs.length
  · rw [if_pos h]
    exact ⟨fun hq => ⟨h, hq⟩, And.right⟩
  · rw [if_neg h]
    exact ⟨fun hq => (hq rfl).elim, fun hq => (h hq.1).elim⟩

theorem safe_slice_of_le {Q : List α → Prop} (h : first ≤ last)
    (h' : last ≤ xs.length) : Safe (slice xs first last : Except (Fault ε) (List α)) Q ↔
      Q ((xs.drop first).take (last - first)) := by
  rw [safe_slice]
  exact and_iff_right ⟨h, h'⟩

theorem Safe.mono (h : Safe m P) (himp : ∀ a, P a → Q a) : Safe m Q := by
  cases m with
  | ok a => exact himp a h
  | error f => exact h

/-- `m` does not panic, as a rule about what uses its value. -/
abbrev NoPanic (m : Except (Fault ε) α) : Prop := ∀ {Q : α → Prop}, Safe m Q ↔ ∀ a, m = .ok a → Q a

theorem Safe.noPanic (h : Safe m P) : NoPanic m := by
  intro Q
  cases m with
  | ok a => simp
  | error f => simpa using h

theorem noPanic (h : Safe m) : NoPanic m := h.noPanic

theorem Safe.of_eq_ok (h : Safe m Q) (ha : m = .ok a) : Q a := by
  rw [ha] at h
  exact h

theorem Safe.ne_panic (h : Safe m Q) : m ≠ .error .panic := by
  intro hm
  rw [hm] at h
  exact h rfl

/-! ## Loops -/

theorem safe_mapM {P : β → Prop} (h : ∀ x ∈ xs, Safe (f x) P) :
    Safe (xs.mapM f) fun ys => ys.length = xs.length ∧ ∀ y ∈ ys, P y := by
  induction xs with
  | nil => simp
  | cons x xs ih =>
    rw [mapM_cons, safe_bind]
    refine (h x mem_cons_self).mono fun y hy => ?_
    rw [safe_bind]
    refine (ih fun x hx => h x (mem_cons_of_mem _ hx)).mono fun ys hys => ?_
    exact ⟨by simp [hys.1], forall_mem_cons.mpr ⟨hy, hys.2⟩⟩

theorem safe_forM {f : α → Except (Fault ε) Unit}
    (h : ∀ x ∈ xs, Safe (f x) fun _ => P x) : Safe (forM xs f) fun _ => ∀ x ∈ xs, P x := by
  induction xs with
  | nil => simp
  | cons x xs ih =>
    rw [forM_cons, safe_bind]
    refine (h x mem_cons_self).mono fun _ hx => ?_
    refine (ih fun x hx => h x (mem_cons_of_mem _ hx)).mono fun _ hxs => ?_
    exact forall_mem_cons.mpr ⟨hx, hxs⟩

@[simp] theorem noPanic_mapM (h : ∀ x ∈ xs, Safe (f x)) : NoPanic (xs.mapM f) :=
  (safe_mapM h).noPanic

@[simp] theorem noPanic_forM {f : α → Except (Fault ε) Unit} (h : ∀ x ∈ xs, Safe (f x)) :
    NoPanic (forM xs f) :=
  (safe_forM h).noPanic

theorem safe_anyM {f : α → Except (Fault ε) Bool} (h : ∀ x ∈ xs, Safe (f x)) :
    Safe (xs.anyM f) := by
  induction xs with
  | nil => trivial
  | cons x xs ih =>
    rw [List.anyM, safe_bind]
    refine (h x mem_cons_self).mono fun found _ => ?_
    cases found with
    | true => trivial
    | false => exact ih fun y hy => h y (mem_cons_of_mem _ hy)

theorem safe_foldlM {f : β → α → Except (Fault ε) β} (I : β → Prop)
    (hb : I b) (h : ∀ b, I b → ∀ x ∈ xs, Safe (f b x) I) : Safe (xs.foldlM f b) I := by
  induction xs generalizing b with
  | nil => exact hb
  | cons x xs ih =>
    rw [foldlM_cons, safe_bind]
    exact (h b hb x mem_cons_self).mono fun b' hb' =>
      ih hb' fun b hb y hy => h b hb y (mem_cons_of_mem _ hy)

@[simp] theorem noPanic_foldlM {f : β → α → Except (Fault ε) β}
    (h : ∀ b, ∀ x ∈ xs, Safe (f b x)) : NoPanic (xs.foldlM f b) :=
  (safe_foldlM (fun _ => True) trivial fun b _ => h b).noPanic

end Fault

end Prog
