import Mathlib.Algebra.GroupWithZero.Nat
import Mathlib.Data.List.Forall2

/-!
# Programs that keep their state when they fail

A method that mutates its receiver and returns a result or an error leaves behind whatever
it had written when the error struck. `EStateM ε σ` is that shape: both outcomes carry the
state the run stopped in.

* `wp m Q E s`: run from `s`, `m` either returns `a` in a state with `Q a`, or
  fails with `e` in a state with `E e`. One rule per way of building a program.
* `Within R m`: whatever happens, the state `m` stops in is `R`-related to the one it
  started in. Frames and invariants are both of this form, and the rules only ask `R` to be
  reflexive and transitive.

Reads are plain functions into `Except`; `ask` runs one on the current state.
-/

open List

namespace Prog

variable {ε σ τ α β : Type}

/-! ## Building blocks -/

/-- Run a read-only function on the current state. -/
def ask (f : σ → Except ε α) : EStateM ε σ α := fun s =>
  match f s with
  | .ok a => .ok a s
  | .error e => .error e s

/-- Fail with `e` unless `p` holds. -/
def ensure {m : Type → Type} [Monad m] [MonadExcept ε m] (p : Prop) [Decidable p] (e : ε) :
    m Unit :=
  if p then pure () else throw e

/-- A component of a state, with the laws of reading and writing it. -/
structure Lens (σ τ : Type) where
  get : σ → τ
  put : σ → τ → σ
  get_put : ∀ s t, get (put s t) = t := by intros; rfl
  put_get : ∀ s, put s (get s) = s := by intros; rfl
  put_put : ∀ s t t', put (put s t) t' = put s t' := by intros; rfl

/-- A component of a component. -/
def Lens.comp {ρ : Type} (outer : Lens σ τ) (inner : Lens τ ρ) : Lens σ ρ where
  get s := inner.get (outer.get s)
  put s r := outer.put s (inner.put (outer.get s) r)
  get_put s r := by rw [outer.get_put, inner.get_put]
  put_get s := by rw [inner.put_get, outer.put_get]
  put_put s r r' := by rw [outer.get_put, inner.put_put, outer.put_put]

/-- Run `m` on one component of a larger state. -/
def zoom (lens : Lens σ τ) (m : EStateM ε τ α) : EStateM ε σ α := fun s =>
  match m (lens.get s) with
  | .ok a t => .ok a (lens.put s t)
  | .error e t => .error e (lens.put s t)

/-- Run `m`; if it fails in `s'`, leave `undo s s'` behind instead, where `s` is the
state it was started in. -/
def orUndo (undo : σ → σ → σ) (m : EStateM ε σ α) : EStateM ε σ α := fun s =>
  match m s with
  | .ok a s' => .ok a s'
  | .error e s' => .error e (undo s s')

/-- The state a run stops in. -/
def final (m : EStateM ε σ α) (s : σ) : σ :=
  match m s with
  | .ok _ s' => s'
  | .error _ s' => s'

/-- What `m` returns, if it does. -/
def returned (m : EStateM ε σ α) (s : σ) : Option α :=
  match m s with
  | .ok a _ => some a
  | .error _ _ => none

variable {m : EStateM ε σ α} {a : α} {s s' : σ} {g : σ → Except ε β} {b : β} {u : Unit} {l : List α}

theorem eq_ok_of_returned (h : returned m s = some a) : m s = .ok a (final m s) := by
  unfold returned at h
  unfold final
  cases hm : m s with
  | ok b s' =>
    rw [hm] at h
    cases h
    rfl
  | error e s' =>
    rw [hm] at h
    cases h

theorem returned_of_ok (h : m s = .ok a s') : returned m s = some a := by
  unfold returned
  rw [h]

theorem final_map {m : EStateM ε σ β} {f : β → α} : final (f <$> m) s = final m s := by
  unfold final
  simp only [Functor.map, EStateM.map]
  cases m s <;> rfl

/-! ## Reads that succeed -/

theorem bind_run {f : α → EStateM ε σ β} (h : m s = .ok a s') : (m >>= f) s = f a s' := by
  show EStateM.bind m f s = f a s'
  unfold EStateM.bind
  rw [h]

theorem forM_map {f : β → EStateM ε σ Unit} {g : α → β} (l : List α) :
    (l.map g).forM f = l.forM fun a => f (g a) := by
  induction l with
  | nil => rfl
  | cons a l ih =>
    show (f (g a) >>= fun _ => (l.map g).forM f) = _
    rw [ih]
    rfl

theorem bind_eq_ok {x : Except ε α} {f : α → Except ε β} :
    (x >>= f) = .ok b ↔ ∃ a, x = .ok a ∧ f a = .ok b := by
  cases x with
  | ok a => exact ⟨fun h => ⟨a, rfl, h⟩, fun ⟨_, h1, h2⟩ => by cases h1; exact h2⟩
  | error e => exact ⟨nofun, fun ⟨_, h1, _⟩ => nomatch h1⟩

theorem pure_eq_ok {b : α} : (pure a : Except ε α) = .ok b ↔ a = b :=
  ⟨fun h => by cases h; rfl, fun h => by rw [h]; rfl⟩

variable {p : Prop} {e : ε}

theorem ensure_eq_ok [Decidable p] : (ensure p e : Except ε Unit) = .ok u ↔ p := by
  unfold ensure
  split
  · rename_i hp; exact ⟨fun _ => hp, fun _ => rfl⟩
  · rename_i hp; exact ⟨nofun, fun h => absurd h hp⟩

theorem mapM_eq_ok {f : α → Except ε β} {r : List β} :
    l.mapM f = .ok r ↔ List.Forall₂ (fun a b => f a = .ok b) l r := by
  induction l generalizing r with
  | nil =>
    rw [mapM_nil, pure_eq_ok]
    exact ⟨fun h => by rw [← h]; exact .nil, fun h => by cases h; rfl⟩
  | cons a l ih =>
    rw [mapM_cons, bind_eq_ok]
    constructor
    · rintro ⟨b, hb, h⟩
      obtain ⟨bs, hbs, h⟩ := bind_eq_ok.mp h
      rw [pure_eq_ok] at h
      rw [← h]
      exact .cons hb (ih.mp hbs)
    · intro h
      cases h with
      | cons hb hbs => exact ⟨_, hb, bind_eq_ok.mpr ⟨_, ih.mpr hbs, rfl⟩⟩

theorem forM_eq_ok {f : α → Except ε Unit} : l.forM f = .ok u ↔ ∀ a ∈ l, f a = .ok () := by
  induction l with
  | nil => exact ⟨fun _ _ h => absurd h not_mem_nil, fun _ => rfl⟩
  | cons a l ih =>
    have hcons : (a :: l).forM f = (f a >>= fun _ => l.forM f) := rfl
    rw [hcons, bind_eq_ok, forall_mem_cons, ← ih]
    exact ⟨fun ⟨_, h1, h2⟩ => ⟨h1, h2⟩, fun ⟨h1, h2⟩ => ⟨_, h1, h2⟩⟩

theorem filterAuxM_eq_ok {f : α → Except ε Bool} :
    ∀ {acc r : List α}, List.filterAuxM f l acc = .ok r →
      ∃ kept, r = kept.reverse ++ acc ∧ List.Sublist kept l ∧
        ∀ x, x ∈ kept ↔ x ∈ l ∧ f x = .ok true := by
  induction l with
  | nil =>
    intro acc r h
    cases h
    exact ⟨[], rfl, .slnil, fun x => ⟨nofun, fun h => h.1⟩⟩
  | cons a l ih =>
    intro acc r h
    obtain ⟨b, hb, h⟩ := bind_eq_ok.mp h
    obtain ⟨kept, rfl, hsub, hmem⟩ := ih h
    cases b with
    | true =>
      refine ⟨a :: kept, by simp, hsub.cons_cons a, fun x => ?_⟩
      rw [mem_cons, mem_cons, hmem]
      constructor
      · rintro (rfl | h)
        · exact ⟨.inl rfl, hb⟩
        · exact ⟨.inr h.1, h.2⟩
      · rintro ⟨rfl | h, hx⟩
        · exact .inl rfl
        · exact .inr ⟨h, hx⟩
    | false =>
      refine ⟨kept, rfl, hsub.cons a, fun x => ?_⟩
      rw [mem_cons, hmem]
      constructor
      · exact fun h => ⟨.inr h.1, h.2⟩
      · rintro ⟨rfl | h, hx⟩
        · rw [hb] at hx
          cases hx
        · exact ⟨h, hx⟩

/-- A successful filter keeps, in order, the elements whose test answered `true`. -/
theorem filterM_eq_ok {f : α → Except ε Bool} {r : List α} (h : l.filterM f = .ok r) :
    List.Sublist r l ∧ ∀ x, x ∈ r ↔ x ∈ l ∧ f x = .ok true := by
  obtain ⟨r', hr', h⟩ := bind_eq_ok.mp h
  obtain ⟨kept, rfl, hsub, hmem⟩ := filterAuxM_eq_ok hr'
  rw [pure_eq_ok] at h
  rw [← h, append_nil, reverse_reverse]
  exact ⟨hsub, hmem⟩

/-! ## Reads in a row are one read -/

theorem ask_bind_ask {f : σ → Except ε α} {g : α → σ → Except ε β} :
    (ask f >>= fun a => ask (g a)) = ask fun s => f s >>= fun a => g a s := by
  funext s
  change EStateM.bind (ask f) (fun a => ask (g a)) s = _
  unfold EStateM.bind ask
  dsimp only
  cases f s <;> rfl

theorem get_bind_ask {g : σ → σ → Except ε β} :
    ((get : EStateM ε σ σ) >>= fun s => ask (g s)) = ask fun s => g s s := rfl

theorem ensure_eq_ask [Decidable p] :
    (ensure p e : EStateM ε σ Unit) = ask fun _ => ensure p e := by
  funext s
  unfold ensure ask
  split <;> rfl

/-! ## Weakest preconditions -/

/-- From `s`, `m` returns into `Q` or fails into `E`. -/
def wp (m : EStateM ε σ α) (Q : α → σ → Prop) (E : ε → σ → Prop) (s : σ) : Prop :=
  match m s with
  | .ok a s' => Q a s'
  | .error e s' => E e s'

/-- However it ends, `m` leaves a state with `P`. -/
abbrev Ends (m : EStateM ε σ α) (P : σ → Prop) (s : σ) : Prop := wp m (fun _ => P) (fun _ => P) s

/-- If `m` returns, it does so in a state that satisfies `P`. -/
abbrev IfReturns (m : EStateM ε σ α) (P : σ → Prop) (s : σ) : Prop :=
  wp m (fun _ => P) (fun _ _ => True) s

variable {Q : α → σ → Prop} {E : ε → σ → Prop} {s : σ}

theorem wp_pure : wp (pure a : EStateM ε σ α) Q E s ↔ Q a s := Iff.rfl

variable {f : β → EStateM ε σ α}

theorem wp_bind {m : EStateM ε σ β} :
    wp (m >>= f) Q E s ↔ wp m (fun b s' => wp (f b) Q E s') E s := by
  unfold wp
  simp only [bind, EStateM.bind]
  cases m s <;> rfl

theorem wp_map {m : EStateM ε σ β} {f : β → α} :
    wp (f <$> m) Q E s ↔ wp m (fun b s' => Q (f b) s') E s := by
  unfold wp
  simp only [Functor.map, EStateM.map]
  cases m s <;> rfl

theorem wp_get {Q : σ → σ → Prop} : wp (get : EStateM ε σ σ) Q E s ↔ Q s s := Iff.rfl

theorem wp_set {Q : Unit → σ → Prop} : wp (set s' : EStateM ε σ Unit) Q E s ↔ Q ⟨⟩ s' := Iff.rfl

theorem wp_modify {Q : Unit → σ → Prop} {f : σ → σ} :
    wp (modify f : EStateM ε σ Unit) Q E s ↔ Q ⟨⟩ (f s) := Iff.rfl

/-- A read: the value it returns is the one the function gives, and nothing moves. -/
theorem wp_ask {f : σ → Except ε α} (hok : ∀ a, f s = .ok a → Q a s)
    (herr : ∀ e, f s = .error e → E e s) : wp (ask f) Q E s := by
  unfold wp ask
  cases h : f s with
  | ok a => exact hok a h
  | error e => exact herr e h

/-- A read known to succeed. -/
theorem wp_ask_ok {f : σ → Except ε α} (h : f s = .ok a) : wp (ask f) Q E s ↔ Q a s := by
  unfold wp ask
  rw [h]

/-- A check: afterwards the condition may be used. -/
theorem wp_ensure {Q : Unit → σ → Prop} [Decidable p] (hok : p → Q () s) (herr : ¬ p → E e s) :
    wp (ensure p e : EStateM ε σ Unit) Q E s := by
  unfold ensure
  split
  · rename_i hp; exact hok hp
  · rename_i hp; exact herr hp

theorem wp_ite [Decidable p] {n : EStateM ε σ α} (ht : p → wp m Q E s) (hf : ¬ p → wp n Q E s) :
    wp (if p then m else n) Q E s := by
  split
  · rename_i hp; exact ht hp
  · rename_i hp; exact hf hp

variable {Q' : α → σ → Prop} {E' : ε → σ → Prop}

theorem wp_mono (h : wp m Q E s) (hQ : ∀ a s', Q a s' → Q' a s') (hE : ∀ e s', E e s' → E' e s') :
    wp m Q' E' s := by
  unfold wp at *
  cases hm : m s with
  | ok a s' => rw [hm] at h; exact hQ a s' h
  | error e s' => rw [hm] at h; exact hE e s' h

theorem wp_imp (h : wp m Q E s) (hQ : ∀ a s', Q a s' → Q' a s') : wp m Q' E s :=
  wp_mono h hQ fun _ _ he => he

theorem wp_fail (h : wp m Q E s) (hE : ∀ e s', E e s' → E' e s') : wp m Q E' s :=
  wp_mono h (fun _ _ h => h) hE

/-! A step and what follows it. -/

theorem wp_then {m : EStateM ε σ β} {Q' : β → σ → Prop}
    (h : wp m Q' E' s) (hok : ∀ b s', Q' b s' → wp (f b) Q E s') (herr : ∀ e s', E' e s' → E e s') :
    wp (m >>= f) Q E s := wp_bind.mpr (wp_mono h hok herr)

theorem wp_seq {m : EStateM ε σ β} {P : β → σ → Prop} (h : wp m P E s)
    (hok : ∀ b s', P b s' → wp (f b) Q E s') : wp (m >>= f) Q E s := wp_bind.mpr (wp_imp h hok)

theorem wp_get_then {f : σ → EStateM ε σ α} : wp (get >>= f) Q E s ↔ wp (f s) Q E s := wp_bind

theorem wp_modify_then {g : σ → σ} {f : PUnit → EStateM ε σ α} :
    wp (modify g >>= f) Q E s ↔ wp (f ⟨⟩) Q E (g s) := wp_bind

theorem wp_ask_then (hok : ∀ b, g s = .ok b → wp (f b) Q E s)
    (herr : ∀ e, g s = .error e → E e s) : wp (ask g >>= f) Q E s := wp_bind.mpr (wp_ask hok herr)

/-- A computation of which the outcome is known. -/
theorem wp_ask_known (h : g s = .ok b) (hf : wp (f b) Q E s) : wp (ask g >>= f) Q E s :=
  wp_bind.mpr ((wp_ask_ok h).mpr hf)

theorem wp_ensure_then [Decidable p] {f : Unit → EStateM ε σ α} (hok : p → wp (f ()) Q E s)
    (herr : ¬ p → E e s) : wp (ensure p e >>= f) Q E s := wp_bind.mpr (wp_ensure hok herr)

/-- A check known to pass. -/
theorem wp_ensure_known [Decidable p] {f : Unit → EStateM ε σ α} (h : p) (hf : wp (f ()) Q E s) :
    wp (ensure p e >>= f) Q E s := wp_ensure_then (fun _ => hf) (absurd h)

/-- A step that is left out without a reason for it. -/
theorem wp_when [Decidable p] {m : EStateM ε σ Unit} {f : Unit → EStateM ε σ α} (P : σ → Prop)
    (hm : p → wp m (fun _ => P) E s) (hs : ¬ p → P s) (hf : ∀ s', P s' → wp (f ()) Q E s') :
    wp (if p then m >>= f else f ()) Q E s :=
  wp_ite (fun hp => wp_seq (hm hp) fun _ => hf) fun hp => hf s (hs hp)

theorem wp_true : wp m (fun _ _ => True) (fun _ _ => True) s := by
  unfold wp
  cases m s <;> trivial

theorem wp_and (h : wp m Q E s) (h' : wp m Q' E' s) :
    wp m (fun a s' => Q a s' ∧ Q' a s') (fun e s' => E e s' ∧ E' e s') s := by
  unfold wp at *
  cases hm : m s with
  | ok | error => rw [hm] at h h'; exact ⟨h, h'⟩

/-- The outcome of a run, kept as an equation. -/
theorem wp_run : wp m (fun a s' => m s = .ok a s') (fun e s' => m s = .error e s') s := by
  unfold wp
  cases m s <;> rfl

/-- What `wp` says of a run that is known to return. -/
theorem wp_ok (h : wp m Q E s) (hm : m s = .ok a s') : Q a s' := by
  unfold wp at h
  rw [hm] at h
  exact h

/-- What `wp` says of a run that is known to fail. -/
theorem wp_error (h : wp m Q E s) (hm : m s = .error e s') : E e s' := by
  unfold wp at h
  rw [hm] at h
  exact h

theorem ends_iff {P : σ → Prop} : Ends m P s ↔ P (final m s) := by
  unfold Ends wp final
  cases m s <;> rfl

/-- A run that cannot fail returns. -/
theorem wp_returns (h : wp m Q (fun _ _ => False) s) : ∃ a s', m s = .ok a s' ∧ Q a s' := by
  unfold wp at h
  cases hm : m s with
  | ok a s' => rw [hm] at h; exact ⟨a, s', rfl, h⟩
  | error e s' => rw [hm] at h; exact h.elim

theorem returned_of_wp {m : EStateM ε σ Unit} {R : Unit → σ → Prop}
    (h : wp m R (fun _ _ => False) s) : returned m s = some () := by
  obtain ⟨_, _, hm, -⟩ := wp_returns h
  exact returned_of_ok hm

theorem wp_zoom {lens : Lens σ τ} {m : EStateM ε τ α} : wp (zoom lens m) Q E s ↔
    wp m (fun a t => Q a (lens.put s t)) (fun e t => E e (lens.put s t)) (lens.get s) := by
  unfold wp zoom
  cases m (lens.get s) <;> rfl

theorem wp_orUndo {undo : σ → σ → σ} :
    wp (orUndo undo m) Q E s ↔ wp m Q (fun e s' => E e (undo s s')) s := by
  unfold wp orUndo
  cases m s <;> rfl

/-- A loop over a list keeps an invariant indexed by what is left to do. -/
theorem wp_forM {f : β → EStateM ε σ Unit} (I : List β → σ → Prop)
    (hstep : ∀ b bs s, I (b :: bs) s → wp (f b) (fun _ => I bs) E s) :
    ∀ (l : List β) (s : σ), I l s → wp (l.forM f) (fun _ => I []) E s
  | [], _, h => h
  | b :: bs, s, h => by
      refine wp_seq (hstep b bs s h) ?_
      intro _ s' hs'
      exact wp_forM I hstep bs s' hs'

/-- A loop over the elements of a list each of which keeps an invariant. -/
theorem wp_forM_mem {f : β → EStateM ε σ Unit} {I : σ → Prop} {l : List β} {s : σ}
    (hstep : ∀ b ∈ l, ∀ s, I s → wp (f b) (fun _ => I) E s) (h : I s) :
    wp (l.forM f) (fun _ => I) E s := by
  refine wp_imp (wp_forM (fun bs s => (∀ b ∈ bs, b ∈ l) ∧ I s) ?_ l s ⟨fun _ hb => hb, h⟩)
    fun _ _ hs => hs.2
  rintro b bs s ⟨hmem, hs⟩
  obtain ⟨hb, hbs⟩ := List.forall_mem_cons.mp hmem
  exact wp_imp (hstep b hb s hs) fun _ _ hs' => ⟨hbs, hs'⟩

/-- An accumulating loop, with an invariant on what is left and the accumulator. -/
theorem wp_foldlM {f : α → β → EStateM ε σ α} (I : List β → α → σ → Prop)
    (hstep : ∀ b bs a s, I (b :: bs) a s → wp (f a b) (fun a' => I bs a') E s) :
    ∀ (l : List β) (a : α) (s : σ), I l a s → wp (l.foldlM f a) (fun a' => I [] a') E s
  | [], _, _, h => h
  | b :: bs, a, s, h => by
      refine wp_seq (hstep b bs a s h) ?_
      intro a' s' hs'
      exact wp_foldlM I hstep bs a' s' hs'

/-! ## Frames -/

/-- Returning or failing, `m` moves the state only along `R`. -/
def Within (R : σ → σ → Prop) (m : EStateM ε σ α) : Prop :=
  ∀ s, wp m (fun _ => R s) (fun _ => R s) s

section Within

variable {R : σ → σ → Prop}

theorem Within.at (h : Within R m) (s : σ) : wp m (fun _ => R s) (fun _ => R s) s := h s

theorem Within.final (h : Within R m) (s : σ) : R s (final m s) :=
  ends_iff.mp (h s)

theorem Within.mono {R' : σ → σ → Prop} (h : Within R m) (hR : ∀ s s', R s s' → R' s s') :
    Within R' m :=
  fun s => wp_mono (h s) (fun _ s' => hR s s') (fun _ s' => hR s s')

section Refl

variable [Std.Refl R]

theorem within_pure : Within R (pure a : EStateM ε σ α) := fun s => Std.Refl.refl (r := R) s

theorem within_throw : Within R (throw e : EStateM ε σ α) :=
  fun s => Std.Refl.refl (r := R) s

theorem within_get : Within R (get : EStateM ε σ σ) := fun s => Std.Refl.refl (r := R) s

theorem within_ask {f : σ → Except ε α} : Within R (ask f) :=
  fun s => wp_ask (fun _ _ => Std.Refl.refl (r := R) s) (fun _ _ => Std.Refl.refl (r := R) s)

theorem within_ensure [Decidable p] : Within R (ensure p e : EStateM ε σ Unit) :=
  fun s => wp_ensure (fun _ => Std.Refl.refl (r := R) s) (fun _ => Std.Refl.refl (r := R) s)

end Refl

theorem within_modify {f : σ → σ} (h : ∀ s, R s (f s)) : Within R (modify f : EStateM ε σ Unit) := h

theorem Within.bind [IsTrans σ R] {m : EStateM ε σ β}
    (hm : Within R m) (hf : ∀ b, Within R (f b)) : Within R (m >>= f) := by
  intro s
  refine wp_bind.mpr (wp_mono (hm s) ?_ fun _ _ h => h)
  intro b s' hs'
  exact wp_mono (hf b s') (fun _ _ h => IsTrans.trans _ _ _ hs' h)
    (fun _ _ h => IsTrans.trans _ _ _ hs' h)

theorem Within.map {m : EStateM ε σ β} {f : β → α} (hm : Within R m) : Within R (f <$> m) :=
  fun s => wp_map.mpr (hm s)

theorem Within.ite [Decidable p] {n : EStateM ε σ α} (hm : Within R m) (hn : Within R n) :
    Within R (if p then m else n) :=
  fun s => wp_ite (fun _ => hm s) (fun _ => hn s)

variable [Std.Refl R] [IsTrans σ R]

theorem Within.forM {f : β → EStateM ε σ Unit} (hf : ∀ b, Within R (f b)) :
    ∀ l : List β, Within R (l.forM f)
  | [] => within_pure
  | b :: bs => (hf b).bind fun _ => Within.forM hf bs

theorem Within.foldlM {f : α → β → EStateM ε σ α} (hf : ∀ a b, Within R (f a b)) :
    ∀ (l : List β) (a : α), Within R (l.foldlM f a)
  | [], _ => within_pure
  | b :: bs, a => (hf a b).bind fun a' => Within.foldlM hf bs a'

variable {f : β → EStateM ε σ Bool}

theorem Within.filterAuxM (hf : ∀ b, Within R (f b)) :
    ∀ (l acc : List β), Within R (List.filterAuxM f l acc)
  | [], _ => within_pure
  | b :: bs, _ => (hf b).bind fun _ => Within.filterAuxM hf bs _

theorem Within.filterM (hf : ∀ b, Within R (f b)) (l : List β) : Within R (l.filterM f) :=
  (Within.filterAuxM hf l []).bind fun _ => within_pure

end Within

end Prog
