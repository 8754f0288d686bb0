import Mathlib.Order.WellFoundedSet

/-!
# Covering pairs of a finite preorder

`Covers r s a b`: in the preorder `r`, `b` is strictly above `a` with no point of the finite
set `s` in between. These are the edges of the Hasse diagram of `s`.

* Between two comparable points there is a path of covers, and the path stays between them
  (`exists_path`).
* A search that starts at the greatest point and goes down over covers, a level at a time,
  ends on the least points of an upper set (`Descent`).
* A new point cuts the covers it lies between and no others (`covers_insert`).
* A set of pairs between the covers and the strict order can be reduced to the covers one
  pair at a time: a pair can be left out exactly when the others still connect its ends
  (`not_covers_of_path`, `covers_of_not_path`).
* An order with a least and a greatest point is generated by the pairs in its middle, with
  these two points put below and above what is left loose (`skeleton_generates`).
-/

namespace Cover

open Relation

variable {ι : Type}

/-- Below and not above. -/
def Below (r : ι → ι → Prop) (a b : ι) : Prop := r a b ∧ ¬ r b a

/-- `b` is next above `a` among the points of `s`. -/
structure Covers (r : ι → ι → Prop) (s : Set ι) (a b : ι) : Prop where
  left : a ∈ s
  right : b ∈ s
  below : Below r a b
  between : ∀ c ∈ s, Below r a c → ¬ Below r c b

variable {r : ι → ι → Prop} {s : Set ι} {a b : ι} {r' : ι → ι → Prop}

theorem covers_flip : Covers (flip r) s a b ↔ Covers r s b a := by
  have hflip : ∀ {r : ι → ι → Prop} {a b : ι}, Covers (flip r) s a b → Covers r s b a := fun h =>
    ⟨h.right, h.left, h.below, fun c hc hbc hca => h.between c hc hca hbc⟩
  exact ⟨hflip, hflip (r := flip r)⟩

theorem Covers.congr (h : ∀ x ∈ s, ∀ y ∈ s, r x y ↔ r' x y) (hcov : Covers r s a b) :
    Covers r' s a b := by
  have hbelow : ∀ x ∈ s, ∀ y ∈ s, Below r x y ↔ Below r' x y := by
    intro x hx y hy
    unfold Below
    rw [h x hx y hy, h y hy x hx]
  refine ⟨hcov.left, hcov.right, (hbelow a hcov.left b hcov.right).mp hcov.below, ?_⟩
  intro c hc hac hcb
  exact hcov.between c hc ((hbelow a hcov.left c hc).mpr hac) ((hbelow c hc b hcov.right).mpr hcb)

theorem covers_congr (h : ∀ x ∈ s, ∀ y ∈ s, r x y ↔ r' x y) : Covers r s a b ↔ Covers r' s a b :=
  ⟨Covers.congr h, Covers.congr fun x hx y hy => (h x hx y hy).symm⟩

theorem Below.ne (h : Below r a b) : a ≠ b := by
  intro hab
  rw [hab] at h
  exact h.2 h.1

/-! ## A new point -/

/-- Among the old points, a new point cuts the covers it lies between. -/
theorem covers_insert {e : ι} (ha : a ∈ s) (hb : b ∈ s) :
    Covers r (insert e s) a b ↔ Covers r s a b ∧ ¬ (Below r a e ∧ Below r e b) := by
  constructor
  · intro h
    refine ⟨⟨ha, hb, h.below, fun c hc => h.between c (Set.mem_insert_of_mem e hc)⟩, ?_⟩
    rintro ⟨hae, heb⟩
    exact h.between e (Set.mem_insert e s) hae heb
  · rintro ⟨h, hcut⟩
    refine ⟨Set.mem_insert_of_mem e ha, Set.mem_insert_of_mem e hb, h.below, ?_⟩
    intro c hc hac hcb
    rcases hc with rfl | hc
    · exact hcut ⟨hac, hcb⟩
    · exact h.between c hc hac hcb

variable {edge : ι → ι → Prop}

section Trans

variable {r : ι → ι → Prop} [IsTrans ι r] {s : Set ι} {a b c e : ι}

theorem Below.trans_le (h : Below r a b) (h' : r b c) : Below r a c :=
  ⟨trans_of r h.1 h', fun hca => h.2 (trans_of r h' hca)⟩

theorem Below.trans (h : Below r a b) (h' : Below r b c) : Below r a c := h.trans_le h'.1

instance : IsStrictOrder ι (Below r) where
  irrefl _ h := h.2 h.1
  trans _ _ _ h h' := h.trans h'

instance trans_flip : IsTrans ι (flip r) := ⟨fun _ _ _ h h' => trans_of r h' h⟩

theorem covers_of_cut (h : Covers r s a b) (hae : Below r a e) (heb : Below r e b) :
    Covers r (insert e s) a e ∧ Covers r (insert e s) e b := by
  constructor
  · refine ⟨Set.mem_insert_of_mem e h.left, Set.mem_insert e s, hae, ?_⟩
    intro c hc hac hce
    rcases hc with rfl | hc
    · exact hce.ne rfl
    · exact h.between c hc hac (hce.trans heb)
  · refine ⟨Set.mem_insert e s, Set.mem_insert_of_mem e h.right, heb, ?_⟩
    intro c hc hec hcb
    rcases hc with rfl | hc
    · exact hec.ne rfl
    · exact h.between c hc (hae.trans hec) hcb

theorem Covers.of_generates (hedge : ∀ x y, edge x y → x ∈ s ∧ y ∈ s ∧ Below r x y)
    (hgen : TransGen edge a b) (h : Covers r s a b) : edge a b := by
  obtain ⟨c, hac, hcb⟩ := TransGen.head'_iff.mp hgen
  rcases Relation.reflTransGen_iff_eq_or_transGen.mp hcb with hbc | hcb
  · rw [hbc]
    exact hac
  · -- a path of two edges or more passes a point in between
    have hbelow : Below r c b := by
      refine TransGen.trans_induction_on (motive := fun {x y} _ => Below r x y) hcb ?_ ?_
      · intro x y hxy
        exact (hedge x y hxy).2.2
      · intro x y z _ _ hxy hyz
        exact hxy.trans hyz
    obtain ⟨-, hc, hac⟩ := hedge a c hac
    exact absurd hbelow (h.between c hc hac)

/-- If the other pairs of the strict order still connect the ends of a pair, it is no cover. -/
theorem not_covers_of_path (hedge : ∀ x y, edge x y → x ∈ s ∧ y ∈ s ∧ Below r x y)
    (hab : ¬ edge a b) (hpath : TransGen edge a b) : ¬ Covers r s a b := by
  intro h
  exact hab (h.of_generates hedge hpath)

end Trans

/-! ## Generating pairs of an order with a least and a greatest point -/

section Skeleton

variable {r told : ι → ι → Prop} {s : Set ι} {b t x y : ι}

/-- A pair of different points that does not begin at `b` or end at `t`. -/
def Inner (told : ι → ι → Prop) (b t x y : ι) : Prop := told x y ∧ x ≠ y ∧ x ≠ b ∧ y ≠ t

/-- The inner pairs, and the outer points put around them. -/
inductive Framed (told : ι → ι → Prop) (s : Set ι) (b t : ι) : ι → ι → Prop
  | inner {x y : ι} (h : Inner told b t x y) : Framed told s b t x y
  | low {y : ι} (hy : y ∈ s) (hb : y ≠ b) (ht : y ≠ t) (hnone : ∀ x, ¬ Inner told b t x y) :
      Framed told s b t b y
  | high {x : ι} (hx : x ∈ s) (hb : x ≠ b) (ht : x ≠ t) (hnone : ∀ y, ¬ Inner told b t x y) :
      Framed told s b t x t

/-- With nothing in the middle the outer points are next to each other. -/
def Skeleton (told : ι → ι → Prop) (s : Set ι) (b t : ι) (x y : ι) : Prop :=
  Framed told s b t x y ∨ ((∀ u v, ¬ Framed told s b t u v) ∧ x = b ∧ y = t)

/-- The told pairs lie in the order, with `b` least and `t` greatest. -/
structure Frame (told : ι → ι → Prop) (r : ι → ι → Prop) (s : Set ι) (b t : ι) : Prop where
  anti : ∀ x ∈ s, ∀ y ∈ s, r x y → r y x → x = y
  told : ∀ x y, told x y → x ∈ s ∧ y ∈ s ∧ r x y
  least_mem : b ∈ s
  greatest_mem : t ∈ s
  least : ∀ x ∈ s, r b x
  greatest : ∀ x ∈ s, r x t
  proper : b ≠ t

variable (h : Frame told r s b t)

include h

theorem Frame.below (hx : x ∈ s) (hy : y ∈ s) (hxy : r x y) (hne : x ≠ y) : Below r x y :=
  ⟨hxy, fun hyx => hne (h.anti x hx y hy hxy hyx)⟩

theorem Frame.inner (hxy : Inner told b t x y) :
    x ∈ s ∧ y ∈ s ∧ Below r x y ∧ x ≠ b ∧ x ≠ t ∧ y ≠ b ∧ y ≠ t := by
  obtain ⟨hx, hy, hle⟩ := h.told x y hxy.1
  refine ⟨hx, hy, h.below hx hy hle hxy.2.1, hxy.2.2.1, ?_, ?_, hxy.2.2.2⟩
  · rintro rfl
    exact hxy.2.1 (h.anti _ hx y hy hle (h.greatest y hy))
  · rintro rfl
    exact hxy.2.1 (h.anti x hx _ hy hle (h.least x hx))

theorem Frame.skeleton_below (hxy : Skeleton told s b t x y) : x ∈ s ∧ y ∈ s ∧ Below r x y := by
  rcases hxy with hxy | ⟨-, rfl, rfl⟩
  · cases hxy with
    | inner hin =>
      obtain ⟨hx, hy, hbelow, -⟩ := h.inner hin
      exact ⟨hx, hy, hbelow⟩
    | low hy hb ht hnone => exact ⟨h.least_mem, hy, h.below h.least_mem hy (h.least _ hy) hb.symm⟩
    | high hx hb ht hnone =>
      exact ⟨hx, h.greatest_mem, h.below hx h.greatest_mem (h.greatest _ hx) ht⟩
  · exact ⟨h.least_mem, h.greatest_mem,
      h.below h.least_mem h.greatest_mem (h.least _ h.greatest_mem) h.proper⟩

variable [IsTrans ι r] (hs : s.Finite)

include hs

theorem Frame.path_least (hy : y ∈ s) (hb : y ≠ b) (ht : y ≠ t) :
    ReflTransGen (Skeleton told s b t) b y := by
  refine (hs.wellFoundedOn (r := Below r)).induction
    (P := fun y => y ≠ b → y ≠ t → ReflTransGen (Skeleton told s b t) b y) hy ?_ hb ht
  intro y hy ih hb ht
  by_cases hsome : ∃ x, Inner told b t x y
  · obtain ⟨x, hxy⟩ := hsome
    obtain ⟨hx, -, hbelow, hxb, hxt, -, -⟩ := h.inner hxy
    exact (ih x hx hbelow hxb hxt).tail (.inl (.inner hxy))
  · exact .single (.inl (.low hy hb ht fun x hxy => hsome ⟨x, hxy⟩))

theorem Frame.path_greatest (hx : x ∈ s) (hb : x ≠ b) (ht : x ≠ t) :
    ReflTransGen (Skeleton told s b t) x t := by
  refine (hs.wellFoundedOn (r := Below (flip r))).induction
    (P := fun x => x ≠ b → x ≠ t → ReflTransGen (Skeleton told s b t) x t) hx ?_ hb ht
  intro x hx ih hb ht
  by_cases hsome : ∃ y, Inner told b t x y
  · obtain ⟨y, hxy⟩ := hsome
    obtain ⟨-, hy, hbelow, -, -, hyb, hyt⟩ := h.inner hxy
    exact (ih y hy hbelow hyb hyt).head (.inl (.inner hxy))
  · exact .single (.inl (.high hx hb ht fun y hxy => hsome ⟨y, hxy⟩))

theorem Frame.path_across : ReflTransGen (Skeleton told s b t) b t := by
  by_cases hsome : ∃ u v, Framed told s b t u v
  · have hmiddle : ∃ c ∈ s, c ≠ b ∧ c ≠ t := by
      obtain ⟨u, v, huv⟩ := hsome
      cases huv with
      | inner hin =>
        obtain ⟨hu, -, -, hub, hut, -, -⟩ := h.inner hin
        exact ⟨u, hu, hub, hut⟩
      | low hy hb ht hnone => exact ⟨v, hy, hb, ht⟩
      | high hx hb ht hnone => exact ⟨u, hx, hb, ht⟩
    obtain ⟨c, hc, hcb, hct⟩ := hmiddle
    exact (h.path_least hs hc hcb hct).trans (h.path_greatest hs hc hcb hct)
  · exact .single (.inr ⟨fun u v huv => hsome ⟨u, v, huv⟩, rfl, rfl⟩)

/-- What the told pairs generate with the least and the greatest point, the skeleton does. -/
theorem Frame.skeleton_generates
    (hpath : ReflTransGen (fun x y => told x y ∨ (y ∈ s ∧ x = b) ∨ (x ∈ s ∧ y = t)) x y) :
    ReflTransGen (Skeleton told s b t) x y := by
  have hlow : ∀ y ∈ s, ReflTransGen (Skeleton told s b t) b y := by
    intro y hy
    by_cases hb : y = b
    · rw [hb]
    · by_cases ht : y = t
      · rw [ht]
        exact h.path_across hs
      · exact h.path_least hs hy hb ht
  have hhigh : ∀ x ∈ s, ReflTransGen (Skeleton told s b t) x t := by
    intro x hx
    by_cases ht : x = t
    · rw [ht]
    · by_cases hb : x = b
      · rw [hb]
        exact h.path_across hs
      · exact h.path_greatest hs hx hb ht
  induction hpath with
  | refl => exact .refl
  | @tail y z _ hstep ih =>
    refine ih.trans ?_
    rcases hstep with htold | ⟨hz, rfl⟩ | ⟨hy, rfl⟩
    · obtain ⟨hy, hz, -⟩ := h.told y z htold
      by_cases hne : y = z
      · rw [hne]
      · by_cases hb : y = b
        · rw [hb]
          exact hlow z hz
        · by_cases ht : z = t
          · rw [ht]
            exact hhigh y hy
          · exact .single (.inl (.inner ⟨htold, hne, hb, ht⟩))
    · exact hlow z hz
    · exact hhigh y hy

end Skeleton

instance refl_flip {r : ι → ι → Prop} [Std.Refl r] : Std.Refl (flip r) := ⟨fun a => refl_of r a⟩

variable {r : ι → ι → Prop} [IsTrans ι r] [Std.Refl r] {s : Set ι} {a b t : ι}

/-! ## Paths of covers -/

/-- Below `b` there is a cover of `a`, if `b` is above `a` at all. -/
theorem exists_covers_above (hs : s.Finite) (ha : a ∈ s) (hb : b ∈ s) (hab : Below r a b) :
    ∃ c, Covers r s a c ∧ r c b := by
  -- induction on `b`, downwards: either nothing lies between, or we go on with what does
  refine (hs.wellFoundedOn (r := Below r)).induction
    (P := fun x => Below r a x → ∃ c, Covers r s a c ∧ r c x) hb ?_ hab
  intro x hx ih hax
  by_cases hbetween : ∃ c ∈ s, Below r a c ∧ Below r c x
  · obtain ⟨c, hc, hac, hcx⟩ := hbetween
    obtain ⟨d, hd, hdc⟩ := ih c hc hcx hac
    exact ⟨d, hd, trans_of r hdc hcx.1⟩
  · refine ⟨x, ⟨ha, hx, hax, ?_⟩, refl_of r x⟩
    intro c hc hac hcx
    exact hbetween ⟨c, hc, hac, hcx⟩

theorem exists_covers_below (hs : s.Finite) (ha : a ∈ s) (hb : b ∈ s) (hab : Below r a b) :
    ∃ c, Covers r s c b ∧ r a c := by
  obtain ⟨c, hc, hca⟩ := exists_covers_above (r := flip r) hs hb ha hab
  exact ⟨c, covers_flip.mp hc, hca⟩

/-- Covers generate the order, without leaving the interval. -/
theorem exists_path (hs : s.Finite) (hanti : ∀ x ∈ s, ∀ y ∈ s, r x y → r y x → x = y)
    (ha : a ∈ s) (hb : b ∈ s) (hab : r a b) :
    ReflTransGen (fun x y => Covers r s x y ∧ r a x ∧ r y b) a b := by
  refine (hs.wellFoundedOn (r := Below r)).induction
    (P := fun x => r a x → ReflTransGen (fun y z => Covers r s y z ∧ r a y ∧ r z x) a x) hb ?_ hab
  intro x hx ih hax
  by_cases hxa : r x a
  · rw [hanti a ha x hx hax hxa]
  · obtain ⟨c, hc, hac⟩ := exists_covers_below hs ha hx ⟨hax, hxa⟩
    have hpath := ih c hc.left hc.below hac
    have hwider : ReflTransGen (fun y z => Covers r s y z ∧ r a y ∧ r z x) a c :=
      ReflTransGen.mono (fun y z h => ⟨h.1, h.2.1, trans_of r h.2.2 hc.below.1⟩) _ _ hpath
    exact hwider.tail ⟨hc, hac, refl_of r x⟩

/-- A set that holds the greatest point and, with a point, all points of an upper set that
it covers, holds the whole upper set. -/
theorem mem_of_closed {P Q : ι → Prop} (hs : s.Finite)
    (hanti : ∀ x ∈ s, ∀ y ∈ s, r x y → r y x → x = y) (ht : t ∈ s)
    (hup : ∀ x y, P x → r x y → P y) (hstart : Q t)
    (hclosed : ∀ x y, Q x → Covers r s y x → P y → Q y)
    (ha : a ∈ s) (hat : r a t) (hP : P a) : Q a := by
  -- induction on `a`, upwards: a cover of `a` on the way to the top has been found before
  refine (hs.wellFoundedOn (r := Below (flip r))).induction
    (P := fun x => r x t → P x → Q x) ha ?_ hat hP
  intro x hx ih hxt hPx
  by_cases htx : r t x
  · rw [hanti x hx t ht hxt htx]
    exact hstart
  · obtain ⟨c, hc, hct⟩ := exists_covers_above hs hx ht ⟨hxt, htx⟩
    exact hclosed c x (ih c hc.right hc.below hct (hup x c hPx hc.below.1)) hc hPx

/-- The least points of an upper set are those that cover no other point of it. -/
theorem minimal_iff {P : ι → Prop} (hs : s.Finite) (hup : ∀ x y, P x → r x y → P y) (hb : b ∈ s) :
    (∀ c, Covers r s c b → ¬ P c) ↔ ∀ c ∈ s, P c → ¬ Below r c b := by
  constructor
  · intro h c hc hPc hcb
    obtain ⟨d, hd, hcd⟩ := exists_covers_below hs hc hb hcb
    exact h d hd (hup c d hPc hcd)
  · intro h c hc hPc
    exact h c hc.left hPc hc.below

/-! ## Reducing a relation to its covers -/

theorem le_of_path (hedge : ∀ x y, edge x y → r x y) (h : ReflTransGen edge a b) : r a b := by
  induction h with
  | refl => exact refl_of r a
  | tail _ hstep ih => exact trans_of r ih (hedge _ _ hstep)

/-- If the other pairs do not connect the ends of a pair, and all covers are among them and
it, then it is a cover. -/
theorem covers_of_not_path (hs : s.Finite) (hanti : ∀ x ∈ s, ∀ y ∈ s, r x y → r y x → x = y)
    (hcovers : ∀ x y, Covers r s x y → ¬ (x = a ∧ y = b) → edge x y)
    (ha : a ∈ s) (hb : b ∈ s) (hab : Below r a b) (hpath : ¬ ReflTransGen edge a b) :
    Covers r s a b := by
  refine ⟨ha, hb, hab, ?_⟩
  intro c hc hac hcb
  apply hpath
  -- a path of covers through `c` uses the pair itself nowhere
  have hleft : ReflTransGen edge a c := by
    refine ReflTransGen.mono ?_ _ _ (exists_path hs hanti ha hc hac.1)
    intro x y h
    refine hcovers x y h.1 ?_
    rintro ⟨-, rfl⟩
    exact hcb.2 h.2.2
  have hright : ReflTransGen edge c b := by
    refine ReflTransGen.mono ?_ _ _ (exists_path hs hanti hc hb hcb.1)
    intro x y h
    refine hcovers x y h.1 ?_
    rintro ⟨rfl, -⟩
    exact hac.2 h.2.1
  exact hleft.trans hright

/-! ## Searching for the least points of an upper set -/

/-- The least points of `s` with `P`. -/
def Least (r : ι → ι → Prop) (s : Set ι) (P : ι → Prop) (a : ι) : Prop :=
  a ∈ s ∧ P a ∧ ∀ c ∈ s, P c → ¬ Below r c a

/-- Between the rounds of a search down from `t` over the points with `P`. -/
structure Descent (r : ι → ι → Prop) (s : Set ι) (P : ι → Prop) (t : ι)
    (frontier visited found boundary : Set ι) : Prop where
  inside : ∀ i ∈ found, i ∈ s ∧ P i
  mem_found : ∀ i, i ∈ found ↔ i ∈ visited ∨ i ∈ frontier
  fresh : ∀ i ∈ frontier, i ∉ visited
  started : t ∈ found
  /-- Everything with `P` that a visited point covers has been found. -/
  closed : ∀ i ∈ visited, ∀ c, Covers r s c i → P c → c ∈ found
  mem_boundary : ∀ i, i ∈ boundary ↔ i ∈ visited ∧ ∀ c, Covers r s c i → ¬ P c

section Descent

variable {r : ι → ι → Prop} {s : Set ι} {P : ι → Prop} {t : ι}
  {frontier visited found boundary : Set ι} {a b : ι}

theorem covers_iff_least (ha : a ∈ s) : Covers r s a b ↔ Least r s (Below r a) b :=
  ⟨fun h => ⟨h.right, h.below, h.between⟩, fun h => ⟨ha, h.1, h.2.1, h.2.2⟩⟩

theorem exists_least [IsTrans ι r] (hs : s.Finite) (ha : a ∈ s) (hP : P a) :
    ∃ b, Least r s P b ∧ (b = a ∨ Below r b a) := by
  refine (hs.wellFoundedOn (r := Below r)).induction
    (P := fun x => P x → ∃ b, Least r s P b ∧ (b = x ∨ Below r b x)) ha ?_ hP
  intro x hx ih hPx
  by_cases hleast : ∃ c ∈ s, P c ∧ Below r c x
  · obtain ⟨c, hc, hPc, hcx⟩ := hleast
    obtain ⟨b, hb, rfl | hbc⟩ := ih c hc hcx hPc
    · exact ⟨b, hb, .inr hcx⟩
    · exact ⟨b, hb, .inr (hbc.trans hcx)⟩
  · exact ⟨x, ⟨hx, hPx, fun c hc hPc hcx => hleast ⟨c, hc, hPc, hcx⟩⟩, .inl rfl⟩

theorem least_congr {r' : ι → ι → Prop} {P' : ι → Prop} (hr : ∀ x ∈ s, ∀ y ∈ s, r x y ↔ r' x y)
    (hP : ∀ x ∈ s, P x ↔ P' x) : Least r s P a ↔ Least r' s P' a := by
  refine and_congr_right fun ha => and_congr (hP a ha) (forall₂_congr fun c hc => ?_)
  unfold Below
  rw [hP c hc, hr c hc a ha, hr a ha c hc]

/-- A point of `P` below all others is the only least one. -/
theorem least_iff_eq (hanti : ∀ x ∈ s, ∀ y ∈ s, r x y → r y x → x = y) (ha : a ∈ s) (hP : P a)
    (hbelow : ∀ c, P c → r a c) : Least r s P b ↔ b = a := by
  constructor
  · rintro ⟨hb, hPb, hleast⟩
    have hab := hbelow b hPb
    by_contra hne
    exact hleast a ha hP ⟨hab, fun hba => hne (hanti b hb a ha hba hab)⟩
  · rintro rfl
    exact ⟨ha, hP, fun c _ hPc hca => hca.2 (hbelow c hPc)⟩

theorem Descent.start (ht : t ∈ s) (hP : P t) : Descent r s P t {t} ∅ {t} ∅ := by
  refine ⟨?_, ?_, ?_, rfl, ?_, ?_⟩ <;> simp [ht, hP]

/-- A round finds the points with `P` that the frontier covers. -/
theorem Descent.round {T : Set ι} (h : Descent r s P t frontier visited found boundary)
    (htrue : ∀ c, c ∈ T ↔ (c ∉ visited ∧ ∃ i ∈ frontier, Covers r s c i) ∧ P c) :
    Descent r s P t (T \ (visited ∪ frontier)) (visited ∪ frontier) (found ∪ T)
      (boundary ∪ { i | i ∈ frontier ∧ ∀ c, Covers r s c i → c ∉ found ∪ T }) := by
  have hinside : ∀ i ∈ found ∪ T, i ∈ s ∧ P i := by
    rintro i (hi | hi)
    · exact h.inside i hi
    · obtain ⟨⟨-, j, -, hj⟩, hP⟩ := (htrue i).mp hi
      exact ⟨hj.left, hP⟩
  have hnext : ∀ i ∈ frontier, ∀ c, Covers r s c i → P c → c ∈ found ∪ T := by
    intro i hi c hc hP
    by_cases hseen : c ∈ visited
    · exact .inl ((h.mem_found c).mpr (.inl hseen))
    · exact .inr ((htrue c).mpr ⟨⟨hseen, i, hi, hc⟩, hP⟩)
  refine ⟨hinside, ?_, fun i hi => hi.2, .inl h.started, ?_, ?_⟩
  · intro i
    simp only [Set.mem_union, Set.mem_sdiff, h.mem_found]
    tauto
  · rintro i (hi | hi) c hc hP
    · exact .inl (h.closed i hi c hc hP)
    · exact hnext i hi c hc hP
  · intro i
    constructor
    · rintro (hi | ⟨hi, hnone⟩)
      · exact ⟨.inl ((h.mem_boundary i).mp hi).1, ((h.mem_boundary i).mp hi).2⟩
      · exact ⟨.inr hi, fun c hc hP => hnone c hc (hnext i hi c hc hP)⟩
    · rintro ⟨hi | hi, hleast⟩
      · exact .inl ((h.mem_boundary i).mpr ⟨hi, hleast⟩)
      · exact .inr ⟨hi, fun c hc hmem => hleast c hc (hinside c hmem).2⟩

/-- A search with nothing left on the frontier has found the least points. -/
theorem Descent.done [IsTrans ι r] [Std.Refl r] (h : Descent r s P t ∅ visited found boundary)
    (hs : s.Finite) (hanti : ∀ x ∈ s, ∀ y ∈ s, r x y → r y x → x = y) (ht : t ∈ s)
    (hup : ∀ x y, P x → r x y → P y) (hgreatest : ∀ x ∈ s, r x t) (i : ι) :
    i ∈ boundary ↔ Least r s P i := by
  have hvisited : ∀ i ∈ found, i ∈ visited := fun i hi => ((h.mem_found i).mp hi).resolve_right id
  rw [h.mem_boundary i]
  constructor
  · rintro ⟨hi, hleast⟩
    obtain ⟨his, hP⟩ := h.inside i ((h.mem_found i).mpr (.inl hi))
    exact ⟨his, hP, (minimal_iff hs hup his).mp hleast⟩
  · rintro ⟨his, hP, hleast⟩
    refine ⟨?_, (minimal_iff hs hup his).mpr hleast⟩
    refine hvisited i (mem_of_closed hs hanti ht hup h.started ?_ his (hgreatest i his) hP)
    intro x y hx hcov hy
    exact h.closed x (hvisited x hx) y hcov hy

end Descent

end Cover
