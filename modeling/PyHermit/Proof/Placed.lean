import PyHermit.Proof.Levels
import PyHermit.Services.Placement

/-!
# The position of an expression is exact

Over a hierarchy that is the quotient of a preorder with top and bottom, and for an
expression anywhere in an extension of the preorder, the two boundary searches end on the
least nodes above the expression and on the greatest below it (`wp_semanticBoundary`). They
meet in the expression's own node, if it has one, and in nothing else. The transitive closure
of the edges gives everything strictly beyond a node (`wp_closure`), so the queries answered
from a position are those of the preorder. Both directions are one proof (`along`).
-/

open Std Prog Cover List

namespace PyHermit.Placement

open Hierarchy Classification

variable {T κ σ : Type}

def Hierarchy.node (g : Hierarchy T) (i : Nat) : List T := g.nodes.getD i []

def Hierarchy.numbers (g : Hierarchy T) : Set Nat := { i | i < g.nodes.length }

section Spec

variable (le : T → T → Prop) (point : Nat → T) (g : Hierarchy T) (element : T)

/-- The hierarchy is the quotient of the preorder on its members, drawn by its covers. Each
node is compared by a member of it, `point`; which one does not matter. -/
structure IsQuotient : Prop where
  member : ∀ i ∈ g.numbers, point i ∈ g.node i
  same : ∀ i ∈ g.numbers, ∀ a ∈ g.node i, le a (point i) ∧ le (point i) a
  distinct : ∀ i ∈ g.numbers, ∀ j ∈ g.numbers, le (point i) (point j) →
    le (point j) (point i) → i = j
  edges : ∀ i j, ⟨i, j⟩ ∈ g.edges ↔ Covers (InvImage le point) g.numbers i j
  top : g.topNode ∈ g.numbers ∧ ∀ i ∈ g.numbers, le (point i) (point g.topNode)
  bottom : g.bottomNode ∈ g.numbers ∧ ∀ i ∈ g.numbers, le (point g.bottomNode) (point i)

/-- The node is of the class of the expression. -/
def Own (i : Nat) : Prop := i ∈ g.numbers ∧ le element (point i) ∧ le (point i) element

/-- The least nodes above the expression, the greatest below it, and its own. -/
structure IsPosition (position : Position) : Prop where
  parents : ∀ i, i ∈ position.parents ↔
    Least (InvImage le point) g.numbers (fun i => le element (point i)) i
  children : ∀ i, i ∈ position.children ↔
    Least (InvImage (flip le) point) g.numbers (fun i => le (point i) element) i
  equivalent : ∀ i, position.equivalent = some i ↔ Own le point g element i

/-- The nodes strictly above the expression, all or the least of them. -/
def Beyond (direct : Bool) (i : Nat) : Prop :=
  if direct = true then Least (InvImage le point) g.numbers (fun i => Below le element (point i)) i
  else i ∈ g.numbers ∧ Below le element (point i)

/-- The tester answers for the preorder, whatever it does with its state. -/
def Truthful [DecidableRel le] (tester : List (T × T) → EStateM PyError σ (List Bool)) : Prop :=
  ∀ pairs s, ∃ s', tester pairs s = .ok (pairs.map fun pair => decide (le pair.1 pair.2)) s'

/-- The order in the direction of a walk. -/
def along (upward : Bool) : T → T → Prop := if upward = true then le else flip le

end Spec

/-! ## Walking in one direction -/

/-- What a walk sees of the nodes. -/
structure Walk (le : T → T → Prop) (point : Nat → T) (g : Hierarchy T) (upward : Bool) : Prop where
  anti : ∀ i ∈ g.numbers, ∀ j ∈ g.numbers, InvImage le point i j → InvImage le point j i → i = j
  edges : ∀ i c, c ∈ g.neighbours upward i ↔ Covers (InvImage le point) g.numbers i c
  start : g.start upward ∈ g.numbers ∧ ∀ i ∈ g.numbers, le (point (g.start upward)) (point i)

variable {le : T → T → Prop} {point : Nat → T} {g : Hierarchy T} {upward direct : Bool}
  {element : T} {i : Nat}

theorem Hierarchy.numbers_finite : g.numbers.Finite := Set.finite_lt_nat _

theorem requireNode_eq (hi : i ∈ g.numbers) : g.requireNode i = .ok () := if_pos hi

theorem members_eq (hi : i ∈ g.numbers) : g.members i = .ok (g.node i) := by
  simp [Hierarchy.members, Hierarchy.node, getElem?_eq_getElem hi]

theorem IsQuotient.walkUp (h : IsQuotient le point g) : Walk le point g true := by
  refine ⟨h.distinct, ?_, h.bottom⟩
  intro i c
  exact mem_neighbours_iff.trans (h.edges i c)

theorem IsQuotient.walkDown (h : IsQuotient le point g) : Walk (flip le) point g false := by
  refine ⟨fun i hi j hj hij hji => h.distinct i hi j hj hji hij, ?_, h.top⟩
  intro i c
  exact mem_neighbours_iff.trans ((h.edges c i).trans covers_flip.symm)

variable [LinearOrder κ] {key : T → κ} [IsTrans T le]

instance isTrans_point : IsTrans Nat (InvImage le point) := ⟨fun _ _ _ h h' => trans_of le h h'⟩

/-- The pair tested for a node, which compares its representative. -/
theorem IsQuotient.exists_pair (h : IsQuotient le point g) (hi : i ∈ g.numbers) :
    ∃ pair, g.pair key element upward i = .ok pair ∧
      (le pair.1 pair.2 ↔ along le upward (point i) element) := by
  have hsome : (g.node i).argmin key ≠ none := fun hnone =>
    ne_nil_of_mem (h.member i hi) (argmin_eq_none.mp hnone)
  obtain ⟨x, hx⟩ := Option.ne_none_iff_exists'.mp hsome
  obtain ⟨hle, hge⟩ := h.same i hi x (argmin_mem hx)
  refine ⟨if upward then (x, element) else (element, x), bind_eq_ok.mpr ⟨_, members_eq hi,
    bind_eq_ok.mpr ⟨x, by simp [representative, hx], rfl⟩⟩, ?_⟩
  cases upward with
  | true => exact ⟨fun h => trans_of le hge h, fun h => trans_of le hle h⟩
  | false => exact ⟨fun h => trans_of le h hle, fun h => trans_of le h hge⟩

theorem IsPosition.equivalents {position : Position} (h : IsPosition le point g element position)
    (hg : IsQuotient le point g) : ∃ members, g.equivalents position = .ok members ∧
      ∀ a, a ∈ members ↔ (∃ i ∈ g.numbers, a ∈ g.node i) ∧ le a element ∧ le element a := by
  have hfound : ∀ a, (∃ i ∈ g.numbers, a ∈ g.node i) ∧ le a element ∧ le element a →
      ∃ i, position.equivalent = some i ∧ a ∈ g.node i := by
    rintro a ⟨⟨i, hi, ha⟩, hae, hea⟩
    obtain ⟨hle, hge⟩ := hg.same i hi a ha
    exact ⟨i, (h.equivalent i).mpr ⟨hi, trans_of le hea hle, trans_of le hge hae⟩, ha⟩
  unfold Hierarchy.equivalents
  cases hcase : position.equivalent with
  | none =>
    refine ⟨[], rfl, fun a => ⟨fun ha => absurd ha not_mem_nil, fun ha => ?_⟩⟩
    simpa [hcase] using hfound a ha
  | some node =>
    obtain ⟨hnode, hle, hge⟩ := (h.equivalent node).mp hcase
    refine ⟨g.node node, members_eq hnode, fun a => ⟨fun ha => ?_, fun ha => ?_⟩⟩
    · obtain ⟨hup, hdown⟩ := hg.same node hnode a ha
      exact ⟨⟨node, hnode, ha⟩, trans_of le hup hge, trans_of le hle hdown⟩
    · simpa [hcase] using hfound a ha

/-! ## Closures -/

/-- Between the rounds of a closure. -/
structure Closing (r : Nat → Nat → Prop) (s : Set Nat) (node : Nat) (frontier : List Nat)
    (reached : ExtTreeSet Nat) : Prop where
  inside : ∀ c ∈ reached, c ∈ s ∧ Below r node c
  opened : ∀ x ∈ frontier, x = node ∨ x ∈ reached
  closed : ∀ x, x = node ∨ x ∈ reached → x ∉ frontier → ∀ y, Covers r s x y → y ∈ reached

variable [Std.Refl le] {s : σ} {node : Nat}

instance refl_point : Std.Refl (InvImage le point) := ⟨fun _ => refl_of le _⟩

theorem Walk.wp_closure (h : Walk le point g upward) (hnode : node ∈ g.numbers) :
    wp (g.closure upward node) (fun reached _ => ∀ c, c ∈ reached ↔
      c ∈ g.numbers ∧ Below (InvImage le point) node c) (fun _ _ => False) s := by
  refine wp_ask_known (requireNode_eq hnode) ?_
  refine wp_loop (fun (state : List Nat × ExtTreeSet Nat) _ =>
      Closing (InvImage le point) g.numbers node state.1 state.2)
    (fun state => state.1.length + unassigned g.nodes.length state.2) ?_ _ _ _ ⟨?_, ?_, ?_⟩ ?_
  · rintro ⟨_ | ⟨current, frontier⟩, reached⟩ s hclosing
    · -- all covers are followed, so whatever is beyond the node is reached
      intro c
      refine ⟨hclosing.inside c, ?_⟩
      rintro ⟨hc, hbelow⟩
      have hfound := mem_of_closed (r := flip (InvImage le point)) (P := fun _ => True)
        (Q := fun x => x = node ∨ x ∈ reached) numbers_finite
        (fun x hx y hy hxy hyx => h.anti x hx y hy hyx hxy) hnode
          (fun _ _ _ _ => trivial) (.inl rfl)
        (fun x y hx hcov _ => .inr (hclosing.closed x hx not_mem_nil y (covers_flip.mp hcov))) hc
        hbelow.1 trivial
      exact hfound.resolve_left hbelow.ne.symm
    · have hlt : ∀ c ∈ (g.neighbours upward current).toList, c < g.nodes.length := fun c hc =>
        ((h.edges current c).mp (ExtTreeSet.mem_toList.mp hc)).right
      obtain ⟨hreached, hfrontier, hsize⟩ := foldl_pushUnassigned _ _ hlt frontier reached
      simp only [ExtTreeSet.mem_toList, h.edges] at hreached hfrontier
      refine wp_pure.mpr ⟨⟨?_, ?_, ?_⟩, ?_⟩
      · intro c hc
        rcases (hreached c).mp hc with hc | hcov
        · exact hclosing.inside c hc
        · refine ⟨hcov.right, ?_⟩
          rcases hclosing.opened current mem_cons_self with rfl | hcurrent
          · exact hcov.below
          · exact (hclosing.inside current hcurrent).2.trans hcov.below
      · intro x hx
        rw [hreached]
        rcases (hfrontier x).mp hx with hx | ⟨hx, -⟩
        · exact (hclosing.opened x (mem_cons_of_mem _ hx)).imp_right .inl
        · exact .inr (.inr hx)
      · intro x hx hnew y hcov
        rw [hfrontier, not_or, not_and_not_right] at hnew
        rw [hreached] at hx ⊢
        have hold : x = node ∨ x ∈ reached := hx.imp_right fun hx => hx.elim id hnew.2
        -- the covers of the current node are the ones just pushed
        by_cases hxc : x = current
        · exact .inr (hxc ▸ hcov)
        · exact .inl (hclosing.closed x hold (by simp [hxc, hnew.1]) y hcov)
      · simp only [length_cons]
        omega
  · simp
  · simp
  · simp
  · have hle := unassigned_le g.nodes.length ∅
    simp only [length_singleton]
    omega

theorem Walk.wp_relatedNodes (h : Walk le point g upward) (hnode : node ∈ g.numbers) :
    wp (g.relatedNodes upward direct node)
      (fun nodes _ => ∀ c, c ∈ nodes ↔ if direct = true
        then Covers (InvImage le point) g.numbers node c
        else c ∈ g.numbers ∧ Below (InvImage le point) node c) (fun _ _ => False) s := by
  cases direct with
  | true => exact wp_ask_known (requireNode_eq hnode) (wp_pure.mpr (h.edges node))
  | false => exact h.wp_closure hnode

/-! ## Boundaries -/

variable {tester : List (T × T) → EStateM PyError σ (List Bool)} {r : T → T → Prop} [DecidableRel r]

theorem zipStrict_map {α β : Type} (l : List α) (f : α → β) : zipStrict l (l.map f) = .ok () := by
  simp [zipStrict, ensure]
  rfl

theorem Truthful.wp_tester (h : Truthful r tester) (pairs : List (T × T)) :
    wp (tester pairs) (fun outcomes _ => outcomes = pairs.map fun pair => decide (r pair.1 pair.2))
      (fun _ _ => False) s := by
  obtain ⟨s', hrun⟩ := h pairs s
  unfold wp
  rw [hrun]

/-- The search in a direction ends on the last nodes before the expression. -/
theorem Walk.wp_semanticBoundary (h : Walk le point g upward) (htester : Truthful r tester)
    (hpair : ∀ i ∈ g.numbers, ∃ pair, g.pair key element upward i = .ok pair ∧
      (r pair.1 pair.2 ↔ le (point i) element)) (hplaced : le (point (g.start upward)) element) :
    wp (g.semanticBoundary key tester element upward) (fun boundary _ => ∀ i, i ∈ boundary ↔
      Least (flip (InvImage le point)) g.numbers (fun i => le (point i) element) i)
      (fun _ _ => False) s := by
  have : Nonempty (T × T) := ⟨(element, element)⟩
  choose! pair hpair htested using hpair
  refine wp_imp (wp_levels (r := flip (InvImage le point)) (s := g.numbers)
    (P := fun i => le (point i) element) (I := fun _ => True) (fun _ hi => hi)
    (fun x hx y hy hxy hyx => h.anti x hx y hy hyx hxy) h.start.1 h.start.2
    (fun x y hx hxy => trans_of le hxy hx) hplaced
      (fun i c => (h.edges i c).trans covers_flip.symm) ?_ ?_
    trivial) fun _ _ hboundary => hboundary.1
  · intro frontier s hin _
    have henter : frontier.toList.forM g.requireNode = .ok () :=
      forM_eq_ok.mpr fun i hi => requireNode_eq (hin i (ExtTreeSet.mem_toList.mp hi))
    exact (wp_ask_ok (s := s) henter).mpr trivial
  · intro candidates s hin _
    have hpairs : candidates.mapM (g.pair key element upward) = .ok (candidates.map pair) :=
      mapM_eq_ok.mpr (forall₂_map_right_iff.mpr (forall₂_same.mpr fun c hc => hpair c (hin c hc)))
    refine wp_ask_known hpairs (wp_seq (htester.wp_tester _) ?_)
    rintro outcomes s' rfl
    rw [map_map]
    refine wp_ask_known (zipStrict_map _ _) (wp_pure.mpr ⟨⟨_, rfl, ?_⟩, trivial⟩)
    exact fun c hc => decide_eq_true_iff.trans (htested c (hin c hc))

/-! ## The position -/

theorem wp_semanticPosition [DecidableRel le] (h : IsQuotient le point g)
    (htester : Truthful le tester)
    (htop : le element (point g.topNode)) (hbottom : le (point g.bottomNode) element) :
    wp (g.semanticPosition key tester element)
      (fun position _ => IsPosition le point g element position) (fun _ _ => False) s := by
  refine wp_seq (h.walkDown.wp_semanticBoundary htester (fun i hi => h.exists_pair hi) htop) ?_
  intro parents s' hparents
  refine wp_seq (h.walkUp.wp_semanticBoundary htester (fun i hi => h.exists_pair hi) hbottom) ?_
  intro children s'' hchildren
  have hmeet : ∀ i, i ∈ parents → i ∈ children → Own le point g element i :=
    fun i hp hc => ⟨((hparents i).mp hp).1, ((hparents i).mp hp).2.1, ((hchildren i).mp hc).2.1⟩
  have hup : ∀ i, Own le point g element i → ∀ j, j ∈ parents ↔ j = i := by
    rintro i ⟨hi, hle, hge⟩ j
    exact (hparents j).trans (least_iff_eq h.distinct hi hle fun c hc => trans_of le hge hc)
  have hdown : ∀ i, Own le point g element i → ∀ j, j ∈ children ↔ j = i := by
    rintro i ⟨hi, hle, hge⟩ j
    exact (hchildren j).trans (least_iff_eq h.walkDown.anti hi hge fun c hc => trans_of le hc hle)
  rcases boundaries_meet hmeet hup hdown with ⟨hnone, hcommon⟩ | ⟨i, hown, hsame, hcommon⟩
  · refine wp_ensure_known (.inl hcommon) (wp_pure.mpr ⟨hparents, hchildren, ?_⟩)
    intro i
    simp [hcommon, hnone i]
  · refine wp_ensure_known (.inr ⟨hsame, by rw [hcommon]; rfl⟩)
      (wp_pure.mpr ⟨hparents, hchildren, ?_⟩)
    intro j
    rw [hcommon, hown j, head?_cons, Option.some_inj, eq_comm]

theorem Walk.wp_positionNodes {position : Position} (h : Walk le point g upward)
    (hnear : ∀ i, i ∈ (if upward then position.parents else position.children) ↔
      Least (InvImage le point) g.numbers (fun i => le element (point i)) i)
    (hown : ∀ i, position.equivalent = some i ↔ Own le point g element i) :
    wp (g.positionNodes position upward direct)
      (fun nodes _ => ∀ i, i ∈ nodes ↔ Beyond le point g element direct i)
      (fun _ _ => False) s := by
  unfold Hierarchy.positionNodes
  cases hcase : position.equivalent with
  | some node =>
    obtain ⟨hnode, hle, hge⟩ := (hown node).mp hcase
    -- its own node has the same nodes beyond it as the expression
    have hsame : ∀ c, Below (InvImage le point) node c ↔ Below le element (point c) := by
      intro c
      constructor
      · exact fun hb => ⟨trans_of le hle hb.1, fun hce => hb.2 (trans_of le hce hle)⟩
      · exact fun hb => ⟨trans_of le hge hb.1, fun hce => hb.2 (trans_of le hce hge)⟩
    refine wp_imp (h.wp_relatedNodes hnode) fun nodes s' hnodes i => (hnodes i).trans ?_
    rw [covers_iff_least hnode]
    cases direct with
    | true => exact least_congr (fun _ _ _ _ => Iff.rfl) fun c _ => hsame c
    | false => exact and_congr_right fun _ => hsame i
  | none =>
    -- without a node of its own the expression is strictly below what is above it
    have hstrict : ∀ i ∈ g.numbers, le element (point i) ↔ Below le element (point i) := by
      refine fun i hi => ⟨fun hle => ⟨hle, fun hge => ?_⟩, And.left⟩
      have hsome := (hown i).mpr ⟨hi, hle, hge⟩
      rw [hcase] at hsome
      cases hsome
    have hleast := fun i => (hnear i).trans (least_congr (fun _ _ _ _ => Iff.rfl) hstrict)
    dsimp only
    generalize (if upward then position.parents else position.children) = near at hleast ⊢
    cases direct with
    | true => exact hleast
    | false =>
      refine wp_imp (wp_foldlM (fun rest found _ => (∀ p ∈ rest, p ∈ g.numbers) ∧ ∀ c, (c ∈ found ∨
        ∃ p ∈ rest, c ∈ g.numbers ∧ Below (InvImage le point) p c) ↔
        c ∈ g.numbers ∧ Below le element (point c))
        ?_ _ _ _ ⟨?_, ?_⟩) ?_
      · rintro p rest found s' ⟨hrest, hfound⟩
        refine wp_seq (h.wp_closure (hrest p mem_cons_self)) fun related s'' hrelated =>
          wp_pure.mpr ⟨?_, ?_⟩
        · exact fun q hq => hrest q (mem_cons_of_mem p hq)
        · intro c
          rw [← hfound c, mem_insertMany_toList, hrelated, or_assoc]
          simp
      · exact fun p hp => ((hleast p).mp (ExtTreeSet.mem_toList.mp hp)).1
      · intro c
        simp only [ExtTreeSet.mem_toList, hleast]
        constructor
        · rintro (hc | ⟨p, hp, hc, hpc⟩)
          · exact ⟨hc.1, hc.2.1⟩
          · exact ⟨hc, hp.2.1.trans_le hpc.1⟩
        · rintro ⟨hc, hbelow⟩
          obtain ⟨p, hp, rfl | hpc⟩ := exists_least (r := InvImage le point)
            (P := fun i => Below le element (point i)) numbers_finite hc hbelow
          · exact .inl hp
          · exact .inr ⟨p, hp, hc, hpc⟩
      · rintro found s' ⟨-, hfound⟩ c
        exact Iff.trans (by simp) (hfound c)

/-- For an expression anywhere in the preorder the search returns its exact position, and from
it all nodes above and below the expression are found, the direct ones and all others, and
all members equivalent to it. -/
theorem semanticPosition_exact (key : T → κ) (le : T → T → Prop) [IsTrans T le] [Std.Refl le]
    [DecidableRel le] (point : Nat → T) (g : Hierarchy T) (h : IsQuotient le point g)
    (tester : List (T × T) → EStateM PyError σ (List Bool)) (htester : Truthful le tester)
    (element : T) (htop : le element (point g.topNode))
    (hbottom : le (point g.bottomNode) element) (s : σ) :
    ∃ position s', g.semanticPosition key tester element s = .ok position s' ∧
      IsPosition le point g element position ∧
      (∃ members, g.equivalents position = .ok members ∧
        ∀ a, a ∈ members ↔ (∃ i ∈ g.numbers, a ∈ g.node i) ∧ le a element ∧ le element a) ∧
      ∀ (upward direct : Bool) (s : σ), ∃ nodes s',
        g.positionNodes position upward direct s = .ok nodes s' ∧
        ∀ i, i ∈ nodes ↔ Beyond (along le upward) point g element direct i := by
  have hsearch : wp (g.semanticPosition key tester element)
      (fun position _ => IsPosition le point g element position) (fun _ _ => False) s :=
    wp_semanticPosition h htester htop hbottom
  obtain ⟨position, s', hrun, hposition⟩ := wp_returns hsearch
  refine ⟨position, s', hrun, hposition, hposition.equivalents h, ?_⟩
  intro upward direct s
  refine wp_returns ?_
  cases upward with
  | true => exact h.walkUp.wp_positionNodes hposition.parents hposition.equivalent
  | false =>
    refine h.walkDown.wp_positionNodes hposition.children fun i => (hposition.equivalent i).trans ?_
    exact and_congr_right fun _ => and_comm

/-- The numbers 1, 2, 3 and 12 by divisibility: two nodes side by side between bottom and top. -/
def diamond : Hierarchy Nat where
  nodes := [[1], [2], [3], [12]]
  edges := .ofList [(⟨0, 1⟩ : Edge), ⟨0, 2⟩, ⟨1, 3⟩, ⟨2, 3⟩]
  topNode := 3
  bottomNode := 0

def divisor (i : Nat) : Nat := [1, 2, 3, 12].getD i 0

/-- The parent is next above the child. -/
def Next (edge : Edge) : Prop :=
  Below (· ∣ ·) (divisor edge.child) (divisor edge.parent) ∧ ∀ c < 4,
    Below (· ∣ ·) (divisor edge.child) (divisor c) →
    ¬ Below (· ∣ ·) (divisor c) (divisor edge.parent)

instance (a b : Nat) : Decidable (Below (· ∣ ·) a b) :=
  inferInstanceAs (Decidable (a ∣ b ∧ ¬ b ∣ a))

instance (edge : Edge) : Decidable (Next edge) := inferInstanceAs (Decidable (_ ∧ _))

theorem diamond_isQuotient : IsQuotient (· ∣ ·) divisor diamond := by
  have hmem : ∀ edge, edge ∈ diamond.edges ↔ edge ∈ [(⟨0, 1⟩ : Edge), ⟨0, 2⟩, ⟨1, 3⟩, ⟨2, 3⟩] := by
    intro edge
    rw [diamond, ExtTreeSet.mem_ofList, contains_iff_mem]
  have hlt : ∀ edge ∈ [(⟨0, 1⟩ : Edge), ⟨0, 2⟩, ⟨1, 3⟩, ⟨2, 3⟩], edge.child < 4 ∧
    edge.parent < 4 := by decide
  have hnext : ∀ i < 4, ∀ j < 4, (⟨i, j⟩ ∈ [(⟨0, 1⟩ : Edge), ⟨0, 2⟩, ⟨1, 3⟩, ⟨2, 3⟩] ↔
    Next ⟨i, j⟩) := by decide
  refine ⟨?_, ?_, ?_, fun i j => (hmem _).trans ⟨fun h => ?_, fun h => ?_⟩, ?_, ?_⟩
  · show ∀ i < 4, _
    decide
  · show ∀ i < 4, _
    decide
  · show ∀ i < 4, ∀ j < 4, _
    decide
  · obtain ⟨hi, hj⟩ := hlt _ h
    obtain ⟨hbelow, hbetween⟩ := (hnext i hi j hj).mp h
    exact ⟨hi, hj, hbelow, hbetween⟩
  · exact (hnext i h.left j h.right).mpr ⟨h.below, h.between⟩
  · exact ⟨show _ < 4 by decide, show ∀ i < 4, _ by decide⟩
  · exact ⟨show _ < 4 by decide, show ∀ i < 4, _ by decide⟩

/-- Six has a place between both of the middle nodes and the top. -/
theorem semanticPosition_exact_six : ∃ position s', diamond.semanticPosition id
    (fun pairs => pure (pairs.map fun pair => decide (pair.1 ∣ pair.2))) 6 () = .ok position s' ∧
    IsPosition (· ∣ ·) divisor diamond 6 position := by
  obtain ⟨position, s', hrun, hposition, -⟩ := semanticPosition_exact id (· ∣ ·) divisor diamond
    diamond_isQuotient _ (fun _ s => ⟨s, rfl⟩) 6 (by decide) (by decide) ()
  exact ⟨position, s', hrun, hposition⟩

end PyHermit.Placement
