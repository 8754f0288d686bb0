import Mathlib.Algebra.BigOperators.Group.Finset.Basic
import PyHermit.Lib.Cover
import PyHermit.Lib.Digraph
import PyHermit.Services.Classification

/-!
# The graph passes of classification

What the three passes that classification is built from compute: the adjacency of a list
of edges, the pass that takes nodes off a frontier when nothing waits for them any more,
and depth-first search.

Before each round a pass counts a step, which may fail when the counter is full. `Paced tick
J E`: with room for `k + 1` steps, as `J` measures it, one step leaves room for `k`.
-/

open Std Prog List

namespace PyHermit.Classification

open NativeError

variable {σ : Type}

/-- One step uses up one unit of room. -/
structure Paced (tick : EStateM NativeError σ Unit) (J : Nat → σ → Prop)
    (E : NativeError → σ → Prop) : Prop where
  tick : ∀ k s, J (k + 1) s → wp tick (fun _ => J k) E s
  less : ∀ k s, J (k + 1) s → J k s

variable {E : NativeError → σ → Prop} {tick : EStateM NativeError σ Unit} {J : Nat → σ → Prop}
  {k i j node : Nat} {s : σ} {α : Type} {l : List Nat}

theorem Paced.le (h : Paced tick J E) {m : Nat} (hkm : k ≤ m) (hm : J m s) : J k s := by
  induction hkm with
  | refl => exact hm
  | step _ ih => exact ih (h.less _ s hm)

theorem Paced.wp_tick (h : Paced tick J E) {m : Nat} (hm : 0 < m) (hroom : J (k + m) s) :
    wp tick (fun _ => J (k + (m - 1))) E s :=
  h.tick _ s (by rw [Nat.add_assoc, Nat.sub_add_cancel hm]; exact hroom)

/-- A loop whose rounds each take a step and bring the measure down needs as much room as
the measure says. -/
theorem Paced.wp_loop (h : Paced tick J E) (k : Nat) {β : Type} {spent : NativeError}
    {round : β → EStateM NativeError σ (Round β α)} {Q : α → σ → Prop} (I : β → Prop)
    (measure : β → Nat) (hround : ∀ x s, I x → J (k + measure x) s →
      wp (round x) (fun out s' => match out with
        | .again x' => (I x' ∧ measure x' < measure x) ∧ J (k + (measure x - 1)) s'
        | .done a => Q a s') E s)
    {budget : Nat} {x : β} (hx : I x) (hbudget : measure x < budget) (hroom : J (k + measure x) s) :
    wp (loop spent round budget x) Q E s := by
  refine Prog.wp_loop (fun x s => I x ∧ J (k + measure x) s) measure ?_ _ _ _ ⟨hx, hroom⟩ hbudget
  rintro x s ⟨hx, hroom⟩
  refine wp_imp (hround x s hx hroom) ?_
  rintro (x' | a) s' hout
  · obtain ⟨⟨hx', hless⟩, hroom'⟩ := hout
    exact ⟨⟨hx', h.le (by omega) hroom'⟩, hless⟩
  · exact hout

theorem paced_pure {P : σ → Prop} : Paced (pure ()) (fun _ => P) E :=
  ⟨fun _ _ h => h, fun _ _ h => h⟩

/-! ## Adjacency -/

theorem getElem?_modify_getD {l : List α} {d : α} {f : α → α} (hj : j < l.length) :
    (l.modify i f).getD j d = if i = j then f (l.getD j d) else l.getD j d := by
  rw [getD_eq_getElem?_getD, getD_eq_getElem?_getD, List.getElem?_modify,
    getElem?_eq_getElem hj]
  by_cases h : i = j
  · simp [h]
  · simp [h]

/-- What holds of an entry, but not of the default. -/
theorem getD_iff {l : List α} {d : α} {P : α → Prop} (hd : ¬ P d) :
    P (l.getD i d) ↔ ∃ a, l[i]? = some a ∧ P a := by
  rw [getD_eq_getElem?_getD]
  cases l[i]? with
  | none => simp [hd]
  | some a => simp

theorem getD_set {v : Nat} (hi : i < l.length) :
    (l.set i v).getD j 0 = if i = j then v else l.getD j 0 := by
  rw [getD_eq_getElem?_getD, getD_eq_getElem?_getD, getElem?_set]
  by_cases h : i = j
  · rw [if_pos h, if_pos h, if_pos (h ▸ hi)]
    rfl
  · rw [if_neg h, if_neg h]

theorem sum_getD (l : List α) (d : α) (f : α → Nat) :
    ∑ i ∈ Finset.range l.length, f (l.getD i d) = (l.map f).sum := by
  induction l with
  | nil => rfl
  | cons a l ih =>
    rw [length_cons, Finset.sum_range_succ', map_cons, sum_cons, Nat.add_comm, ← ih]
    rfl

/-- The edges are between different nodes below `count`, each there once. -/
structure Simple (count : Nat) (edges : List Edge) : Prop where
  nodup : edges.Nodup
  valid : ∀ edge ∈ edges, edge.child < count ∧ edge.parent < count ∧ edge.child ≠ edge.parent

variable {count : Nat} {edges : List Edge} {incoming : List Nat} {successors : Nat → List Nat}

theorem Simple.of_append {more : List Edge} (h : Simple count (edges ++ more)) :
    Simple count edges :=
  ⟨(nodup_append.mp h.nodup).1, fun edge hedge => h.valid edge (mem_append_left _ hedge)⟩

/-- The nodes an edge leads to, in the order of the edges. -/
def parentsOf (edges : List Edge) (node : Nat) : List Nat :=
  (edges.filter (·.child = node)).map (·.parent)

theorem mem_parentsOf {parent : Nat} : parent ∈ parentsOf edges node ↔ ⟨node, parent⟩ ∈ edges := by
  unfold parentsOf
  rw [mem_map]
  constructor
  · rintro ⟨edge, hedge, rfl⟩
    rw [mem_filter, decide_eq_true_eq] at hedge
    obtain ⟨hedge, rfl⟩ := hedge
    exact hedge
  · intro h
    exact ⟨_, mem_filter.mpr ⟨h, decide_eq_true rfl⟩, rfl⟩

/-- The other ends of the edges at one node are different. -/
theorem Simple.nodup_ends (h : Simple count edges) {f g : Edge → Nat}
    (hext : ∀ a b, f a = f b → g a = g b → a = b) (node : Nat) :
    ((edges.filter (f · = node)).map g).Nodup := by
  refine List.Nodup.map_on ?_ (h.nodup.filter _)
  intro a ha b hb heq
  rw [mem_filter, decide_eq_true_eq] at ha hb
  exact hext a b (ha.2.trans hb.2.symm) heq

theorem Simple.nodup_parentsOf (h : Simple count edges) (node : Nat) :
    (parentsOf edges node).Nodup :=
  h.nodup_ends (fun _ _ => Edge.ext) node

theorem Simple.length_into (h : Simple count edges) (node : Nat) :
    (edges.filter (·.parent = node)).length =
      ((Finset.range count).filter fun child => node ∈ parentsOf edges child).card := by
  have hnodup := h.nodup_ends (g := (·.child)) (fun _ _ hp hc => Edge.ext hc hp) node
  rw [← length_map (f := (·.child)), ← toFinset_card_of_nodup hnodup]
  congr 1
  ext child
  rw [mem_toFinset, mem_map, Finset.mem_filter, Finset.mem_range, mem_parentsOf]
  constructor
  · rintro ⟨edge, hedge, rfl⟩
    rw [mem_filter, decide_eq_true_eq] at hedge
    obtain ⟨hedge, rfl⟩ := hedge
    exact ⟨(h.valid edge hedge).1, hedge⟩
  · rintro ⟨-, hedge⟩
    exact ⟨_, mem_filter.mpr ⟨hedge, decide_eq_true rfl⟩, rfl⟩

theorem Simple.length_into_lt {edge : Edge} (h : Simple count (edges ++ [edge])) :
    (edges.filter (·.parent = edge.parent)).length < count := by
  have hall := h.length_into edge.parent
  have hle := Finset.card_filter_le (Finset.range count)
    fun child => edge.parent ∈ parentsOf (edges ++ [edge]) child
  rw [filter_append, length_append, filter_singleton, decide_eq_true rfl] at hall
  simp only [cond_true, length_singleton, Finset.card_range] at hall hle
  omega

/-- What `linkEdges` makes of simple edges. -/
structure Linked {β : Type} (empty : β) (add : β → Nat → β) (count : Nat) (edges : List Edge)
    (successors : List β) (incoming : List Nat) : Prop where
  successors_length : successors.length = count
  incoming_length : incoming.length = count
  successors_eq : ∀ node < count, successors.getD node empty =
    (parentsOf edges node).foldl add empty
  incoming_eq : ∀ node < count, incoming.getD node 0 = (edges.filter (·.parent = node)).length

theorem linkEdges_ok {β : Type} (empty : β) (add : β → Nat → β) (invalid overflow : String)
    (h : Simple count edges) (hcount : count ≤ u32Max) :
    ∃ successors incoming,
      linkEdges empty add invalid overflow count edges = .ok (successors, incoming) ∧
      Linked empty add count edges successors incoming := by
  induction edges using List.reverseRecOn with
  | nil =>
    refine ⟨_, _, rfl, ?_, ?_, ?_, ?_⟩
    · exact length_replicate
    · exact length_replicate
    · intro node hnode
      simp [parentsOf, getD_eq_getElem?_getD, hnode]
    · intro node hnode
      simp [getD_eq_getElem?_getD, hnode]
  | append_singleton edges edge ih =>
    obtain ⟨successors, incoming, hrun, hlinked⟩ := ih h.of_append
    obtain ⟨hchild, hparent, hne⟩ := h.valid edge (mem_append_right _ mem_cons_self)
    -- at most one edge comes from each child, so the degree stays below the count
    have hdegree : incoming.getD edge.parent 0 < u32Max := by
      rw [hlinked.incoming_eq edge.parent hparent]
      exact Nat.lt_of_lt_of_le h.length_into_lt hcount
    refine ⟨successors.modify edge.child (add · edge.parent),
      incoming.set edge.parent (incoming.getD edge.parent 0 + 1), ?_, ?_, ?_, ?_, ?_⟩
    · unfold linkEdges at hrun ⊢
      rw [foldlM_append, hrun]
      have hstep : linkEdge add invalid overflow count (successors, incoming) edge = .ok
          (successors.modify edge.child (add · edge.parent),
            incoming.set edge.parent (incoming.getD edge.parent 0 + 1)) :=
        bind_eq_ok.mpr ⟨(), ensure_eq_ok.mpr ⟨hchild, hparent, hne⟩,
          bind_eq_ok.mpr ⟨_, if_pos hdegree, rfl⟩⟩
      exact bind_eq_ok.mpr ⟨_, rfl, bind_eq_ok.mpr ⟨_, hstep, rfl⟩⟩
    · rw [length_modify]
      exact hlinked.successors_length
    · rw [length_set]
      exact hlinked.incoming_length
    · intro node hnode
      rw [getElem?_modify_getD (hlinked.successors_length ▸ hnode),
        hlinked.successors_eq node hnode]
      unfold parentsOf
      by_cases hedge : edge.child = node
      · simp [hedge]
      · simp [hedge]
    · intro node hnode
      rw [getD_set (hlinked.incoming_length ▸ hparent), hlinked.incoming_eq edge.parent hparent,
        hlinked.incoming_eq node hnode, filter_append, length_append]
      by_cases hedge : edge.parent = node
      · simp [hedge]
      · simp [hedge]

/-! ## Taking nodes off the frontier -/

theorem foldlM_release (underflow : String) (frontier : List Nat) (hnodup : l.Nodup)
    (hl : ∀ x ∈ l, x < incoming.length ∧ incoming.getD x 0 ≠ 0) :
    ∃ incoming', l.foldlM (release underflow) (frontier, incoming) =
        .ok (frontier ++ l.filter (incoming.getD · 0 = 1), incoming') ∧
      incoming'.length = incoming.length ∧
      ∀ x, incoming'.getD x 0 = if x ∈ l then incoming.getD x 0 - 1 else incoming.getD x 0 := by
  induction l generalizing frontier incoming with
  | nil => exact ⟨incoming, by simp; rfl, rfl, fun x => by simp⟩
  | cons y l ih =>
    obtain ⟨hy, hdegree⟩ := hl y mem_cons_self
    obtain ⟨hyl, hnodup⟩ := nodup_cons.mp hnodup
    obtain ⟨degree, hd⟩ := Nat.exists_eq_succ_of_ne_zero hdegree
    -- `y` is not in the rest, whose degrees are as they were
    have hrest : ∀ x ∈ l, x < (incoming.set y degree).length ∧
        (incoming.set y degree).getD x 0 ≠ 0 := by
      intro x hx
      have hxy : y ≠ x := fun h => hyl (h ▸ hx)
      rw [length_set, getD_set hy, if_neg hxy]
      exact hl x (mem_cons_of_mem y hx)
    obtain ⟨incoming', hrun, hlength, hget⟩ :=
      ih (if degree = 0 then frontier ++ [y] else frontier) hnodup hrest
    refine ⟨incoming', ?_, ?_, ?_⟩
    · have hstep : release underflow (frontier, incoming) y =
          .ok (if degree = 0 then frontier ++ [y] else frontier, incoming.set y degree) := by
        unfold release
        rw [show (frontier, incoming).2.getD y 0 = degree + 1 from hd]
      rw [foldlM_cons, hstep]
      show l.foldlM (release underflow) _ = _
      rw [hrun]
      have hfilter : l.filter ((incoming.set y degree).getD · 0 = 1) =
          l.filter (incoming.getD · 0 = 1) := by
        refine filter_congr fun x hx => ?_
        have hxy : y ≠ x := fun h => hyl (h ▸ hx)
        rw [getD_set hy, if_neg hxy]
      rw [hfilter, filter_cons, hd]
      by_cases hzero : degree = 0
      · rw [if_pos hzero, hzero, if_pos (decide_eq_true rfl), append_assoc]
        rfl
      · rw [if_neg hzero, if_neg fun h => hzero (Nat.succ.inj (of_decide_eq_true h))]
    · rw [hlength, length_set]
    · intro x
      rw [hget x, getD_set hy]
      by_cases hxy : y = x
      · rw [← hxy, if_neg hyl, if_pos rfl, if_pos mem_cons_self, hd]
        rfl
      · have hmem : x ∈ y :: l ↔ x ∈ l :=
          ⟨fun h => (mem_cons.mp h).resolve_left fun h => hxy h.symm, mem_cons_of_mem y⟩
        simp only [hmem, if_neg hxy]

/-- The nodes done with, between the rounds of `drain`. -/
structure Drained (successors : Nat → List Nat) (count : Nat) (frontier incoming : List Nat)
    (done : Finset Nat) : Prop where
  length : incoming.length = count
  frontier_nodup : frontier.Nodup
  frontier_fresh : ∀ x ∈ frontier, x < count ∧ x ∉ done
  done_subset : done ⊆ Finset.range count
  /-- Each node waits for its predecessors that are not done with. -/
  waits : ∀ x < count, incoming.getD x 0 =
    ((Finset.range count).filter fun child => x ∈ successors child ∧ child ∉ done).card
  released : ∀ x < count, incoming.getD x 0 = 0 ↔ x ∈ frontier ∨ x ∈ done

theorem Drained.round {rest : List Nat} {done : Finset Nat} (underflow : String)
    (h : Drained successors count (node :: rest) incoming done)
    (hnodup : ∀ child < count, (successors child).Nodup)
    (hrange : ∀ child < count, ∀ x ∈ successors child, x < count) :
    ∃ frontier incoming', (successors node).foldlM (release underflow) (rest, incoming) =
        .ok (frontier, incoming') ∧
      Drained successors count frontier incoming' (insert node done) := by
  obtain ⟨hnode, hfresh⟩ := h.frontier_fresh node mem_cons_self
  -- whatever the node leads to still waits for it
  have hwaiting : ∀ x ∈ successors node, x < incoming.length ∧ incoming.getD x 0 ≠ 0 := by
    intro x hx
    have hxc := hrange node hnode x hx
    refine ⟨h.length ▸ hxc, ?_⟩
    rw [h.waits x hxc, Finset.card_ne_zero]
    exact ⟨node, Finset.mem_filter.mpr ⟨Finset.mem_range.mpr hnode, hx, hfresh⟩⟩
  obtain ⟨incoming', hrun, hlength, hget⟩ :=
    foldlM_release underflow rest (hnodup node hnode) hwaiting
  have hnotfront : ∀ x ∈ successors node, x ∉ node :: rest ∧ x ∉ done := by
    intro x hx
    have hxc := hrange node hnode x hx
    have hne := (hwaiting x hx).2
    rw [Ne, h.released x hxc, not_or] at hne
    exact hne
  refine ⟨_, incoming', hrun, ?_, ?_, ?_, ?_, ?_, ?_⟩
  · rw [hlength]
    exact h.length
  · refine nodup_append.mpr ⟨(nodup_cons.mp h.frontier_nodup).2,
      (hnodup node hnode).filter _, ?_⟩
    intro x hx y hy hxy
    rw [hxy] at hx
    exact (hnotfront y (mem_filter.mp hy).1).1 (mem_cons_of_mem node hx)
  · intro x hx
    rcases mem_append.mp hx with hrest | hnew
    · obtain ⟨hxc, hxd⟩ := h.frontier_fresh x (mem_cons_of_mem node hrest)
      refine ⟨hxc, fun hmem => ?_⟩
      rcases Finset.mem_insert.mp hmem with rfl | hmem
      · exact (nodup_cons.mp h.frontier_nodup).1 hrest
      · exact hxd hmem
    · have hx := (mem_filter.mp hnew).1
      refine ⟨hrange node hnode x hx, fun hmem => ?_⟩
      rcases Finset.mem_insert.mp hmem with rfl | hmem
      · exact (hnotfront x hx).1 mem_cons_self
      · exact (hnotfront x hx).2 hmem
  · exact Finset.insert_subset (Finset.mem_range.mpr hnode) h.done_subset
  · intro x hxc
    have hsplit : ((Finset.range count).filter fun child =>
        x ∈ successors child ∧ child ∉ insert node done) =
        ((Finset.range count).filter fun child =>
          x ∈ successors child ∧ child ∉ done).erase node := by
      ext child
      simp only [Finset.mem_filter, Finset.mem_erase, Finset.mem_insert, not_or]
      tauto
    rw [hget x, h.waits x hxc, hsplit]
    by_cases hx : x ∈ successors node
    · rw [if_pos hx, Finset.card_erase_of_mem
        (Finset.mem_filter.mpr ⟨Finset.mem_range.mpr hnode, hx, hfresh⟩)]
    · rw [if_neg hx, Finset.erase_eq_of_notMem]
      intro hmem
      exact hx (Finset.mem_filter.mp hmem).2.1
  · intro x hxc
    rw [hget x, mem_append, mem_filter, decide_eq_true_eq, Finset.mem_insert]
    by_cases hx : x ∈ successors node
    · rw [if_pos hx]
      have hne := (hwaiting x hx).2
      have hnot := hnotfront x hx
      rw [mem_cons, not_or] at hnot
      constructor
      · intro hzero
        exact .inl (.inr ⟨hx, by omega⟩)
      · rintro ((hmem | hmem) | hmem | hmem)
        · exact absurd hmem hnot.1.2
        · omega
        · exact absurd hmem hnot.1.1
        · exact absurd hmem hnot.2
    · rw [if_neg hx, h.released x hxc, mem_cons]
      tauto

/-- Edges that go up in a strict order leave nothing on the way: all nodes are taken. -/
theorem wp_drain (hpaced : Paced tick J E) {underflow : String} (hlength : incoming.length = count)
    (hnodup : ∀ child < count, (successors child).Nodup)
    (hrange : ∀ child < count, ∀ x ∈ successors child, x < count)
    (hincoming : ∀ x < count, incoming.getD x 0 =
      ((Finset.range count).filter fun child => x ∈ successors child).card)
    (R : Nat → Nat → Prop) [IsStrictOrder Nat R]
    (hup : ∀ child < count, ∀ x ∈ successors child, R child x) (hroom : J (k + count) s) :
    wp (drain tick underflow successors incoming)
    (fun processed s' => processed = count ∧ J k s') E s := by
  refine hpaced.wp_loop k
    (fun (state : List Nat × List Nat × Nat) => ∃ done : Finset Nat,
      Drained successors count state.1 state.2.1 done ∧ state.2.2 = done.card)
    (fun state => count - state.2.2) ?_ ?_ ?_ hroom
  · rintro ⟨frontier, incoming, processed⟩ s' ⟨done, hdrained, hprocessed⟩ hroom
    cases frontier with
    | nil =>
      -- by induction along the order, a node whose predecessors are done with is itself
      have hall : ∀ x ∈ (Finset.range count : Set Nat), x ∈ done := by
        intro x hx
        refine ((Finset.range count).finite_toSet.wellFoundedOn (r := R)).induction
          (P := fun x => x ∈ done) hx ?_
        intro y hy ih
        have hy : y < count := Finset.mem_range.mp hy
        have hzero : incoming.getD y 0 = 0 := by
          rw [hdrained.waits y hy, Finset.card_eq_zero, Finset.filter_eq_empty_iff]
          rintro child hchild ⟨hstep, hnot⟩
          exact hnot (ih child hchild (hup child (Finset.mem_range.mp hchild) y hstep))
        exact ((hdrained.released y hy).mp hzero).resolve_left not_mem_nil
      have hcard : done = Finset.range count :=
        Finset.Subset.antisymm hdrained.done_subset fun x hx => hall x hx
      rw [hcard, Finset.card_range] at hprocessed
      refine wp_pure.mpr ⟨hprocessed, ?_⟩
      exact hpaced.le (by omega) hroom
    | cons node rest =>
      have hfresh := (hdrained.frontier_fresh node mem_cons_self).2
      obtain ⟨frontier', incoming', hrun, hdrained'⟩ := hdrained.round underflow hnodup hrange
      have hlt : processed < count := by
        have hcard := Finset.card_le_card hdrained'.done_subset
        rw [Finset.card_insert_of_notMem hfresh, Finset.card_range] at hcard
        dsimp only at hprocessed
        omega
      refine wp_seq (hpaced.wp_tick (Nat.sub_pos_of_lt hlt) hroom) ?_
      intro _ s'' hs''
      refine wp_ask_known hrun (wp_pure.mpr ⟨⟨⟨insert node done, hdrained', ?_⟩, ?_⟩, hs''⟩)
      · rw [Finset.card_insert_of_notMem hfresh]
        exact congrArg (· + 1) hprocessed
      · show count - (processed + 1) < count - processed
        omega
  · refine ⟨∅, ⟨hlength, ?_, ?_, Finset.empty_subset _, ?_, ?_⟩, rfl⟩
    · exact nodup_range.filter _
    · intro x hx
      rw [mem_filter, mem_range, hlength] at hx
      exact ⟨hx.1, Finset.notMem_empty x⟩
    · intro x hx
      rw [hincoming x hx]
      simp
    · intro x hx
      rw [mem_filter, mem_range, hlength]
      simp [hx]
  · show count - 0 < incoming.length + 1
    omega

/-! ## Depth-first search -/

section Search

variable {tick : EStateM NativeError σ Unit} {J : Nat → σ → Prop} {E : NativeError → σ → Prop}
  {expand : Nat → ExtTreeSet Nat → EStateM NativeError σ (List Nat)} {target : Nat}
  {step : Nat → Nat → Prop} {points : Finset Nat} {degree : Nat → Nat}

/-- Between the rounds of a search from `sources`. -/
structure Searching (step : Nat → Nat → Prop) (points : Finset Nat) (target : Nat)
    (sources : List Nat) (frontier : List Nat) (seen : ExtTreeSet Nat) : Prop where
  inside : ∀ x ∈ frontier, x ∈ points
  reached : ∀ x ∈ frontier, ∃ y ∈ sources, Relation.ReflTransGen step y x
  started : ∀ x ∈ sources, x ∈ seen ∨ x ∈ frontier
  closed : ∀ x ∈ seen, x ≠ target ∧ ∀ y, step x y → y ∈ seen ∨ y ∈ frontier

/-- How many rounds are left at most. -/
def searchMeasure (points : Finset Nat) (degree : Nat → Nat) (frontier : List Nat)
    (seen : ExtTreeSet Nat) : Nat :=
  frontier.length + ∑ x ∈ points.filter (· ∉ seen), degree x

variable {seen : ExtTreeSet Nat}

theorem searchMeasure_empty {frontier : List Nat} :
    searchMeasure points degree frontier ∅ = frontier.length + ∑ x ∈ points, degree x := by
  unfold searchMeasure
  rw [Finset.filter_true_of_mem fun _ _ => ExtTreeSet.not_mem_empty]

/-- What a search puts on the stack when it expands a node with these successors. -/
theorem unseen_spec (set seen : ExtTreeSet Nat) :
    (set.toList.filter (· ∉ seen)).length ≤ set.size ∧
    (∀ y ∈ set.toList.filter (· ∉ seen), y ∈ set) ∧
    ∀ y ∈ set, y ∈ set.toList.filter (· ∉ seen) ∨ y ∈ seen := by
  refine ⟨?_, fun y hy => ExtTreeSet.mem_toList.mp (mem_filter.mp hy).1, fun y hy => ?_⟩
  · rw [← ExtTreeSet.length_toList]
    exact length_filter_le _ _
  · by_cases hseen : y ∈ seen
    · exact .inr hseen
    · exact .inl (mem_filter.mpr ⟨ExtTreeSet.mem_toList.mpr hy, decide_eq_true hseen⟩)

theorem sum_unseen_insert (degree : Nat → Nat) {x : Nat} (hx : x ∈ points) (hseen : x ∉ seen) :
    degree x + ∑ y ∈ points.filter (· ∉ seen.insert x), degree y =
      ∑ y ∈ points.filter (· ∉ seen), degree y := by
  have herase : points.filter (· ∉ seen.insert x) = (points.filter (· ∉ seen)).erase x := by
    ext y
    rw [Finset.mem_filter, Finset.mem_erase, Finset.mem_filter, mem_insert_eq, not_or]
    constructor
    · rintro ⟨hy, hne, hseen⟩
      exact ⟨fun h => hne h.symm, hy, hseen⟩
    · rintro ⟨hne, hy, hseen⟩
      exact ⟨hy, fun h => hne h.symm, hseen⟩
  rw [herase]
  exact Finset.add_sum_erase _ degree (Finset.mem_filter.mpr ⟨hx, hseen⟩)

section
variable {sources rest : List Nat} {current : Nat}
  (h : Searching step points target sources (current :: rest) seen)
include h

theorem Searching.skip (hseen : current ∈ seen) :
    Searching step points target sources rest seen := by
  have hrest : ∀ y, y ∈ seen ∨ y ∈ current :: rest → y ∈ seen ∨ y ∈ rest := by
    intro y hy
    rcases hy with hy | hy
    · exact .inl hy
    · rcases mem_cons.mp hy with rfl | hy
      · exact .inl hseen
      · exact .inr hy
  refine ⟨?_, ?_, ?_, ?_⟩
  · intro x hx
    exact h.inside x (mem_cons_of_mem current hx)
  · intro x hx
    exact h.reached x (mem_cons_of_mem current hx)
  · intro x hx
    exact hrest x (h.started x hx)
  · intro x hx
    exact ⟨(h.closed x hx).1, fun y hxy => hrest y ((h.closed x hx).2 y hxy)⟩

theorem Searching.visit {next : List Nat} (hne : current ≠ target)
    (hpoints : ∀ x ∈ points, ∀ y, step x y → y ∈ points) (hsound : ∀ y ∈ next, step current y)
    (hcomplete : ∀ y, step current y → y ∈ next ∨ y ∈ seen.insert current) :
    Searching step points target sources (next ++ rest) (seen.insert current) := by
  have hstays : ∀ y, y ∈ seen ∨ y ∈ current :: rest → y ∈ seen.insert current ∨
      y ∈ next ++ rest := by
    intro y hy
    rcases hy with hy | hy
    · exact .inl (mem_insert_eq.mpr (.inr hy))
    · rcases mem_cons.mp hy with rfl | hy
      · exact .inl ExtTreeSet.mem_insert_self
      · exact .inr (mem_append_right _ hy)
  refine ⟨?_, ?_, ?_, ?_⟩
  · intro x hx
    rcases mem_append.mp hx with hx | hx
    · exact hpoints current (h.inside current mem_cons_self) x (hsound x hx)
    · exact h.inside x (mem_cons_of_mem current hx)
  · intro x hx
    rcases mem_append.mp hx with hx | hx
    · obtain ⟨y, hy, hpath⟩ := h.reached current mem_cons_self
      exact ⟨y, hy, hpath.tail (hsound x hx)⟩
    · exact h.reached x (mem_cons_of_mem current hx)
  · intro x hx
    exact hstays x (h.started x hx)
  · intro x hx
    rcases mem_insert_eq.mp hx with hx | hx
    · rw [← hx]
      refine ⟨hne, fun y hy => ?_⟩
      exact (hcomplete y hy).symm.imp_right (mem_append_left rest)
    · exact ⟨(h.closed x hx).1, fun y hxy => hstays y ((h.closed x hx).2 y hxy)⟩

end

/-- The search finds its target exactly if a source reaches it. -/
theorem wp_search (step : Nat → Nat → Prop) (points : Finset Nat) (degree : Nat → Nat)
    (hpaced : Paced tick J E) (hexpand : ∀ k s current seen, current ∈ points → J k s →
      wp (expand current seen) (fun next s' => J k s' ∧ next.length ≤ degree current ∧
        (∀ y ∈ next, step current y) ∧ ∀ y, step current y → y ∈ next ∨ y ∈ seen) E s)
    (hpoints : ∀ x ∈ points, ∀ y, step x y → y ∈ points) {frontier : List Nat}
    {budget k : Nat} {s : σ} (hinside : ∀ x ∈ frontier, x ∈ points)
    (hseen : ∀ x ∈ seen, x ≠ target ∧ ∀ y, step x y → y ∈ seen ∨ y ∈ frontier)
    (hbudget : searchMeasure points degree frontier seen < budget)
    (hroom : J (k + searchMeasure points degree frontier seen) s) :
    wp (search tick expand target budget frontier seen) (fun found s' => J k s' ∧
      (found = true ↔ ∃ x ∈ frontier, Relation.ReflTransGen step x target)) E s := by
  refine hpaced.wp_loop k
    (fun (state : List Nat × ExtTreeSet Nat) =>
      Searching step points target frontier state.1 state.2)
    (fun state => searchMeasure points degree state.1 state.2) ?_ ?_ ?_ ?_
  case refine_2 => exact ⟨hinside, fun x hx => ⟨x, hx, .refl⟩, fun x hx => .inr hx, hseen⟩
  case refine_3 => exact hbudget
  case refine_4 => exact hroom
  rintro ⟨front, seen⟩ s' hsearch hroom
  cases front with
  | nil =>
    refine wp_pure.mpr ⟨hpaced.le (Nat.le_add_right _ _) hroom, ?_⟩
    refine ⟨fun h => (Bool.false_ne_true h).elim, ?_⟩
    rintro ⟨x, hx, hpath⟩
    -- nothing is left to expand: what has been seen is closed and misses the target
    have hmem : target ∈ seen := by
      have hstart : x ∈ seen := (hsearch.started x hx).resolve_right not_mem_nil
      refine Digraph.holds_of_reaches (· ∈ seen) ?_ hstart hpath
      intro y z hy hstep
      exact ((hsearch.closed y hy).2 z hstep).resolve_right not_mem_nil
    exact absurd rfl (hsearch.closed target hmem).1
  | cons current rest =>
    have hmeasure : searchMeasure points degree (current :: rest) seen =
        searchMeasure points degree rest seen + 1 := by
      unfold searchMeasure
      rw [length_cons]
      omega
    refine wp_seq (hpaced.wp_tick (by dsimp only; omega) hroom) ?_
    intro _ s'' hroom'
    refine wp_ite ?_ fun hne => wp_ite ?_ fun hunseen => ?_
    · intro hfound
      refine wp_pure.mpr ⟨hpaced.le (Nat.le_add_right _ _) hroom', fun _ => ?_, fun _ => rfl⟩
      rw [← hfound]
      exact hsearch.reached current mem_cons_self
    · intro hmem
      exact wp_pure.mpr ⟨⟨hsearch.skip hmem, by dsimp only; omega⟩, hroom'⟩
    · have hcurrent := hsearch.inside current mem_cons_self
      refine wp_seq (hexpand _ s'' current _ hcurrent hroom') ?_
      rintro next s3 ⟨hroom3, hlength, hsound, hcomplete⟩
      have hless : searchMeasure points degree (next ++ rest) (seen.insert current) ≤
          searchMeasure points degree rest seen := by
        unfold searchMeasure
        have hsum := sum_unseen_insert degree hcurrent hunseen
        rw [length_append]
        omega
      exact wp_pure.mpr
        ⟨⟨hsearch.visit hne hpoints hsound hcomplete, by dsimp only; omega⟩, hroom3⟩

end Search

end PyHermit.Classification
