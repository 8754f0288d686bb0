import Mathlib.Algebra.Order.BigOperators.Group.Finset
import PyHermit.Proof.GraphPasses

/-!
# The components of a complete told relation

The two passes over the successor lists, each followed against its relational counterpart in
`Lib.Digraph`. The first goes depth-first from each node and notes the nodes as they finish
(`wp_finishAll`); the second takes the finished nodes from the last one on and collects what
leads to them (`wp_collectAll`). Every round uses up an edge or a node, so the passes take
as many steps as there are nodes and edges.
-/

open Std Prog List

namespace PyHermit.Classification

open NativeError

variable {τ : Type}

def Arrow (successors : List (List Nat)) (i j : Nat) : Prop := j ∈ successors.getD i []

theorem arrow_iff_getElem? {successors : List (List Nat)} {i j : Nat} :
    Arrow successors i j ↔ ∃ l, successors[i]? = some l ∧ j ∈ l :=
  getD_iff (P := (j ∈ ·)) not_mem_nil

theorem Arrow.lt {successors : List (List Nat)} {i j : Nat} (h : Arrow successors i j) :
    i < successors.length := by
  obtain ⟨l, hl, -⟩ := arrow_iff_getElem?.mp h
  exact lt_of_getElem? hl

def Ranged (successors : List (List Nat)) : Prop :=
  ∀ i j, Arrow successors i j → j < successors.length

section Passes

variable {control : OperationControl} {J : Nat → Nat × Ambient τ → Prop}
  {E : NativeError → Nat × Ambient τ → Prop} {successors : List (List Nat)}

/-! ## The first pass -/

/-- The rounds an unvisited node still takes: one for each successor and one to finish it. -/
def unvisitedRounds (successors : List (List Nat)) (visited : ExtTreeSet Nat) : Nat :=
  ∑ x ∈ (Finset.range successors.length).filter (· ∉ visited), ((successors.getD x []).length + 1)

/-- The rounds that the nodes on the stack still take. -/
def stackRounds (successors : List (List Nat)) (stack : List (Nat × Nat)) : Nat :=
  (stack.map fun (node, offset) => (successors.getD node []).length - offset + 1).sum

/-- Between the rounds of the first pass. -/
structure Finish (successors : List (List Nat)) (before : ExtTreeSet Nat) (start : Nat)
    (stack : List (Nat × Nat)) (visited : ExtTreeSet Nat) (finished : List Nat) : Prop where
  finishing : Digraph.Finishing (Arrow successors) (stack.map (·.1)) finished
  seen : ∀ x, x ∈ visited ↔ x ∈ stack.map (·.1) ∨ x ∈ finished
  range : ∀ x ∈ visited, x < successors.length
  /-- The successors of an open node up to its offset have been visited. -/
  offsets : ∀ (node offset : Nat), (node, offset) ∈ stack →
    offset ≤ (successors.getD node []).length ∧
    ∀ y ∈ (successors.getD node []).take offset, y ∈ visited
  started : start ∈ visited
  kept : ∀ x ∈ before, x ∈ visited

variable {visited : ExtTreeSet Nat} {rest : List (Nat × Nat)} {finished : List Nat}

section

variable {before : ExtTreeSet Nat} {start node offset successor : Nat}
  (h : Finish successors before start ((node, offset) :: rest) visited finished)
  (hsucc : (successors.getD node [])[offset]? = some successor)

include h hsucc

theorem Finish.offsets_advance {seen : ExtTreeSet Nat} (hgrow : ∀ x ∈ visited, x ∈ seen)
    (hseen : successor ∈ seen) :
    ∀ (node' offset' : Nat), (node', offset') ∈ (node, offset + 1) :: rest →
      offset' ≤ (successors.getD node' []).length ∧ ∀ y ∈ (successors.getD node' []).take offset',
      y ∈ seen := by
  intro node' offset' hmem
  rcases mem_cons.mp hmem with heq | hmem
  · cases heq
    refine ⟨lt_of_getElem? hsucc, ?_⟩
    intro y hy
    rw [take_add_one, hsucc, mem_append] at hy
    rcases hy with hy | hy
    · exact hgrow y ((h.offsets node offset mem_cons_self).2 y hy)
    · rw [mem_singleton.mp hy]
      exact hseen
  · obtain ⟨hle, hall⟩ := h.offsets node' offset' (mem_cons_of_mem _ hmem)
    exact ⟨hle, fun y hy => hgrow y (hall y hy)⟩

theorem Finish.advance (hseen : successor ∈ visited) :
    Finish successors before start ((node, offset + 1) :: rest) visited finished :=
  ⟨h.finishing, h.seen, h.range, h.offsets_advance hsucc (fun _ hx => hx) hseen, h.started, h.kept⟩

theorem Finish.open (hranged : Ranged successors) (hnew : successor ∉ visited) :
    Finish successors before start ((successor, 0) :: (node, offset + 1) :: rest)
      (visited.insert successor) finished := by
  have hstep : Arrow successors node successor := mem_of_getElem? hsucc
  have hnot : ¬ (successor ∈ node :: rest.map (·.1) ∨ successor ∈ finished) := fun hmem =>
    hnew ((h.seen successor).mpr hmem)
  rw [not_or] at hnot
  have hgrow : ∀ x ∈ visited, x ∈ visited.insert successor := fun x hx =>
    mem_insert_eq.mpr (.inr hx)
  refine ⟨?_, ?_, ?_, ?_, hgrow _ h.started, fun x hx => hgrow x (h.kept x hx)⟩
  · refine h.finishing.push hnot.1 hnot.2 ?_
    intro b hb
    cases hb
    exact hstep
  · intro x
    rw [mem_insert_eq, h.seen x]
    simp only [map_cons, mem_cons]
    tauto
  · intro x hx
    rw [mem_insert_eq] at hx
    rcases hx with rfl | hx
    · exact hranged node _ hstep
    · exact h.range x hx
  · intro node' offset' hmem
    rcases mem_cons.mp hmem with heq | hmem
    · cases heq
      exact ⟨Nat.zero_le _, fun y hy => absurd hy not_mem_nil⟩
    · exact h.offsets_advance hsucc hgrow ExtTreeSet.mem_insert_self node' offset' hmem

end

theorem Finish.close {before : ExtTreeSet Nat} {start node offset : Nat}
    (h : Finish successors before start ((node, offset) :: rest) visited finished)
    (hend : (successors.getD node [])[offset]? = none) :
    Finish successors before start rest visited (finished ++ [node]) := by
  obtain ⟨-, hall⟩ := h.offsets node offset mem_cons_self
  rw [take_of_length_le (List.getElem?_eq_none_iff.mp hend)] at hall
  refine ⟨?_, ?_, h.range, fun node' offset' hmem =>
    h.offsets node' offset' (mem_cons_of_mem _ hmem), h.started, h.kept⟩
  · exact h.finishing.pop fun y hy => (h.seen y).mp (hall y hy)
  · intro x
    rw [h.seen x, map_cons, mem_cons, mem_append, mem_singleton]
    tauto

theorem unvisitedRounds_insert {x : Nat} (hx : x < successors.length) (hnew : x ∉ visited) :
    (successors.getD x []).length + 1 + unvisitedRounds successors (visited.insert x) =
      unvisitedRounds successors visited := by
  exact sum_unseen_insert (fun x => (successors.getD x []).length + 1)
    (Finset.mem_range.mpr hx) hnew

/-- Between the starts of the first pass. -/
structure Finished (successors : List (List Nat)) (visited : ExtTreeSet Nat)
    (finished : List Nat) : Prop where
  finishing : Digraph.Finishing (Arrow successors) [] finished
  seen : ∀ x, x ∈ visited ↔ x ∈ finished
  range : ∀ x ∈ visited, x < successors.length

theorem Finished.start {start : Nat} (h : Finished successors visited finished)
    (hstart : start < successors.length) (hnew : start ∉ visited) :
    Finish successors visited start [(start, 0)] (visited.insert start) finished := by
  refine ⟨?_, ?_, ?_, ?_, ExtTreeSet.mem_insert_self, fun x hx => mem_insert_eq.mpr (.inr hx)⟩
  · refine h.finishing.push not_mem_nil (fun hmem => hnew ((h.seen start).mpr hmem)) ?_
    intro b hb
    cases hb
  · intro x
    rw [mem_insert_eq, h.seen x]
    simp only [map_cons, map_nil, mem_singleton]
    tauto
  · intro x hx
    rw [mem_insert_eq] at hx
    rcases hx with rfl | hx
    · exact hstart
    · exact h.range x hx
  · intro node offset hmem
    cases mem_singleton.mp hmem
    exact ⟨Nat.zero_le _, fun y hy => absurd hy not_mem_nil⟩

theorem unvisitedRounds_le (visited : ExtTreeSet Nat) :
    unvisitedRounds successors visited ≤ successors.length + (successors.map List.length).sum := by
  refine (Finset.sum_le_sum_of_subset (Finset.filter_subset _ _)).trans (Nat.le_of_eq ?_)
  rw [Finset.sum_add_distrib, sum_getD, ← Finset.card_eq_sum_ones, Finset.card_range, Nat.add_comm]

variable {s : Nat × Ambient τ}

/-- From one start, everything reached from there is finished. -/
theorem wp_finishFrom (hpaced : Paced (pollGraphStep control) J E) (hranged : Ranged successors)
    {start k : Nat} (hstart : start < successors.length) (h : Finished successors visited finished)
    (hroom : J (k + unvisitedRounds successors visited) s) :
    wp (finishFrom control successors (visited, finished) start) (fun state s' =>
      Finished successors state.1 state.2 ∧ start ∈ state.1 ∧ (∀ x ∈ visited, x ∈ state.1) ∧
      J (k + unvisitedRounds successors state.1) s') E s := by
  refine wp_ite (fun hmem => ?_) fun hnew => ?_
  · exact wp_pure.mpr ⟨h, hmem, fun _ hx => hx, hroom⟩
  · have hrounds := unvisitedRounds_insert hstart hnew
    have hstack : stackRounds successors [(start, 0)] = (successors.getD start []).length + 1 := rfl
    refine hpaced.wp_loop k (fun (state : List (Nat × Nat) × ExtTreeSet Nat × List Nat) =>
        Finish successors visited start state.1 state.2.1 state.2.2)
      (fun state => stackRounds successors state.1 + unvisitedRounds successors state.2.1) ?_
      ?_ ?_ ?_
    · rintro ⟨stack, visited, finished⟩ s' hfinish hroom
      cases stack with
      | nil =>
        refine wp_pure.mpr ⟨⟨hfinish.finishing, ?_, hfinish.range⟩, hfinish.started,
          hfinish.kept, ?_⟩
        · intro x
          rw [hfinish.seen x]
          simp
        · simpa [stackRounds] using hroom
      | cons top rest =>
        obtain ⟨node, offset⟩ := top
        have hcons : ∀ (i o : Nat) (l : List (Nat × Nat)), stackRounds successors ((i, o) :: l) =
            (successors.getD i []).length - o + 1 + stackRounds successors l := fun _ _ _ => rfl
        rw [hcons] at hroom ⊢
        refine wp_seq (hpaced.wp_tick (by omega) hroom) ?_
        intro _ s'' hroom'
        cases hsucc : (successors.getD node [])[offset]? with
        | some successor =>
          -- the node looks at one successor more, and opens it if it is new
          have hlt := lt_of_getElem? hsucc
          refine wp_ite (fun hseen => ?_) fun hunseen => ?_
          · refine wp_pure.mpr ⟨⟨hfinish.advance hsucc hseen, ?_⟩, hroom'⟩
            dsimp only
            rw [hcons]
            omega
          · have hopened := hfinish.open hsucc hranged hunseen
            have hinsert := unvisitedRounds_insert
              (hopened.range successor ExtTreeSet.mem_insert_self) hunseen
            refine wp_pure.mpr ⟨⟨hopened, ?_⟩, hroom'⟩
            dsimp only
            rw [hcons, hcons]
            omega
        | none =>
          -- all successors have been visited: the node is finished
          refine wp_pure.mpr ⟨⟨hfinish.close hsucc, ?_⟩, hroom'⟩
          dsimp only
          omega
    · exact h.start hstart hnew
    · have hle := @unvisitedRounds_le successors visited
      dsimp only at hrounds ⊢
      omega
    · rw [hstack, hrounds]
      exact hroom

theorem wp_finishAll (hpaced : Paced (pollGraphStep control) J E) (hranged : Ranged successors)
    {k : Nat} (hroom : J (k + (successors.length + (successors.map List.length).sum)) s) :
    wp ((List.range successors.length).foldlM (finishFrom control successors) (∅, []))
    (fun state s' =>
      Digraph.Finishing (Arrow successors) [] state.2 ∧ (∀ x, x ∈ state.2 ↔ x < successors.length) ∧
      J k s') E s := by
  refine wp_imp (wp_foldlM (fun (rest : List Nat) (state : ExtTreeSet Nat × List Nat) s' =>
    Finished successors state.1 state.2 ∧ (∀ x ∈ rest, x < successors.length) ∧
    (∀ x < successors.length, x ∈ state.1 ∨ x ∈ rest) ∧
    J (k + unvisitedRounds successors state.1) s')
    ?_ _ _ _ ?_) ?_
  · rintro start rest ⟨visited, finished⟩ s' ⟨h, hrest, hall, hroom⟩
    refine wp_imp (wp_finishFrom hpaced hranged (hrest start mem_cons_self) h hroom) ?_
    rintro state s'' ⟨h', hstart, hkept, hroom'⟩
    refine ⟨h', fun x hx => hrest x (mem_cons_of_mem start hx), ?_, hroom'⟩
    intro x hx
    rcases hall x hx with hx | hx
    · exact .inl (hkept x hx)
    · rcases mem_cons.mp hx with rfl | hx
      · exact .inl hstart
      · exact .inr hx
  · refine ⟨⟨Digraph.Finishing.nil, fun x => by simp, ?_⟩, ?_, ?_, ?_⟩
    · intro x hx
      exact absurd hx ExtTreeSet.not_mem_empty
    · intro x hx
      exact mem_range.mp hx
    · intro x hx
      exact .inr (mem_range.mpr hx)
    · exact hpaced.le (Nat.add_le_add_left (unvisitedRounds_le _) k) hroom
  · rintro ⟨visited, finished⟩ s' ⟨h, -, hall, hroom⟩
    refine ⟨h.finishing, ?_, hpaced.le (Nat.le_add_right _ _) hroom⟩
    intro x
    rw [← h.seen x]
    exact ⟨h.range x, fun hx => (hall x hx).resolve_right not_mem_nil⟩

/-! ## Predecessors -/

theorem foldl_predecessors (child : Nat) (parents : List Nat) (lists : List (List Nat)) :
    (parents.foldl (fun lists parent => lists.modify parent (· ++ [child])) lists).length =
      lists.length ∧
    ∀ j < lists.length, ∀ i,
      i ∈ (parents.foldl (fun lists parent => lists.modify parent (· ++ [child])) lists).getD j [] ↔
        i ∈ lists.getD j [] ∨ (i = child ∧ j ∈ parents) := by
  induction parents generalizing lists with
  | nil => exact ⟨rfl, fun j _ i => by simp⟩
  | cons parent parents ih =>
    obtain ⟨hlength, hmem⟩ := ih (lists.modify parent (· ++ [child]))
    rw [length_modify] at hlength hmem
    refine ⟨hlength, ?_⟩
    intro j hj i
    rw [foldl_cons, hmem j hj i, getElem?_modify_getD hj]
    by_cases hparent : parent = j
    · rw [if_pos hparent, mem_append, mem_singleton, mem_cons, eq_comm.mp hparent]
      tauto
    · rw [if_neg hparent, mem_cons]
      tauto

theorem foldl_predecessorLists (l : List (List Nat × Nat)) (lists : List (List Nat)) :
    (l.foldl (fun lists (parents, child) =>
      parents.foldl (fun lists parent => lists.modify parent (· ++ [child])) lists) lists).length =
      lists.length ∧
    ∀ j < lists.length, ∀ i,
      i ∈ (l.foldl (fun lists (parents, child) =>
        parents.foldl (fun lists parent => lists.modify parent (· ++ [child])) lists)
        lists).getD j [] ↔
        i ∈ lists.getD j [] ∨ ∃ parents, (parents, i) ∈ l ∧ j ∈ parents := by
  induction l generalizing lists with
  | nil => exact ⟨rfl, fun j _ i => by simp⟩
  | cons pair l ih =>
    obtain ⟨parents, child⟩ := pair
    obtain ⟨hlength, hmem⟩ := foldl_predecessors child parents lists
    obtain ⟨hlength', hmem'⟩ :=
      ih (parents.foldl (fun lists parent => lists.modify parent (· ++ [child])) lists)
    rw [hlength] at hlength' hmem'
    refine ⟨hlength', ?_⟩
    intro j hj i
    rw [foldl_cons, hmem' j hj i, hmem j hj i]
    constructor
    · rintro ((h | ⟨rfl, h⟩) | ⟨parents', h, h'⟩)
      · exact .inl h
      · exact .inr ⟨parents, mem_cons_self, h⟩
      · exact .inr ⟨parents', mem_cons_of_mem _ h, h'⟩
    · rintro (h | ⟨parents', h, h'⟩)
      · exact .inl (.inl h)
      · rcases mem_cons.mp h with heq | h
        · cases heq
          exact .inl (.inr ⟨rfl, h'⟩)
        · exact .inr ⟨parents', h, h'⟩

theorem length_predecessorLists : (predecessorLists successors).length = successors.length := by
  rw [predecessorLists, (foldl_predecessorLists _ _).1, length_replicate]

theorem mem_predecessorLists {i j : Nat} (hj : j < successors.length) :
    i ∈ (predecessorLists successors).getD j [] ↔ Arrow successors i j := by
  rw [predecessorLists, (foldl_predecessorLists _ _).2 j (by rw [length_replicate]; exact hj) i]
  rw [arrow_iff_getElem?]
  constructor
  · rintro (h | ⟨parents, h, h'⟩)
    · rw [getD_eq_getElem?_getD, getElem?_replicate, if_pos hj] at h
      exact absurd h not_mem_nil
    · exact ⟨parents, mem_zipIdx_iff_getElem?.mp h, h'⟩
  · rintro ⟨parents, h, h'⟩
    exact .inr ⟨parents, mem_zipIdx_iff_getElem?.mpr h, h'⟩

/-! ## The second pass -/

def unassigned (count : Nat) (assigned : ExtTreeSet Nat) : Nat :=
  ((Finset.range count).filter (· ∉ assigned)).card

theorem unassigned_insert {count x : Nat} {assigned : ExtTreeSet Nat} (hx : x < count)
    (hnew : x ∉ assigned) :
    unassigned count (assigned.insert x) + 1 = unassigned count assigned := by
  have hsum := sum_unseen_insert (fun _ => 1) (Finset.mem_range.mpr hx) hnew
  rw [← Finset.card_eq_sum_ones, ← Finset.card_eq_sum_ones] at hsum
  rw [Nat.add_comm]
  exact hsum

theorem unassigned_le (count : Nat) (assigned : ExtTreeSet Nat) :
    unassigned count assigned ≤ count := by
  have hle := Finset.card_filter_le (Finset.range count) (· ∉ assigned)
  rw [Finset.card_range] at hle
  exact hle

theorem foldl_pushUnassigned (count : Nat) (l : List Nat) (hl : ∀ x ∈ l, x < count)
    (stack : List Nat) (assigned : ExtTreeSet Nat) :
    (∀ x, x ∈ (l.foldl pushUnassigned (stack, assigned)).2 ↔ x ∈ assigned ∨ x ∈ l) ∧
    (∀ x, x ∈ (l.foldl pushUnassigned (stack, assigned)).1 ↔ x ∈ stack ∨ (x ∈ l ∧ x ∉ assigned)) ∧
    (l.foldl pushUnassigned (stack, assigned)).1.length +
      unassigned count (l.foldl pushUnassigned (stack, assigned)).2 = stack.length +
      unassigned count assigned := by
  induction l generalizing stack assigned with
  | nil => exact ⟨fun x => by simp, fun x => by simp, rfl⟩
  | cons y l ih =>
    have hl' : ∀ x ∈ l, x < count := fun x hx => hl x (mem_cons_of_mem y hx)
    rw [foldl_cons]
    -- `y` is skipped if it is assigned, else pushed and assigned
    by_cases hy : y ∈ assigned
    · rw [show pushUnassigned (stack, assigned) y = (stack, assigned) from if_pos hy]
      obtain ⟨hassigned, hstack, hsize⟩ := ih hl' stack assigned
      refine ⟨?_, ?_, hsize⟩
      · intro x
        rw [hassigned x, mem_cons]
        constructor
        · tauto
        · rintro (h | rfl | h)
          · exact .inl h
          · exact .inl hy
          · exact .inr h
      · intro x
        rw [hstack x, mem_cons]
        constructor
        · tauto
        · rintro (h | ⟨rfl | h, h'⟩)
          · exact .inl h
          · exact absurd hy h'
          · exact .inr ⟨h, h'⟩
    · rw [show pushUnassigned (stack, assigned) y = (y :: stack, assigned.insert y) from if_neg hy]
      obtain ⟨hassigned, hstack, hsize⟩ := ih hl' (y :: stack) (assigned.insert y)
      refine ⟨?_, ?_, ?_⟩
      · intro x
        rw [hassigned x, mem_insert_eq, mem_cons, eq_comm]
        tauto
      · intro x
        rw [hstack x, mem_insert_eq, mem_cons, mem_cons]
        constructor
        · rintro ((rfl | h) | ⟨h, h'⟩)
          · exact .inr ⟨.inl rfl, hy⟩
          · exact .inl h
          · exact .inr ⟨.inr h, fun hx => h' (.inr hx)⟩
        · rintro (h | ⟨rfl | h, h'⟩)
          · exact .inl (.inr h)
          · exact .inl (.inl rfl)
          · by_cases hxy : y = x
            · exact .inl (.inl hxy.symm)
            · exact .inr ⟨h, fun hx => hx.elim hxy h'⟩
      · have hinsert := unassigned_insert (hl y mem_cons_self) hy
        rw [hsize, length_cons]
        omega

/-- Between the starts of the second pass: what has been assigned are whole components. -/
structure Collected (elements : List Nat) (successors : List (List Nat))
    (state : Components) : Prop where
  range : ∀ x ∈ state.assigned, x < successors.length
  closed : ∀ x y, x ∈ state.assigned → Digraph.Linked (Arrow successors) x y → y ∈ state.assigned
  index : ∀ x : Nat, x ∈ state.assigned ↔ ∃ c : Nat, state.componentByIndex[x]? = some c
  bound : ∀ x c : Nat, state.componentByIndex[x]? = some c → c < state.components.length
  linked : ∀ x y c : Nat, state.componentByIndex[x]? = some c → y ∈ state.assigned →
    (state.componentByIndex[y]? = some c ↔ Digraph.Linked (Arrow successors) x y)
  members : ∀ (c : Nat) (set : ExtTreeSet Nat), state.components[c]? = some set →
    ∀ v, v ∈ set ↔ ∃ x : Nat, state.componentByIndex[x]? = some c ∧ elements.getD x 0 = v
  inhabited : ∀ c < state.components.length, ∃ x : Nat, state.componentByIndex[x]? = some c

/-- Between the rounds for one component; `done` are the nodes taken off the stack. -/
structure Collect (elements : List Nat) (successors : List (List Nat)) (state : Components)
    (start : Nat) (done : Set Nat) (stack : List Nat) (assigned component : ExtTreeSet Nat)
    (componentByIndex : ExtTreeMap Nat Nat) : Prop where
  split : ∀ x, x ∈ assigned ↔ x ∈ state.assigned ∨ x ∈ stack ∨ x ∈ done
  fresh : ∀ x, x ∈ stack ∨ x ∈ done → x ∉ state.assigned ∧ x < successors.length
  leads : ∀ x, x ∈ stack ∨ x ∈ done → Relation.ReflTransGen (Arrow successors) x start
  closed : ∀ x ∈ done, ∀ y, Arrow successors y x → y ∈ assigned
  component : ∀ v, v ∈ component ↔ ∃ x ∈ done, elements.getD x 0 = v
  indexed : ∀ x ∈ done, componentByIndex[x]? = some state.components.length
  other : ∀ x, x ∉ done → componentByIndex[x]? = state.componentByIndex[x]?
  started : start ∈ stack ∨ start ∈ done

section Collect

variable {elements : List Nat} {state : Components} {start node : Nat} {done : Set Nat}
  {stack rest : List Nat} {assigned component : ExtTreeSet Nat}
  {componentByIndex : ExtTreeMap Nat Nat}

theorem Collect.first (hstart : start < successors.length) (hnew : start ∉ state.assigned) :
    Collect elements successors state start ∅ [start] (state.assigned.insert start) ∅
      state.componentByIndex := by
  have honly : ∀ x, x ∈ [start] ∨ x ∈ (∅ : Set Nat) → x = start := by
    rintro x (h | h)
    · exact mem_singleton.mp h
    · exact h.elim
  refine ⟨?_, ?_, ?_, nofun, ?_, nofun, fun _ _ => rfl, .inl mem_cons_self⟩
  · intro x
    rw [mem_insert_eq, mem_singleton, Set.mem_empty_iff_false, eq_comm]
    tauto
  · intro x hx
    rw [honly x hx]
    exact ⟨hnew, hstart⟩
  · intro x hx
    rw [honly x hx]
  · intro v
    constructor
    · intro h
      exact absurd h ExtTreeSet.not_mem_empty
    · rintro ⟨x, hx, -⟩
      exact hx.elim

theorem Collect.round
    (h : Collect elements successors state start done (node :: rest) assigned component
      componentByIndex) :
    Collect elements successors state start (insert node done)
      (((predecessorLists successors).getD node []).reverse.foldl pushUnassigned (rest, assigned)).1
      (((predecessorLists successors).getD node []).reverse.foldl pushUnassigned (rest, assigned)).2
      (component.insert (elements.getD node 0))
      (componentByIndex.insert node state.components.length) := by
  have hnode := h.fresh node (.inl mem_cons_self)
  have hpreds : ∀ x, x ∈ ((predecessorLists successors).getD node []).reverse ↔
      Arrow successors x node := by
    intro x
    rw [mem_reverse, mem_predecessorLists hnode.2]
  obtain ⟨hassigned, hstack, -⟩ := foldl_pushUnassigned successors.length
    ((predecessorLists successors).getD node []).reverse
    (fun x hx => ((hpreds x).mp hx).lt) rest assigned
  simp only [hpreds] at hassigned hstack
  have hsplit := h.split
  simp only [mem_cons] at hsplit
  have hold : ∀ x, x ∈ rest → x ∈ node :: rest ∨ x ∈ done :=
    fun x hx => .inl (mem_cons_of_mem node hx)
  -- a node is old, or waits on the stack, or is a new predecessor, or has just been taken
  refine ⟨?_, ?_, ?_, ?_, ?_, ?_, ?_, ?_⟩
  · intro x
    rw [hassigned x, hstack x, hsplit x, Set.mem_insert_iff]
    by_cases hx : x ∈ assigned
    · have hx' := (hsplit x).mp hx
      tauto
    · tauto
  · intro x hx
    rw [hstack x, Set.mem_insert_iff] at hx
    rcases hx with (hx | ⟨hx, hx'⟩) | rfl | hx
    · exact h.fresh x (hold x hx)
    · exact ⟨fun hmem => hx' ((h.split x).mpr (.inl hmem)), hx.lt⟩
    · exact hnode
    · exact h.fresh x (.inr hx)
  · intro x hx
    rw [hstack x, Set.mem_insert_iff] at hx
    rcases hx with (hx | ⟨hx, -⟩) | rfl | hx
    · exact h.leads x (hold x hx)
    · exact (h.leads node (.inl mem_cons_self)).head hx
    · exact h.leads x (.inl mem_cons_self)
    · exact h.leads x (.inr hx)
  · rintro x (rfl | hx) y hy
    · exact (hassigned y).mpr (.inr hy)
    · exact (hassigned y).mpr (.inl (h.closed x hx y hy))
  · intro v
    rw [mem_insert_eq, h.component v]
    constructor
    · rintro (hv | ⟨x, hx, hv⟩)
      · exact ⟨node, .inl rfl, hv⟩
      · exact ⟨x, .inr hx, hv⟩
    · rintro ⟨x, rfl | hx, hv⟩
      · exact .inl hv
      · exact .inr ⟨x, hx, hv⟩
  · intro x hx
    rw [getElem?_insert_eq]
    split
    · rfl
    · rename_i hne
      exact h.indexed x (hx.resolve_left fun heq => hne heq.symm)
  · intro x hx
    rw [Set.mem_insert_iff, not_or] at hx
    rw [getElem?_insert_eq, if_neg]
    · exact h.other x hx.2
    · exact fun heq => hx.1 heq.symm
  · rw [hstack start, Set.mem_insert_iff]
    rcases h.started with hs | hs
    · rcases mem_cons.mp hs with hs | hs
      · exact .inr (.inl hs)
      · exact .inl (.inl hs)
    · exact .inr (.inr hs)

section
variable (h : Collect elements successors state start done [] assigned component componentByIndex)
  (hstate : Collected elements successors state)
include h hstate

theorem Collect.mem_done {todo : List Nat}
    (hfinishing : Digraph.Finishing (Arrow successors) [] (todo ++ start :: finished))
    (hall : ∀ x < successors.length, x ∈ todo ++ start :: finished)
    (hfinished : ∀ x ∈ finished, x ∈ state.assigned) (x : Nat) :
    x ∈ done ↔ Digraph.Linked (Arrow successors) x start := by
  have hstart : start ∈ done := h.started.resolve_left not_mem_nil
  constructor
  · intro hx
    obtain ⟨hfresh, hlt⟩ := h.fresh x (.inr hx)
    have hnodup := hfinishing.nodup
    exact Digraph.linked_of_leads hnodup (hfinishing.all_settled x (hall x hlt)) hfinished
      hstate.closed hfresh (h.leads x (.inr hx))
  · rintro ⟨hto, hfrom⟩
    -- backwards along the path from `x`: a node assigned before would bring the start with it
    refine Relation.ReflTransGen.head_induction_on
      (motive := fun y _ => Relation.ReflTransGen (Arrow successors) start y → y ∈ done) hto
      (fun _ => hstart) ?_ hfrom
    intro y z hyz hzstart ih hy
    have hz : z ∈ done := ih (hy.tail hyz)
    rcases (h.split y).mp (h.closed z hz y hyz) with hold | hold | hold
    · exact absurd (hstate.closed y start hold ⟨hzstart.head hyz, hy⟩)
        (h.fresh start (.inr hstart)).1
    · exact absurd hold not_mem_nil
    · exact hold

theorem Collect.collected (hdone : ∀ x, x ∈ done ↔ Digraph.Linked (Arrow successors) x start) :
    Collected elements successors
      { assigned, components := state.components ++ [component], componentByIndex } := by
  have hsplit : ∀ x, x ∈ assigned ↔ x ∈ state.assigned ∨ x ∈ done := by
    intro x
    rw [h.split x]
    simp
  have hstart : start ∈ done := h.started.resolve_left not_mem_nil
  have hfresh : ∀ x ∈ done, x ∉ state.assigned := fun x hx => (h.fresh x (.inr hx)).1
  have hnew : ∀ x ∈ state.assigned, x ∉ done := fun x hx hx' => hfresh x hx' hx
  have hvalue : ∀ x c : Nat, componentByIndex[x]? = some c ↔
      (x ∈ done ∧ c = state.components.length) ∨
      (x ∉ done ∧ state.componentByIndex[x]? = some c) := by
    intro x c
    by_cases hx : x ∈ done
    · rw [h.indexed x hx, Option.some.injEq, eq_comm]
      tauto
    · rw [h.other x hx]
      tauto
  have hkept : ∀ x c : Nat, state.componentByIndex[x]? = some c → componentByIndex[x]? = some c :=
    fun x c hx => (hvalue x c).mpr (.inr ⟨hnew x ((hstate.index x).mpr ⟨c, hx⟩), hx⟩)
  refine ⟨?_, ?_, ?_, ?_, ?_, ?_, ?_⟩
  · intro x hx
    rcases (hsplit x).mp hx with hx | hx
    · exact hstate.range x hx
    · exact (h.fresh x (.inr hx)).2
  · intro x y hx hxy
    refine (hsplit y).mpr ?_
    rcases (hsplit x).mp hx with hx | hx
    · exact .inl (hstate.closed x y hx hxy)
    · exact .inr ((hdone y).mpr (hxy.symm.trans ((hdone x).mp hx)))
  · intro x
    rw [show (x ∈ assigned ↔ _) from hsplit x]
    constructor
    · rintro (hx | hx)
      · obtain ⟨c, hc⟩ := (hstate.index x).mp hx
        exact ⟨c, hkept x c hc⟩
      · exact ⟨_, h.indexed x hx⟩
    · rintro ⟨c, hc⟩
      rcases (hvalue x c).mp hc with ⟨hx, -⟩ | ⟨-, hx⟩
      · exact .inr hx
      · exact .inl ((hstate.index x).mpr ⟨c, hx⟩)
  · intro x c hc
    rw [length_append, length_singleton]
    rcases (hvalue x c).mp hc with ⟨-, rfl⟩ | ⟨-, hx⟩
    · exact Nat.lt_succ_self _
    · exact Nat.lt_succ_of_lt (hstate.bound x c hx)
  · intro x y c hc hy
    rcases (hvalue x c).mp hc with ⟨hx, rfl⟩ | ⟨hx, hold⟩
    · -- the number is new, so it stands for exactly the nodes of this round
      have hxy : Digraph.Linked (Arrow successors) x y ↔ y ∈ done := by
        rw [hdone y]
        exact ⟨fun h => h.symm.trans ((hdone x).mp hx), fun h => ((hdone x).mp hx).trans h.symm⟩
      rw [hxy, hvalue y]
      constructor
      · rintro (⟨hy, -⟩ | ⟨-, hy⟩)
        · exact hy
        · exact absurd (hstate.bound y _ hy) (Nat.lt_irrefl _)
      · exact fun hy => .inl ⟨hy, rfl⟩
    · have hassigned : x ∈ state.assigned := (hstate.index x).mpr ⟨c, hold⟩
      rcases (hsplit y).mp hy with hy | hy
      · rw [hvalue y, ← hstate.linked x y c hold hy]
        tauto
      · -- an old node and a new one: different numbers, and not linked
        constructor
        · intro h
          rcases (hvalue y c).mp h with ⟨-, rfl⟩ | ⟨hnot, -⟩
          · exact absurd (hstate.bound x _ hold) (Nat.lt_irrefl _)
          · exact absurd hy hnot
        · intro h
          exact absurd ((hdone x).mpr (h.trans ((hdone y).mp hy))) hx
  · intro c set hset v
    rcases getElem?_concat_iff.mp hset with hset | ⟨rfl, rfl⟩
    · have hlt := lt_of_getElem? hset
      rw [hstate.members c set hset v]
      constructor
      · rintro ⟨x, hx, hv⟩
        exact ⟨x, hkept x c hx, hv⟩
      · rintro ⟨x, hx, hv⟩
        rcases (hvalue x c).mp hx with ⟨-, rfl⟩ | ⟨-, hx⟩
        · exact absurd hlt (Nat.lt_irrefl _)
        · exact ⟨x, hx, hv⟩
    · rw [h.component v]
      constructor
      · rintro ⟨x, hx, hv⟩
        exact ⟨x, h.indexed x hx, hv⟩
      · rintro ⟨x, hx, hv⟩
        rcases (hvalue x _).mp hx with ⟨hx, -⟩ | ⟨-, hx⟩
        · exact ⟨x, hx, hv⟩
        · exact absurd (hstate.bound x _ hx) (Nat.lt_irrefl _)
  · intro c hc
    rw [length_append, length_singleton] at hc
    by_cases hlast : c = state.components.length
    · exact ⟨start, hlast ▸ h.indexed start hstart⟩
    · obtain ⟨x, hx⟩ := hstate.inhabited c (by omega)
      exact ⟨x, hkept x c hx⟩

end

/-- From one start, its whole component is collected, unless it has been before. -/
theorem wp_collectFrom (hpaced : Paced (pollGraphStep control) J E)
    (hstate : Collected elements successors state) {todo : List Nat}
    (hfinishing : Digraph.Finishing (Arrow successors) [] (todo ++ start :: finished))
    (hall : ∀ x, x ∈ todo ++ start :: finished ↔ x < successors.length)
    (hfinished : ∀ x ∈ finished, x ∈ state.assigned) {k : Nat}
    (hroom : J (k + unassigned successors.length state.assigned) s) :
    wp (collectFrom control elements (predecessorLists successors) state start) (fun state' s' =>
      Collected elements successors state' ∧ start ∈ state'.assigned ∧
      (∀ x ∈ state.assigned, x ∈ state'.assigned) ∧
      J (k + unassigned successors.length state'.assigned) s') E s := by
  have hstart : start < successors.length := (hall start).mp (mem_append_right _ mem_cons_self)
  refine wp_ite (fun hmem => ?_) fun hnew => ?_
  · exact wp_pure.mpr ⟨hstate, hmem, fun _ hx => hx, hroom⟩
  · have hrounds := unassigned_insert hstart hnew
    refine wp_seq (hpaced.wp_loop k
      (fun (x : List Nat × ExtTreeSet Nat × ExtTreeSet Nat × ExtTreeMap Nat Nat) =>
        ∃ done, Collect elements successors state start done x.1 x.2.1 x.2.2.1 x.2.2.2)
      (fun x => x.1.length + unassigned successors.length x.2.1)
      (Q := fun (x : ExtTreeSet Nat × ExtTreeSet Nat × ExtTreeMap Nat Nat) s' =>
        (∃ done, Collect elements successors state start done [] x.1 x.2.1 x.2.2) ∧
        J (k + unassigned successors.length x.1) s')
      ?_ ⟨∅, Collect.first hstart hnew⟩ ?_ ?_) ?_
    · rintro ⟨stack, assigned, component, componentByIndex⟩ s' ⟨done, h⟩ hroom
      cases stack with
      | nil =>
        refine wp_pure.mpr ⟨⟨done, h⟩, ?_⟩
        simpa using hroom
      | cons node rest =>
        have hnode := (h.fresh node (.inl mem_cons_self)).2
        obtain ⟨-, -, hsize⟩ := foldl_pushUnassigned successors.length
          ((predecessorLists successors).getD node []).reverse
          (fun x hx => ((mem_predecessorLists hnode).mp (mem_reverse.mp hx)).lt) rest assigned
        refine wp_seq (hpaced.wp_tick (Nat.add_pos_left (Nat.succ_pos _) _) hroom) ?_
        intro _ s'' hroom'
        refine wp_pure.mpr ⟨⟨⟨_, h.round⟩, ?_⟩, hroom'⟩
        dsimp only [length_cons]
        omega
    · have hle := unassigned_le successors.length state.assigned
      dsimp only [length_singleton]
      rw [Nat.add_comm 1, hrounds, length_predecessorLists]
      omega
    · dsimp only [length_singleton]
      rw [Nat.add_comm 1, hrounds]
      exact hroom
    · rintro ⟨assigned, component, componentByIndex⟩ s' ⟨⟨done, h⟩, hroom⟩
      have hdone := h.mem_done hstate hfinishing (fun x hx => (hall x).mpr hx) hfinished
      refine wp_pure.mpr ⟨h.collected hstate hdone, ?_, ?_, hroom⟩
      · exact (h.split start).mpr (.inr h.started)
      · intro x hx
        exact (h.split x).mpr (.inl hx)

end Collect

theorem wp_collectAll (hpaced : Paced (pollGraphStep control) J E) {elements : List Nat}
    (hfinishing : Digraph.Finishing (Arrow successors) [] finished)
    (hall : ∀ x, x ∈ finished ↔ x < successors.length) {k : Nat}
    (hroom : J (k + successors.length) s) :
    wp (finished.reverse.foldlM (collectFrom control elements (predecessorLists successors)) {})
      (fun state s' => Collected elements successors state ∧
        (∀ x < successors.length, x ∈ state.assigned) ∧ J k s') E s := by
  refine wp_imp (wp_foldlM (fun (rest : List Nat) (state : Components) s' =>
    Collected elements successors state ∧
    (∃ taken, finished = rest.reverse ++ taken ∧ ∀ x ∈ taken, x ∈ state.assigned) ∧
    J (k + unassigned successors.length state.assigned) s') ?_ _ _ _ ?_) ?_
  · rintro start rest state s' ⟨hstate, ⟨taken, hsplit, htaken⟩, hroom⟩
    rw [reverse_cons, append_assoc, singleton_append] at hsplit
    rw [hsplit] at hfinishing hall
    refine wp_imp (wp_collectFrom hpaced hstate hfinishing hall htaken hroom) ?_
    rintro state' s'' ⟨hstate', hstart, hkept, hroom'⟩
    refine ⟨hstate', ⟨start :: taken, hsplit, ?_⟩, hroom'⟩
    exact forall_mem_cons.mpr ⟨hstart, fun x hx => hkept x (htaken x hx)⟩
  · refine ⟨⟨?_, ?_, ?_, ?_, ?_, ?_, ?_⟩, ⟨[], ?_, fun x hx => absurd hx not_mem_nil⟩, ?_⟩
    · intro x hx
      exact absurd hx ExtTreeSet.not_mem_empty
    · intro x y hx
      exact absurd hx ExtTreeSet.not_mem_empty
    · intro x
      simp
    · intro x c hc
      simp at hc
    · intro x y c hc
      simp at hc
    · intro c set hset
      simp at hset
    · intro c hc
      exact absurd hc (Nat.not_lt_zero c)
    · rw [reverse_reverse, append_nil]
    · exact hpaced.le (Nat.add_le_add_left (unassigned_le _ _) k) hroom
  · rintro state s' ⟨hstate, ⟨taken, hsplit, htaken⟩, hroom⟩
    refine ⟨hstate, ?_, hpaced.le (Nat.le_add_right _ _) hroom⟩
    intro x hx
    refine htaken x ?_
    have hmem := (hall x).mpr hx
    rw [hsplit] at hmem
    exact hmem

end Passes

end PyHermit.Classification
