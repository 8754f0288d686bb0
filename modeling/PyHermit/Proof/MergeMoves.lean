import PyHermit.Proof.KernelMoves

/-!
# Merging and pruning move the kernel

Both free the nodes blocked by what is about to go, clear it out of the fact store, then
change its lifecycle. The last round is a primitive change only because after the first no
blocker is among the departing nodes and after the second no active row mentions them.
-/

open Std Prog List

namespace PyHermit

open TableauKernel Arena

variable {p : Permit} {n : Nat} {k : TableauKernel}

/-! ## Blocking marks -/

/-- A node without what blocking and existentials write on it. -/
def Node.skeleton (node : Node) : Node :=
  { node with
    blocker := none, directlyBlocked := false, blockingGeneration := 0,
    unprocessedExistentials := ∅ }

/-- `g` reads the same off both arenas. -/
def Agree {β : Type} (g : Node → β) (arena arena' : Arena) : Prop :=
  arena'.map (Option.map g) = arena.map (Option.map g)

namespace Agree

variable {β : Type} {g : Node → β} {arena arena' : Arena} {h : NodeHandle} {node : Node}

theorem getElem? (hs : Agree g arena arena') {i : Nat} (hi : arena[i]? = some (some node)) :
    ∃ node', arena'[i]? = some (some node') ∧ g node' = g node := by
  have heq := congrArg (fun l => l[i]?) hs
  simp only [getElem?_map, hi, Option.map_some] at heq
  obtain ⟨o, ho, hmap⟩ := Option.map_eq_some_iff.mp heq
  obtain ⟨node', rfl, hnode'⟩ := Option.map_eq_some_iff.mp hmap
  exact ⟨node', ho, hnode'⟩

theorem requireNode (hs : Agree Node.skeleton arena arena') (hn : arena.requireNode h = .ok node) :
    ∃ node', arena'.requireNode h = .ok node' ∧ node'.skeleton = node.skeleton := by
  obtain ⟨h1, h2, h3⟩ := requireNode_eq_ok.mp hn
  obtain ⟨node', h1', hsk⟩ := hs.getElem? h1
  refine ⟨node', requireNode_eq_ok.mpr ⟨h1', ?_, ?_⟩, hsk⟩
  · rw [show node'.handle = node.handle from (congrArg Node.handle hsk :)]
    exact h2
  · rw [show node'.lifecycle = node.lifecycle from (congrArg Node.lifecycle hsk :)]
    exact h3

theorem requireActive (hs : Agree Node.skeleton arena arena')
    (hn : arena.requireActive h = .ok node) :
    ∃ node', arena'.requireActive h = .ok node' ∧ node'.skeleton = node.skeleton := by
  obtain ⟨h1, h2⟩ := requireActive_eq_ok.mp hn
  obtain ⟨node', h1', hsk⟩ := hs.requireNode h1
  refine ⟨node', requireActive_eq_ok.mpr ⟨h1', ?_⟩, hsk⟩
  rw [show node'.lifecycle = node.lifecycle from (congrArg Node.lifecycle hsk :)]
  exact h2

end Agree

variable {st : MutableState} {slot : Nat} {f : Node → Node} {h : NodeHandle}

theorem updateNode_updateNode {g : Node → Node} :
    (st.updateNode slot f).updateNode slot g = st.updateNode slot (g ∘ f) := by
  unfold MutableState.updateNode
  simp only [modify_modify_eq, Option.map_comp_map]

theorem agree_updateNode {β : Type} {g : Node → β}
    (hf : ∀ x, st.nodes[slot]? = some (some x) → g (f x) = g x) :
    Agree g st.nodes (st.updateNode slot f).nodes := by
  unfold Agree MutableState.updateNode
  apply ext_getElem?
  intro i
  rw [getElem?_map, getElem?_map, Arena.getElem?_modify]
  split
  · rename_i heq
    subst heq
    match ho : st.nodes[slot]? with
    | none | some none => rfl
    | some (some x) => exact congrArg (some <| some ·) (hf x ho)
  · rfl

/-- What a successful `set_blocked` has done. -/
structure Blocked (k : TableauKernel) (h : NodeHandle) (blocker : Option NodeHandle)
    (directly : Bool) (k' : TableauKernel) : Prop where
  object : ∃ node, k.state.nodes.requireActive h = .ok node ∧ node.sort = .object
  stack : KeepsStack k k'
  state : ∃ generation, k'.state = k.state.updateNode h.slot fun x =>
    { x with blocker := blocker, directlyBlocked := blocker.isSome && directly
             blockingGeneration := generation }

theorem wp_setBlocked {blocker : Option NodeHandle} {directly : Bool} :
    wp (setBlocked h blocker directly) (fun _ => Blocked k h blocker directly)
    (fun _ _ => True) k := by
  refine wp_ask_then (fun _ hobj => ?_) fun _ _ => trivial
  have hwrite : wp (writeBlock h blocker directly) (fun _ => Blocked k h blocker directly)
      (fun _ _ => True) k := by
    refine wp_modify_then.mpr ?_
    refine wp_bind.mpr (wp_ask_then (fun node hnode => ?_) fun _ _ => trivial)
    refine wp_ask_then (fun generation _ => wp_modify.mpr ?_) fun _ _ => trivial
    refine wp_recordMutation (fun t ht => ?_) fun _ => trivial
    exact ⟨requireObject_ok hobj, ⟨rfl, rfl, ht⟩, generation, updateNode_updateNode⟩
  cases blocker with
  | none => exact hwrite
  | some value => exact wp_ask_then (fun _ _ => hwrite) fun _ _ => trivial

/-- What blocking has written on a node. -/
def Node.mark (node : Node) : Option NodeHandle × Bool := (node.blocker, node.directlyBlocked)

/-- Nodes that lost their marks. -/
structure Unblocked (p : Permit) (n : Nat) (k : TableauKernel) (handles : List NodeHandle)
    (k' : TableauKernel) : Prop where
  moves : Moves p n k k'
  skeleton : Agree Node.skeleton k.state.nodes k'.state.nodes
  /-- The nodes of the list are unmarked, the others carry the marks they had. -/
  marks : ∀ (i : Nat) (x : Node), k'.state.nodes[i]? = some (some x) →
    ∃ old, k.state.nodes[i]? = some (some old) ∧ old.handle = x.handle ∧
      x.mark = if x.handle ∈ handles then (none, false) else old.mark

theorem wp_unblock (hk : Sound n k) :
    wp (setBlocked h none false) (fun _ => Unblocked p n k [h]) (fun _ => Moves p n k) k := by
  refine wp_mono (wp_and (setBlocked_does h none false k hk) wp_setBlocked) ?_ fun _ _ he => he.1
  rintro _ k' ⟨hmoves, hblocked⟩
  obtain ⟨generation, hstate⟩ := hblocked.state
  obtain ⟨node, hnode, -⟩ := hblocked.object
  have hreq := (requireActive_eq_ok.mp hnode).1
  refine ⟨hmoves, ?_, ?_⟩
  · rw [hstate]
    exact agree_updateNode fun _ _ => rfl
  · intro i x hx
    rw [hstate] at hx
    rcases modify_cases (requireNode_eq_ok.mp hreq).1 hx with ⟨rfl, rfl⟩ | ⟨hne, hx⟩
    · have hhandle := hk.state.slotted.handle_eq hreq
      exact ⟨node, (requireNode_eq_ok.mp hreq).1, rfl, (if_pos (mem_singleton.mpr hhandle)).symm⟩
    · refine ⟨x, hx, rfl, (if_neg fun hmem => hne ?_).symm⟩
      rw [← (hk.state.slotted i x hx).1, mem_singleton.mp hmem]

theorem wp_unblockAll (hk : Sound n k) (handles : List NodeHandle) :
    wp (handles.forM fun h => setBlocked h none false)
      (fun _ => Unblocked p n k handles) (fun _ => Moves p n k) k := by
  -- what has been done so far is a prefix of the list
  let I : List NodeHandle → TableauKernel → Prop := fun left k' =>
    ∃ done, done ++ left = handles ∧ Unblocked p n k done k'
  refine wp_imp (wp_forM (E := fun _ => Moves p n k) I ?_ handles k ⟨[], rfl, ?_⟩) ?_
  · rintro h left k' ⟨done, hsplit, hdone⟩
    refine wp_mono (wp_unblock (p := p) (hk.moves hdone.moves)) ?_ fun _ _ he =>
      hdone.moves.trans he
    intro _ k'' hnew
    refine ⟨done ++ [h], by rw [append_assoc]; exact hsplit, hdone.moves.trans hnew.moves,
      Eq.trans hnew.skeleton hdone.skeleton, ?_⟩
    intro i x hx
    obtain ⟨mid, hmid, hhmid, hmark⟩ := hnew.marks i x hx
    obtain ⟨old, hold, hhold, hmark'⟩ := hdone.marks i mid hmid
    refine ⟨old, hold, hhold.trans hhmid, ?_⟩
    rw [hmark, hmark', hhmid]
    by_cases hlast : x.handle ∈ [h]
    · rw [if_pos hlast, if_pos (mem_append_right _ hlast)]
    · simp only [mem_append, hlast, or_false, if_false]
  · exact ⟨Moves.refl, rfl, fun i x hx => ⟨x, hx, rfl, (if_neg not_mem_nil).symm⟩⟩
  · rintro _ k' ⟨done, hsplit, hdone⟩
    rw [append_nil] at hsplit
    rw [← hsplit]
    exact hdone

theorem mem_blockedBy (hk : Sound n k) {q : NodeHandle → Bool} {i : Nat} {x : Node}
    (hx : k.state.nodes[i]? = some (some x)) :
    x.handle ∈ k.state.nodes.blockedBy q ↔ ∃ b, x.blocker = some b ∧ q b = true := by
  unfold Arena.blockedBy
  rw [mem_map]
  constructor
  · rintro ⟨y, hy, heq⟩
    obtain ⟨hlive, htest⟩ := mem_filter.mp hy
    obtain ⟨j, hj⟩ := mem_liveNodes.mp hlive
    -- a handle names its slot, so it is the same node
    have hij : j = i := by
      rw [← (hk.state.slotted j y hj).1, ← (hk.state.slotted i x hx).1, heq]
    rw [hij, hx] at hj
    cases hj
    rw [Bool.and_eq_true] at htest
    obtain ⟨b, hb, hq⟩ := (Option.any_eq_true _ _).mp htest.2
    exact ⟨b, hb, hq⟩
  · rintro ⟨b, hb, hq⟩
    refine ⟨x, mem_filter.mpr ⟨mem_liveNodes.mpr ⟨i, hx⟩, ?_⟩, rfl⟩
    rw [(hk.state.blockers i x hx b hb).1, hb]
    simpa using hq

/-- Once the nodes blocked by a set are freed, nothing is blocked by that set. -/
theorem Unblocked.none_left (hk : Sound n k) {k' : TableauKernel} {q : NodeHandle → Bool}
    (h : Unblocked p n k (k.state.nodes.blockedBy q) k') {i : Nat} {x : Node} {b : NodeHandle}
    (hx : k'.state.nodes[i]? = some (some x)) (hb : x.blocker = some b) : q b = false := by
  obtain ⟨old, hold, hhandle, hmark⟩ := h.marks i x hx
  rw [← hhandle] at hmark
  split at hmark
  · rw [show x.blocker = none from congrArg Prod.fst hmark] at hb
    cases hb
  · rename_i hnot
    rw [Bool.eq_false_iff]
    intro hq
    rw [show x.blocker = old.blocker from congrArg Prod.fst hmark] at hb
    exact hnot ((mem_blockedBy hk hold).mpr ⟨b, hb, hq⟩)

/-! ## Marks that stay

Of an active node either the mark stays or its blocker is gone. -/

/-- An active node of the second arena was one of the first and carries the mark it had,
or lost it with its blocker; or it is new and has none. -/
def Settled (N : NodeHandle → Prop) (arena arena' : Arena) : Prop :=
  ∀ (i : Nat) (x : Node), arena'[i]? = some (some x) → x.lifecycle = .active →
    (∃ y, arena[i]? = some (some y) ∧ y.handle = x.handle ∧ y.lifecycle = .active ∧
      y.sort = x.sort ∧
      (x.mark = y.mark ∨ x.mark = (none, false) ∧ ∃ b, y.blocker = some b ∧ ¬ arena'.Active b)) ∨
    N x.handle ∧ x.mark = (none, false)

section Settled

variable {N : NodeHandle → Prop} {arena arena' : Arena}

theorem settled_of_nodes
    (h : ∀ (i : Nat) (x : Node), arena'[i]? = some (some x) → arena[i]? = some (some x)) :
    Settled N arena arena' :=
  fun i x hx hact => .inl ⟨x, h i x hx, rfl, hact, rfl, .inl rfl⟩

theorem settled_refl : Settled N arena arena := settled_of_nodes fun _ _ hx => hx

theorem Settled.mono (h : Settled (fun _ => False) arena arena') : Settled N arena arena' :=
  fun i x hx hact => .inl ((h i x hx hact).resolve_right fun hnew => hnew.1)

/-- Freeing the nodes blocked by a set settles the marks once that set is gone. -/
theorem Unblocked.settled (hk : Sound n k) {k' : TableauKernel} {q : NodeHandle → Bool}
    (h : Unblocked p n k (k.state.nodes.blockedBy q) k')
    (hstay : ∀ (i : Nat) (x : Node), arena'[i]? = some (some x) → x.lifecycle = .active →
      k'.state.nodes[i]? = some (some x))
    (hgone : ∀ b, q b = true → ¬ arena'.Active b) : Settled N k.state.nodes arena' := by
  intro i x hx hact
  have hx' := hstay i x hx hact
  obtain ⟨old, hold, hhandle, hmark⟩ := h.marks i x hx'
  obtain ⟨y, hy, hsk⟩ := h.skeleton.getElem? hold
  rw [hx'] at hy
  cases hy
  refine .inl ⟨old, hold, hhandle, ?_, (congrArg Node.sort hsk.symm :), ?_⟩
  · rw [show old.lifecycle = x.lifecycle from (congrArg Node.lifecycle hsk.symm :)]
    exact hact
  rw [← hhandle] at hmark
  split at hmark
  · rename_i hin
    obtain ⟨b, hb, hq⟩ := (mem_blockedBy hk hold).mp hin
    exact .inr ⟨hmark, b, hb, hgone b hq⟩
  · exact .inl hmark

end Settled

/-! ## Clearing rows -/

/-- Facts came and went, but no row that mentions a node of `S` came. -/
structure Sweeps (p : Permit) (n : Nat) (S : NodeHandle → Prop) (k k' : TableauKernel) : Prop where
  moves : Moves p n k k'
  nodes : k'.state.nodes = k.state.nodes
  mentions : ∀ (id : Nat) (row : FactRow) (h : NodeHandle), k'.state.facts[id]? = some row →
    row.active = true → S h → h ∈ row.key.arguments →
    ∃ old, k.state.facts[id]? = some old ∧ old.active = true ∧ h ∈ old.key.arguments

namespace Sweeps

variable {S : NodeHandle → Prop} {k' k'' : TableauKernel}

theorem refl : Sweeps p n S k k :=
  ⟨Moves.refl, rfl, fun _ row _ hid hact _ hmem => ⟨row, hid, hact, hmem⟩⟩

theorem trans (h1 : Sweeps p n S k k') (h2 : Sweeps p n S k' k'') : Sweeps p n S k k'' := by
  refine ⟨h1.moves.trans h2.moves, h2.nodes.trans h1.nodes, fun id row h hid hact hs hmem => ?_⟩
  obtain ⟨mid, hid', hact', hmem'⟩ := h2.mentions id row h hid hact hs hmem
  exact h1.mentions id mid h hid' hact' hs hmem'

end Sweeps

section FactChanges

variable {S : NodeHandle → Prop} {k' : TableauKernel} {predicateId : Nat}
  {arguments : List NodeHandle} {dependency : DependencySet} {core : Bool}
  {provenanceId : Option Nat} {resolved : List (NodeHandle × DependencySet)}
  {outcome : FactAddOutcome} {rowId : Nat}

theorem AddedFact.key_eq (hk : StateInv n k.state)
    (h : AddedFact k predicateId arguments dependency core provenanceId resolved outcome k')
    (hargs : ∀ a ∈ arguments, k.state.nodes.Active a) : resolved.map (·.1) = arguments := by
  have hall := mapM_eq_ok.mp h.resolves
  clear h
  induction hall with
  | nil => rfl
  | cons hab _ ih =>
    rw [hk.canonicalHandle_self (hargs _ mem_cons_self)] at hab
    cases hab
    rw [map_cons, ih fun a ha => hargs a (mem_cons_of_mem _ ha)]

theorem AddedFact.nodes
    (h : AddedFact k predicateId arguments dependency core provenanceId resolved outcome k') :
    k'.state.nodes = k.state.nodes := by
  have hadds := h.adds
  generalize k'.state = st' at hadds
  cases hadds with
  | absorbed | inserted => rfl

theorem AddedFact.sweeps (hk : Sound n k)
    (h : AddedFact k predicateId arguments dependency core provenanceId resolved outcome k')
    (hargs : ∀ a ∈ arguments, k.state.nodes.Active a ∧ ¬ S a) : Sweeps p n S k k' := by
  have hkey := h.key_eq hk.state fun a ha => (hargs a ha).1
  have hadds := h.adds
  rw [hkey] at hadds
  refine ⟨h.moves hk, h.nodes, fun id row x hid hact hs hmem => ?_⟩
  generalize k'.state = st' at hadds hid
  cases hadds with
  | absorbed hbyKey hrow =>
    rcases getElem?_modify_iff.mp hid with ⟨rfl, old, hold, rfl⟩ | ⟨-, hold⟩
    · cases hrow.symm.trans hold
      obtain ⟨row', hrow', hact', -⟩ := (hk.state.indexes.byKey _ _).mp hbyKey
      cases hrow.symm.trans hrow'
      exact ⟨_, hrow, hact', hmem⟩
    · exact ⟨row, hold, hact, hmem⟩
  | inserted =>
    rcases getElem?_concat_iff.mp hid with hid | ⟨-, rfl⟩
    · exact ⟨row, hid, hact, hmem⟩
    · exact absurd hs (hargs x hmem).2

theorem Deactivated.sweeps (h : Deactivated k rowId k') : Sweeps p n S k k' := by
  refine ⟨h.moves, ?_, fun id row x hid hact _ hmem => ?_⟩
  · obtain ⟨_, _, -, -, -, hstate⟩ := h.state
    rw [hstate]
  · obtain ⟨_, _, -, -, -, hstate⟩ := h.state
    rw [hstate] at hid
    rcases getElem?_modify_iff.mp hid with ⟨-, old, -, rfl⟩ | ⟨-, hold⟩
    · cases hact
    · exact ⟨row, hold, hact, hmem⟩

theorem Deactivated.inactive (h : Deactivated k rowId k') {row : FactRow}
    (hrow : k'.state.facts[rowId]? = some row) : row.active = false := by
  obtain ⟨_, _, -, -, -, hstate⟩ := h.state
  rw [hstate] at hrow
  rcases getElem?_modify_iff.mp hrow with ⟨-, old, -, rfl⟩ | ⟨hne, -⟩
  · rfl
  · exact absurd rfl hne

end FactChanges

/-- One row is gone, and no row mentioning `S` came. -/
def Clears (p : Permit) (n : Nat) (S : NodeHandle → Prop) (k : TableauKernel) (rowId : Nat)
    (k' : TableauKernel) : Prop :=
  Sweeps p n S k k' ∧ ∀ row, k'.state.facts[rowId]? = some row → row.active = false

theorem wp_deactivate_clears {S : NodeHandle → Prop} (hk : Sound n k) {rowId : Nat} :
    wp (deactivateFact rowId) (fun _ => Clears p n S k rowId) (fun _ => Moves p n k) k := by
  refine wp_mono (wp_deactivateFact hk.state) ?_ ?_
  · rintro _ k' (⟨rfl, hrow⟩ | h)
    · exact ⟨.refl, hrow⟩
    · exact ⟨h.sweeps, fun row hrow => h.inactive hrow⟩
  · rintro _ k' (rfl | h)
    · exact Moves.refl
    · exact h.moves

/-- A loop that clears every row of a list leaves no row on `S`, if the list had them all. -/
theorem wp_clearAll {S : NodeHandle → Prop} {step : Nat → KernelM Unit}
    (hstep : ∀ id k', Sweeps p n S k k' →
      wp (step id) (fun _ => Clears p n S k' id) (fun _ => Moves p n k') k')
    (ids : List Nat) (hall : ∀ (id : Nat) (row : FactRow) (h : NodeHandle),
      k.state.facts[id]? = some row → row.active = true → S h → h ∈ row.key.arguments → id ∈ ids) :
    wp (ids.forM step)
      (fun _ k' => Moves p n k k' ∧ k'.state.nodes = k.state.nodes ∧ ∀ h, S h →
        k'.state.Unmentioned h)
      (fun _ => Moves p n k) k := by
  -- whatever still mentions `S` is on the rest of the list
  let I : List Nat → TableauKernel → Prop := fun left k' => Sweeps p n S k k' ∧
    ∀ (id : Nat) (row : FactRow) (h : NodeHandle), k'.state.facts[id]? = some row →
      row.active = true → S h → h ∈ row.key.arguments → id ∈ left
  refine wp_imp (wp_forM (E := fun _ => Moves p n k) I ?_ ids k ⟨.refl, hall⟩) ?_
  · rintro id left k' ⟨hsweep, hleft⟩
    refine wp_mono (hstep id k' hsweep) ?_ fun _ _ he => hsweep.moves.trans he
    rintro _ k'' ⟨hnew, hgone⟩
    refine ⟨hsweep.trans hnew, fun i row h hi hact hs hmem => ?_⟩
    obtain ⟨old, hold, hact', hmem'⟩ := hnew.mentions i row h hi hact hs hmem
    rcases mem_cons.mp (hleft i old h hold hact' hs hmem') with rfl | hin
    · rw [hgone row hi] at hact
      cases hact
    · exact hin
  · rintro _ k' ⟨hsweep, hleft⟩
    exact ⟨hsweep.moves, hsweep.nodes, fun h hs id row hid hact hmem =>
      not_mem_nil (hleft id row h hid hact hs hmem)⟩

/-! ## Leaving -/

section Leaving

variable {f : Node → Node} {h : NodeHandle}

/-- The last two writes on a node that is merged or pruned. -/
theorem wp_leave (hk : Sound n k) (hprim : Prim p n k.state (k.state.updateNode h.slot f)) :
    wp (do bumpBlockingGeneration h; recordMutation)
      (fun _ k' => Moves p n k k' ∧ ∃ generation, k'.state =
        k.state.updateNode h.slot fun x => { f x with blockingGeneration := generation })
      (fun _ => Moves p n k) { k with state := k.state.updateNode h.slot f } := by
  have hdoes : Ends (do bumpBlockingGeneration h; recordMutation) (Moves p n k)
      { k with state := k.state.updateNode h.slot f } :=
    ((bumpBlockingGeneration_does h).bind fun _ => recordMutation_does).after hk (Moves.prim hprim)
  have hstate : wp (do bumpBlockingGeneration h; recordMutation)
      (fun _ k' => ∃ generation, k'.state =
        k.state.updateNode h.slot fun x => { f x with blockingGeneration := generation })
      (fun _ _ => True) { k with state := k.state.updateNode h.slot f } := by
    refine wp_bind.mpr (wp_ask_then (fun _ _ => ?_) fun _ _ => trivial)
    refine wp_ask_then (fun generation _ => wp_modify.mpr ?_) fun _ _ => trivial
    exact wp_recordMutation (fun _ _ => ⟨generation, updateNode_updateNode⟩) fun _ => trivial
  exact wp_fail (wp_and hdoes hstate) fun _ _ h => h.1

variable (hf : ∀ x, (f x).lifecycle ≠ .active)
include hf

theorem stays_of_leave {slot i : Nat} {x : Node}
    (hx : (st.updateNode slot f).nodes[i]? = some (some x))
    (hact : x.lifecycle = .active) : st.nodes[i]? = some (some x) := by
  obtain ⟨old, hold, rfl⟩ := modify_some hx
  split at hact
  · exact absurd hact (hf old)
  · rename_i hne
    rw [if_neg hne]
    exact hold

theorem not_active_of_leave : ¬ (st.updateNode h.slot f).nodes.Active h := by
  rintro ⟨x, hx⟩
  obtain ⟨hnode, hact⟩ := requireActive_eq_ok.mp hx
  obtain ⟨old, -, rfl⟩ := modify_some (requireNode_eq_ok.mp hnode).1
  rw [if_pos rfl] at hact
  exact hf old hact

end Leaving

/-! ## Merging -/

section Merging

variable {source target : NodeHandle} {combined : DependencySet}

/-- Restating a fact away from `source`, as often as it is asked to. -/
theorem wp_restate {β : Type} {row : FactRow} (hk : Sound n k)
    (hargs : ∀ a ∈ row.key.arguments, k.state.nodes.Active a) (hne : target ≠ source)
    (ht : k.state.nodes.Active target) (values : List β) (dependency : β → DependencySet)
    (provenance : β → Option Nat) {k' : TableauKernel} (hsweep : Sweeps p n (· = source) k k') :
    wp (values.forM fun value => do
        let _ ← addFact row.key.predicateId
          (row.key.arguments.map fun value => if value = source then target else value)
          (dependency value) row.core (provenance value))
      (fun _ => Sweeps p n (· = source) k) (fun _ => Moves p n k) k' := by
  refine wp_forM_mem (fun value _ k' hsweep => ?_) hsweep
  have hk' := hk.moves hsweep.moves
  refine wp_map.mpr (wp_map.mpr (wp_mono wp_addFactDetailed ?_ ?_))
  · rintro _ k'' ⟨_, hadded⟩
    refine hsweep.trans (hadded.sweeps hk' fun a ha => ?_)
    obtain ⟨b, hb, rfl⟩ := mem_map.mp ha
    rw [hsweep.nodes]
    split
    · exact ⟨ht, hne⟩
    · rename_i hbs
      exact ⟨hargs b hb, hbs⟩
  · rintro _ k'' (rfl | ⟨_, _, hadded⟩)
    · exact hsweep.moves
    · exact hsweep.moves.trans (hadded.moves hk')

theorem wp_mergeRow (hk : Sound n k) (hne : target ≠ source) (ht : k.state.nodes.Active target)
    (rowId : Nat) : wp (mergeRow source target combined rowId)
      (fun _ => Clears p n (· = source) k rowId) (fun _ => Moves p n k) k := by
  refine wp_ask_then (fun row hfact => ?_) fun _ _ => Moves.refl
  have hrow := MutableState.fact_eq_ok.mp hfact
  refine wp_ite (fun hinactive => ⟨.refl, fun row' hrow' => ?_⟩) fun hact => ?_
  · rw [hrow] at hrow'
    cases hrow'
    exact hinactive
  rw [Bool.not_eq_false] at hact
  have hargs := (hk.state.rows rowId row hrow hact).arguments
  refine wp_seq (wp_restate hk hargs hne ht row.supports (fun support => .union [support, combined])
    (fun _ => none) .refl) ?_
  intro _ k1 hsweep1
  refine wp_ask_then (fun minimal _ => ?_) fun _ _ => hsweep1.moves
  refine wp_seq (wp_restate hk hargs hne ht row.provenanceIds.toList
    (fun _ => .union [minimal, combined]) some hsweep1) ?_
  intro _ k2 hsweep2
  refine wp_mono (wp_deactivate_clears (S := (· = source)) (hk.moves hsweep2.moves)) ?_
    fun _ _ he => hsweep2.moves.trans he
  exact fun _ k3 h => ⟨hsweep2.trans h.1, h.2⟩

/-- The source becomes a pointer, and nobody else's mark changes unless it is the blocker. -/
theorem wp_mergeInto (hne : target ≠ source) (hc : combined.Below n) (hk : Sound n k)
    (hsource : k.state.nodes.Active source) (htarget : k.state.nodes.Active target) :
    wp (mergeInto source target combined)
      (fun _ k' => Moves p n k k' ∧ Settled (fun _ => False) k.state.nodes k'.state.nodes)
      (fun _ => Moves p n k) k := by
  refine wp_bind.mpr (wp_ask_then (fun sequence _ => ?_) fun _ _ => Moves.refl)
  have hseq : Moves p n k { k with checkpointSequence := sequence } := ⟨rfl, rfl, le_rfl, .refl⟩
  refine wp_modify.mpr (wp_get_then.mpr ?_)
  have hk0 := hk.moves hseq
  refine wp_then (wp_unblockAll hk0 _) ?_ fun _ _ he => hseq.trans he
  intro _ k1 hfree
  have hk1 := hk0.moves hfree.moves
  refine wp_get_then.mpr ?_
  obtain ⟨sourceNode, hsourceNode⟩ := hsource
  obtain ⟨targetNode, htargetNode⟩ := htarget
  obtain ⟨sourceNode', hsource', -⟩ := hfree.skeleton.requireActive hsourceNode
  obtain ⟨targetNode', htarget', -⟩ := hfree.skeleton.requireActive htargetNode
  have hall : ∀ (id : Nat) (row : FactRow) (h : NodeHandle), k1.state.facts[id]? = some row →
      row.active = true → h = source → h ∈ row.key.arguments →
      id ∈ (k1.state.indexes.byNode.getD source ∅).toList := by
    rintro id row h hid hact rfl hmem
    rw [ExtTreeSet.mem_toList]
    exact hk1.state.indexes.byNode.mem_getD.mpr ⟨row.key, ⟨row, hid, hact, rfl⟩, hmem⟩
  refine wp_then (wp_clearAll (p := p) (n := n) (fun id k' hsweep =>
    wp_mergeRow (hk1.moves hsweep.moves) hne (by rw [hsweep.nodes]; exact ⟨_, htarget'⟩) id)
    _ hall) ?_ fun _ _ he => (hseq.trans hfree.moves).trans he
  rintro _ k2 ⟨hclear, hnodes, hun⟩
  have hmoves2 := (hseq.trans hfree.moves).trans hclear
  refine wp_ask_then (fun _ _ => ?_) fun _ _ => hmoves2
  -- now `source` is free of references, and can become a pointer
  have hmerge : Prim p n k2.state
      (k2.state.updateNode source.slot (·.mergedInto target combined)) := by
    refine .merge (by rw [hnodes]; exact hsource') (by rw [hnodes]; exact htarget') hne.symm hc
      (hun source rfl) fun i x hx hb => ?_
    rw [hnodes] at hx
    have hnone := hfree.none_left hk0 hx hb
    simp at hnone
  refine wp_modify_then.mpr (wp_bind.mpr (wp_mono (wp_bind.mp (wp_leave (hk.moves hmoves2) hmerge))
    (fun _ k' hlast => wp_bind.mpr (wp_mono hlast ?_ fun _ _ he => hmoves2.trans he))
    fun _ _ he => hmoves2.trans he))
  rintro _ k3 ⟨hmoves, generation, hstate⟩
  have hleft : ∀ x : Node, { x.mergedInto target combined with
      blockingGeneration := generation }.lifecycle ≠ .active := fun _ => nofun
  refine wp_pure.mpr ⟨hmoves2.trans hmoves, ?_⟩
  rw [hstate]
  change Settled (fun _ => False) { k with checkpointSequence := sequence }.state.nodes _
  refine hfree.settled hk0 (fun i x hx hact => ?_) fun b hb => ?_
  · rw [← hnodes]
    exact stays_of_leave hleft hx hact
  · rw [of_decide_eq_true hb]
    exact not_active_of_leave hleft

theorem mergeDirection_ok {arena : Arena} {left right : Node} {r : Node × Node}
    (h : arena.mergeDirection left right = .ok r) : r = (left, right) ∨ r = (right, left) := by
  obtain ⟨leftBelow, -, h⟩ := bind_eq_ok.mp h
  split at h
  · exact .inr (pure_eq_ok.mp h).symm
  · obtain ⟨rightBelow, -, h⟩ := bind_eq_ok.mp h
    split at h
    · exact .inl (pure_eq_ok.mp h).symm
    · rw [pure_eq_ok] at h
      rw [← h]
      split
      · exact .inl rfl
      · exact .inr rfl

theorem wp_mergeNodesInner {left right : NodeHandle} {dependency : DependencySet} (hk : Sound n k)
    (hd : dependency.Below n) : wp (mergeNodesInner left right dependency)
      (fun _ k' => Moves p n k k' ∧ Settled (fun _ => False) k.state.nodes k'.state.nodes)
      (fun _ => Moves p n k) k := by
  refine wp_ask_then (fun l hl => ?_) fun _ _ => Moves.refl
  refine wp_ask_then (fun r hr => ?_) fun _ _ => Moves.refl
  refine wp_ite (fun _ => ⟨Moves.refl, settled_refl⟩) fun hne => ?_
  refine wp_ask_then (fun leftNode hleft => ?_) fun _ _ => Moves.refl
  refine wp_ask_then (fun rightNode hright => ?_) fun _ _ => Moves.refl
  refine wp_ensure_then (fun _ => ?_) fun _ => Moves.refl
  refine wp_ask_then (fun direction hdir => ?_) fun _ _ => Moves.refl
  have hcombined : (DependencySet.union [dependency, l.2, r.2]).Below n := by
    refine DependencySet.below_union fun d hmem => ?_
    simp only [mem_cons, not_mem_nil, or_false] at hmem
    rcases hmem with rfl | rfl | rfl
    · exact hd
    · exact representative_below hk.state.merges hl
    · exact representative_below hk.state.merges hr
  have hl1 := hk.state.slotted.handle_eq (requireActive_eq_ok.mp hleft).1
  have hr1 := hk.state.slotted.handle_eq (requireActive_eq_ok.mp hright).1
  rcases mergeDirection_ok hdir with rfl | rfl
  · refine wp_mergeInto ?_ hcombined hk ?_ ?_
    · rw [hl1, hr1]; exact hne
    · rw [hr1]; exact ⟨_, hright⟩
    · rw [hl1]; exact ⟨_, hleft⟩
  · refine wp_mergeInto ?_ hcombined hk ?_ ?_
    · rw [hl1, hr1]; exact fun heq => hne heq.symm
    · rw [hl1]; exact ⟨_, hleft⟩
    · rw [hr1]; exact ⟨_, hright⟩

variable {left right : NodeHandle} {dependency : DependencySet}

theorem wp_mergeNodesInTransaction (hk : Sound n k) :
    wp (mergeNodesInTransaction left right dependency)
      (fun _ k' => Moves p n k k' ∧ Settled (fun _ => False) k.state.nodes k'.state.nodes)
      (fun _ => Moves p n k) k :=
  wp_ask_then (fun _ hvalid => wp_mergeNodesInner hk (validateDependency_below hk hvalid))
    fun _ _ => Moves.refl

theorem mergeNodesInTransaction_does : Does p n (mergeNodesInTransaction left right dependency) :=
  fun _ hk => wp_imp (wp_mergeNodesInTransaction hk) fun _ _ h => h.1

theorem mergeNodes_does : Does p n (mergeNodes left right dependency) := by
  intro k hk
  refine wp_ask_then (fun _ hvalid => ?_) fun _ _ => Moves.refl
  exact atomic_moves hk (wp_imp (wp_mergeNodesInner hk
    (validateDependency_below hk hvalid)) fun _ _ h => h.1)

end Merging

/-! ## Pruning -/

/-- What pruning leaves of a node. -/
def Node.outline (node : Node) : NodeHandle × Option NodeHandle × Option NodeHandle × Bool :=
  (node.handle, node.parent, node.representative, decide (node.lifecycle = .retired))

/-- The second arena is the first with some nodes no longer active, and other marks. -/
structure Thins (arena arena' : Arena) : Prop where
  outline : Agree Node.outline arena arena'
  active : ∀ (i : Nat) (x x' : Node), arena[i]? = some (some x) → arena'[i]? = some (some x') →
    x'.lifecycle = .active → x.lifecycle = .active

namespace Thins

variable {arena arena' arena'' : Arena}

theorem back (h : Thins arena arena') {i : Nat} {x' : Node} (hx : arena'[i]? = some (some x')) :
    ∃ x, arena[i]? = some (some x) ∧ x'.outline = x.outline := by
  obtain ⟨x, hx, hout⟩ := Agree.getElem? (Eq.symm h.outline) hx
  exact ⟨x, hx, hout.symm⟩

theorem refl : Thins arena arena := by
  refine ⟨rfl, fun i x x' hx hx' hact => ?_⟩
  rw [hx] at hx'
  cases hx'
  exact hact

theorem trans (h : Thins arena arena') (h' : Thins arena' arena'') : Thins arena arena'' := by
  refine ⟨Eq.trans h'.outline h.outline, fun i x x'' hx hx'' hact => ?_⟩
  obtain ⟨x', hx', -⟩ := h'.back hx''
  exact h.active i x x' hx hx' (h'.active i x' x'' hx' hx'' hact)

end Thins

theorem Agree.thins {arena arena' : Arena} (h : Agree Node.skeleton arena arena') :
    Thins arena arena' := by
  constructor
  · apply ext_getElem?
    intro i
    have heq := congrArg (fun l => l[i]?) h
    simp only [getElem?_map] at heq ⊢
    have hout : Node.outline = Node.outline ∘ Node.skeleton := rfl
    rw [hout, ← Option.map_comp_map, ← Option.map_map, ← Option.map_map]
    exact congrArg _ heq
  · intro i x x' hx hx' hact
    obtain ⟨y, hy, hsk⟩ := h.getElem? hx
    rw [hx'] at hy
    cases hy
    rw [show x.lifecycle = x'.lifecycle from (congrArg Node.lifecycle hsk.symm :)]
    exact hact

theorem thins_prunedAway {st : MutableState} {slot generation : Nat}
    (hlive : ∀ x, st.nodes[slot]? = some (some x) → x.lifecycle ≠ .retired) :
    Thins st.nodes (st.updateNode slot fun x =>
      { x.prunedAway with blockingGeneration := generation }).nodes := by
  refine ⟨agree_updateNode fun x hx => ?_, ?_⟩
  · simp [Node.outline, Node.prunedAway, hlive x hx]
  · intro i x x' hx hx' hact
    obtain ⟨old, hold, rfl⟩ := modify_some hx'
    rw [hx] at hold
    cases hold
    split at hact
    · cases hact
    · exact hact

theorem nodup_handles {arena : Arena} (h : arena.Slotted) :
    (arena.liveNodes.map (·.handle)).Nodup := by
  unfold Arena.liveNodes
  rw [nodup_iff_pairwise_ne, pairwise_map, pairwise_filterMap, pairwise_iff_getElem]
  intro i j hi hj hij x hx y hy heq
  have h1 := (h i x (by rw [getElem?_eq_getElem hi]; exact congrArg some hx)).1
  have h2 := (h j y (by rw [getElem?_eq_getElem hj]; exact congrArg some hy)).1
  rw [heq] at h1
  omega

theorem subtree_ok {arena : Arena} {root : NodeHandle} {affected : List Node} (hs : arena.Slotted)
    (h : arena.subtree root = .ok affected) :
    (affected.map (·.handle)).Nodup ∧ ∀ node ∈ affected, arena.Active node.handle := by
  obtain ⟨hsub, hmem⟩ := filterM_eq_ok h
  refine ⟨(hsub.map _).nodup (nodup_handles hs), fun node hnode => ?_⟩
  obtain ⟨hlive, htest⟩ := (hmem node).mp hnode
  refine ⟨node, requireActive_eq_ok.mpr ⟨hs.mem_liveNodes.mp hlive, ?_⟩⟩
  by_contra hact
  rw [if_pos hact] at htest
  cases htest

/-- Pruning one node, once nothing refers to it. -/
theorem wp_pruneNode {node : Node} (hk : Sound n k)
    (hprune : Prim p n k.state (k.state.updateNode node.handle.slot Node.prunedAway)) :
    wp (pruneNode node) (fun _ k' => Moves p n k k' ∧ ∃ generation, k'.state =
        k.state.updateNode node.handle.slot fun x =>
        { x.prunedAway with blockingGeneration := generation })
      (fun _ => Moves p n k) k :=
  wp_ask_then (fun _ _ => wp_modify_then.mpr (wp_leave hk hprune)) fun _ _ => Moves.refl

/-- The last round of pruning: every node of the list is free of references, and goes. -/
theorem wp_pruneAll (base : Arena) (handles : List NodeHandle) (hk : Sound n k)
    (hpermit : ∀ arena, Thins base arena → ∀ h ∈ handles, p.prune arena h)
    (hthins : Thins base k.state.nodes) (hun : ∀ h ∈ handles, k.state.Unmentioned h)
    (hfree : ∀ (i : Nat) (x : Node) (b : NodeHandle), k.state.nodes[i]? = some (some x) →
      x.blocker = some b → b ∉ handles)
    (affected : List Node) (hin : ∀ node ∈ affected, node.handle ∈ handles)
    (hactive : ∀ node ∈ affected, k.state.nodes.Active node.handle)
    (hnodup : (affected.map (·.handle)).Nodup) :
    wp (affected.forM pruneNode)
      (fun _ k' => Moves p n k k' ∧ Thins base k'.state.nodes ∧
        (∀ (i : Nat) (x : Node), k'.state.nodes[i]? = some (some x) → x.lifecycle = .active →
          k.state.nodes[i]? = some (some x)) ∧
        ∀ node ∈ affected, ¬ k'.state.nodes.Active node.handle)
      (fun _ => Moves p n k) k := by
  induction affected generalizing k with
  | nil => exact ⟨Moves.refl, hthins, fun _ _ hx _ => hx, fun _ hnode => absurd hnode not_mem_nil⟩
  | cons node rest ih =>
    rw [map_cons, nodup_cons] at hnodup
    obtain ⟨x, hx⟩ := hactive node mem_cons_self
    have hreq := (requireActive_eq_ok.mp hx).1
    have hmem := hin node mem_cons_self
    refine wp_seq (wp_pruneNode hk (.prune hx (hpermit _ hthins _ hmem) (hun _ hmem)
      fun i y hy hb => hfree i y _ hy hb hmem)) ?_
    rintro _ k' ⟨hmoves, generation, hstate⟩
    have hrest : ∀ node' ∈ rest, k'.state.nodes.Active node'.handle := by
      intro node' hnode'
      obtain ⟨y, hy⟩ := hactive node' (mem_cons_of_mem _ hnode')
      obtain ⟨hy1, hy2⟩ := requireActive_eq_ok.mp hy
      refine ⟨y, requireActive_eq_ok.mpr ⟨?_, hy2⟩⟩
      rw [hstate]
      refine (requireNode_modify_ne fun hslot => hnodup.1 ?_).trans hy1
      rw [(requireNode_slot_inj hreq hy1 hslot).1]
      exact mem_map_of_mem hnode'
    refine wp_mono (ih (hk.moves hmoves) ?_ ?_ ?_ (fun z hz => hin z (mem_cons_of_mem _ hz)) hrest
      hnodup.2) ?_ fun _ _ h => hmoves.trans h
    rotate_left 3
    · rintro _ k'' ⟨hmoves', hthins', hstay, hgone⟩
      have hleft : ∀ x : Node, { x.prunedAway with blockingGeneration := generation }.lifecycle ≠
          .active := fun _ => nofun
      refine ⟨hmoves.trans hmoves', hthins', fun i z hz hact => ?_, forall_mem_cons.mpr ⟨?_, hgone⟩⟩
      · have hz' := hstay i z hz hact
        rw [hstate] at hz'
        exact stays_of_leave hleft hz' hact
      · -- what is left of the arena has no active nodes but those it had
        rintro ⟨z, hz⟩
        obtain ⟨hz1, hz2⟩ := requireActive_eq_ok.mp hz
        obtain ⟨hslot, hrest⟩ := requireNode_eq_ok.mp hz1
        have hz' := requireActive_eq_ok.mpr
          ⟨requireNode_eq_ok.mpr ⟨hstay _ z hslot hz2, hrest⟩, hz2⟩
        rw [hstate] at hz'
        exact not_active_of_leave hleft ⟨z, hz'⟩
    · rw [hstate]
      refine hthins.trans (thins_prunedAway fun z hz => ?_)
      exact (hk.state.slotted _ z hz).2
    · rw [hstate]
      exact hun
    · intro i z b hz hb
      rw [hstate] at hz
      obtain ⟨mid, hmid, rfl⟩ := modify_some hz
      split at hb
      · cases hb
      · exact hfree i mid b hmid hb

/-- The subtree at `root` may be pruned, however the arena was thinned before. -/
def MayPrune (p : Permit) (arena : Arena) (root : NodeHandle) : Prop :=
  ∀ affected, arena.subtree root = .ok affected →
    ∀ arena', Thins arena arena' → ∀ node ∈ affected, p.prune arena' node.handle

variable (root : NodeHandle) (hk : Sound n k) (hpermit : MayPrune p k.state.nodes root)
include hk hpermit

theorem wp_pruneSubtreeInner : wp (pruneSubtreeInner root)
      (fun _ k' => Moves p n k k' ∧ Thins k.state.nodes k'.state.nodes ∧
        Settled (fun _ => False) k.state.nodes k'.state.nodes) (fun _ => Moves p n k) k := by
  refine wp_bind.mpr (wp_ask_then (fun sequence _ => ?_) fun _ _ => Moves.refl)
  have hseq : Moves p n k { k with checkpointSequence := sequence } := ⟨rfl, rfl, le_rfl, .refl⟩
  refine wp_modify.mpr (wp_ask_then (fun below hbelow => ?_) fun _ _ => hseq)
  have hk0 := hk.moves hseq
  obtain ⟨hnodup, hactive⟩ := subtree_ok hk.state.slotted hbelow
  have hperm := perm_insertionSort (r := fun a b => pruneOrder a b = true) below
  generalize List.insertionSort (fun a b => pruneOrder a b = true) below = affected at hperm ⊢
  -- no mark points into the subtree, then no row mentions it, and then it goes
  refine wp_get_then.mpr (wp_then (wp_unblockAll hk0 _) ?_ fun _ _ he => hseq.trans he)
  intro _ k1 hfree
  have hk1 := hk0.moves hfree.moves
  refine wp_get_then.mpr ?_
  have hall : ∀ (id : Nat) (row : FactRow) (h : NodeHandle), k1.state.facts[id]? = some row →
      row.active = true → h ∈ affected.map (·.handle) → h ∈ row.key.arguments →
      id ∈ (ExtTreeSet.ofList ((affected.map (·.handle)).flatMap fun handle =>
        (k1.state.indexes.byNode.getD handle ∅).toList)
          (compare : Nat → Nat → Ordering)).toList := by
    intro id row h hid hact hs hmem
    rw [ExtTreeSet.mem_toList, ExtTreeSet.mem_ofList, contains_iff_mem, mem_flatMap]
    refine ⟨h, hs, ?_⟩
    rw [ExtTreeSet.mem_toList]
    exact hk1.state.indexes.byNode.mem_getD.mpr ⟨row.key, ⟨row, hid, hact, rfl⟩, hmem⟩
  refine wp_then (wp_clearAll (p := p) (n := n) (fun id k' hsweep =>
    wp_deactivate_clears (hk1.moves hsweep.moves)) _ hall) ?_ fun _ _ he =>
      (hseq.trans hfree.moves).trans he
  rintro _ k2 ⟨hclear, hnodes, hun⟩
  have hmoves2 := (hseq.trans hfree.moves).trans hclear
  refine wp_then (wp_pruneAll k.state.nodes (affected.map (·.handle))
    (hk.moves hmoves2) ?_ ?_ hun ?_ affected (fun node hnode => mem_map_of_mem hnode) ?_
    ((hperm.map _).nodup_iff.mpr hnodup)) ?_ fun _ _ h => hmoves2.trans h
  rotate_left 4
  · rintro _ k3 ⟨hmoves, hthins, hstay, hgone⟩
    refine ⟨hmoves2.trans hmoves, hthins, ?_⟩
    change Settled (fun _ => False) { k with checkpointSequence := sequence }.state.nodes _
    refine hfree.settled hk0 (fun i x hx hact => ?_) fun b hb => ?_
    · rw [← hnodes]
      exact hstay i x hx hact
    · obtain ⟨node, hnode, rfl⟩ := mem_map.mp (of_decide_eq_true hb)
      exact hgone node hnode
  · intro arena hthins h hh
    obtain ⟨node, hnode, rfl⟩ := mem_map.mp hh
    exact hpermit below hbelow arena hthins node (hperm.mem_iff.mp hnode)
  · rw [hnodes]
    exact hfree.skeleton.thins
  · intro i x b hx hb hmem
    rw [hnodes] at hx
    have hnone := hfree.none_left hk0 hx hb
    simp [hmem] at hnone
  · intro node hnode
    obtain ⟨x, hx⟩ := hactive node (hperm.mem_iff.mp hnode)
    obtain ⟨x', hx', -⟩ := hfree.skeleton.requireActive hx
    rw [hnodes]
    exact ⟨x', hx'⟩

theorem wp_pruneSubtreeInTransaction : wp (pruneSubtreeInTransaction root)
      (fun _ k' => Moves p n k k' ∧ Thins k.state.nodes k'.state.nodes ∧
        Settled (fun _ => False) k.state.nodes k'.state.nodes) (fun _ => Moves p n k) k :=
  wp_ask_then (fun _ _ => wp_pruneSubtreeInner root hk hpermit) fun _ _ => Moves.refl

theorem pruneSubtreeInTransaction_moves : Ends (pruneSubtreeInTransaction root) (Moves p n k) k :=
  wp_imp (wp_pruneSubtreeInTransaction root hk hpermit) fun _ _ h => h.1

theorem pruneSubtree_moves : Ends (pruneSubtree root) (Moves p n k) k :=
  wp_ask_then (fun _ _ => atomic_moves hk (wp_imp
    (wp_pruneSubtreeInner root hk hpermit) fun _ _ h => h.1)) fun _ _ => Moves.refl

end PyHermit
