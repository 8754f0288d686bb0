import PyHermit.Proof.Frames
import PyHermit.Proof.StateInv

/-!
# What a mutator can do

Every mutator that leaves the branch stack alone is a sequence of a dozen primitive
changes: a node appears, is retired, blocked, merged or pruned; a row is inserted, absorbs a
support, or is deactivated; a part of the state nobody indexes changes. `Prim p n st st'`
lists them with what the mutators guarantee when they make them, so that every invariant of
the state is proved once, over `Prim`. `Moves p n` is the same for the kernel.

`p` says which of the delicate changes are allowed. The store invariant survives all
of them; the statements about representatives need to know which nodes get pruned.
-/

open Std Prog List

namespace PyHermit

open Arena

/-- Restrictions on the primitive changes of a run. -/
structure Permit where
  /-- Which nodes may be pruned. -/
  prune : Arena → NodeHandle → Prop
  /-- Whether a slot may leave the free list without becoming a node. -/
  lose : Prop
  /-- Which changes outside nodes and facts are allowed, under so many branches. -/
  other : Nat → MutableState → MutableState → Prop

def Permit.all : Permit := ⟨fun _ _ => True, True, fun _ _ _ => True⟩

/-- A node as `create_node` makes it. -/
structure FreshNode (n : Nat) (st : MutableState) (slot : Nat) (node : Node) : Prop where
  slot : node.handle.slot = slot
  generation : st.generations.getD node.handle.slot 0 < node.handle.generation
  creationId : node.creationId = st.nextCreationId
  sort : node.sort = node.kind.sort
  lifecycle : node.lifecycle = .active
  tree : node.kind = .tree → ∃ p parent, node.parent = some p ∧
    st.nodes.requireActive p = .ok parent ∧ node.treeDepth = parent.treeDepth + 1
  nonTree : node.kind ≠ .tree → node.parent = none ∧ node.treeDepth = 0
  creationCheckpoint : node.creationCheckpoint ≤ n - 1
  representative : node.representative = none
  mergeDependency : node.mergeDependency = .empty
  blocker : node.blocker = none

/-- The slot a new node goes to, and the arena with that slot in it. -/
inductive OpensSlot (st : MutableState) : Nat → Arena → Prop where
  | reuse {slot : Nat} : slot ∈ st.freeSlots → OpensSlot st slot st.nodes
  | extend : OpensSlot st st.nodes.length (st.nodes ++ [none])

/-- The generation table after some slots were stamped: no shorter than the arena
needs, and nowhere lower. -/
structure Stamps (old : List Nat) (arena : Arena) (new : List Nat) : Prop where
  length : new.length = arena.length
  mono : ∀ i, old.getD i 0 ≤ new.getD i 0

/-- The node after it has been merged into `target`. -/
def Node.mergedInto (node : Node) (target : NodeHandle) (combined : DependencySet) : Node :=
  { node with
    lifecycle := .merged, representative := some target, mergeDependency := combined
    blocker := none, directlyBlocked := false }

/-- The node after it has been pruned. -/
def Node.prunedAway (node : Node) : Node :=
  { node with lifecycle := .pruned, blocker := none, directlyBlocked := false }

/-- One primitive change of the state under `n` live branches. -/
inductive Prim (p : Permit) (n : Nat) : MutableState → MutableState → Prop where
  /-- Queues, clashes, disjunctions, generations. -/
  | other {st st' : MutableState} : SameStore st st' → p.other n st st' → Prim p n st st'
  /-- What a rollback leaves of slots opened since. -/
  | pad {st : MutableState} {m : Nat} {generations : List Nat} :
      Stamps st.generations (st.nodes ++ List.replicate m none) generations →
      Prim p n st { st with
        nodes := st.nodes ++ List.replicate m none
        generations := generations
        freeSlots := emptySlots (st.nodes ++ List.replicate m none) }
  /-- A slot taken for a node that was not created after all. -/
  | lose {st : MutableState} {m : Nat} {generations : List Nat} {freeSlots : ExtTreeSet Nat} :
      p.lose → Stamps st.generations (st.nodes ++ List.replicate m none) generations →
      (∀ slot ∈ freeSlots, slot ∈ st.freeSlots) →
      Prim p n st { st with
        nodes := st.nodes ++ List.replicate m none, generations :=
          generations, freeSlots := freeSlots }
  /-- A new node. -/
  | create {st : MutableState} {slot : Nat} {arena : Arena} {generations : List Nat} {node : Node} :
      OpensSlot st slot arena → Stamps st.generations arena generations →
      generations.getD slot 0 = node.handle.generation → FreshNode n st slot node →
      Prim p n st { st with
        nodes := arena.set slot (some node)
        generations := generations
        freeSlots := st.freeSlots.erase slot
        nextCreationId := st.nextCreationId + 1 }
  /-- A node nothing refers to leaves. -/
  | retire {st : MutableState} {h : NodeHandle} {node : Node} :
      st.nodes.requireNode h = .ok node → st.Unmentioned h →
      (∀ (i : Nat) (x : Node), st.nodes[i]? = some (some x) → x.handle ≠ h →
        x.parent ≠ some h ∧ x.representative ≠ some h ∧ x.blocker ≠ some h) →
      Prim p n st { st with
        nodes := st.nodes.set h.slot none, freeSlots := st.freeSlots.insert h.slot }
  /-- A node's pending existentials or its blocking generation change. -/
  | touch {st : MutableState} {h : NodeHandle} {node : Node} {f : Node → Node} :
      st.nodes.requireNode h = .ok node →
      (∀ x, f x = { x with
        unprocessedExistentials := (f x).unprocessedExistentials
        blockingGeneration := (f x).blockingGeneration }) →
      Prim p n st (st.updateNode h.slot f)
  /-- A node is blocked by another, or by none. -/
  | block {st : MutableState} {h : NodeHandle} {node : Node} {blocker : Option NodeHandle}
      {directly : Bool} :
      st.nodes.requireActive h = .ok node → node.sort = .object →
      (∀ b, blocker = some b → ∃ x, st.nodes.requireActive b = .ok x ∧ x.sort = .object) →
      Prim p n st (st.updateNode h.slot fun x =>
        { x with blocker := blocker, directlyBlocked := directly })
  /-- A node nobody mentions any more becomes a pointer to another. -/
  | merge {st : MutableState} {source target : NodeHandle} {node other : Node}
      {combined : DependencySet} :
      st.nodes.requireActive source = .ok node → st.nodes.requireActive target = .ok other →
      source ≠ target → combined.Below n → st.Unmentioned source →
      (∀ (i : Nat) (x : Node), st.nodes[i]? = some (some x) → x.blocker ≠ some source) →
      Prim p n st (st.updateNode source.slot (·.mergedInto target combined))
  /-- A node nobody mentions any more is cut off. -/
  | prune {st : MutableState} {h : NodeHandle} {node : Node} :
      st.nodes.requireActive h = .ok node → p.prune st.nodes h → st.Unmentioned h →
      (∀ (i : Nat) (x : Node), st.nodes[i]? = some (some x) → x.blocker ≠ some h) →
      Prim p n st (st.updateNode h.slot Node.prunedAway)
  /-- A row for a new key. -/
  | insertRow {st : MutableState} {key : FactKey} {support : DependencySet} {core : Bool}
      {provenanceId : Option Nat} :
      (∀ h ∈ key.arguments, st.nodes.Active h) → (∀ id, ¬ st.live key id) → support.Below n →
      Prim p n st (st.insertRow key support core provenanceId)
  /-- A row gains a support, a core mark or a provenance. -/
  | absorb {st : MutableState} {rowId : Nat} {row : FactRow} {support : DependencySet} {core : Bool}
      {provenanceId : Option Nat} :
      st.facts[rowId]? = some row → row.active = true → support.Below n →
      Prim p n st (st.updateFact rowId fun _ => row.absorb support core provenanceId)
  /-- A row becomes core. -/
  | promote {st : MutableState} {rowId : Nat} {row : FactRow} :
      st.facts[rowId]? = some row → row.active = true →
      Prim p n st (st.updateFact rowId fun row => { row with core := true })
  /-- A row leaves the indexes and stays behind inactive. -/
  | deactivate {st : MutableState} {rowId : Nat} {row : FactRow} {indexes : FactIndexes} :
      st.facts[rowId]? = some row → row.active = true →
      (indexes.Exact fun key id => st.live key id ∧ id ≠ rowId) →
      Prim p n st { st with
        facts := st.facts.modify rowId fun row => { row with active := false }, indexes := indexes }

/-! ## The store invariant survives every primitive change -/

section Preservation

variable {n : Nat} {st st' : MutableState}

theorem StateInv.sameStore (h : StateInv n st) (hs : SameStore st st') : StateInv n st' where
  slotted := by rw [hs.nodes]; exact h.slotted
  lengths := by rw [hs.nodes, hs.generations]; exact h.lengths
  free := by rw [hs.nodes, hs.freeSlots]; exact h.free
  unmerged := by rw [hs.nodes]; exact h.unmerged
  merges := by rw [hs.nodes]; exact h.merges
  blockers := by rw [hs.nodes]; exact h.blockers
  rowIds := by rw [hs.facts]; exact h.rowIds
  indexes := by
    rw [hs.indexes]
    exact h.indexes.congr fun key id => by unfold MutableState.live; rw [hs.facts]
  rows := by
    rw [hs.facts, hs.nodes]
    exact fun id row hid hact =>
      (h.rows id row hid hact).mono (Nat.le_refl n) (fun _ _ ha => ha) hs.writeGeneration

variable {arena : Arena} {generations : List Nat} {freeSlots : ExtTreeSet Nat} {node : Node}
  {rowId slot : Nat} {x : NodeHandle} {f : FactRow → FactRow}

/-- What holds of each node of the arena. -/
structure NodeInv (n : Nat) (arena : Arena) (i : Nat) (node : Node) : Prop where
  slotted : node.handle.slot = i ∧ node.lifecycle ≠ .retired
  unmerged : node.lifecycle = .active → node.representative = none
  merge : node.mergeDependency.Below n
  blocker : BlockerInv arena node

variable {m i id : Nat}

theorem StateInv.nodeInv (h : StateInv n st) (hi : st.nodes[i]? = some (some node)) :
    NodeInv n st.nodes i node :=
  ⟨h.slotted i node hi, h.unmerged i node hi, h.merges i node hi, h.blockers i node hi⟩

theorem NodeInv.of_active {arena' : Arena} (h : NodeInv n arena i node)
    (ha : ∀ b x, node.blocker = some b → arena.requireActive b = .ok x →
      ∃ x', arena'.requireActive b = .ok x' ∧ x'.sort = x.sort) : NodeInv n arena' i node := by
  refine { h with blocker := fun b hb => ?_ }
  obtain ⟨h1, h2, x, hx, hsort⟩ := h.blocker b hb
  obtain ⟨x', hx', hsort'⟩ := ha b x hb hx
  exact ⟨h1, h2, x', hx', by rw [hsort', hsort]⟩

/-- Only the arena changed, and no node of an active row stopped being active. -/
theorem StateInv.of_arena {next : Nat} (h : StateInv n st)
    (lengths : arena.length = generations.length)
    (free : ∀ slot ∈ freeSlots, arena[slot]? = some none)
    (nodes : ∀ (i : Nat) (node : Node), arena[i]? = some (some node) → NodeInv n arena i node)
    (keep : ∀ x, st.nodes.Active x → ¬ st.Unmentioned x → arena.Active x) :
    StateInv n { st with nodes := arena, generations, freeSlots, nextCreationId := next } where
  slotted i node hi := (nodes i node hi).slotted
  lengths := lengths
  free := free
  unmerged i node hi := (nodes i node hi).unmerged
  merges i node hi := (nodes i node hi).merge
  blockers i node hi := (nodes i node hi).blocker
  rowIds := h.rowIds
  indexes := h.indexes
  rows id row hid hact := (h.rows id row hid hact).mono (Nat.le_refl n)
    (fun x hx ha => keep x ha fun hun => hun id row hid hact hx) le_rfl

variable {facts : List FactRow} {row : FactRow}

theorem requireActive_pad {h : NodeHandle} :
    Arena.requireActive (arena ++ List.replicate m none) h = .ok node ↔
      arena.requireActive h = .ok node := by
  rw [requireActive_eq_ok, requireActive_eq_ok, requireNode_pad]

theorem StateInv.grow (h : StateInv n st)
    (hs : Stamps st.generations (st.nodes ++ List.replicate m none) generations)
    (hfree : ∀ slot ∈ freeSlots, (st.nodes ++ List.replicate m none)[slot]? = some none) :
    StateInv n { st with nodes := st.nodes ++ List.replicate m none, generations, freeSlots } := by
  refine h.of_arena hs.length.symm hfree (fun i node hi => ?_) ?_
  · refine (h.nodeInv (getElem?_pad.mp hi)).of_active ?_
    exact fun b x _ hx => ⟨x, requireActive_pad.mpr hx, rfl⟩
  · rintro x ⟨node, hnode⟩ -
    exact ⟨node, requireActive_pad.mpr hnode⟩

theorem mem_emptySlots : slot ∈ emptySlots arena ↔ arena[slot]? = some none := by
  unfold emptySlots
  rw [ExtTreeSet.mem_ofList, contains_iff_mem, mem_filterMap]
  constructor
  · rintro ⟨⟨node, index⟩, hmem, hsome⟩
    rw [mem_zipIdx_iff_getElem?] at hmem
    cases node with
    | none => cases hsome; exact hmem
    | some node => cases hsome
  · intro hslot
    exact ⟨(none, slot), mem_zipIdx_iff_getElem?.mpr hslot, rfl⟩

theorem getElem?_append_none (h : arena[slot]? = some none) :
    (arena ++ List.replicate m none)[slot]? = some none := by
  rw [getElem?_append_left (lt_of_getElem? h)]
  exact h

section
variable (ho : OpensSlot st slot arena)
include ho

theorem OpensSlot.empty (h : StateInv n st) : arena[slot]? = some none := by
  cases ho with
  | reuse hs => exact h.free slot hs
  | extend => exact getElem?_concat_length

theorem OpensSlot.some_iff : arena[i]? = some (some node) ↔ st.nodes[i]? = some (some node) := by
  cases ho with
  | reuse _ => rfl
  | extend => exact getElem?_pad (m := 1)

theorem OpensSlot.requireNode_iff :
    arena.requireNode x = .ok node ↔ st.nodes.requireNode x = .ok node := by
  rw [requireNode_eq_ok, requireNode_eq_ok, ho.some_iff]

theorem OpensSlot.none_of_free (h : StateInv n st) {free : Nat} (hf : free ∈ st.freeSlots) :
    arena[free]? = some none := by
  cases ho with
  | reuse _ => exact h.free free hf
  | extend => exact getElem?_append_none (m := 1) (h.free free hf)

theorem OpensSlot.none_iff (hi : slot ≠ i) : arena[i]? = some none ↔ st.nodes[i]? = some none := by
  cases ho with
  | reuse _ => rfl
  | extend =>
    rw [getElem?_append]
    split
    · rfl
    · rename_i hlt
      rw [getElem?_eq_none (by rw [length_singleton]; omega), getElem?_eq_none (by omega)]

end

theorem set_some_cases {new : Node} (hi : (arena.set slot (some new))[i]? = some (some node)) :
    (i = slot ∧ node = new) ∨ (i ≠ slot ∧ arena[i]? = some (some node)) := by
  rw [getElem?_set] at hi
  split at hi
  · rename_i heq
    split at hi
    · cases hi
      exact .inl ⟨heq.symm, rfl⟩
    · cases hi
  · rename_i hne
    exact .inr ⟨fun h => hne h.symm, hi⟩

theorem StateInv.create (h : StateInv n st)
    (ho : OpensSlot st slot arena) (hs : Stamps st.generations arena generations)
    (hnode : FreshNode n st slot node) : StateInv n { st with
      nodes := arena.set slot (some node), generations
      freeSlots := st.freeSlots.erase slot, nextCreationId := st.nextCreationId + 1 } := by
  have hempty := ho.empty h
  have hkeep : ∀ x node', st.nodes.requireNode x = .ok node' →
      Arena.requireNode (arena.set slot (some node)) x = .ok node' := fun x node' hx =>
    requireNode_set_some hempty (ho.requireNode_iff.mpr hx)
  refine h.of_arena (by rw [length_set, hs.length]) ?_ ?_ ?_
  · intro free hf
    rw [mem_erase_eq] at hf
    rw [getElem?_set_ne hf.1]
    exact ho.none_of_free h hf.2
  · intro i x hi
    rcases set_some_cases hi with ⟨rfl, rfl⟩ | ⟨-, hi⟩
    · -- the new node refers to no other
      refine ⟨⟨hnode.slot, ?_⟩, fun _ => hnode.representative, ?_, fun b hb => ?_⟩
      · rw [hnode.lifecycle]; exact nofun
      · rw [hnode.mergeDependency]; exact DependencySet.below_empty
      · cases hnode.blocker.symm.trans hb
    · refine (h.nodeInv (ho.some_iff.mp hi)).of_active fun b y _ hy => ⟨y, ?_, rfl⟩
      obtain ⟨h1, h2⟩ := requireActive_eq_ok.mp hy
      exact requireActive_eq_ok.mpr ⟨hkeep b y h1, h2⟩
  · intro x hx _
    exact hx.of_requireNode fun node' h1 h2 => ⟨node', hkeep x node' h1, h2⟩

theorem StateInv.retire (h : StateInv n st) (hx : st.nodes.requireNode x = .ok node)
    (hun : st.Unmentioned x)
    (hfree : ∀ (i : Nat) (y : Node), st.nodes[i]? = some (some y) → y.handle ≠ x →
      y.parent ≠ some x ∧ y.representative ≠ some x ∧ y.blocker ≠ some x) :
    StateInv n { st with
      nodes := st.nodes.set x.slot none, freeSlots := st.freeSlots.insert x.slot } := by
  have hslot : x.slot < st.nodes.length :=
    (List.getElem?_eq_some_iff.mp (requireNode_eq_ok.mp hx).1).1
  have hkeep : ∀ b y, b ≠ x → st.nodes.requireNode b = .ok y →
      Arena.requireNode (st.nodes.set x.slot none) b = .ok y := fun b y hne hb =>
    requireNode_left hx hne hb
  refine h.of_arena (by rw [length_set]; exact h.lengths) ?_ ?_ ?_
  · intro slot hs
    rw [mem_insert_eq] at hs
    rw [getElem?_set]
    split
    · rfl
    · rename_i hne
      exact h.free slot (hs.resolve_left hne)
  · intro i y hi
    obtain ⟨hi, hne⟩ := set_none_cases hi
    have hyx : y.handle ≠ x := fun heq => hne (by rw [← (h.slotted i y hi).1, heq])
    refine (h.nodeInv hi).of_active fun b z hb hz => ⟨z, ?_, rfl⟩
    obtain ⟨h1, h2⟩ := requireActive_eq_ok.mp hz
    have hbx : b ≠ x := fun heq => (hfree i y hi hyx).2.2 (by rw [hb, heq])
    exact requireActive_eq_ok.mpr ⟨hkeep b z hbx h1, h2⟩
  · intro b hb hmention
    have hbx : b ≠ x := fun heq => hmention (by rw [heq]; exact hun)
    exact hb.of_requireNode fun y h1 h2 => ⟨y, hkeep b y hbx h1, h2⟩

/-- Rewriting one node: either it stays active, or nothing refers to it. -/
theorem StateInv.updateNode (h : StateInv n st) {f : Node → Node}
    (hx : st.nodes.requireNode x = .ok node) (hhandle : (f node).handle = node.handle)
    (hsort : (f node).sort = node.sort) (hret : (f node).lifecycle ≠ .retired)
    (hrep : (f node).lifecycle = .active → (f node).representative = none)
    (hdep : (f node).mergeDependency.Below n)
    (hblock : ∀ b, (f node).blocker = some b → (f node).lifecycle = .active ∧ node.sort = .object ∧
      ∃ y, st.nodes.requireActive b = .ok y ∧ y.sort = .object)
    (hstay : ((f node).lifecycle = .active) ∨ (st.Unmentioned x ∧
      ∀ (i : Nat) (y : Node), st.nodes[i]? = some (some y) → y.blocker ≠ some x)) :
    StateInv n (st.updateNode x.slot f) := by
  have hxs := (requireNode_eq_ok.mp hx).1
  have hself := requireNode_modify_self hx hhandle hret
  have hother : ∀ b y, b ≠ x → st.nodes.requireNode b = .ok y →
      Arena.requireNode (st.nodes.modify x.slot (Option.map f)) b = .ok y := fun b y hne hb =>
    requireNode_rewritten hx hne hb
  -- an active node somebody needs is still active, and of the same sort
  have hactive : ∀ b y, st.nodes.requireActive b = .ok y → (b = x → (f node).lifecycle = .active) →
      ∃ y', Arena.requireActive (st.nodes.modify x.slot (Option.map f)) b = .ok y' ∧
        y'.sort = y.sort := by
    intro b y hb hlife
    obtain ⟨h1, h2⟩ := requireActive_eq_ok.mp hb
    by_cases hbx : b = x
    · subst hbx
      rw [hx] at h1
      cases h1
      exact ⟨f node, requireActive_eq_ok.mpr ⟨hself, hlife rfl⟩, hsort⟩
    · exact ⟨y, requireActive_eq_ok.mpr ⟨hother b y hbx h1, h2⟩, rfl⟩
  refine h.of_arena (by rw [length_modify]; exact h.lengths) ?_ ?_ ?_
  · intro slot hs
    have hne : x.slot ≠ slot := by
      intro heq
      rw [← heq] at hs
      rw [h.free _ hs] at hxs
      cases hxs
    rw [Arena.getElem?_modify, if_neg hne]
    exact h.free slot hs
  · intro i y hi
    rcases modify_cases hxs hi with ⟨rfl, rfl⟩ | ⟨-, hi⟩
    · refine ⟨⟨by rw [hhandle]; exact (h.slotted _ _ hxs).1, hret⟩, hrep, hdep, fun b hb => ?_⟩
      obtain ⟨h1, h2, z, hz, hzs⟩ := hblock b hb
      obtain ⟨z', hz', hzs'⟩ := hactive b z hz fun _ => h1
      exact ⟨h1, by rw [hsort]; exact h2, z', hz', by rw [hzs', hzs]⟩
    · refine (h.nodeInv hi).of_active fun b z hb hz => hactive b z hz fun hbx => ?_
      refine hstay.resolve_right fun ⟨_, hnone⟩ => ?_
      exact hnone i y hi (by rw [hb, hbx])
  · rintro b ⟨y, hy⟩ hmention
    obtain ⟨y', hy', -⟩ := hactive b y hy fun hbx =>
      hstay.resolve_right fun ⟨hun, _⟩ => hmention (by rw [hbx]; exact hun)
    exact ⟨y', hy'⟩

/-- Rewriting one active row in place: same identifier, same key, still active. -/
theorem StateInv.updateFact (h : StateInv n st)
    (hrow : st.facts[rowId]? = some row) (hact : row.active = true)
    (hid : (f row).rowId = row.rowId)
    (hkey : (f row).key = row.key) (hactive : (f row).active = true)
    (hinv : RowInv n st.nodes st.writeGeneration (f row)) : StateInv n (st.updateFact rowId f) where
  slotted := h.slotted
  lengths := h.lengths
  free := h.free
  unmerged := h.unmerged
  merges := h.merges
  blockers := h.blockers
  rowIds id new hnew := by
    rcases getElem?_modify_iff.mp hnew with ⟨rfl, old, hold, rfl⟩ | ⟨-, hold⟩
    · cases hrow.symm.trans hold
      exact hid.trans (h.rowIds _ _ hrow)
    · exact h.rowIds _ _ hold
  indexes := h.indexes.congr fun key id => by
    constructor
    · rintro ⟨old, hold, ha, hk⟩
      by_cases heq : rowId = id
      · subst heq
        cases hrow.symm.trans hold
        exact ⟨_, getElem?_modify_iff.mpr (.inl ⟨rfl, _, hrow, rfl⟩), hactive, hkey.trans hk⟩
      · exact ⟨old, getElem?_modify_iff.mpr (.inr ⟨heq, hold⟩), ha, hk⟩
    · rintro ⟨new, hnew, ha, hk⟩
      rcases getElem?_modify_iff.mp hnew with ⟨rfl, old, hold, rfl⟩ | ⟨-, hold⟩
      · cases hrow.symm.trans hold
        exact ⟨row, hrow, hact, hkey.symm.trans hk⟩
      · exact ⟨new, hold, ha, hk⟩
  rows id new hnew ha := by
    rcases getElem?_modify_iff.mp hnew with ⟨rfl, old, hold, rfl⟩ | ⟨-, hold⟩
    · cases hrow.symm.trans hold
      exact hinv
    · exact h.rows id new hold ha

theorem StateInv.insertRow (h : StateInv n st) {key : FactKey} {support : DependencySet}
    {core : Bool} {provenanceId : Option Nat} (hargs : ∀ x ∈ key.arguments, st.nodes.Active x)
    (hfree : ∀ id, ¬ st.live key id) (hs : support.Below n) :
    StateInv n (st.insertRow key support core provenanceId) := by
  refine ⟨h.slotted, h.lengths, h.free, h.unmerged, h.merges, h.blockers, ?_, ?_, ?_⟩
  · intro id row hid
    rcases getElem?_concat_iff.mp hid with hid | ⟨rfl, rfl⟩
    · exact h.rowIds id row hid
    · rfl
  · refine (h.indexes.file st.facts.length hfree).congr fun key' id => ?_
    constructor
    · rintro (⟨row, hid, ha, hk⟩ | ⟨rfl, rfl⟩)
      · exact ⟨row, getElem?_concat_iff.mpr (.inl hid), ha, hk⟩
      · exact ⟨_, getElem?_concat_length, rfl, rfl⟩
    · rintro ⟨row, hid, ha, hk⟩
      rcases getElem?_concat_iff.mp hid with hid | ⟨hlast, rfl⟩
      · exact .inl ⟨row, hid, ha, hk⟩
      · exact .inr ⟨hk.symm, hlast⟩
  · intro id row hid ha
    rcases getElem?_concat_iff.mp hid with hid | ⟨-, rfl⟩
    · exact h.rows id row hid ha
    · -- a new row has one support
      refine ⟨hargs, cons_ne_nil _ _, ?_, pairwise_singleton _ _, ?_, le_rfl⟩
      · intro d hd e he hne
        exact absurd ((mem_singleton.mp hd).trans (mem_singleton.mp he).symm) hne
      · intro d hd
        rw [mem_singleton.mp hd]
        exact hs

theorem StateInv.deactivate (h : StateInv n st) {indexes : FactIndexes}
    (hexact : indexes.Exact fun key id => st.live key id ∧ id ≠ rowId) : StateInv n { st with
      facts := st.facts.modify rowId fun row => { row with active := false }, indexes } := by
  refine ⟨h.slotted, h.lengths, h.free, h.unmerged, h.merges, h.blockers, ?_, ?_, ?_⟩
  · intro id new hnew
    rcases getElem?_modify_iff.mp hnew with ⟨-, old, hold, rfl⟩ | ⟨-, hold⟩
    · exact h.rowIds id old hold
    · exact h.rowIds id new hold
  · refine hexact.congr fun key id => ?_
    constructor
    · rintro ⟨⟨old, hold, ha, hk⟩, hne⟩
      exact ⟨old, getElem?_modify_iff.mpr (.inr ⟨hne.symm, hold⟩), ha, hk⟩
    · rintro ⟨new, hnew, ha, hk⟩
      rcases getElem?_modify_iff.mp hnew with ⟨-, old, -, rfl⟩ | ⟨hne, hold⟩
      · cases ha
      · exact ⟨⟨new, hold, ha, hk⟩, hne.symm⟩
  · intro id new hnew ha
    rcases getElem?_modify_iff.mp hnew with ⟨-, old, -, rfl⟩ | ⟨-, hold⟩
    · cases ha
    · exact h.rows id new hold ha

/-- **Every primitive change keeps the store invariant.** -/
theorem Prim.stateInv {p : Permit} (hp : Prim p n st st') (h : StateInv n st) : StateInv n st' := by
  cases hp with
  | other hs _ => exact h.sameStore hs
  | pad hs => exact h.grow hs fun slot hslot => mem_emptySlots.mp hslot
  | lose _ hs hfree =>
    exact h.grow hs fun slot hslot => getElem?_append_none (h.free slot (hfree slot hslot))
  | create ho hs _ hnode => exact h.create ho hs hnode
  | retire hx hun hfree => exact h.retire hx hun hfree
  | @touch x node f hx hf =>
    have hrw := hf node
    have hi := (requireNode_eq_ok.mp hx).1
    have hlife := (requireNode_eq_ok.mp hx).2.2
    refine h.updateNode hx (by rw [hrw]) (by rw [hrw]) (by rw [hrw]; exact hlife) ?_ ?_ ?_ ?_
    · rw [hrw]
      exact h.unmerged _ node hi
    · rw [hrw]
      exact h.merges _ node hi
    · rw [hrw]
      exact h.blockers _ node hi
    · rw [hrw]
      by_cases hact : node.lifecycle = .active
      · exact .inl hact
      · -- nobody refers to a node that is not active
        refine .inr ⟨fun id row hid ha hmem => ?_, fun i y hy hb => ?_⟩
        · obtain ⟨z, hz⟩ := (h.rows id row hid ha).arguments x hmem
          obtain ⟨h1, h2⟩ := requireActive_eq_ok.mp hz
          rw [hx] at h1
          cases h1
          exact hact h2
        · obtain ⟨-, -, z, hz, -⟩ := h.blockers i y hy x hb
          obtain ⟨h1, h2⟩ := requireActive_eq_ok.mp hz
          rw [hx] at h1
          cases h1
          exact hact h2
  | block hx hsort hb =>
    obtain ⟨hn, hact⟩ := requireActive_eq_ok.mp hx
    have hi := (requireNode_eq_ok.mp hn).1
    have hrep := h.unmerged _ _ hi hact
    have hdep := h.merges _ _ hi
    exact h.updateNode hn rfl rfl (by rw [hact]; exact nofun) (fun _ => hrep) hdep
      (fun b hbb => ⟨hact, hsort, hb b hbb⟩) (.inl hact)
  | merge hx _ _ hdep hun hnone =>
    obtain ⟨hn, -⟩ := requireActive_eq_ok.mp hx
    exact h.updateNode hn rfl rfl nofun nofun hdep nofun (.inr ⟨hun, hnone⟩)
  | prune hx _ hun hnone =>
    obtain ⟨hn, -⟩ := requireActive_eq_ok.mp hx
    have hdep := h.merges _ _ (requireNode_eq_ok.mp hn).1
    exact h.updateNode hn rfl rfl nofun nofun hdep nofun (.inr ⟨hun, hnone⟩)
  | insertRow hargs hfree hs => exact h.insertRow hargs hfree hs
  | absorb hrow hact hs =>
    exact h.updateFact hrow hact rfl rfl hact ((h.rows _ _ hrow hact).absorb hs _ _)
  | promote hrow hact =>
    have hr := h.rows _ _ hrow hact
    exact h.updateFact hrow hact rfl rfl hact
      ⟨hr.arguments, hr.supported, hr.antichain, hr.sorted, hr.below, hr.generation⟩
  | deactivate _ _ hexact => exact h.deactivate hexact

end Preservation

/-! ## Moves of the kernel -/

/-- The kernel's state changed by primitive steps; the branch stack and the operation
root did not, and the trail did not get shorter. -/
structure Moves (p : Permit) (n : Nat) (k k' : TableauKernel) : Prop where
  branches : k'.branches = k.branches
  operationRoot : k'.operationRoot = k.operationRoot
  trailLength : k.trailLength ≤ k'.trailLength
  steps : Relation.ReflTransGen (Prim p n) k.state k'.state

namespace Moves

variable {p : Permit} {n : Nat} {k k' k'' : TableauKernel}

theorem refl : Moves p n k k := ⟨rfl, rfl, le_rfl, .refl⟩

theorem trans (h : Moves p n k k') (h' : Moves p n k' k'') : Moves p n k k'' where
  branches := h'.branches.trans h.branches
  operationRoot := h'.operationRoot.trans h.operationRoot
  trailLength := Nat.le_trans h.trailLength h'.trailLength
  steps := h.steps.trans h'.steps

theorem prim {st : MutableState} (h : Prim p n k.state st) : Moves p n k { k with state := st } :=
  ⟨rfl, rfl, le_rfl, .single h⟩

theorem stateInv (h : Moves p n k k') (hi : StateInv n k.state) : StateInv n k'.state := by
  have key : ∀ st, Relation.ReflTransGen (Prim p n) k.state st → StateInv n st := by
    intro st hst
    induction hst with
    | refl => exact hi
    | tail _ hstep ih => exact hstep.stateInv ih
  exact key _ h.steps

end Moves

/-- The levels of the branch stack are its positions. -/
def Levels (k : TableauKernel) : Prop :=
  ∀ (i : Nat) (b : Branch), k.branches[i]? = some b → b.level = i

/-- The store invariant of the kernel's own state, under `n` branches at most. -/
structure Sound (n : Nat) (k : TableauKernel) : Prop where
  depth : k.branches.length ≤ n
  levels : Levels k
  state : StateInv n k.state

theorem Sound.moves {p : Permit} {n : Nat} {k k' : TableauKernel} (h : Sound n k)
    (hm : Moves p n k k') : Sound n k' where
  depth := by rw [hm.branches]; exact h.depth
  levels i b hb := h.levels i b (by rw [← hm.branches]; exact hb)
  state := hm.stateInv h.state

/-- From a sound kernel, `m` only moves it, whether it returns or fails. -/
def Does {α : Type} (p : Permit) (n : Nat) (m : KernelM α) : Prop :=
  ∀ k, Sound n k → wp m (fun _ => Moves p n k) (fun _ => Moves p n k) k

namespace Does

variable {α β : Type} {p : Permit} {n : Nat}

theorem pure {a : α} : Does p n (Pure.pure a : KernelM α) := fun _ _ => Moves.refl

variable {e : NativeError} {c : Prop} {m : KernelM α}

theorem throw : Does p n (MonadExcept.throw e : KernelM α) := fun _ _ => Moves.refl

theorem ask {f : TableauKernel → Except NativeError α} : Does p n (Prog.ask f) :=
  fun _ _ => wp_ask (fun _ _ => Moves.refl) (fun _ _ => Moves.refl)

theorem ensure [Decidable c] : Does p n (Prog.ensure c e : KernelM Unit) :=
  fun _ _ => wp_ensure (fun _ => Moves.refl) (fun _ => Moves.refl)

theorem after {k k' : TableauKernel} (hm : Does p n m) (hk : Sound n k)
    (h : Moves p n k k') : Ends m (Moves p n k) k' :=
  wp_mono (hm k' (hk.moves h)) (fun _ _ h' => h.trans h') fun _ _ h' => h.trans h'

theorem bind {m : KernelM β} {f : β → KernelM α} (hm : Does p n m) (hf : ∀ b, Does p n (f b)) :
    Does p n (m >>= f) := by
  intro k hk
  refine wp_seq (hm k hk) ?_
  exact fun b k' hk' => (hf b).after hk hk'

theorem ite [Decidable c] {m' : KernelM α} (hm : Does p n m) (hm' : Does p n m') :
    Does p n (if c then m else m') :=
  fun k hk => wp_ite (fun _ => hm k hk) (fun _ => hm' k hk)

theorem forM {f : β → KernelM Unit} (hf : ∀ b, Does p n (f b)) : ∀ l : List β, Does p n (l.forM f)
  | [] => pure
  | b :: bs => (hf b).bind fun _ => forM hf bs

end Does

end PyHermit
