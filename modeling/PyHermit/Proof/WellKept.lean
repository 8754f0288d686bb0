import PyHermit.Proof.Representatives
import PyHermit.Proof.Settled

/-!
# The node table in full

`WellKept n st` is what `check_invariants` asks of a state beyond the store invariant: the
free list is exactly the empty slots, parents and depths agree, creation identifiers are
unique, a merged node leads to an active one. It survives every primitive change but two:
taking a slot without filling it, and pruning a node another one points to. `Permit.kept`
rules these out.
-/

open Std Prog List

namespace PyHermit

open TableauKernel Arena

/-! ## The invariant -/

/-- What a node was born with. -/
structure BornOk (n : Nat) (arena : Arena) (node : Node) : Prop where
  checkpoint : node.creationCheckpoint ≤ n - 1
  tree : node.kind = .tree → ∃ p parent, node.parent = some p ∧ arena.requireNode p = .ok parent ∧
    node.treeDepth = parent.treeDepth + 1
  nonTree : node.kind ≠ .tree → node.parent = none ∧ node.treeDepth = 0

/-- Merged nodes point somewhere, other nodes nowhere, and a pointer leads to an active node. -/
structure PointerOk (arena : Arena) (node : Node) : Prop where
  merged : node.lifecycle = .merged ↔ node.representative ≠ none
  chain : ∀ r, node.representative = some r → ∃ m, Chain arena m r

theorem PointerOk.leads {arena : Arena} {node : Node} (h : PointerOk arena node)
    (hm : node.lifecycle = .merged) : ∃ r m, node.representative = some r ∧ Chain arena m r := by
  obtain ⟨r, hr⟩ := Option.ne_none_iff_exists'.mp (h.merged.mp hm)
  obtain ⟨m, hc⟩ := h.chain r hr
  exact ⟨r, m, hr, hc⟩

def PointersOk (arena : Arena) : Prop :=
  ∀ (i : Nat) (node : Node), arena[i]? = some (some node) → PointerOk arena node

/-- What holds of the rest of the state while nothing but nodes and facts is used. -/
structure OtherInv (n : Nat) (st : MutableState) : Prop where
  generations : st.readGeneration ≤ st.writeGeneration
  queues : st.checkQueues = .ok ()
  disjunctions : st.disjunctions = []
  disjunctionQueue : st.disjunctionQueue.values = []
  reuse : st.existentialReuseBranches = ∅
  clash : ∀ clash, st.clash = some clash → clash.dependency.Below n

structure WellKept (n : Nat) (st : MutableState) : Prop where
  lineage : Lineage st
  stamped : Stamped st
  born : ∀ (i : Nat) (node : Node), st.nodes[i]? = some (some node) → BornOk n st.nodes node
  pointers : PointersOk st.nodes
  /-- The free list is the empty slots. -/
  free : st.freeSlots = emptySlots st.nodes
  other : OtherInv n st

/-- Changes that keep the node table in order. -/
def Permit.kept : Permit where
  prune arena h := ∀ (i : Nat) (node : Node), arena[i]? = some (some node) →
    node.representative ≠ some h
  lose := False
  other n st st' := OtherInv n st → OtherInv n st'

variable {n n' : Nat} {p : Permit} {st st' : MutableState}

theorem WellKept.mono (h : WellKept n st) (hn : n ≤ n') : WellKept n' st :=
  { h with
    born := fun i node hi => { h.born i node hi with
      checkpoint := Nat.le_trans (h.born i node hi).checkpoint (Nat.sub_le_sub_right hn 1) }
    other := { h.other with clash := fun clash hc => (h.other.clash clash hc).mono hn } }

theorem wellKept_new : WellKept 0 .new where
  lineage := lineage_new
  stamped := stamped_new
  born i node hi := by simp [MutableState.new] at hi
  pointers i node hi := by simp [MutableState.new] at hi
  free := rfl
  other := {
    generations := le_rfl
    queues := by decide
    disjunctions := rfl
    disjunctionQueue := rfl
    reuse := rfl
    clash := fun _ h => by cases h }

/-! ## Births -/

theorem Prim.born (hp : Prim p n st st') (hi : StateInv n st)
    (h : ∀ (i : Nat) (node : Node), st.nodes[i]? = some (some node) → BornOk n st.nodes node)
    {i : Nat} {node : Node} (hn : st'.nodes[i]? = some (some node)) : BornOk n st'.nodes node := by
  rcases hp.origin hn with ⟨old, hold, hb⟩ | ⟨hf, -⟩
  · have hok := h i old hold
    refine ⟨by rw [hb.creationCheckpoint]; exact hok.checkpoint, fun hk => ?_, fun hk => ?_⟩
    · obtain ⟨x, parent, hx, hparent, hd⟩ := hok.tree (hb.kind.symm.trans hk)
      have hnx : node.parent = some x := hb.parent.trans hx
      obtain ⟨parent', hparent', hbp⟩ := hp.parent_stays hi hparent ⟨i, node, hn, hnx⟩
      exact ⟨x, parent', hnx, hparent', by rw [hb.treeDepth, hbp.treeDepth, hd]⟩
    · rw [hb.parent, hb.treeDepth]
      exact hok.nonTree fun hk' => hk (hb.kind.trans hk')
  · refine ⟨hf.creationCheckpoint, fun hk => ?_, hf.nonTree⟩
    obtain ⟨x, parent, hx, hactive, hd⟩ := hf.tree hk
    obtain ⟨parent', hparent', hbp⟩ :=
      hp.parent_stays hi (requireActive_eq_ok.mp hactive).1 ⟨i, node, hn, hx⟩
    exact ⟨x, parent', hx, hparent', by rw [hbp.treeDepth, hd]⟩

/-! ## Pointers -/

namespace PointersOk

variable {arena arena' : Arena} {x : NodeHandle} {node : Node}

theorem active (h : PointersOk arena) (hx : arena.requireActive x = .ok node) :
    node.representative = none := by
  obtain ⟨hn, hact⟩ := requireActive_eq_ok.mp hx
  by_contra hr
  have hm := (h _ node (requireNode_eq_ok.mp hn).1).merged.mpr hr
  rw [hact] at hm
  cases hm

/-- Nothing points to what `X` singles out. Every other node stays with its pointer, or it
was active and leads somewhere now. A node of the new arena has an old pointer or none, or
it is said where it leads. -/
theorem transfer {X : NodeHandle → Prop} (h : PointersOk arena)
    (hX : ∀ (i : Nat) (node : Node) (r : NodeHandle), arena[i]? = some (some node) →
      node.representative = some r → ¬ X r)
    (hstay : ∀ x node, arena.requireNode x = .ok node → ¬ X x →
      (∃ node', arena'.requireNode x = .ok node' ∧ node'.lifecycle = node.lifecycle ∧
        node'.representative = node.representative) ∨ node.representative = none ∧
        ∃ m, Chain arena' m x)
    (hold : ∀ (i : Nat) (node : Node), arena'[i]? = some (some node) →
      (∃ old, arena[i]? = some (some old) ∧ node.lifecycle = old.lifecycle ∧
        node.representative = old.representative) ∨ PointerOk arena' node) : PointersOk arena' := by
  have hchain : ∀ m r, Chain arena m r → ¬ X r → ∃ m, Chain arena' m r := by
    refine fun m r => Chain.transfer hX (fun y hy hyX => ?_) fun y node r hn hr hyX => ?_
    · obtain ⟨node, hnode⟩ := hy
      obtain ⟨hn, hact⟩ := requireActive_eq_ok.mp hnode
      rcases hstay y node hn hyX with ⟨node', hn', hlife, -⟩ | ⟨-, hc⟩
      · exact ⟨0, .here ⟨node', requireActive_eq_ok.mpr ⟨hn', hlife.trans hact⟩⟩⟩
      · exact hc
    · rcases hstay y node hn hyX with ⟨node', hn', -, hrep⟩ | ⟨hnone, -⟩
      · exact ⟨node', hn', hrep.trans hr⟩
      · cases hnone.symm.trans hr
  intro i node hn
  rcases hold i node hn with ⟨old, ho, hlife, hrep⟩ | hok
  · refine ⟨by rw [hlife, hrep]; exact (h i old ho).merged, fun r hr => ?_⟩
    rw [hrep] at hr
    obtain ⟨m, hc⟩ := (h i old ho).chain r hr
    exact hchain m r hc (hX i old r ho hr)
  · exact hok

/-- A node is rewritten, and nothing points to it if `X` says so. -/
theorem rewrite {X : NodeHandle → Prop} {f : Node → Node} (h : PointersOk arena)
    (hx : arena.requireNode x = .ok node)
    (hX : ∀ (i : Nat) (node : Node) (r : NodeHandle), arena[i]? = some (some node) →
      node.representative = some r → ¬ X r)
    (hself : ¬ X x → (∃ node', Arena.requireNode (arena.modify x.slot (Option.map f))
      x = .ok node' ∧
      node'.lifecycle = node.lifecycle ∧ node'.representative = node.representative) ∨
      node.representative = none ∧ ∃ m, Chain (arena.modify x.slot (Option.map f)) m x)
    (hnew : PointerOk (arena.modify x.slot (Option.map f)) (f node) ∨
      (f node).lifecycle = node.lifecycle ∧ (f node).representative = node.representative) :
    PointersOk (arena.modify x.slot (Option.map f)) := by
  have hxs := (requireNode_eq_ok.mp hx).1
  refine h.transfer hX (fun y other hy hyX => ?_) fun i y hy => ?_
  · by_cases hyx : y = x
    · subst hyx
      rw [hx] at hy
      cases hy
      exact hself hyX
    · exact .inl ⟨other, requireNode_rewritten hx hyx hy, rfl, rfl⟩
  · rcases modify_cases hxs hy with ⟨rfl, rfl⟩ | ⟨-, hy⟩
    · exact hnew.symm.imp_left fun hsame => ⟨node, hxs, hsame⟩
    · exact .inl ⟨y, hy, rfl, rfl⟩

/-- A node that pointed to itself would lead nowhere. -/
theorem ne_self (h : PointersOk arena) (hs : arena.Slotted) {i : Nat} {r : NodeHandle}
    (hn : arena[i]? = some (some node)) (hr : node.representative = some r) : r ≠ node.handle := by
  rintro rfl
  obtain ⟨m, hc⟩ := (h i node hn).chain _ hr
  have hlonger : Chain arena (m + 1) node.handle := .step (hs.requireNode_self hn) hr hc
  have hsame := Chain.unique (fun i node hi hact => by_contra fun hr => ?_) hc hlonger
  · omega
  · cases ((h i node hi).merged.mpr hr).symm.trans hact

end PointersOk

theorem Prim.pointers (hp : Prim .kept n st st') (hi : StateInv n st) (h : PointersOk st.nodes) :
    PointersOk st'.nodes := by
  have hnone : ∀ (i : Nat) (node : Node) (r : NodeHandle), st.nodes[i]? = some (some node) →
      node.representative = some r → ¬ False := fun _ _ _ _ _ => id
  cases hp with
  | other hs _ =>
    rw [hs.nodes]
    exact h
  | pad =>
    exact h.transfer hnone (fun x node hn _ => .inl ⟨node, requireNode_pad.mpr hn, rfl, rfl⟩)
      fun i node hn => .inl ⟨node, getElem?_pad.mp hn, rfl, rfl⟩
  | lose hl => exact hl.elim
  | create ho _ _ hnode =>
    refine h.transfer hnone (fun x node hn _ => .inl ⟨node, ?_, rfl, rfl⟩) fun i node hn => ?_
    · exact requireNode_set_some (ho.empty hi) (ho.requireNode_iff.mpr hn)
    · rcases set_some_cases hn with ⟨-, rfl⟩ | ⟨-, hn⟩
      · refine .inr ⟨?_, fun r hr => ?_⟩
        · simp [hnode.lifecycle, hnode.representative]
        · cases hnode.representative.symm.trans hr
      · exact .inl ⟨node, ho.some_iff.mp hn, rfl, rfl⟩
  | @retire x gone hx _ hfree =>
    refine h.transfer (X := (· = x)) (fun i y r hy hr heq => ?_) (fun y node hn hyx => ?_)
      fun i y hy => ?_
    · by_cases hyx : y.handle = x
      · exact h.ne_self hi.slotted hy hr (heq.trans hyx.symm)
      · exact (hfree i y hy hyx).2.1 (by rw [hr, heq])
    · exact .inl ⟨node, requireNode_left hx hyx hn, rfl, rfl⟩
    · exact .inl ⟨y, (set_none_cases hy).1, rfl, rfl⟩
  | touch hx hf =>
    have hsame := fun node : Node => congrArg (fun x => (x.lifecycle, x.representative)) (hf node)
    simp only [Prod.mk.injEq] at hsame
    refine h.rewrite hx hnone (fun _ => .inl ⟨_, requireNode_modify_self hx ?_ ?_, hsame _⟩)
      (.inr (hsame _))
    · rw [hf]
    · rw [hf]
      exact (requireNode_eq_ok.mp hx).2.2
  | block hx _ _ =>
    have hx := (requireActive_eq_ok.mp hx).1
    exact h.rewrite hx hnone
      (fun _ => .inl ⟨_, requireNode_modify_self hx rfl (requireNode_eq_ok.mp hx).2.2, rfl, rfl⟩)
        (.inr ⟨rfl, rfl⟩)
  | @merge _ target node other combined hs ht hne _ _ _ =>
    -- what led to the source now leads through it to the target
    obtain ⟨hsn, -⟩ := requireActive_eq_ok.mp hs
    obtain ⟨htn, htact⟩ := requireActive_eq_ok.mp ht
    have hself := requireNode_modify_self (f := (·.mergedInto target combined)) hsn rfl nofun
    have hother := requireNode_rewritten (f := (·.mergedInto target combined)) hsn
      (fun heq => hne heq.symm) htn
    have htarget := Chain.here ⟨other, requireActive_eq_ok.mpr ⟨hother, htact⟩⟩
    refine h.rewrite hsn hnone (fun _ => .inr ⟨h.active hs, 1, .step hself rfl htarget⟩)
      (.inl ⟨?_, ?_⟩)
    · exact iff_of_true rfl nofun
    · rintro r hr
      cases hr
      exact ⟨0, htarget⟩
  | @prune x node hx hfree _ _ =>
    have hnone : node.representative = none := h.active hx
    refine h.rewrite (X := (· = x)) (requireActive_eq_ok.mp hx).1 (fun i y r hy hr heq => ?_)
      (fun hself => absurd rfl hself) (.inl ⟨?_, ?_⟩)
    · exact hfree i y hy (by rw [hr, heq])
    · exact iff_of_false nofun (not_not.mpr hnone)
    · exact fun r hr => nomatch hnone.symm.trans hr
  | insertRow | absorb | promote | deactivate => exact h

/-! ## The free list -/

theorem emptySlots_congr {arena arena' : Arena}
    (h : ∀ i : Nat, arena'[i]? = some none ↔ arena[i]? = some none) :
    emptySlots arena' = emptySlots arena := by
  apply ExtTreeSet.ext_mem
  intro i
  rw [mem_emptySlots, mem_emptySlots, h]

theorem emptySlots_updateNode (st : MutableState) (slot : Nat) (f : Node → Node) :
    emptySlots (st.updateNode slot f).nodes = emptySlots st.nodes := by
  refine emptySlots_congr fun i => ?_
  unfold MutableState.updateNode
  rw [Arena.getElem?_modify]
  split
  · rw [Option.map_eq_some_iff]
    simp
  · rfl

theorem Prim.free (hp : Prim .kept n st st') (hi : StateInv n st)
    (h : st.freeSlots = emptySlots st.nodes) : st'.freeSlots = emptySlots st'.nodes := by
  cases hp with
  | other hs _ =>
    rw [hs.nodes, hs.freeSlots]
    exact h
  | pad => rfl
  | lose hl => exact hl.elim
  | @create slot _ _ _ ho _ _ _ =>
    apply ExtTreeSet.ext_mem
    intro i
    rw [mem_erase_eq, h, mem_emptySlots, mem_emptySlots]
    by_cases hslot : slot = i
    · subst hslot
      rw [getElem?_set_self (lt_of_getElem? (ho.empty hi))]
      exact ⟨fun hb => absurd rfl hb.1, nofun⟩
    · rw [getElem?_set_ne hslot, ho.none_iff hslot]
      exact ⟨fun hb => hb.2, fun hb => ⟨hslot, hb⟩⟩
  | @retire x _ hx _ _ =>
    apply ExtTreeSet.ext_mem
    intro i
    rw [mem_insert_eq, h, mem_emptySlots, mem_emptySlots, getElem?_set]
    by_cases hslot : x.slot = i
    · rw [if_pos hslot, if_pos (lt_of_getElem? (requireNode_eq_ok.mp hx).1)]
      exact ⟨fun _ => rfl, fun _ => .inl hslot⟩
    · rw [if_neg hslot]
      exact ⟨fun hb => hb.resolve_left hslot, .inr⟩
  | touch | block | merge | prune => exact h.trans (emptySlots_updateNode st _ _).symm
  | insertRow | absorb | promote | deactivate => exact h

/-- **Every permitted primitive change keeps the node table in order.** -/
theorem Prim.wellKept (hp : Prim .kept n st st') (h : WellKept n st) (hi : StateInv n st) :
    WellKept n st' where
  lineage := hp.lineage h.lineage hi
  stamped := hp.stamped h.stamped
  born _ _ hn := hp.born hi h.born hn
  pointers := hp.pointers hi h.pointers
  free := hp.free hi h.free
  other := by
    cases hp with
    | other _ ho => exact ho h.other
    | lose hl => exact hl.elim
    | _ => exact { h.other with }

end PyHermit
