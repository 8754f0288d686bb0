import PyHermit.Proof.FactStore

/-!
# Where nodes come from

What a node is born with never changes: its handle, creation identifier, kind, sort and
parent. Every primitive change either keeps a node with all of that or creates one
(`Prim.origin`), and a node that is somebody's parent stays (`Prim.parent_stays`). So in
every kernel a client can bring about, creation identifiers are unique and a parent is older
than its children (`Lineage`).
-/

open Std Prog List

namespace PyHermit

open TableauKernel Arena

/-! ## Births -/

/-- The two nodes are one node at two times. -/
structure Node.SameBirth (a b : Node) : Prop where
  handle : b.handle = a.handle
  creationId : b.creationId = a.creationId
  kind : b.kind = a.kind
  sort : b.sort = a.sort
  parent : b.parent = a.parent
  treeDepth : b.treeDepth = a.treeDepth
  creationCheckpoint : b.creationCheckpoint = a.creationCheckpoint

theorem Node.SameBirth.refl (a : Node) : a.SameBirth a := ⟨rfl, rfl, rfl, rfl, rfl, rfl, rfl⟩

theorem Node.SameBirth.trans {a b c : Node} (h : a.SameBirth b) (h' : b.SameBirth c) :
    a.SameBirth c :=
  ⟨h'.handle.trans h.handle, h'.creationId.trans h.creationId, h'.kind.trans h.kind,
    h'.sort.trans h.sort, h'.parent.trans h.parent, h'.treeDepth.trans h.treeDepth,
    h'.creationCheckpoint.trans h.creationCheckpoint⟩

section Origin

variable {p : Permit} {n : Nat} {st st' : MutableState} {x h : NodeHandle} {node y : Node}
  {f : Node → Node} {i : Nat}

theorem origin_updateNode (hx : st.nodes.requireNode x = .ok node) (hf : node.SameBirth (f node))
    (hy : (st.updateNode x.slot f).nodes[i]? = some (some y)) :
    ∃ old, st.nodes[i]? = some (some old) ∧ old.SameBirth y := by
  have hxs := (requireNode_eq_ok.mp hx).1
  rcases modify_cases hxs hy with ⟨rfl, rfl⟩ | ⟨-, hy⟩
  · exact ⟨node, hxs, hf⟩
  · exact ⟨y, hy, .refl y⟩

/-- **A node was there before, or it is new.** -/
theorem Prim.origin (hp : Prim p n st st') (hy : st'.nodes[i]? = some (some y)) :
    (∃ old, st.nodes[i]? = some (some old) ∧ old.SameBirth y) ∨
      (FreshNode n st i y ∧ st'.nextCreationId = st.nextCreationId + 1 ∧
        st'.generations.getD i 0 = y.handle.generation ∧
        ∀ (j : Nat) (x : Node), j ≠ i → st'.nodes[j]? = some (some x) →
          st.nodes[j]? = some (some x)) := by
  have hsame : st.nodes[i]? = some (some y) →
      ∃ old, st.nodes[i]? = some (some old) ∧ old.SameBirth y :=
    fun hi => ⟨y, hi, .refl y⟩
  cases hp with
  | other hs _ =>
    rw [hs.nodes] at hy
    exact .inl (hsame hy)
  | pad | lose => exact .inl (hsame (getElem?_pad.mp hy))
  | create ho _ hgen hnode =>
    rcases set_some_cases hy with ⟨rfl, rfl⟩ | ⟨-, hy⟩
    · refine .inr ⟨hnode, rfl, hgen, fun j x hj hx => ?_⟩
      rcases set_some_cases hx with ⟨rfl, -⟩ | ⟨-, hx⟩
      · exact absurd rfl hj
      · exact ho.some_iff.mp hx
    · exact .inl (hsame (ho.some_iff.mp hy))
  | retire _ _ _ => exact .inl (hsame (set_none_cases hy).1)
  | touch hx hf =>
    exact .inl (origin_updateNode hx (by rw [hf]; exact ⟨rfl, rfl, rfl, rfl, rfl, rfl, rfl⟩) hy)
  | block hx _ _ =>
    exact .inl (origin_updateNode (requireActive_eq_ok.mp hx).1
      ⟨rfl, rfl, rfl, rfl, rfl, rfl, rfl⟩ hy)
  | merge hx _ _ _ _ _ =>
    exact .inl (origin_updateNode (requireActive_eq_ok.mp hx).1
      ⟨rfl, rfl, rfl, rfl, rfl, rfl, rfl⟩ hy)
  | prune hx _ _ _ =>
    exact .inl (origin_updateNode (requireActive_eq_ok.mp hx).1
      ⟨rfl, rfl, rfl, rfl, rfl, rfl, rfl⟩ hy)
  | insertRow | absorb | promote | deactivate => exact .inl (hsame hy)

theorem Prim.nextCreationId_le (hp : Prim p n st st') : st.nextCreationId ≤ st'.nextCreationId := by
  cases hp with
  | other hs _ => exact Nat.le_of_eq hs.nextCreationId.symm
  | create => exact Nat.le_succ _
  | _ => exact le_rfl

theorem stays_updateNode (hx : st.nodes.requireNode x = .ok node) (hf : node.SameBirth (f node))
    (hret : (f node).lifecycle ≠ .retired) (hy : st.nodes.requireNode h = .ok y) :
    ∃ y', (st.updateNode x.slot f).nodes.requireNode h = .ok y' ∧ y.SameBirth y' := by
  by_cases hhx : h = x
  · subst hhx
    rw [hx] at hy
    cases hy
    exact ⟨f node, requireNode_modify_self hx hf.handle hret, hf⟩
  · exact ⟨y, requireNode_rewritten hx hhx hy, .refl y⟩

/-- **A node stays as long as it is somebody's parent.** -/
theorem Prim.parent_stays (hp : Prim p n st st') (hi : StateInv n st)
    (hy : st.nodes.requireNode h = .ok y)
    (hchild : ∃ (i : Nat) (x : Node), st'.nodes[i]? = some (some x) ∧ x.parent = some h) :
    ∃ y', st'.nodes.requireNode h = .ok y' ∧ y.SameBirth y' := by
  cases hp with
  | other hs _ => exact ⟨y, by rw [hs.nodes]; exact hy, .refl y⟩
  | pad | lose => exact ⟨y, requireNode_pad.mpr hy, .refl y⟩
  | create ho _ _ _ =>
    exact ⟨y, requireNode_set_some (ho.empty hi) (ho.requireNode_iff.mpr hy), .refl y⟩
  | @retire x gone hx _ hfree =>
    obtain ⟨i, child, hchild, hparent⟩ := hchild
    obtain ⟨hchild, hne⟩ := set_none_cases hchild
    have hcx : child.handle ≠ x := fun heq => hne (by rw [← (hi.slotted i child hchild).1, heq])
    have hhx : h ≠ x := fun heq => (hfree i child hchild hcx).1 (by rw [hparent, heq])
    exact ⟨y, requireNode_left hx hhx hy, .refl y⟩
  | touch hx hf =>
    refine stays_updateNode hx (by rw [hf]; exact ⟨rfl, rfl, rfl, rfl, rfl, rfl, rfl⟩) ?_ hy
    rw [hf]
    exact (requireNode_eq_ok.mp hx).2.2
  | block hx _ _ =>
    have hx := (requireActive_eq_ok.mp hx).1
    exact stays_updateNode hx ⟨rfl, rfl, rfl, rfl, rfl, rfl, rfl⟩ (requireNode_eq_ok.mp hx).2.2 hy
  | merge hx _ _ _ _ _ =>
    refine stays_updateNode (requireActive_eq_ok.mp hx).1 ⟨rfl, rfl, rfl, rfl, rfl, rfl, rfl⟩ ?_ hy
    exact nofun
  | prune hx _ _ _ =>
    refine stays_updateNode (requireActive_eq_ok.mp hx).1 ⟨rfl, rfl, rfl, rfl, rfl, rfl, rfl⟩ ?_ hy
    exact nofun
  | insertRow | absorb | promote | deactivate => exact ⟨y, hy, .refl y⟩

/-! ## The invariant -/

/-- Creation identifiers are unique, exactly the tree nodes have parents, and those are
older. -/
structure Lineage (st : MutableState) : Prop where
  distinct : ∀ (i j : Nat) (a b : Node), st.nodes[i]? = some (some a) →
    st.nodes[j]? = some (some b) → a.creationId = b.creationId → i = j
  below : ∀ (i : Nat) (a : Node), st.nodes[i]? = some (some a) → a.creationId < st.nextCreationId
  tree : ∀ (i : Nat) (a : Node), st.nodes[i]? = some (some a) → a.kind = .tree →
    ∃ h parent, a.parent = some h ∧ st.nodes.requireNode h = .ok parent ∧
      parent.creationId < a.creationId
  nonTree : ∀ (i : Nat) (a : Node), st.nodes[i]? = some (some a) → a.kind ≠ .tree → a.parent = none
  sort : ∀ (i : Nat) (a : Node), st.nodes[i]? = some (some a) → a.sort = a.kind.sort

theorem lineage_new : Lineage .new where
  distinct i j a b hi := by simp [MutableState.new] at hi
  below i a hi := by simp [MutableState.new] at hi
  tree i a hi := by simp [MutableState.new] at hi
  nonTree i a hi := by simp [MutableState.new] at hi
  sort i a hi := by simp [MutableState.new] at hi

theorem Prim.lineage (hp : Prim p n st st') (h : Lineage st) (hi : StateInv n st) :
    Lineage st' where
  distinct i j a b ha hb hid := by
    by_contra hij
    rcases hp.origin ha with ⟨a', ha', hba⟩ | ⟨hfa, -, -, hrest⟩
    · rcases hp.origin hb with ⟨b', hb', hbb⟩ | ⟨hfb, -, -⟩
      · exact hij (h.distinct i j a' b' ha' hb' (by rw [← hba.creationId, ← hbb.creationId, hid]))
      · -- a new node's identifier is above all others
        have hlt := h.below i a' ha'
        rw [← hba.creationId, hid, hfb.creationId] at hlt
        exact Nat.lt_irrefl _ hlt
    · have hlt := h.below j b (hrest j b (fun heq => hij heq.symm) hb)
      rw [← hid, hfa.creationId] at hlt
      exact Nat.lt_irrefl _ hlt
  below i a ha := by
    rcases hp.origin ha with ⟨a', ha', hb⟩ | ⟨hf, hnext, -⟩
    · rw [hb.creationId]
      exact Nat.lt_of_lt_of_le (h.below i a' ha') hp.nextCreationId_le
    · rw [hf.creationId, hnext]
      exact Nat.lt_succ_self _
  tree i a ha hk := by
    rcases hp.origin ha with ⟨a', ha', hb⟩ | ⟨hf, -⟩
    · obtain ⟨x, parent, hx, hparent, hlt⟩ := h.tree i a' ha' (hb.kind.symm.trans hk)
      have hax : a.parent = some x := hb.parent.trans hx
      obtain ⟨parent', hparent', hbp⟩ := hp.parent_stays hi hparent ⟨i, a, ha, hax⟩
      exact ⟨x, parent', hax, hparent', by rw [hbp.creationId, hb.creationId]; exact hlt⟩
    · obtain ⟨x, parent, hx, hactive, -⟩ := hf.tree hk
      have hparent := (requireActive_eq_ok.mp hactive).1
      obtain ⟨parent', hparent', hbp⟩ := hp.parent_stays hi hparent ⟨i, a, ha, hx⟩
      refine ⟨x, parent', hx, hparent', ?_⟩
      rw [hbp.creationId, hf.creationId]
      exact h.below _ parent (requireNode_eq_ok.mp hparent).1
  nonTree i a ha hk := by
    rcases hp.origin ha with ⟨a', ha', hb⟩ | ⟨hf, -⟩
    · exact hb.parent.trans (h.nonTree i a' ha' fun hk' => hk (hb.kind.trans hk'))
    · exact (hf.nonTree hk).1
  sort i a ha := by
    rcases hp.origin ha with ⟨a', ha', hb⟩ | ⟨hf, -⟩
    · rw [hb.sort, hb.kind]
      exact h.sort i a' ha'
    · exact hf.sort

end Origin

/-! ## Every state of a kernel -/

/-- `P` holds of the state, of every state a branch can go back to, and of the operation
root. -/
structure Throughout (P : MutableState → Prop) (k : TableauKernel) : Prop where
  state : P k.state
  snapshots : ∀ b ∈ k.branches, P b.snapshot.state
  root : P k.operationRoot.state

section Throughout

variable {P : MutableState → Prop} {q : StackPermit} {k k' : TableauKernel}

/-- `P` survives what can happen to a state with the store invariant. -/
def Stable (P : MutableState → Prop) : Prop :=
  ∀ (n : Nat) (st st' : MutableState), StateInv n st → Prim .all n st st' → P st → P st'

theorem throughout_iff : Throughout P k ↔ Leveled (fun _ => P) k := by
  refine ⟨fun h => ⟨h.state, fun _ b hb => h.snapshots b (mem_of_getElem? hb), h.root⟩, fun h => ?_⟩
  refine ⟨h.state, fun b hb => ?_, h.root⟩
  obtain ⟨i, hi⟩ := mem_iff_getElem?.mp hb
  exact h.snapshots i b hi

variable (hP : Stable P)
include hP

theorem Stable.lasting : Lasting .all q fun _ => P where
  mono h _ := h
  prim hi hp h := hP _ _ _ hi hp h
  strengthen _ hi h _ := hP _ _ _ hi (.other ⟨rfl, rfl, rfl, rfl, rfl, rfl, le_rfl⟩ trivial) h

theorem Stable.restore {n : Nat} {snapshot : StateCheckpoint} (hi : StateInv n snapshot.state)
    (h : P snapshot.state) (k : TableauKernel) : P (k.restore snapshot).state :=
  hP n _ _ hi (prim_restore hi.lengths k) h

variable (hk : KernelInv k)
include hk

theorem Turns.throughout (ht : Turns .all q k k') (h : Throughout P k) : Throughout P k' := by
  have key : KernelInv k' ∧ Throughout P k' := by
    induction ht with
    | refl => exact ⟨hk, h⟩
    | tail _ hturn ih =>
      exact ⟨hturn.kernelInv ih.1,
        throughout_iff.mpr (hturn.leveled hP.lasting ih.1 (throughout_iff.mp ih.2))⟩
  exact key.2

/-- **A run keeps what is stable**, in every state it can still go back to. -/
theorem Stable.run {call : KernelOp → TableauKernel → Prop} (hrun : Run call KeepsBranches k k')
    (h : Throughout P k) : Throughout P k' := by
  induction hrun with
  | refl => exact h
  | op hrun _ ih =>
    have hinv := kernelInv_run hrun hk
    exact (KernelOp.turns _ hinv (KernelOp.permitted_all _)).throughout hP hinv (ih hk h)
  | rollBack hrun _ _ ih ih' =>
    -- the state of the start is back, on the stack of the failure
    have hinv := kernelInv_run hrun hk
    have hbefore := ih hk h
    have hafter := ih' hinv hbefore
    exact ⟨hP.restore hinv.sound.state hbefore.state _, hafter.snapshots, hafter.root⟩
  | restoreFull hrun _ ih _ =>
    have hbefore := ih hk h
    exact ⟨hP.restore (kernelInv_run hrun hk).sound.state hbefore.state _, hbefore.snapshots,
      hbefore.root⟩

end Throughout

theorem stable_lineage : Stable Lineage := fun _ _ _ hi hp h => hp.lineage h hi

/-! ## Over runs -/

/-- **Every kernel a client can bring about can go back safely**, as long as no transaction
fails after dropping a branch its start rests on: in each of its states the nodes form a
forest ordered by age, and what a branch goes back to rests on the branches below it only. -/
theorem snapshots_reachable {k : TableauKernel}
    (hrun : Run (fun _ _ => True) KeepsBranches .new k) :
    Throughout Lineage k ∧ ∀ (level : Nat) (b : Branch), k.branches[level]? = some b →
      b.level = level ∧ StateInv level b.snapshot.state := by
  have hk := kernelInv_run hrun kernelInv_new
  refine ⟨stable_lineage.run kernelInv_new hrun ?_, fun level b hb => ?_⟩
  · exact ⟨lineage_new, fun _ h => absurd h not_mem_nil, lineage_new⟩
  · exact ⟨hk.sound.levels level b hb, hk.snapshots level b hb⟩

theorem snapshots_start : let k := FactStoreSample.start 1
    Throughout Lineage k ∧ ∀ (level : Nat) (b : Branch), k.branches[level]? = some b →
      b.level = level ∧ StateInv level b.snapshot.state :=
  snapshots_reachable (.of_calls ⟨trivial, trivial, trivial, trivial, trivial⟩)

end PyHermit
