import PyHermit.Proof.Handles

/-!
# Who touches block marks

Only `set_blocked` writes a mark, and going back to a saved state brings its marks back.
Every other call leaves the marks of active nodes alone, except that a merge or a prune
clears the marks of the nodes that were blocked by what it takes away (`KernelOp.settled`).
A merge or prune inside a transaction that fails half-way may have cleared marks and taken
nothing away; it is for the transaction to undo that.
-/

open Std Prog List

namespace PyHermit

open TableauKernel Arena

variable {k k' : TableauKernel} {st st' : MutableState} {n : Nat} {p : Permit}

/-! ## Generations -/

/-- No node is ahead of the generation of its slot. -/
def Stamped (st : MutableState) : Prop :=
  ∀ (i : Nat) (x : Node), st.nodes[i]? = some (some x) → x.handle.generation ≤ st.stamp i

theorem stamped_new : Stamped .new := fun i x hx => by simp [MutableState.new] at hx

theorem Prim.stamped (hp : Prim p n st st') (h : Stamped st) : Stamped st' := by
  intro i x hx
  rcases hp.origin hx with ⟨old, hold, hbirth⟩ | ⟨-, -, hgen, -⟩
  · rw [hbirth.handle]
    exact Nat.le_trans (h i old hold) (hp.carried.grows i)
  · exact Nat.le_of_eq hgen.symm

theorem stable_stamped : Stable Stamped := fun _ _ _ _ hp h => hp.stamped h

/-! ## Calls -/

/-- The handle has not been handed out yet. -/
def MutableState.Unissued (st : MutableState) (h : NodeHandle) : Prop :=
  st.stamp h.slot < h.generation

/-- The marks of the first kernel stay in the second. -/
abbrev SettledKernel (k k' : TableauKernel) : Prop :=
  Settled k.state.Unissued k.state.nodes k'.state.nodes

def SameNodes (k k' : TableauKernel) : Prop := k'.state.nodes = k.state.nodes

theorem SameNodes.settled (h : SameNodes k k') : SettledKernel k k' :=
  settled_of_nodes fun _ _ hx => by rw [← h]; exact hx

instance : FreeAgendaFrame SameNodes where
  refl _ := rfl
  trans _ _ _ h h' := Eq.trans h' h
  mutation _ _ _ := rfl
  aside _ _ hs _ := hs.nodes
  disjunctions _ _ hs := hs.nodes

theorem addFactDetailed_nodes {predicateId : Nat} {arguments : List NodeHandle}
    {dependency : DependencySet} {core : Bool} {provenanceId : Option Nat} :
    Ends (addFactDetailed predicateId arguments dependency core provenanceId) (SameNodes k) k := by
  refine wp_mono wp_addFactDetailed ?_ ?_
  · rintro _ k' ⟨_, hadded⟩
    exact hadded.nodes
  · rintro _ k' (rfl | ⟨_, _, hadded⟩)
    · rfl
    · exact hadded.nodes

theorem promoteCoreFact_nodes {rowId : Nat} : Ends (promoteCoreFact rowId) (SameNodes k) k := by
  refine wp_get_then.mpr ?_
  cases k.state.facts[rowId]? with
  | none => rfl
  | some row =>
    refine wp_ensure_then (fun _ => ?_) fun _ => rfl
    refine wp_ite (fun _ => rfl) fun _ => wp_modify_then.mpr ?_
    exact wp_recordMutation (fun _ _ => rfl) fun _ => rfl

theorem settled_undo {after : TableauKernel}
    (hstate : k'.state = (after.restore k.snapshot).state) : SettledKernel k k' := by
  refine settled_of_nodes fun i x hx => ?_
  rw [hstate] at hx
  exact restored_node hx

theorem createNode_settled (hk : StateInv n k.state) {kind : NodeKind} {parent : Option NodeHandle}
    {named : Bool} {individual level tag : Option Nat} :
    Ends (createNode kind parent named individual level tag) (SettledKernel k) k := by
  refine wp_ask_then (fun _ _ => ?_) fun _ _ => settled_refl
  refine wp_ensure_then (fun _ => ?_) fun _ => settled_refl
  refine wp_then (wp_takeSlot hk) ?_ fun _ _ h => h ▸ settled_refl
  rintro slot _ ⟨arena, generations, took, rfl⟩
  -- an opened slot holds no node yet
  have hopen : Settled k.state.Unissued k.state.nodes arena :=
    settled_of_nodes fun _ _ hx => took.opens.some_iff.mp hx
  refine wp_ask_then (fun generation hgen => ?_) fun _ _ => hopen
  refine wp_modify_then.mpr (wp_get_then.mpr ?_)
  refine wp_ask_then (fun next _ => ?_) fun _ _ => hopen
  refine wp_modify_then.mpr (wp_modify_then.mpr (wp_bind.mpr ?_))
  have hlt : k.state.stamp slot < generation := by
    rw [(increment32_ok hgen).1]
    exact Nat.lt_succ_of_le (took.stamps.mono slot)
  have hset : ∀ node : Node, node.handle = ⟨slot, generation⟩ → node.mark = (none, false) →
      Settled k.state.Unissued k.state.nodes (arena.set slot (some node)) := by
    intro node hhandle hmark i x hx hact
    rcases set_some_cases hx with ⟨-, rfl⟩ | ⟨-, hx⟩
    · refine .inr ⟨?_, hmark⟩
      rw [hhandle]
      exact hlt
    · exact .inl ⟨x, took.opens.some_iff.mp hx, rfl, hact, rfl, .inl rfl⟩
  exact wp_recordMutation (fun _ _ => wp_pure.mpr (hset _ rfl rfl)) fun _ => hset _ rfl rfl

theorem retireNode_settled {h : NodeHandle} : Ends (retireNode h) (SettledKernel k) k := by
  refine wp_ask_then (fun _ _ => ?_) fun _ _ => settled_refl
  refine wp_get_then.mpr (wp_ensure_then (fun _ => ?_) fun _ => settled_refl)
  refine wp_ensure_then (fun _ => ?_) fun _ => settled_refl
  have hset : Settled k.state.Unissued k.state.nodes (k.state.nodes.set h.slot none) :=
    settled_of_nodes fun _ _ hx => (set_none_cases hx).1
  exact wp_modify_then.mpr (wp_recordMutation (fun _ _ => hset) fun _ => hset)

theorem markExistential_settled {h : NodeHandle} {existentialId : Nat} {pending : Bool} :
    Ends (markExistential h existentialId pending) (SettledKernel k) k := by
  refine wp_ask_then (fun _ _ => ?_) fun _ _ => settled_refl
  refine wp_ite (fun _ => settled_refl) fun _ => wp_modify_then.mpr ?_
  have hset : ∀ f : Node → Node, (∀ x, (f x).handle = x.handle ∧ (f x).lifecycle = x.lifecycle ∧
      (f x).sort = x.sort ∧ (f x).mark = x.mark) →
      Settled k.state.Unissued k.state.nodes (k.state.updateNode h.slot f).nodes := by
    intro f hf i x hx hact
    obtain ⟨old, hold, rfl⟩ := modify_some hx
    obtain ⟨h1, h2, h3, h4⟩ := hf old
    split
    · rw [if_pos ‹_›, h2] at hact
      exact .inl ⟨old, hold, h1.symm, hact, h3.symm, .inl h4⟩
    · rw [if_neg ‹_›] at hact
      exact .inl ⟨old, hold, rfl, hact, rfl, .inl rfl⟩
  exact wp_recordMutation (fun _ _ => hset _ fun _ => ⟨rfl, rfl, rfl, rfl⟩) fun _ =>
    hset _ fun _ => ⟨rfl, rfl, rfl, rfl⟩

/-- The call writes no mark but those it has to clear: it is not `set_blocked`, and if it is
a step of a transaction, it returns. -/
def KernelOp.SparesMarks (k : TableauKernel) : KernelOp → Prop
  | setBlocked .. => False
  | mergeNodesInTransaction left right dependency =>
    (returned (TableauKernel.mergeNodesInTransaction left right dependency) k).isSome = true
  | pruneSubtreeInTransaction root =>
    (returned (TableauKernel.pruneSubtreeInTransaction root) k).isSome = true
  | _ => True

instance (k : TableauKernel) (o : KernelOp) : Decidable (o.SparesMarks k) := by
  unfold KernelOp.SparesMarks
  cases o <;> infer_instance

/-- **Calls leave the marks alone**, unless they bring a saved state back. -/
theorem KernelOp.settled (o : KernelOp) (hk : KernelInv k) (hspares : o.SparesMarks k)
    (hrestored : o.restored k = []) : SettledKernel k (final o.run k) := by
  by_cases hagenda : o.onAgenda = true
  · exact ((o.agendaFramed hagenda).final k : SameNodes k _).settled
  cases hstack : o.onStack with
  | true =>
    have hstep := o.stackStep hstack k
    generalize final o.run k = k' at hstep ⊢
    -- a step back to a branch brings its snapshot back
    have hback : ∀ {level : Nat} {b : Branch}, k.branches[level]? = some b →
        k.branches[level]?.toList.map (·.snapshot.state) ≠ [] := fun hb => by rw [hb]; exact nofun
    cases hstep with
    | backtrackTo hb | stop hb | advance hb | exhaust hb => exact absurd hrestored (hback hb)
    | reset => cases hrestored
    | reuse hk' =>
      rw [hk']
      exact SameNodes.settled rfl
    | undone => exact settled_undo rfl
    | _ => exact SameNodes.settled rfl
  | false =>
    have hs := hk.sound
    -- a failed transaction is undone as a whole
    have hundo : ∀ {α : Type} {m : KernelM α}, wp m (fun _ => SettledKernel k) (fun _ _ => True) k →
        Ends (atomic m) (SettledKernel k) k :=
      fun h => wp_orUndo.mpr (wp_fail h fun _ _ _ => settled_undo rfl)
    -- a step of a transaction is not, so it has to return
    have hreturns : ∀ {α : Type} {m : KernelM α} {E : NativeError → TableauKernel → Prop},
        (returned m k).isSome = true → wp m (fun _ => SettledKernel k) E k →
        SettledKernel k (final (discard m) k) := by
      intro α m E hr h
      obtain ⟨a, ha⟩ := Option.isSome_iff_exists.mp hr
      rw [show final (discard m) k = final m k from final_map]
      exact wp_ok (Q := fun _ => SettledKernel k) h (eq_ok_of_returned ha)
    cases o with
    | createNode => exact ends_iff.mp (wp_discard (createNode_settled hs.state))
    | retireNode => exact ends_iff.mp retireNode_settled
    | markExistential => exact ends_iff.mp markExistential_settled
    | setBlocked => cases hspares
    | addFact =>
      exact ends_iff.mp (wp_discard
        (wp_mono addFactDetailed_nodes (fun _ _ h => h.settled) fun _ _ h => h.settled))
    | mergeNodes =>
      refine ends_iff.mp (wp_discard (wp_ask_then (fun _ hvalid => hundo ?_)
        fun _ _ => settled_refl))
      exact wp_mono (wp_mergeNodesInner (p := .all) hs (validateDependency_below hs hvalid))
        (fun _ _ h => h.2.mono) fun _ _ _ => trivial
    | mergeNodesInTransaction =>
      exact hreturns hspares (wp_imp (wp_mergeNodesInTransaction (p := .all) hs)
        fun _ _ h => h.2.mono)
    | pruneSubtree =>
      refine ends_iff.mp (wp_discard (wp_ask_then (fun _ _ => hundo ?_) fun _ _ => settled_refl))
      exact wp_mono (wp_pruneSubtreeInner (p := .all) _ hs fun _ _ _ _ _ _ => trivial)
        (fun _ _ h => h.2.2.mono) fun _ _ _ => trivial
    | pruneSubtreeInTransaction =>
      exact hreturns hspares (wp_imp (wp_pruneSubtreeInTransaction (p := .all) _ hs
        fun _ _ _ _ _ _ => trivial) fun _ _ h => h.2.2.mono)
    | promoteCoreFact =>
      exact ends_iff.mp (wp_mono promoteCoreFact_nodes (fun _ _ h => h.settled)
        fun _ _ h => h.settled)
    | beginOperation | pushBranch | backtrackTo | advanceBranch | resetToOperationRoot
    | strengthenDisjunction | pushExistentialReuseBranch => cases hstack
    | _ => exact absurd rfl hagenda

end PyHermit
