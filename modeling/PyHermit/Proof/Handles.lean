import PyHermit.Proof.Lineage

/-!
# Handles are not handed out twice

State is restored wholesale from snapshots taken at different times, but the generation of
a slot never goes down: `restore` takes the larger of the saved and the current one. A new
handle carries a generation above the slot's, so it differs from every handle before it, and
a stale handle can come back only with a saved state that still has its node.
-/

open Std Prog List

namespace PyHermit

open TableauKernel Arena

/-- The generation of a slot, 0 before it was opened. -/
def MutableState.stamp (st : MutableState) (slot : Nat) : Nat := st.generations.getD slot 0

/-- No accessor answers the handle. -/
structure MutableState.Rejects (st : MutableState) (h : NodeHandle) : Prop where
  node : (st.nodes.requireNode h).isOk = false
  activeNode : (st.nodes.requireActive h).isOk = false
  canonicalHandle : (st.nodes.canonicalHandle h).isOk = false

/-- The slot of the handle holds a node of its generation. -/
def Arena.Held (arena : Arena) (h : NodeHandle) : Prop :=
  ∃ node, arena[h.slot]? = some (some node) ∧ node.handle.generation = h.generation

theorem isOk_eq_false {ε α : Type} {x : Except ε α} : x.isOk = false ↔ ∀ a, x ≠ .ok a := by
  cases x with
  | ok a => exact ⟨nofun, fun h => absurd rfl (h a)⟩
  | error e => exact ⟨fun _ _ => nofun, fun _ => rfl⟩

variable {n : Nat} {p : Permit} {st : MutableState} {h : NodeHandle} {k k' : TableauKernel}
  {snapshot : StateCheckpoint} {slot : Nat} {may : MutableState → Prop} {c c' : Course}
  {o : KernelOp}

/-- All accessors start by looking the node up. -/
theorem rejects_of_requireNode (hnode : ∀ node, st.nodes.requireNode h ≠ .ok node) :
    st.Rejects h := by
  refine ⟨isOk_eq_false.mpr hnode, isOk_eq_false.mpr ?_, isOk_eq_false.mpr ?_⟩
  · intro node hactive
    exact hnode node (requireActive_eq_ok.mp hactive).1
  · intro r hr
    obtain ⟨node, hfirst, -⟩ := bind_eq_ok.mp (canonicalHandle_eq_ok.mp hr).1
    exact hnode node hfirst

theorem rejects_iff (hslotted : st.nodes.Slotted) : st.Rejects h ↔ ¬ st.nodes.Held h := by
  constructor
  · intro hr hheld
    obtain ⟨node, hslot, hgeneration⟩ := hheld
    exact isOk_eq_false.mp hr.node node
      (requireNode_eq_ok.mpr ⟨hslot, hgeneration, (hslotted _ _ hslot).2⟩)
  · intro hnot
    refine rejects_of_requireNode fun node hnode => ?_
    obtain ⟨hslot, hgeneration, -⟩ := requireNode_eq_ok.mp hnode
    exact hnot ⟨node, hslot, hgeneration⟩

/-! ## What a step may do to handles -/

/-- Generations only go up, and a handle that comes to be held is new. -/
structure Carried (st st' : MutableState) : Prop where
  grows : ∀ slot, st.stamp slot ≤ st'.stamp slot
  appears : ∀ h, st'.nodes.Held h → st.nodes.Held h ∨ st.stamp h.slot < h.generation

theorem Carried.refl : Carried st st := ⟨fun _ => le_rfl, fun _ h => .inl h⟩

theorem Carried.trans {st' st'' : MutableState} (h1 : Carried st st') (h2 : Carried st' st'') :
    Carried st st'' := by
  refine ⟨fun slot => Nat.le_trans (h1.grows slot) (h2.grows slot), fun h hheld => ?_⟩
  rcases h2.appears h hheld with hheld | hlt
  · exact h1.appears h hheld
  · exact .inr (Nat.lt_of_le_of_lt (h1.grows h.slot) hlt)

theorem Prim.carried {st' : MutableState} (hp : Prim p n st st') : Carried st st' where
  grows slot := by
    cases hp with
    | other hs _ => exact Nat.le_of_eq (congrArg (·.getD slot 0) hs.generations.symm)
    | pad hs | lose _ hs _ | create _ hs _ _ => exact hs.mono slot
    | _ => exact le_rfl
  appears h hheld := by
    obtain ⟨node, hslot, hgeneration⟩ := hheld
    rcases hp.origin hslot with ⟨old, hold, hbirth⟩ | ⟨hfresh, -⟩
    · exact .inl ⟨old, hold, by rw [← hbirth.handle]; exact hgeneration⟩
    · have hlt := hfresh.generation
      rw [hfresh.slot, hgeneration] at hlt
      exact .inr hlt

theorem Moves.carried (hm : Moves p n k k') : Carried k.state k'.state := by
  have hsteps := hm.steps
  generalize k'.state = st' at hsteps
  induction hsteps with
  | refl => exact .refl
  | tail _ hstep ih => exact ih.trans hstep.carried

/-- The generations after a restore are at least the current and the saved ones. -/
theorem stamp_restore (slot : Nat) : k.state.stamp slot ≤ (k.restore snapshot).state.stamp slot ∧
      snapshot.state.stamp slot ≤ (k.restore snapshot).state.stamp slot := by
  unfold MutableState.stamp TableauKernel.restore
  rw [getD_zipWith_max (by rw [length_resize, length_resize]), getD_resize (Nat.le_max_left _ _),
    getD_resize (Nat.le_max_right _ _)]
  exact ⟨Nat.le_max_right _ _, Nat.le_max_left _ _⟩

theorem restored_node {i : Nat} {node : Node}
    (h : (k.restore snapshot).state.nodes[i]? = some (some node)) :
    snapshot.state.nodes[i]? = some (some node) := by
  have hresized : (resize snapshot.state.nodes
      (max snapshot.state.generations.length k.state.generations.length) none)[i]? =
        some (some node) := h
  unfold resize at hresized
  rw [getElem?_take] at hresized
  split at hresized
  · exact getElem?_pad.mp hresized
  · cases hresized

theorem held_restore (hheld : (k.restore snapshot).state.nodes.Held h) :
    snapshot.state.nodes.Held h := by
  obtain ⟨node, hslot, hgeneration⟩ := hheld
  exact ⟨node, restored_node hslot, hgeneration⟩

theorem rejects_restore (hr : snapshot.state.Rejects h) : (k.restore snapshot).state.Rejects h := by
  refine rejects_of_requireNode fun node hnode => isOk_eq_false.mp hr.node node ?_
  obtain ⟨hslot, hgeneration⟩ := requireNode_eq_ok.mp hnode
  exact requireNode_eq_ok.mpr ⟨restored_node hslot, hgeneration⟩

/-- The call restores nothing and carries the handles on, or a saved state is back. -/
def KernelOp.Hands (o : KernelOp) (k k' : TableauKernel) : Prop :=
  o.restored k = [] ∧ Carried k.state k'.state ∨ ∃ snapshot : StateCheckpoint,
    o.restored k = [snapshot.state] ∧ k'.state = (k.restore snapshot).state

/-- **Every mutator carries the handles on or restores a saved state.** -/
theorem KernelOp.hands (o : KernelOp) (hk : Sound n k) : o.Hands k (final o.run k) := by
  cases hstack : o.onStack with
  | false =>
    refine .inl ⟨?_, (o.moves hk (q := .all) o.permitted_all hstack).carried⟩
    cases o with
    | backtrackTo | advanceBranch | resetToOperationRoot => cases hstack
    | _ => rfl
  | true =>
    have hback : ∀ {level : Nat} {b : Branch}, k.branches[level]? = some b →
        k.branches[level]?.toList.map (·.snapshot.state) = [b.snapshot.state] :=
          fun hb => by rw [hb]; rfl
    have hstep := o.stackStep hstack k
    generalize final o.run k = k' at hstep ⊢
    cases hstep with
    | refused h => exact .inl ⟨h, .refl⟩
    | backtrackTo hb | stop hb | advance hb | exhaust hb => exact .inr ⟨_, hback hb, rfl⟩
    | reset => exact .inr ⟨_, rfl, rfl⟩
    | reuse hk' =>
      rw [hk']
      exact .inl ⟨rfl, fun _ => le_rfl, fun _ h => .inl h⟩
    | undone =>
      exact .inl ⟨rfl, fun _ => (@stamp_restore _ k.snapshot _).2, fun _ h => .inl (held_restore h)⟩
    | _ => exact .inl ⟨rfl, fun _ => le_rfl, fun _ h => .inl h⟩

/-- **A new handle is above everything its slot has been through.** -/
theorem wp_createNode_fresh (hk : StateInv n k.state) {kind : NodeKind} {parent : Option NodeHandle}
    {named : Bool} {individual level tag : Option Nat} :
    wp (createNode kind parent named individual level tag)
      (fun h k' => k.state.stamp h.slot < h.generation ∧ h.generation ≤ k'.state.stamp h.slot)
      (fun _ _ => True) k := by
  refine wp_ask_then (fun _ _ => ?_) fun _ _ => trivial
  refine wp_ensure_then (fun _ => ?_) fun _ => trivial
  refine wp_then (wp_takeSlot hk) ?_ fun _ _ _ => trivial
  rintro slot _ ⟨arena, generations, took, rfl⟩
  refine wp_ask_then (fun generation hgen => ?_) fun _ _ => trivial
  refine wp_modify_then.mpr (wp_get_then.mpr (wp_ask_then (fun next _ => ?_) fun _ _ => trivial))
  refine wp_modify_then.mpr (wp_modify_then.mpr (wp_bind.mpr ?_))
  refine wp_recordMutation (fun _ _ => wp_pure.mpr ⟨?_, ?_⟩) fun _ => trivial
  · rw [(increment32_ok hgen).1]
    exact Nat.lt_succ_of_le (took.stamps.mono slot)
  · change generation ≤ (generations.set slot generation).getD slot 0
    rw [getD_eq_getElem?_getD, getElem?_set_self (by rw [took.stamps.length]; exact took.inside)]
    exact le_rfl

/-- **A retired node is no longer held.** -/
theorem wp_retireNode_held :
    wp (retireNode h) (fun _ k' => ¬ k'.state.nodes.Held h) (fun _ _ => True) k := by
  refine wp_ask_then (fun node hnode => ?_) fun _ _ => trivial
  refine wp_get_then.mpr (wp_ensure_then (fun _ => ?_) fun _ => trivial)
  refine wp_ensure_then (fun _ => wp_modify_then.mpr ?_) fun _ => trivial
  refine wp_recordMutation (fun _ _ => ?_) fun _ => trivial
  rintro ⟨node', hentry, -⟩
  exact (set_none_cases hentry).2 rfl

/-! ## Courses -/

/-- The store invariant under `n` branches in every state of the kernel. The stack may hold
fewer: a rollback leaves it as it is. -/
structure Whole (n : Nat) (k : TableauKernel) : Prop where
  depth : k.branches.length ≤ n
  levels : Levels k
  states : Throughout (StateInv n) k

theorem Whole.sound (h : Whole n k) : Sound n k := ⟨h.depth, h.levels, h.states.state⟩

theorem Whole.mono {n' : Nat} (h : Whole n k) (hn : n ≤ n') : Whole n' k where
  depth := Nat.le_trans h.depth hn
  levels := h.levels
  states := ⟨h.states.state.mono hn, fun b hb =>
    (h.states.snapshots b hb).mono hn, h.states.root.mono hn⟩

theorem Whole.inherit (h : Whole n k) (hin : Inherits k.branches k'.branches)
    (hstate : StateInv n k'.state) (hroot : StateInv n k'.operationRoot.state) : Whole n k' where
  depth := Nat.le_trans hin.length_le h.depth
  levels := hin.levels h.levels
  states := ⟨hstate, hin.snapshots h.states.snapshots, hroot⟩

theorem Whole.push (h : Whole n k) {b : Branch} (hlevel : b.level = k.branches.length)
    (hsnapshot : StateInv n b.snapshot.state) (hstate : StateInv n k'.state)
    (hbranches : k'.branches = k.branches ++ [b]) (hroot : k'.operationRoot = k.operationRoot) :
    Whole (n + 1) k' where
  depth := by
    rw [hbranches, length_append]
    exact Nat.succ_le_succ h.depth
  levels i b' hb' := by
    rw [hbranches] at hb'
    rcases getElem?_concat_iff.mp hb' with hold | ⟨rfl, rfl⟩
    · exact h.levels i b' hold
    · exact hlevel
  states := by
    refine ⟨hstate.mono (Nat.le_succ n), fun b' hb' =>
      ?_, hroot ▸ h.states.root.mono (Nat.le_succ n)⟩
    rw [hbranches] at hb'
    rcases mem_append.mp hb' with hb' | hb'
    · exact (h.states.snapshots b' hb').mono (Nat.le_succ n)
    · rw [mem_singleton.mp hb']
      exact hsnapshot.mono (Nat.le_succ n)

/-- **Every call keeps the kernel whole**, with one branch more at most. -/
theorem Whole.call (h : Whole n k) (o : KernelOp) : Whole (n + 1) (final o.run k) := by
  have hstate := h.states.state
  have hreuse : ∀ {level : Nat} {record : ExistentialReuseRecord},
    StateInv n (k.state.withReuse level record) :=
    hstate.sameStore ⟨rfl, rfl, rfl, rfl, rfl, rfl, le_rfl⟩
  have hback : ∀ {level : Nat} {b : Branch} {stack : List Branch}, k.branches[level]? = some b →
      Inherits k.branches stack → Whole (n + 1) { k.restore b.snapshot with branches := stack } :=
    fun hb hin => Whole.mono (h.inherit hin ((h.states.snapshots _ (mem_of_getElem? hb)).restore k)
      h.states.root) (Nat.le_succ n)
  cases hstack : o.onStack with
  | false =>
    have hm := o.moves h.sound (q := .all) o.permitted_all hstack
    refine (h.inherit ?_ (h.sound.moves hm).state ?_).mono (Nat.le_succ n)
    · rw [hm.branches]
      exact inherits_refl
    · rw [hm.operationRoot]
      exact h.states.root
  | true =>
    have hstep := o.stackStep hstack k
    generalize final o.run k = k' at hstep ⊢
    cases hstep with
    | refused => exact h.mono (Nat.le_succ n)
    | beginOperation => exact Whole.mono (h.inherit inherits_refl hstate hstate) (Nat.le_succ n)
    | pushBranch => exact h.push rfl hstate hstate rfl rfl
    | backtrackTo hb | stop hb | exhaust hb => exact hback hb (inherits_take _)
    | advance hb _ => exact hback hb (inherits_advanced hb _)
    | reset =>
      exact Whole.mono (h.inherit nofun (h.states.root.restore k) h.states.root) (Nat.le_succ n)
    | strengthen =>
      refine Whole.mono (h.inherit (inherits_strengthened _ _) ?_ h.states.root) (Nat.le_succ n)
      exact hstate.sameStore ⟨rfl, rfl, rfl, rfl, rfl, rfl, le_rfl⟩
    | reuse hk' =>
      rw [hk']
      exact h.push rfl hreuse hreuse rfl rfl
    | recorded => exact Whole.mono (h.inherit inherits_refl hreuse h.states.root) (Nat.le_succ n)
    | undone =>
      exact Whole.mono (h.inherit inherits_refl (hstate.restore _) h.states.root) (Nat.le_succ n)

theorem Whole.restored (h : Whole n k) (hst : st ∈ o.restored k) : StateInv n st := by
  have hback : ∀ {level : Nat}, st ∈ k.branches[level]?.toList.map (·.snapshot.state) →
      StateInv n st := by
    intro level hst
    obtain ⟨b, hb, rfl⟩ := mem_map.mp hst
    exact h.states.snapshots b (mem_of_getElem? (Option.mem_toList.mp hb))
  cases o with
  | backtrackTo | advanceBranch => exact hback hst
  | resetToOperationRoot => exact mem_singleton.mp hst ▸ h.states.root
  | _ => cases hst

/-- Every kernel of the course is whole, no handle is ahead of its slot, none came twice. -/
structure Course.Inv (c : Course) : Prop where
  whole : ∃ n, ∀ k ∈ c.current :: c.past, Whole n k
  stamped : ∀ h ∈ c.created, h.generation ≤ c.current.state.stamp h.slot
  nodup : c.created.Nodup

theorem Course.inv_start : Course.start.Inv where
  whole := by
    refine ⟨0, fun k hk => ?_⟩
    cases mem_singleton.mp hk
    exact ⟨le_rfl, kernelInv_new.sound.levels, stateInv_new, nofun, stateInv_new⟩
  stamped _ h := nomatch h
  nodup := nodup_nil

theorem KernelOp.created_fresh (hk : StateInv n k.state) (hcreated : o.created k = some h) :
    k.state.stamp h.slot < h.generation ∧ h.generation ≤ (final o.run k).state.stamp h.slot := by
  cases o with
  | createNode kind parent named individual level tag =>
    have hfinal : final (KernelOp.createNode kind parent named individual level tag).run k =
        final (TableauKernel.createNode kind parent named individual level tag) k := final_map
    rw [hfinal]
    have hspec := wp_ok (wp_createNode_fresh hk) (eq_ok_of_returned hcreated)
    exact hspec
  | _ => cases hcreated

/-- Calls never lower a generation, not even those that restore a state. -/
theorem KernelOp.stamp_le (o : KernelOp) (hk : Sound n k) (slot : Nat) :
    k.state.stamp slot ≤ (final o.run k).state.stamp slot := by
  rcases o.hands hk with ⟨-, hcarried⟩ | ⟨snapshot, -, hstate⟩
  · exact hcarried.grows slot
  · rw [hstate]
    exact (stamp_restore slot).1

/-- A step keeps the kernels before it, and the new one is whole as well. -/
theorem Course.Step.whole (hstep : Course.Step may c c')
    (h : ∀ k ∈ c.current :: c.past, Whole n k) : ∀ k ∈ c'.current :: c'.past, Whole (n + 1) k := by
  have hcurrent := h c.current mem_cons_self
  have hold : ∀ k ∈ c.current :: c.past, Whole (n + 1) k :=
    fun k hk => (h k hk).mono (Nat.le_succ n)
  cases hstep with
  | @call o _ => exact forall_mem_cons.mpr ⟨hcurrent.call o, hold⟩
  | rollBack hbefore _ =>
    refine forall_mem_cons.mpr ⟨Whole.mono ?_ (Nat.le_succ n), hold⟩
    exact hcurrent.inherit inherits_refl ((h _ hbefore).states.state.restore _) hcurrent.states.root
  | restoreFull hbefore _ =>
    refine forall_mem_cons.mpr ⟨Whole.mono ?_ (Nat.le_succ n), hold⟩
    exact (h _ hbefore).inherit inherits_refl ((h _ hbefore).states.state.restore _)
      (h _ hbefore).states.root

/-- **Every step keeps the invariant.** -/
theorem Course.Inv.step (h : c.Inv) (hstep : Course.Step may c c') : c'.Inv := by
  obtain ⟨n, hwhole⟩ := h.whole
  have hcurrent := (hwhole c.current mem_cons_self).sound
  have hgrows : ∀ slot, c.current.state.stamp slot ≤ c'.current.state.stamp slot := by
    intro slot
    cases hstep with
    | @call o _ => exact o.stamp_le hcurrent slot
    | rollBack | restoreFull => exact (stamp_restore slot).1
  have hold : ∀ x ∈ c.created, x.generation ≤ c'.current.state.stamp x.slot :=
    fun x hx => Nat.le_trans (h.stamped x hx) (hgrows x.slot)
  refine ⟨⟨n + 1, hstep.whole hwhole⟩, ?_, ?_⟩
  · cases hstep with
    | call hmay =>
      intro x hx
      rcases mem_append.mp hx with hx | hx
      · exact (KernelOp.created_fresh hcurrent.state (Option.mem_toList.mp hx)).2
      · exact hold x hx
    | rollBack | restoreFull => exact hold
  · cases hstep with
    | call hmay =>
      refine nodup_append.mpr ⟨Option.toList_nodup _, h.nodup, ?_⟩
      intro x hx y hy heq
      -- a new handle is above its slot's generation, an old one is not
      have hnew := (KernelOp.created_fresh hcurrent.state (Option.mem_toList.mp hx)).1
      have hy := h.stamped y hy
      rw [← heq] at hy
      omega
    | rollBack | restoreFull => exact h.nodup

theorem Course.Inv.leads (h : c.Inv) (hleads : Course.Leads may c c') : c'.Inv := by
  induction hleads with
  | refl => exact h
  | tail _ hstep ih => exact ih.step hstep

/-- A handle handed out and no longer held stays so unless a state that holds it is
restored. -/
theorem Course.Step.stale (hinv : c.Inv) (hmem : h ∈ c.created)
    (hstep : Course.Step (fun st => st.Rejects h) c c') (hstale : ¬ c.current.state.nodes.Held h) :
    ¬ c'.current.state.nodes.Held h := by
  have hstamped := hinv.stamped h hmem
  obtain ⟨n, hwhole⟩ := hinv.whole
  have hcurrent := hwhole c.current mem_cons_self
  intro hheld
  cases hstep with
  | @call o hmay =>
    rcases o.hands hcurrent.sound with ⟨-, hcarried⟩ | ⟨snapshot, hrestored, hstate⟩
    · rcases hcarried.appears h hheld with hheld | hlt
      · exact hstale hheld
      · omega
    · have hheld : (final o.run c.current).state.nodes.Held h := hheld
      rw [hstate] at hheld
      have hmem : snapshot.state ∈ o.restored c.current := by
        rw [hrestored]
        exact mem_singleton.mpr rfl
      exact (rejects_iff (hcurrent.restored hmem).slotted).mp (hmay _ hmem) (held_restore hheld)
  | rollBack hbefore hmay | restoreFull hbefore hmay =>
    exact (rejects_iff (hwhole _ hbefore).states.state.slotted).mp hmay (held_restore hheld)

theorem Course.stale_of_leads (hinv : c.Inv) (hmem : h ∈ c.created)
    (hleads : Course.Leads (fun st => st.Rejects h) c c')
    (hstale : ¬ c.current.state.nodes.Held h) :
    ¬ c'.current.state.nodes.Held h := by
  have hrun : h ∈ c'.created ∧ ¬ c'.current.state.nodes.Held h := by
    induction hleads with
    | refl => exact ⟨hmem, hstale⟩
    | tail hbefore hstep ih =>
      refine ⟨?_, hstep.stale (hinv.leads hbefore) ih.1 ih.2⟩
      cases hstep with
      | call hmay => exact mem_append_right _ ih.1
      | rollBack | restoreFull => exact ih.1
  exact hrun.2

/-- **Handles are not reborn.** No handle is returned twice. A retired handle is rejected,
and so is, after a rollback, every handle that the restored state rejects; from then on the
handle is rejected for as long as no state that accepts it is restored. -/
theorem handles_never_reborn {c : Course} (hrun : Course.Leads (fun _ => True) .start c) :
      c.created.Nodup ∧ (∀ h, returned (retireNode h) c.current = some () →
        (final (retireNode h) c.current).state.Rejects h) ∧
      (∀ h (o : KernelOp), ∀ st ∈ o.restored c.current, st.Rejects h →
        (final o.run c.current).state.Rejects h) ∧
      (∀ h, ∀ before ∈ c.current :: c.past, before.state.Rejects h →
        (TableauKernel.rollBack before c.current).state.Rejects h ∧
          (c.current.restoreFullCheckpoint before).state.Rejects h) ∧
      ∀ h ∈ c.created, c.current.state.Rejects h →
        ∀ c', Course.Leads (fun st => st.Rejects h) c c' → c'.current.state.Rejects h := by
  have hinv := Course.inv_start.leads hrun
  obtain ⟨n, hwhole⟩ := hinv.whole
  have hcurrent := hwhole c.current mem_cons_self
  refine ⟨hinv.nodup, ?_, ?_, fun h before _ hr => ⟨rejects_restore hr, rejects_restore hr⟩, ?_⟩
  · intro h hreturned
    have hafter : Whole (n + 1) (final (retireNode h) c.current) := hcurrent.call (.retireNode h)
    have hspec := wp_ok wp_retireNode_held (eq_ok_of_returned hreturned)
    exact (rejects_iff hafter.states.state.slotted).mpr hspec
  · intro h o st hst hr
    rcases o.hands hcurrent.sound with ⟨hnone, -⟩ | ⟨snapshot, hsome, hstate⟩
    · rw [hnone] at hst
      cases hst
    · rw [hsome, mem_singleton] at hst
      rw [hst] at hr
      rw [hstate]
      exact rejects_restore hr
  · intro h hmem hr c' hleads
    have hstale := (rejects_iff hcurrent.states.state.slotted).mp hr
    obtain ⟨n', hlater⟩ := (hinv.leads hleads).whole
    exact (rejects_iff (hlater c'.current mem_cons_self).states.state.slotted).mpr
      (Course.stale_of_leads hinv hmem hleads hstale)

def createRoot : KernelOp := .createNode .root none false none none none

/-- A node is created and retired. -/
def retiredCourse : Course where
  current := runCalls .new [createRoot, .retireNode ⟨0, 1⟩]
  past := [runCalls .new [createRoot], .new]
  created := [⟨0, 1⟩]

theorem leads_retiredCourse : Course.Leads (fun _ => True) .start retiredCourse := by
  have hcreate : Course.Step (fun _ => True) .start ⟨runCalls .new [createRoot], [.new],
    [⟨0, 1⟩]⟩ :=
    .call (o := createRoot) fun _ _ => trivial
  have hretire : Course.Step (fun _ => True) ⟨runCalls .new [createRoot], [.new], [⟨0, 1⟩]⟩
    retiredCourse :=
    .call (o := .retireNode ⟨0, 1⟩) fun _ _ => trivial
  exact .tail (.tail .refl hcreate) hretire

/-- Once retired, the handle stays rejected while new nodes take its slot. -/
theorem retired_slot_reused : (retiredCourse.current.state.Rejects ⟨0, 1⟩) ∧
    (final createRoot.run retiredCourse.current).state.Rejects ⟨0, 1⟩ := by
  have hrejects : retiredCourse.current.state.Rejects ⟨0, 1⟩ :=
    ⟨by decide +kernel, by decide +kernel, by decide +kernel⟩
  refine ⟨hrejects, ?_⟩
  have hstays := (handles_never_reborn leads_retiredCourse).2.2.2.2 ⟨0, 1⟩
    (mem_singleton.mpr rfl) hrejects
  exact hstays _ (.tail .refl (.call (o := createRoot) fun _ h => nomatch h))

/-- A clone taken while the node was live brings the retired node back: after create,
clone, retire and restore, the handle is accepted again. -/
theorem retired_handle_revived :
    returned (retireNode ⟨0, 1⟩) (runCalls .new [createRoot]) = some () ∧
      Course.Leads (fun _ => True) .start retiredCourse ∧
      retiredCourse.current = final (retireNode ⟨0, 1⟩) (runCalls .new [createRoot]) ∧
      Course.Step (fun _ => True) retiredCourse
        ⟨retiredCourse.current.restoreFullCheckpoint (runCalls .new [createRoot]),
          retiredCourse.current :: retiredCourse.past, retiredCourse.created⟩ ∧
      ((retiredCourse.current.restoreFullCheckpoint
        (runCalls .new [createRoot])).state.nodes.requireNode ⟨0, 1⟩).isOk = true := by
  refine ⟨by decide +kernel, leads_retiredCourse, rfl, .restoreFull ?_ trivial, by decide +kernel⟩
  exact mem_cons_of_mem _ mem_cons_self

end PyHermit
