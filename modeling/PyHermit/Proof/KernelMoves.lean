import PyHermit.Proof.Moves
import PyHermit.Proof.Stack

/-!
# Every mutator moves the kernel

Each mutator of `PyHermit.Store.Kernel` that leaves the branch stack alone makes, from a
sound kernel, primitive changes only, whether it returns or fails. Rollback is one of them,
so `atomic`, `merge_nodes` and `prune_subtree` need no separate argument.
-/

open Std Prog List

namespace PyHermit

open TableauKernel Moves

variable {p : Permit} {n : Nat} {k : TableauKernel}

/-! ## Plumbing -/

theorem recordMutation_does : Does p n recordMutation := by
  intro k _
  refine wp_ask_then (fun length hlength => ?_) fun _ _ => refl
  rw [increment64_ok hlength]
  exact ⟨rfl, rfl, Nat.le_succ _, .refl⟩

variable {α : Type} {dependency : DependencySet} {u : Unit} {m : KernelM α} {h : NodeHandle}
  {arguments : List NodeHandle} {rowId : Nat}

theorem readState_does {f : MutableState → Except NativeError α} : Does p n (readState f) :=
  Does.ask

theorem validateDependency_below (hk : Sound n k)
    (h : k.validateDependency dependency = .ok u) : dependency.Below n := by
  rw [DependencySet.below_iff_maximum]
  intro m hm
  unfold validateDependency at h
  rw [hm] at h
  cases hh : k.highestBranchLevel with
  | none => rw [hh] at h; cases h
  | some highest =>
    rw [hh] at h
    have hle := ensure_eq_ok.mp h
    obtain ⟨last, hlast, rfl⟩ := Option.map_eq_some_iff.mp hh
    rw [getLast?_eq_getElem?] at hlast
    have hlevel := hk.levels _ last hlast
    have hlen := lt_of_getElem? hlast
    have hdepth := hk.depth
    omega

theorem highestBranchLevel_eq (hlevels : Levels k) :
    k.highestBranchLevel.getD 0 = k.branches.length - 1 := by
  unfold highestBranchLevel
  rw [getLast?_eq_getElem?]
  cases hlast : k.branches[k.branches.length - 1]? with
  | none =>
    have hlen := List.getElem?_eq_none_iff.mp hlast
    simp only [Option.map_none, Option.getD_none]
    omega
  | some last => rw [Option.map_some, Option.getD_some, hlevels _ last hlast]

/-! ## Rollback -/

variable {snapshot : StateCheckpoint} {arena : Arena}

theorem prim_restore
    (hlen : snapshot.state.nodes.length = snapshot.state.generations.length) (k : TableauKernel) :
    Prim p n snapshot.state (k.restore snapshot).state := by
  obtain ⟨m, generations, hstate, hlength, hmono⟩ := padded_restore hlen k
  rw [hstate]
  exact .pad ⟨hlength, hmono⟩

theorem StateInv.restore (h : StateInv n snapshot.state) (k : TableauKernel) :
    StateInv n (k.restore snapshot).state :=
  (prim_restore (p := .all) h.lengths k).stateInv h

theorem atomic_moves (hk : Sound n k) (hm : Ends m (Moves p n k) k) :
    Ends (atomic m) (Moves p n k) k := by
  refine wp_orUndo.mpr (wp_fail hm fun _ k' hk' => ?_)
  have hprim : Prim p n k.snapshot.state (k'.restore k.snapshot).state :=
    prim_restore hk.state.lengths k'
  exact ⟨hk'.branches, hk'.operationRoot, le_rfl, .single hprim⟩

/-! ## Nodes -/

/-- `create_node` will not run out of generations or creation identifiers. -/
def Roomy (st : MutableState) : Prop :=
  st.nextCreationId < u32Max ∧
    ∀ slot, st.freeSlots.toList.head? = some slot → st.generations.getD slot 0 < u32Max

instance (st : MutableState) : Decidable (Roomy st) :=
  decidable_of_iff (st.nextCreationId < u32Max ∧
    st.freeSlots.toList.head?.all (st.generations.getD · 0 < u32Max))
    (by simp [Roomy, Option.all_eq_true])

/-- What `take_slot` leaves: an opened slot, out of the free list. -/
structure Took (st : MutableState) (slot : Nat) (arena : Arena)
    (generations : List Nat) : Prop where
  opens : OpensSlot st slot arena
  padded : ∃ m, arena = st.nodes ++ List.replicate m none
  stamps : Stamps st.generations arena generations
  inside : slot < arena.length
  room : Roomy st → generations.getD slot 0 < u32Max

theorem wp_takeSlot (hk : StateInv n k.state) :
    wp takeSlot (fun slot k' => ∃ arena generations, Took k.state slot arena generations ∧
      k' = { k with state := { k.state with
        nodes := arena, generations, freeSlots := k.state.freeSlots.erase slot } })
      (fun _ k' => k' = k) k := by
  refine wp_get_then.mpr ?_
  cases hhead : k.state.freeSlots.toList.head? with
  | some slot =>
    have hmem : slot ∈ k.state.freeSlots := ExtTreeSet.mem_toList.mp (mem_of_mem_head? hhead)
    have hslot := lt_of_getElem? (hk.free slot hmem)
    refine ⟨k.state.nodes, k.state.generations,
      ⟨.reuse hmem, ⟨0, ?_⟩, ⟨hk.lengths.symm, ?_⟩, hslot, ?_⟩, rfl⟩
    · rw [replicate_zero, append_nil]
    · exact fun i => le_rfl
    · exact fun hroom => hroom.2 slot hhead
  | none =>
    -- no slot is free, and the arena grows by one
    refine wp_ask_then (fun slot hslot => ?_) fun _ _ => rfl
    have hlen : slot = k.state.nodes.length := toU32_ok hslot
    subst hlen
    have hempty : k.state.freeSlots.erase k.state.nodes.length = k.state.freeSlots := by
      apply ExtTreeSet.ext_mem
      intro x
      have hx : ¬ x ∈ k.state.freeSlots := by
        rw [← ExtTreeSet.mem_toList, head?_eq_none_iff.mp hhead]
        exact not_mem_nil
      rw [ExtTreeSet.mem_erase]
      exact ⟨fun h => h.2, fun h => absurd h hx⟩
    have hgen : ∀ i, (k.state.generations ++ [0]).getD i 0 = k.state.generations.getD i 0 := by
      intro i
      rw [getD_eq_getElem?_getD, getD_eq_getElem?_getD, getElem?_append]
      split
      · rfl
      · rename_i hi
        rw [getElem?_eq_none (by omega : k.state.generations.length ≤ i),
          getElem?_singleton]
        split <;> rfl
    refine ⟨k.state.nodes ++ [none], k.state.generations ++ [0],
      ⟨.extend, ⟨1, rfl⟩, ⟨?_, ?_⟩, ?_, ?_⟩, ?_⟩
    · rw [length_append, length_append, hk.lengths]
      rfl
    · intro i
      rw [hgen]
    · rw [length_append]
      exact Nat.lt_succ_self _
    · intro _
      rw [hgen, getD_eq_getElem?_getD, getElem?_eq_none (Nat.le_of_eq hk.lengths.symm)]
      decide
    · rw [hempty]

theorem newNodeDepth_ok {kind : NodeKind} {parent : Option NodeHandle} {depth : Nat}
    (h : newNodeDepth arena kind parent = .ok depth) :
    (kind = .tree → ∃ q node, parent = some q ∧ arena.requireActive q = .ok node ∧
      depth = node.treeDepth + 1) ∧ (kind ≠ .tree → parent = none ∧ depth = 0) := by
  unfold newNodeDepth at h
  split at h
  · rename_i htree
    refine ⟨fun _ => ?_, fun hne => absurd htree hne⟩
    cases parent with
    | none => cases h
    | some q =>
      obtain ⟨node, hnode, h⟩ := bind_eq_ok.mp h
      obtain ⟨_, _, h⟩ := bind_eq_ok.mp h
      exact ⟨q, node, rfl, hnode, (increment32_ok h).1⟩
  · rename_i hne
    obtain ⟨_, hnone, h⟩ := bind_eq_ok.mp h
    rw [pure_eq_ok] at h
    exact ⟨fun htree => absurd htree hne, fun _ => ⟨ensure_eq_ok.mp hnone, h.symm⟩⟩

theorem Stamps.set {old : List Nat} {new : List Nat} (h : Stamps old arena new)
    {slot g : Nat} (hg : new.getD slot 0 ≤ g) : Stamps old arena (new.set slot g) where
  length := by rw [length_set]; exact h.length
  mono i := by
    refine Nat.le_trans (h.mono i) ?_
    rw [getD_eq_getElem?_getD, getD_eq_getElem?_getD, getElem?_set]
    split
    · rename_i heq
      subst heq
      split
      · exact hg
      · rename_i hlen
        rw [getElem?_eq_none (by omega)]
    · exact le_rfl

/-- `create_node` adds one node, or (out of counters) at most loses a slot. -/
theorem createNode_moves (hk : Sound n k) (hlose : p.lose ∨ Roomy k.state) (kind : NodeKind)
    (parent : Option NodeHandle) (named : Bool) (source level tag : Option Nat) :
    Ends (createNode kind parent named source level tag) (Moves p n k) k := by
  refine wp_ask_then (fun depth hdepth => ?_) fun _ _ => refl
  refine wp_ensure_then (fun _ => ?_) fun _ => refl
  refine wp_then (wp_takeSlot hk.state) ?_ fun _ _ h => h ▸ refl
  rintro slot _ ⟨arena, generations, took, rfl⟩
  obtain ⟨m, hpad⟩ := took.padded
  -- giving up from here on loses the slot, which a roomy state rules out
  have hlost : ∀ stamped, Stamps k.state.generations arena stamped → p.lose →
      Moves p n k { k with state := { k.state with
        nodes := arena, generations := stamped, freeSlots := k.state.freeSlots.erase slot } } := by
    intro stamped hst hl
    subst hpad
    exact prim (.lose hl hst fun s hs => (ExtTreeSet.mem_erase.mp hs).2)
  refine wp_ask_then (fun generation hgen => ?_) fun e he => ?_
  · obtain ⟨hgen, -⟩ := increment32_ok hgen
    have hstamps : Stamps k.state.generations arena (generations.set slot generation) :=
      took.stamps.set (by rw [hgen]; exact Nat.le_succ _)
    refine wp_modify_then.mpr ?_
    refine wp_get_then.mpr ?_
    refine wp_ask_then (fun next hnext => ?_) fun e he => ?_
    · rw [(increment32_ok hnext).1]
      refine wp_modify_then.mpr ?_
      refine wp_modify_then.mpr ?_
      have hcreate : Prim p n k.state { k.state with
          nodes := arena.set slot (some (Node.fresh ⟨slot, generation⟩ k.state.nextCreationId kind
            parent depth (k.highestBranchLevel.getD 0) named source level tag))
          generations := generations.set slot generation
          freeSlots := k.state.freeSlots.erase slot
          nextCreationId := k.state.nextCreationId + 1 } := by
        refine .create took.opens hstamps ?_
          { slot := rfl, generation := ?_, creationId := rfl, sort := rfl, lifecycle := rfl
            tree := (newNodeDepth_ok hdepth).1, nonTree := (newNodeDepth_ok hdepth).2
            creationCheckpoint := ?_
            representative := rfl, mergeDependency := rfl, blocker := rfl }
        · rw [getD_eq_getElem?_getD, getElem?_set_self (by
            rw [took.stamps.length]; exact took.inside)]
          rfl
        · change k.state.generations.getD slot 0 < generation
          rw [hgen]
          exact Nat.lt_succ_of_le (took.stamps.mono slot)
        · change k.highestBranchLevel.getD 0 ≤ n - 1
          rw [highestBranchLevel_eq hk.levels]
          exact Nat.sub_le_sub_right hk.depth 1
      exact (recordMutation_does.bind fun _ => Does.pure).after hk (prim hcreate)
    · refine hlost _ hstamps (hlose.resolve_right fun hroom => ?_)
      exact bounded_error he hroom.1
  · refine hlost _ took.stamps (hlose.resolve_right fun hroom => ?_)
    exact bounded_error he (took.room hroom)

theorem bucket_empty (hk : StateInv n k.state)
    (hempty : (k.state.indexes.byNode.getD h ∅).isEmpty = true) : k.state.Unmentioned h := by
  intro id row hid hact hmem
  have hin : id ∈ k.state.indexes.byNode.getD h ∅ :=
    hk.indexes.byNode.mem_getD.mpr ⟨row.key, ⟨row, hid, hact, rfl⟩, hmem⟩
  rw [ExtTreeSet.isEmpty_iff.mp hempty] at hin
  exact ExtTreeSet.not_mem_empty hin

theorem retireNode_does (h : NodeHandle) : Does p n (retireNode h) := by
  intro k hk
  refine wp_ask_then (fun node hnode => ?_) fun _ _ => refl
  refine wp_get_then.mpr ?_
  refine wp_ensure_then (fun hempty => ?_) fun _ => refl
  refine wp_ensure_then (fun hrefs => ?_) fun _ => refl
  refine wp_modify_then.mpr ?_
  have hretire : Prim p n k.state { k.state with
      nodes := k.state.nodes.set h.slot none, freeSlots := k.state.freeSlots.insert h.slot } :=
    .retire hnode (bucket_empty hk.state hempty) fun i x hi hne =>
      hrefs x (Arena.mem_liveNodes.mpr ⟨i, hi⟩) hne
  exact recordMutation_does.after hk (prim hretire)

theorem markExistential_does (h : NodeHandle) (existentialId : Nat) (pending : Bool) :
    Does p n (markExistential h existentialId pending) := by
  intro k hk
  refine wp_ask_then (fun node hnode => ?_) fun _ _ => refl
  refine wp_ite (fun _ => refl) fun _ => ?_
  refine wp_modify_then.mpr ?_
  exact recordMutation_does.after hk
    (prim (.touch (Arena.requireActive_eq_ok.mp hnode).1 fun _ => rfl))

theorem bumpBlockingGeneration_does (h : NodeHandle) : Does p n (bumpBlockingGeneration h) := by
  intro k hk
  refine wp_ask_then (fun node hnode => ?_) fun _ _ => refl
  refine wp_ask_then (fun generation _ => ?_) fun _ _ => refl
  exact prim (.touch hnode fun _ => rfl)

theorem requireObject_ok {message : String} (hok : requireObject arena h message = .ok u) :
    ∃ node, arena.requireActive h = .ok node ∧ node.sort = .object := by
  obtain ⟨node, hnode, hsort⟩ := bind_eq_ok.mp hok
  refine ⟨node, hnode, ?_⟩
  have hne := ensure_eq_ok.mp hsort
  cases hs : node.sort with
  | object => rfl
  | data => exact absurd hs hne

theorem setBlocked_does (h : NodeHandle) (blocker : Option NodeHandle) (directly : Bool) :
    Does p n (setBlocked h blocker directly) := by
  intro k hk
  refine wp_ask_then (fun _ hobj => ?_) fun _ _ => refl
  obtain ⟨node, hnode, hsort⟩ := requireObject_ok hobj
  have hwrite (hb : ∀ b, blocker = some b → ∃ x, k.state.nodes.requireActive b = .ok x ∧
      x.sort = .object) : Ends (writeBlock h blocker directly) (Moves p n k) k := by
    refine wp_modify_then.mpr ?_
    exact ((bumpBlockingGeneration_does h).bind fun _ => recordMutation_does).after hk
      (prim (.block hnode hsort hb))
  cases blocker with
  | none => exact hwrite nofun
  | some value =>
    refine wp_ask_then (fun _ hvalue => ?_) fun _ _ => refl
    exact hwrite fun b hb => by cases hb; exact requireObject_ok hvalue

/-! ## Facts -/

/-- The branch stack and the operation root are untouched, and the trail only grew. -/
structure KeepsStack (k k' : TableauKernel) : Prop where
  branches : k'.branches = k.branches
  operationRoot : k'.operationRoot = k.operationRoot
  trailLength : k.trailLength ≤ k'.trailLength

theorem KeepsStack.moves {k' : TableauKernel} (h : KeepsStack k k')
    (hp : Prim p n k.state k'.state) :
    Moves p n k k' := ⟨h.branches, h.operationRoot, h.trailLength, .single hp⟩

/-- What adding a fact does to the state: an active row of the key absorbs the support,
or a new row is inserted. -/
inductive AddsFact (st : MutableState) (key : FactKey) (support : DependencySet) (core : Bool)
    (provenanceId : Option Nat) : FactAddOutcome → MutableState → Prop where
  | absorbed {rowId : Nat} {row : FactRow} : st.indexes.byKey[key]? = some rowId →
      st.facts[rowId]? = some row →
      AddsFact st key support core provenanceId
        { rowId, created := false
          supportChanged := (row.absorb support core provenanceId).supports ≠ row.supports }
        (st.updateFact rowId fun _ => row.absorb support core provenanceId)
  | inserted : st.indexes.byKey[key]? = none →
      AddsFact st key support core provenanceId
        { rowId := st.facts.length, created := true, supportChanged := true }
        (st.insertRow key support core provenanceId)

/-- A successful addition: arguments resolved to active nodes, supports collected. -/
structure AddedFact (k : TableauKernel) (predicateId : Nat) (arguments : List NodeHandle)
    (dependency : DependencySet) (core : Bool) (provenanceId : Option Nat)
    (resolved : List (NodeHandle × DependencySet)) (outcome : FactAddOutcome) (k' : TableauKernel) :
    Prop where
  arity : arguments ≠ []
  validated : k.validateDependency dependency = .ok ()
  resolves : arguments.mapM k.state.nodes.canonicalHandle = .ok resolved
  adds : AddsFact k.state ⟨predicateId, resolved.map (·.1)⟩
    (.union (dependency :: resolved.map (·.2))) core provenanceId outcome k'.state
  stack : KeepsStack k k'

theorem wp_addFactDetailed {predicateId : Nat} {core : Bool} {provenanceId : Option Nat} :
    wp (addFactDetailed predicateId arguments dependency core provenanceId)
      (fun outcome k' => ∃ resolved,
        AddedFact k predicateId arguments dependency core provenanceId resolved outcome k')
      (fun _ k' => k' = k ∨ ∃ resolved outcome,
        AddedFact k predicateId arguments dependency core provenanceId resolved outcome k') k := by
  refine wp_ensure_then (fun harity => ?_) fun _ => .inl rfl
  refine wp_ensure_then (fun _ => ?_) fun _ => .inl rfl
  refine wp_ask_then (fun _ hvalid => ?_) fun _ _ => .inl rfl
  refine wp_ask_then (fun resolved hresolved => ?_) fun _ _ => .inl rfl
  refine wp_get_then.mpr ?_
  -- also the failure of the last step leaves the fact added
  have hadded : ∀ {outcome k'}, KeepsStack k k' →
      AddsFact k.state ⟨predicateId, resolved.map (·.1)⟩ (.union (dependency :: resolved.map (·.2)))
        core provenanceId outcome k'.state →
      AddedFact k predicateId arguments dependency core provenanceId resolved outcome k' :=
    fun hstack hadds => ⟨harity, hvalid, hresolved, hadds, hstack⟩
  cases hkey : k.state.indexes.byKey[(⟨predicateId, resolved.map (·.1)⟩ : FactKey)]? with
  | some rowId =>
    dsimp only
    cases hrow : k.state.facts[rowId]? with
    | none => exact .inl rfl
    | some row =>
      refine wp_modify_then.mpr ?_
      have hdone : ∀ t, k.trailLength ≤ t → AddedFact k predicateId arguments dependency core
          provenanceId resolved _ { k with
            state := k.state.updateFact rowId fun _ => row.absorb
              (.union (dependency :: resolved.map (·.2))) core provenanceId
            trailLength := t } :=
        fun t ht => hadded ⟨rfl, rfl, ht⟩ (.absorbed hkey hrow)
      refine wp_ite (fun _ => ?_) fun _ => ?_
      · exact ⟨resolved, hdone _ le_rfl⟩
      · refine wp_bind.mpr (wp_recordMutation (fun t ht => ⟨resolved, hdone t ht⟩) fun _ => ?_)
        exact .inr ⟨resolved, _, hdone _ le_rfl⟩
  | none =>
    refine wp_ask_then (fun rowId hrowId => ?_) fun _ _ => .inl rfl
    rw [toU32_ok hrowId]
    refine wp_modify_then.mpr ?_
    have hdone : ∀ t, k.trailLength ≤ t → AddedFact k predicateId arguments dependency core
        provenanceId resolved _ { k with
          state := k.state.insertRow ⟨predicateId, resolved.map (·.1)⟩
            (.union (dependency :: resolved.map (·.2))) core provenanceId
          trailLength := t } :=
      fun t ht => hadded ⟨rfl, rfl, ht⟩ (.inserted hkey)
    refine wp_bind.mpr (wp_recordMutation (fun t ht => ⟨resolved, hdone t ht⟩) fun _ => ?_)
    exact .inr ⟨resolved, _, hdone _ le_rfl⟩

theorem resolved_forall {resolved : List (NodeHandle × DependencySet)}
    (h : arguments.mapM arena.canonicalHandle = .ok resolved) :
    ∀ r ∈ resolved, ∃ a ∈ arguments, arena.canonicalHandle a = .ok r := by
  have hall := mapM_eq_ok.mp h
  clear h
  induction hall with
  | nil => exact forall_mem_nil _
  | cons hab _ ih =>
    refine forall_mem_cons.mpr ⟨⟨_, mem_cons_self, hab⟩, fun r hr => ?_⟩
    obtain ⟨a, ha, hr⟩ := ih r hr
    exact ⟨a, mem_cons_of_mem _ ha, hr⟩

variable {predicateId : Nat} {arguments : List NodeHandle} {dependency : DependencySet}
  {core : Bool} {provenanceId : Option Nat} {resolved : List (NodeHandle × DependencySet)}
  {outcome : FactAddOutcome} {k' : TableauKernel}

theorem AddedFact.moves (hk : Sound n k)
    (h : AddedFact k predicateId arguments dependency core provenanceId resolved outcome k') :
    Moves p n k k' := by
  have hargs : ∀ x ∈ resolved.map (·.1), k.state.nodes.Active x := by
    refine forall_mem_map.mpr fun r hr => ?_
    obtain ⟨a, -, hr⟩ := resolved_forall h.resolves r hr
    exact (Arena.canonicalHandle_eq_ok.mp hr).2
  have hsupport : (DependencySet.union (dependency :: resolved.map (·.2))).Below n := by
    refine DependencySet.below_union
      (forall_mem_cons.mpr ⟨validateDependency_below hk h.validated, ?_⟩)
    refine forall_mem_map.mpr fun r hr => ?_
    obtain ⟨a, -, hr⟩ := resolved_forall h.resolves r hr
    exact Arena.representative_below hk.state.merges (Arena.canonicalHandle_eq_ok.mp hr).1
  refine h.stack.moves ?_
  have hadds := h.adds
  generalize k'.state = st' at hadds
  cases hadds with
  | absorbed hkey hrow =>
    obtain ⟨row', hrow', hact, -⟩ := (hk.state.indexes.byKey _ _).mp hkey
    rw [hrow] at hrow'
    cases hrow'
    exact .absorb hrow hact hsupport
  | inserted hkey =>
    refine .insertRow hargs (fun id hlive => ?_) hsupport
    rw [(hk.state.indexes.byKey _ _).mpr hlive] at hkey
    cases hkey

theorem addFactDetailed_does : Does p n
    (addFactDetailed predicateId arguments dependency core provenanceId) := by
  intro k hk
  refine wp_mono wp_addFactDetailed ?_ ?_
  · rintro _ k' ⟨_, h⟩
    exact h.moves hk
  · rintro _ k' (rfl | ⟨_, _, h⟩)
    · exact refl
    · exact h.moves hk

/-- The kernel after a row was taken out of the indexes and deactivated. -/
structure Deactivated (k : TableauKernel) (rowId : Nat) (k' : TableauKernel) : Prop where
  stack : KeepsStack k k'
  state : ∃ row indexes, k.state.facts[rowId]? = some row ∧ row.active = true ∧
    (indexes.Exact fun key id => k.state.live key id ∧ id ≠ rowId) ∧
    k'.state = { k.state with
      facts := k.state.facts.modify rowId fun row => { row with active := false }, indexes }

theorem wp_deactivateFact (hk : StateInv n k.state) : wp (deactivateFact rowId)
      (fun _ k' => (k' = k ∧ ∀ row, k.state.facts[rowId]? = some row → row.active = false) ∨
        Deactivated k rowId k')
      (fun _ k' => k' = k ∨ Deactivated k rowId k') k := by
  refine wp_ask_then (fun row hfact => ?_) fun _ _ => .inl rfl
  have hrow := MutableState.fact_eq_ok.mp hfact
  refine wp_ite (fun hinactive => .inl ⟨rfl, fun row' hrow' => ?_⟩) fun hact => ?_
  · rw [hrow] at hrow'
    cases hrow'
    exact hinactive
  rw [Bool.not_eq_false] at hact
  have hlive : k.state.live row.key rowId := ⟨row, hrow, hact, rfl⟩
  -- the row holds one key
  have honly : ∀ key, k.state.live key rowId → key = row.key := by
    rintro key ⟨row', hrow', -, rfl⟩
    rw [hrow] at hrow'
    cases hrow'
    rfl
  have hdropped : ∀ {id : Nat} (R : FactKey → Prop),
      ((∃ key, k.state.live key id ∧ R key) ∧ ¬ (R row.key ∧ id = rowId)) ↔
        ∃ key, (k.state.live key id ∧ id ≠ rowId) ∧ R key := by
    intro id R
    constructor
    · rintro ⟨⟨key, h1, h2⟩, h3⟩
      refine ⟨key, ⟨h1, fun h4 => ?_⟩, h2⟩
      subst h4
      exact h3 ⟨honly key h1 ▸ h2, rfl⟩
    · rintro ⟨key, ⟨h1, h2⟩, h3⟩
      exact ⟨⟨key, h1, h3⟩, fun h4 => h2 h4.2⟩
  refine wp_modify_then.mpr ?_
  refine wp_then (wp_unfile (P := fun q id => ∃ key, k.state.live key id ∧ key.predicateId = q)
    hk.indexes.byPredicate ⟨row.key, hlive, rfl⟩) ?_ fun _ _ h => h.elim
  rintro _ _ ⟨byPredicate, rfl, hpred⟩
  refine wp_then (wp_unfile_all (P := fun q id => ∃ key, k.state.live key id ∧ q ∈ key.positionKeys)
    hk.indexes.byPosition FactKey.nodup_positionKeys
    fun q hq => ⟨row.key, hlive, hq⟩) ?_ fun _ _ h => h.elim
  rintro _ _ ⟨byPosition, rfl, hpos⟩
  refine wp_then (wp_unfile_all (P := fun h id => ∃ key, k.state.live key id ∧ h ∈ key.arguments)
    hk.indexes.byNode FactKey.nodup_uniqueArguments
    fun q hq => ⟨row.key, hlive, FactKey.mem_uniqueArguments.mp hq⟩) ?_ fun _ _ h => h.elim
  rintro _ _ ⟨byNode, rfl, hnode⟩
  refine wp_modify_then.mpr ?_
  have hexact : FactIndexes.Exact ⟨k.state.indexes.byKey.erase row.key, byNode, byPredicate,
      byPosition⟩ fun key id => k.state.live key id ∧ id ≠ rowId := by
    refine ⟨fun key id => ?_, hnode.congr fun h id => ?_, hpred.congr fun q id => ?_,
      hpos.congr fun q id => ?_⟩
    · rw [ExtTreeMap.getElem?_erase]
      by_cases heq : row.key = key
      · subst heq
        rw [if_pos ReflCmp.compare_self]
        refine ⟨nofun, fun ⟨h1, h2⟩ => ?_⟩
        exact absurd (hk.indexes.key_unique h1 hlive) h2
      · rw [if_neg (by rwa [Std.compare_eq_iff_eq]), hk.indexes.byKey]
        refine ⟨fun h1 => ⟨h1, fun h2 => ?_⟩, fun h1 => h1.1⟩
        subst h2
        exact heq (honly key h1).symm
    · rw [FactKey.mem_uniqueArguments]
      exact hdropped fun key => h ∈ key.arguments
    · rw [eq_comm (a := q)]
      exact hdropped fun key => key.predicateId = q
    · exact hdropped fun key => q ∈ key.positionKeys
  refine wp_recordMutation (fun t ht => .inr ?_) fun _ => .inr ?_
  · exact ⟨⟨rfl, rfl, ht⟩, row, _, hrow, hact, hexact, rfl⟩
  · exact ⟨⟨rfl, rfl, le_rfl⟩, row, _, hrow, hact, hexact, rfl⟩

theorem Deactivated.moves (h : Deactivated k rowId k') : Moves p n k k' := by
  obtain ⟨row, indexes, hrow, hact, hexact, hstate⟩ := h.state
  refine h.stack.moves ?_
  rw [hstate]
  exact .deactivate hrow hact hexact

end PyHermit
