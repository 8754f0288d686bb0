import PyHermit.Proof.Frames

/-!
# Who touches the branch stack

Most mutators leave the branch stack and the operation root exactly as they are, whatever
state they start from and whether they return or fail. No invariant of the state is needed,
so it also holds of kernels that have lost theirs. All that is kept about the state is that
the node arena and the generation table go together, which `restore` relies on.
-/

open Std Prog List

namespace PyHermit

open TableauKernel

/-- The arena has one generation per slot. -/
def Even (st : MutableState) : Prop := st.nodes.length = st.generations.length

/-- The branch stack and the operation root are as before, and so is the evenness of
the arena. -/
structure StackKept (k k' : TableauKernel) : Prop where
  branches : k'.branches = k.branches
  operationRoot : k'.operationRoot = k.operationRoot
  even : Even k.state → Even k'.state

/-- The disjunctions are as before too. -/
structure Keeps (k k' : TableauKernel) : Prop extends StackKept k k' where
  disjunctions : k'.state.disjunctions = k.state.disjunctions

theorem StackKept.trans {k1 k2 k3 : TableauKernel} (h1 : StackKept k1 k2) (h2 : StackKept k2 k3) :
    StackKept k1 k3 :=
  ⟨h2.branches.trans h1.branches, h2.operationRoot.trans h1.operationRoot, fun h =>
    h2.even (h1.even h)⟩

instance : Std.Refl StackKept := ⟨fun _ => ⟨rfl, rfl, fun h => h⟩⟩

instance : IsTrans TableauKernel StackKept := ⟨fun _ _ _ h1 h2 => h1.trans h2⟩

instance : Std.Refl Keeps := ⟨fun _ => ⟨⟨rfl, rfl, fun h => h⟩, rfl⟩⟩

instance : IsTrans TableauKernel Keeps :=
  ⟨fun _ _ _ h1 h2 => ⟨h1.toStackKept.trans h2.toStackKept, h2.disjunctions.trans h1.disjunctions⟩⟩

variable {α : Type} {l : List α} {fill : α} {i : Nat} {st : MutableState}

theorem Keeps.stack {m : KernelM α} (h : Within Keeps m) : Within StackKept m :=
  h.mono fun _ _ hk => hk.toStackKept

/-! ## Plumbing -/

theorem modifyState_keeps {f : MutableState → MutableState} (hf : ∀ st, Even st → Even (f st))
    (hd : ∀ st, (f st).disjunctions = st.disjunctions := by exact fun _ => rfl) :
    Within Keeps (modifyState f) :=
  within_modify fun k => ⟨⟨rfl, rfl, hf k.state⟩, hd k.state⟩

/-! ### Restoring -/

variable {length : Nat} {snapshot : StateCheckpoint}

theorem length_resize : (resize l length fill).length = length := by
  unfold resize
  rw [length_take, length_append, length_replicate]
  omega

theorem resize_eq (h : l.length ≤ length) :
    resize l length fill = l ++ List.replicate (length - l.length) fill := by
  apply take_of_length_le
  rw [length_append, length_replicate]
  omega

theorem getD_resize {l : List Nat} (h : l.length ≤ length) :
    (resize l length 0).getD i 0 = l.getD i 0 := by
  rw [resize_eq h, getD_eq_getElem?_getD, getD_eq_getElem?_getD, getElem?_append]
  split
  · rfl
  · rename_i hi
    rw [getElem?_eq_none (by omega : l.length ≤ i), getElem?_replicate]
    split <;> rfl

theorem getD_zipWith_max {a b : List Nat} (h : a.length = b.length) :
    (List.zipWith max a b).getD i 0 = max (a.getD i 0) (b.getD i 0) := by
  rw [getD_eq_getElem?_getD, getD_eq_getElem?_getD, getD_eq_getElem?_getD,
    getElem?_zipWith]
  by_cases hi : i < a.length
  · rw [getElem?_eq_getElem hi, getElem?_eq_getElem (by omega : i < b.length)]
    rfl
  · rw [getElem?_eq_none (by omega), getElem?_eq_none (by omega : b.length ≤ i)]
    rfl

/-- The state with empty slots appended to its arena, and its generations raised. -/
def Padded (st st' : MutableState) : Prop :=
  ∃ (m : Nat) (generations : List Nat), st' = { st with
      nodes := st.nodes ++ List.replicate m none
      generations := generations
      freeSlots := emptySlots (st.nodes ++ List.replicate m none) } ∧
    generations.length = (st.nodes ++ List.replicate m none).length ∧
    ∀ i, st.generations.getD i 0 ≤ generations.getD i 0

/-- Restoring a snapshot gives its state back, with whatever slots were opened since
appended empty. -/
theorem padded_restore (heven : Even snapshot.state) (k : TableauKernel) :
    Padded snapshot.state (k.restore snapshot).state := by
  let length := max snapshot.state.generations.length k.state.generations.length
  have hle : snapshot.state.nodes.length ≤ length := by
    rw [heven]; exact Nat.le_max_left _ _
  have hnodes : resize snapshot.state.nodes length none = snapshot.state.nodes ++
      List.replicate (length - snapshot.state.nodes.length) none := resize_eq hle
  refine ⟨length - snapshot.state.nodes.length,
    List.zipWith max (resize snapshot.state.generations length 0)
    (resize k.state.generations length 0),
    ?_, ?_, fun i => ?_⟩
  · rw [← hnodes]
    rfl
  · rw [length_zipWith, length_resize, length_resize, length_append, length_replicate]
    omega
  · rw [getD_zipWith_max (by rw [length_resize, length_resize]), getD_resize (Nat.le_max_left _ _)]
    exact Nat.le_max_left _ _

theorem even_restore {k : TableauKernel} : Even (k.restore snapshot).state := by
  unfold Even TableauKernel.restore
  rw [length_resize, length_zipWith, length_resize, length_resize, Nat.min_self]

/-! ## Frames -/

theorem even_updateNode {slot : Nat} {f : Node → Node} (h : Even st) :
    Even (st.updateNode slot f) := by
  unfold Even MutableState.updateNode
  rw [length_modify]
  exact h

theorem Even.sameArena {st' : MutableState} (h : Even st) (hsame : SameArena st st') :
    Even st' := by
  unfold Even
  rw [hsame.nodes, hsame.generations]
  exact h

instance : FreeFrame StackKept where
  trail _ _ := ⟨rfl, rfl, fun h => h⟩
  sequence _ _ := ⟨rfl, rfl, fun h => h⟩
  store _ _ hsame _ := ⟨rfl, rfl, fun h => h.sameArena hsame⟩
  node _ _ _ _ := ⟨rfl, rfl, even_updateNode⟩
  undo _ _ h := ⟨h.branches, h.operationRoot, fun _ => even_restore⟩
  agenda _ _ hsame := ⟨rfl, rfl, fun h => h.sameArena hsame⟩

instance : Frame Keeps where
  trail k n := ⟨Frame.trail k n, rfl⟩
  sequence k n := ⟨Frame.sequence k n, rfl⟩
  store k st hsame hd := ⟨Frame.store k st hsame hd, hd⟩
  node k slot f hf := ⟨Frame.node k slot f hf, rfl⟩
  undo k k' h := ⟨Frame.undo k k' h.toStackKept, rfl⟩

/-! ## Opening and retiring nodes -/

theorem takeSlot_keeps : Within Keeps takeSlot := by
  refine within_get.bind fun k => ?_
  cases k.state.freeSlots.toList.head? with
  | some slot => exact (modifyState_keeps (by exact fun _ h => h)).bind fun _ => within_pure
  | none =>
    refine within_ask.bind fun _ => (modifyState_keeps ?_).bind fun _ => within_pure
    intro st h
    unfold Even at h ⊢
    rw [length_append, length_append, h]
    rfl

theorem createNode_keeps {kind : NodeKind} {parent : Option NodeHandle} {named : Bool}
    {individual level tag : Option Nat} :
    Within Keeps (createNode kind parent named individual level tag) := by
  refine within_ask.bind fun _ => within_ensure.bind fun _ => takeSlot_keeps.bind fun slot =>
    within_ask.bind fun generation => (modifyState_keeps ?_).bind fun _ =>
    within_get.bind fun _ => within_ask.bind fun _ =>
      (modifyState_keeps (by exact fun _ h => h)).bind fun _ =>
    (modifyState_keeps ?_).bind fun _ => recordMutation_frame.bind fun _ => within_pure
  · intro st h
    unfold Even at h ⊢
    rw [length_set]
    exact h
  · intro st h
    unfold Even at h ⊢
    rw [length_set]
    exact h

theorem retireNode_keeps {h : NodeHandle} : Within Keeps (retireNode h) := by
  refine within_ask.bind fun _ => within_get.bind fun _ => within_ensure.bind fun _ =>
    within_ensure.bind fun _ => (modifyState_keeps ?_).bind fun _ => recordMutation_frame
  intro st heven
  unfold Even at heven ⊢
  rw [length_set]
  exact heven

/-! ## The operations on the stack

What each leaves behind, from any kernel. -/

section Operations

variable {k : TableauKernel}

/-- The kernel at a branch: its snapshot is back, and deeper branches are gone. -/
def TableauKernel.backAt (k : TableauKernel) (level : Nat) (b : Branch) : TableauKernel :=
  { k.restore b.snapshot with branches := k.branches.take (level + 1) }

/-- The branches after a ground disjunction came to rest on `dependency`. -/
def strengthened (disjunctionId : Nat) (dependency : DependencySet) (branch : Branch) : Branch :=
  if branch.choiceKind = .groundDisjunction ∧ branch.sourceId = disjunctionId then
    { branch with baseDependency := dependency }
  else branch

variable {Q : Unit → TableauKernel → Prop} {E : NativeError → TableauKernel → Prop}
  {baseDependency : DependencySet}

theorem wp_recordMutation
    (hok : ∀ t, k.trailLength ≤ t → Q () { k with trailLength := t }) (herr : ∀ e, E e k) :
    wp recordMutation Q E k := by
  refine wp_ask_then (fun length hlength => ?_) fun e _ => herr e
  rw [increment64_ok hlength]
  exact hok _ (Nat.le_succ _)

theorem wp_beginOperation (hfail : ∀ e, E e k) (hok : ∀ sequence, k.branches = [] →
      Q () { k with checkpointSequence := sequence, operationRoot := k.snapshot }) :
    wp beginOperation Q E k := by
  refine wp_get_then.mpr (wp_ensure_then (fun hnil => ?_) fun _ => hfail _)
  exact wp_bind.mpr (wp_ask_then (fun sequence _ => hok sequence hnil) fun _ _ => hfail _)

/-- The branch `push_branch` opens. -/
def TableauKernel.opened (k : TableauKernel) (sequence : Nat) (choiceKind : ChoiceKind)
    (alternatives : List Nat) (sourceId : Nat) (baseDependency : DependencySet) : Branch where
  level := k.branches.length
  choiceKind := choiceKind
  checkpoint := ⟨sequence, k.trailLength, s!"branch-{k.branches.length}"⟩
  snapshot := k.snapshot
  alternatives := alternatives
  sourceId := sourceId
  baseDependency := baseDependency
  initialBaseDependency := baseDependency
  nextAlternative := 0
  learnedDependency := .empty

/-- `push_branch` accepts. -/
structure CanPush (k : TableauKernel) (alternatives : List Nat)
    (dependency : DependencySet) : Prop where
  alternatives : 2 ≤ alternatives.length ∧ isUnique alternatives = true
  clash : k.state.clash = none
  level : k.branches.length ≤ u32Max
  dependency : dependency.maximum.all (· < k.branches.length) = true
  sequence : k.checkpointSequence < u64Max

theorem wp_pushBranch {choiceKind : ChoiceKind} {alternatives : List Nat} {sourceId : Nat}
    {Q : Nat → TableauKernel → Prop}
    (hrefused : ¬ CanPush k alternatives baseDependency → ∀ e, E e k)
    (hopened : CanPush k alternatives baseDependency → Q k.branches.length { k with
      checkpointSequence := k.checkpointSequence + 1
      branches := k.branches ++
        [k.opened (k.checkpointSequence + 1) choiceKind alternatives sourceId baseDependency] }) :
    wp (pushBranch choiceKind alternatives sourceId baseDependency) Q E k := by
  refine wp_ensure_then (fun halternatives => ?_) fun h =>
    hrefused (fun hcan => h hcan.alternatives) _
  refine wp_get_then.mpr (wp_ensure_then (fun hclash => ?_) fun h =>
    hrefused (fun hcan => h hcan.clash) _)
  refine wp_ask_then (fun level hlevel => ?_) fun e herror =>
    hrefused (fun hcan => bounded_error herror hcan.level) e
  obtain ⟨rfl, hle⟩ := bounded_ok hlevel
  refine wp_ensure_then (fun hdependency => ?_) fun h => hrefused (fun hcan => h hcan.dependency) _
  refine wp_bind.mpr (wp_ask_then (fun sequence hsequence => ?_) fun e herror =>
    hrefused (fun hcan => bounded_error herror hcan.sequence) e)
  obtain ⟨rfl, hlt⟩ := bounded_ok hsequence
  exact hopened ⟨halternatives, hclash, hle, hdependency, hlt⟩

/-- `backtrack_to` finds no such branch, or goes back to it; whether it then returns
depends on the invariant check. -/
theorem wp_backtrackTo {level : Nat} (hmissing : k.branches[level]? = none → ∀ e, E e k)
    (hback : ∀ b, k.branches[level]? = some b → (k.backAt level b).checkInvariants = .ok () →
      Q () (k.backAt level b))
    (hfail : ∀ e b, k.branches[level]? = some b → (k.backAt level b).checkInvariants = .error e →
      E e (k.backAt level b)) :
    wp (backtrackTo level) Q E k := by
  refine wp_ask_then (fun b hb => ?_) fun e hb => hmissing ?_ e
  · have hlevel : k.branches[level]? = some b := by
      unfold TableauKernel.branch at hb
      split at hb
      · rename_i b' hb'
        cases hb
        exact hb'
      · cases hb
    refine wp_modify_then.mpr ?_
    exact wp_ask (fun _ hok => hback b hlevel hok) fun e he => hfail e b hlevel he
  · unfold TableauKernel.branch at hb
    split at hb
    · cases hb
    · rename_i hnone
      exact hnone

theorem dropLast_set_take {α : Type} {l : List α} {i : Nat} {a : α} (hi : i < l.length) :
    ((l.take (i + 1)).set i a).dropLast = l.take i := by
  apply ext_getElem?
  intro j
  rw [getElem?_dropLast, length_set, length_take, getElem?_set,
    getElem?_take, getElem?_take]
  have hmin : min (i + 1) l.length - 1 = i := by omega
  rw [hmin]
  by_cases hj : j < i
  · rw [if_pos hj, if_neg (by omega), if_pos (by omega), if_pos hj]
  · rw [if_neg hj, if_neg hj]

/-- What `advance_branch` leaves: the kernel as it was, the kernel at the branch, or the
branch moved on or dropped. -/
theorem wp_advanceBranch {level : Nat} {learned : DependencySet}
    {Q : Option Nat → TableauKernel → Prop} (hmissing : k.branches[level]? = none → ∀ e, E e k)
    (hfail : ∀ e b, k.branches[level]? = some b → (k.backAt level b).checkInvariants = .error e →
      E e (k.backAt level b))
    (hexhausted : ∀ b, k.branches[level]? = some b → b.alternatives.length ≤ b.nextAlternative + 1 →
      Q none { k.backAt level b with branches := k.branches.take level })
    (hnext : ∀ b current, k.branches[level]? = some b →
      b.alternatives[b.nextAlternative + 1]? = some current → Q (some current)
      { k.backAt level b with
        branches := (k.branches.take (level + 1)).set level (advanced b learned) })
    (hcheck : ∀ e b, k.branches[level]? = some b → b.nextAlternative + 1 < b.alternatives.length →
      E e { k.backAt level b with
        branches := (k.branches.take (level + 1)).set level (advanced b learned) }) :
    wp (advanceBranch level learned) Q E k := by
  refine wp_bind.mpr (wp_backtrackTo hmissing (fun b hb _ => ?_) hfail)
  have hlt := lt_of_getElem? hb
  refine wp_get_then.mpr ?_
  have hfound : (k.backAt level b).branches[level]? = some b := by
    unfold TableauKernel.backAt
    rw [getElem?_take, if_pos (Nat.lt_succ_self _)]
    exact hb
  rw [hfound]
  refine wp_modify_then.mpr ?_
  cases hcurrent : b.alternatives[b.nextAlternative + 1]? with
  | none =>
    have hcurrent' : (advanced b learned).alternatives[(advanced b learned).nextAlternative]? =
      none :=
      hcurrent
    rw [hcurrent']
    refine wp_modify_then.mpr ?_
    have hdone := hexhausted b hb (List.getElem?_eq_none_iff.mp hcurrent)
    rw [← dropLast_set_take (a := advanced b learned) hlt] at hdone
    exact hdone
  | some current =>
    have hcurrent' : (advanced b learned).alternatives[(advanced b learned).nextAlternative]? =
        some current := hcurrent
    rw [hcurrent']
    refine wp_ask_then (fun _ _ => ?_) fun e _ => ?_
    · exact hnext b current hb hcurrent
    · exact hcheck e b hb (lt_of_getElem? hcurrent)

theorem wp_strengthenDisjunction {disjunctionId : Nat} {dependency : DependencySet}
    {Q : Bool → TableauKernel → Prop} (hfail : ∀ e, E e k) (hsame : Q false k)
    (hok : ∀ t record, k.trailLength ≤ t → k.validateDependency dependency = .ok () →
      k.state.disjunction disjunctionId = .ok record → record.active = true →
      (record.baseDependency.rankCmp dependency).isLE = false → Q true { k with
        trailLength := t
        state := { k.state with
          disjunctions := k.state.disjunctions.modify disjunctionId fun record =>
            { record with baseDependency := dependency } }
        branches := k.branches.map (strengthened disjunctionId dependency) }) :
    wp (strengthenDisjunction disjunctionId dependency) Q E k := by
  refine wp_ask_then (fun _ hvalid => ?_) fun _ _ => hfail _
  refine wp_ask_then (fun record hrecord => ?_) fun _ _ => hfail _
  refine wp_ite (fun _ => hsame) fun happlies => ?_
  rw [not_or, Bool.not_eq_false, Bool.not_eq_true] at happlies
  refine wp_bind.mpr (wp_recordMutation (fun t ht => ?_) fun _ => hfail _)
  refine wp_modify_then.mpr (wp_modify_then.mpr ?_)
  exact hok t record ht hvalid hrecord happlies.1 happlies.2

/-- The state with the record of an existential reuse. -/
def MutableState.withReuse (st : MutableState) (level : Nat) (record : ExistentialReuseRecord) :
    MutableState :=
  { st with existentialReuseBranches := st.existentialReuseBranches.insert level record }

theorem wp_pushExistentialReuseBranch {root : NodeHandle} {predicateId : Nat}
    {supports : List DependencySet} {Q : Nat → TableauKernel → Prop} (hfail : ∀ e, E e k)
    (hrecord : ∀ e record, E e { k with state := k.state.withReuse k.branches.length record })
    (hundo : ∀ e (after : TableauKernel), E e (after.restoreFullCheckpoint k))
    (hok : ∀ (k' : TableauKernel) sequence record, k' = { k with
        state := k.state.withReuse k.branches.length record, trailLength := k'.trailLength } →
      k.trailLength ≤ k'.trailLength → k.state.clash = none → Q k.branches.length { k' with
        checkpointSequence := sequence
        branches := k.branches ++ [k'.opened sequence .merge [0, 1] predicateId baseDependency] }) :
    wp (pushExistentialReuseBranch root predicateId supports baseDependency) Q E k := by
  refine wp_ask_then (fun _ _ => ?_) fun _ _ => hfail _
  refine wp_ensure_then (fun _ => ?_) fun _ => hfail _
  refine wp_then (wp_forM_mem (E := fun _ => (· = k)) (I := (· = k)) (fun _ _ _ h => ?_) rfl)
    ?_ fun _ k' h => by rw [h]; exact hfail _
  · exact wp_ask (fun _ _ => h) fun _ _ => h
  intro _ k1 hk1
  rw [hk1]
  refine wp_ask_then (fun _ _ => ?_) fun _ _ => hfail _
  refine wp_ask_then (fun level hlevel => ?_) fun _ _ => hfail _
  rw [toU32_ok hlevel]
  refine wp_get_then.mpr (wp_ensure_then (fun _ => ?_) fun _ => hfail _)
  refine wp_modify_then.mpr ?_
  refine wp_bind.mpr (wp_recordMutation (fun t ht => ?_) fun _ => hrecord _ _)
  -- a failed push restores the clone taken before the record was written
  refine wp_orUndo.mpr (wp_bind.mpr (wp_pushBranch (fun _ _ => hundo _ _) fun hcan => ?_))
  refine wp_ensure_then (fun _ => ?_) fun _ => hundo _ _
  exact hok _ _ _ rfl ht hcan.clash

/-- What a mutator of the stack can do, whether it returns or fails. -/
inductive StackStep (k : TableauKernel) : KernelOp → TableauKernel → Prop
  | refused {o : KernelOp} : o.restored k = [] → StackStep k o k
  | beginOperation {sequence : Nat} : k.branches = [] → StackStep k .beginOperation
      { k with checkpointSequence := sequence, operationRoot := k.snapshot }
  | pushBranch {choiceKind : ChoiceKind} {alternatives : List Nat} {sourceId sequence : Nat}
      {base : DependencySet} : 2 ≤ alternatives.length → k.state.clash = none →
      StackStep k (.pushBranch choiceKind alternatives sourceId base) { k with
        checkpointSequence := sequence
        branches := k.branches ++ [k.opened sequence choiceKind alternatives sourceId base] }
  | backtrackTo {level : Nat} {b : Branch} : k.branches[level]? = some b →
      StackStep k (.backtrackTo level) (k.backAt level b)
  /-- `advance_branch` fails when it is back. -/
  | stop {level : Nat} {b : Branch} {learned : DependencySet} : k.branches[level]? = some b →
      StackStep k (.advanceBranch level learned) (k.backAt level b)
  | advance {level : Nat} {b : Branch} {learned : DependencySet} : k.branches[level]? = some b →
      b.nextAlternative + 1 < b.alternatives.length →
      StackStep k (.advanceBranch level learned) { k.backAt level b with
        branches := (k.branches.take (level + 1)).set level (advanced b learned) }
  | exhaust {level : Nat} {b : Branch} {learned : DependencySet} : k.branches[level]? = some b →
      StackStep k (.advanceBranch level learned)
      { k.backAt level b with branches := k.branches.take level }
  | reset : StackStep k .resetToOperationRoot { k.restore k.operationRoot with branches := [] }
  | strengthen {id t : Nat} {dependency : DependencySet} {record : GroundDisjunction} :
      k.trailLength ≤ t → k.validateDependency dependency = .ok () →
      k.state.disjunction id = .ok record → record.active = true →
      (record.baseDependency.rankCmp dependency).isLE = false →
      StackStep k (.strengthenDisjunction id dependency) { k with
        trailLength := t
        state := { k.state with
          disjunctions := k.state.disjunctions.modify id fun record =>
            { record with baseDependency := dependency } }
        branches := k.branches.map (strengthened id dependency) }
  | reuse {k' : TableauKernel} {root : NodeHandle} {predicateId sequence : Nat}
      {supports : List DependencySet} {base : DependencySet} {record : ExistentialReuseRecord} :
      k' = { k with
        state := k.state.withReuse k.branches.length record, trailLength := k'.trailLength } →
      k.trailLength ≤ k'.trailLength → k.state.clash = none →
      StackStep k (.pushExistentialReuseBranch root predicateId supports base) { k' with
        checkpointSequence := sequence
        branches := k.branches ++ [k'.opened sequence .merge [0, 1] predicateId base] }
  /-- The record of a reuse is written and the mutation not counted. -/
  | recorded {root : NodeHandle} {predicateId : Nat} {supports : List DependencySet}
      {base : DependencySet} {record : ExistentialReuseRecord} :
      StackStep k (.pushExistentialReuseBranch root predicateId supports base)
      { k with state := k.state.withReuse k.branches.length record }
  | undone {root : NodeHandle} {predicateId : Nat} {supports : List DependencySet}
      {base : DependencySet} {after : TableauKernel} :
      StackStep k (.pushExistentialReuseBranch root predicateId supports base)
      (after.restoreFullCheckpoint k)

theorem KernelOp.stackStep (o : KernelOp) (h : o.onStack = true) (k : TableauKernel) :
    StackStep k o (final o.run k) := by
  have hnone : ∀ {level : Nat}, k.branches[level]? = none →
      k.branches[level]?.toList.map (·.snapshot.state) = [] := fun h => by rw [h]; rfl
  refine (ends_iff (P := StackStep k o)).mp ?_
  cases o with
  | beginOperation =>
    exact wp_beginOperation (fun _ => .refused rfl) fun _ hnil => .beginOperation hnil
  | pushBranch =>
    exact wp_map.mpr (wp_pushBranch (fun _ _ => .refused rfl) fun hcan =>
      .pushBranch hcan.alternatives.1 hcan.clash)
  | backtrackTo =>
    exact wp_backtrackTo (fun hb _ => .refused (hnone hb)) (fun _ hb _ => .backtrackTo hb)
      fun _ _ hb _ => .backtrackTo hb
  | advanceBranch =>
    exact wp_map.mpr (wp_advanceBranch (fun hb _ => .refused (hnone hb)) (fun _ _ hb _ => .stop hb)
      (fun _ hb _ => .exhaust hb) (fun _ _ hb hcurrent => .advance hb (lt_of_getElem? hcurrent))
      fun _ _ hb hlt => .advance hb hlt)
  | resetToOperationRoot => exact wp_modify_then.mpr (wp_ask (fun _ _ => .reset) fun _ _ => .reset)
  | strengthenDisjunction =>
    exact wp_map.mpr (wp_strengthenDisjunction (fun _ => .refused rfl) (.refused rfl)
      fun _ _ ht hvalid hrecord hactive hrank => .strengthen ht hvalid hrecord hactive hrank)
  | pushExistentialReuseBranch =>
    exact wp_map.mpr (wp_pushExistentialReuseBranch (fun _ => .refused rfl) (fun _ _ => .recorded)
      (fun _ _ => .undone) fun _ _ _ hk' ht hclash => .reuse hk' ht hclash)
  | _ => cases h

end Operations

/-- **Every mutator but those of the stack leaves it alone.** -/
theorem KernelOp.stackKept (o : KernelOp) (h : o.onStack = false) : Within StackKept o.run :=
  o.freeFramed ⟨Keeps.stack createNode_keeps, Keeps.stack retireNode_keeps⟩ h

end PyHermit
