import PyHermit.Proof.AgendaMoves

/-!
# What a call can do to the branch stack

A call either moves the kernel under the stack it finds, or takes one of seven turns:
it pushes a branch, goes back to one, moves it to its next alternative, drops it,
strengthens the branches of a disjunction, replaces the operation root, or returns to
it. `KernelOp.turns` says so of every mutator, whether it returns or fails, and the
invariants of runs are proved over `Turn` from there on.
-/

open Std Prog List

namespace PyHermit

open TableauKernel

/-- Restrictions on the turns of a run. -/
structure StackPermit where
  /-- Which branches may be gone back to. -/
  back : Nat → Prop
  /-- Whether the operation root may be returned to. -/
  reset : Prop
  /-- Which disjunctions may be strengthened, to what, and where. -/
  strengthen : TableauKernel → Nat → DependencySet → Prop

def StackPermit.all : StackPermit := ⟨fun _ => True, True, fun _ _ _ => True⟩

/-- A branch as `push_branch` makes it. -/
structure NewBranch (k : TableauKernel) (b : Branch) : Prop where
  level : b.level = k.branches.length
  snapshot : b.snapshot = k.snapshot
  trailLength : b.checkpoint.trailLength = k.trailLength
  alternatives : 2 ≤ b.alternatives.length
  nextAlternative : b.nextAlternative = 0
  noClash : k.state.clash = none

inductive Turn (p : Permit) (q : StackPermit) (k : TableauKernel) : TableauKernel → Prop where
  | moves {k' : TableauKernel} : Moves p k.branches.length k k' → Turn p q k k'
  | beginOperation {sequence : Nat} : k.branches = [] →
      Turn p q k { k with checkpointSequence := sequence, operationRoot := k.snapshot }
  | push {b : Branch} {sequence : Nat} : NewBranch k b →
      Turn p q k { k with checkpointSequence := sequence, branches := k.branches ++ [b] }
  | backtrack {level : Nat} {b : Branch} : q.back level → k.branches[level]? = some b →
      Turn p q k (k.backAt level b)
  | advance {level : Nat} {b : Branch} {learned : DependencySet} : q.back level →
      k.branches[level]? = some b → b.nextAlternative + 1 < b.alternatives.length →
      Turn p q k { k.backAt level b with
        branches := (k.branches.take (level + 1)).set level (advanced b learned) }
  | exhaust {level : Nat} {b : Branch} : q.back level → k.branches[level]? = some b →
      Turn p q k { k.backAt level b with branches := k.branches.take level }
  | strengthen {disjunctionId t : Nat} {dependency : DependencySet} :
      q.strengthen k disjunctionId dependency → k.trailLength ≤ t →
      Turn p q k { k with
        trailLength := t
        state := { k.state with
          disjunctions := k.state.disjunctions.modify disjunctionId fun record =>
            { record with baseDependency := dependency } }
        branches := k.branches.map (strengthened disjunctionId dependency) }
  | reset : q.reset → Turn p q k { k.restore k.operationRoot with branches := [] }

/-! ## The kernel invariant -/

/-- The store invariant of the kernel: of its state under its branches, of every
branch's snapshot under the branches below it, and of the operation root. -/
structure KernelInv (k : TableauKernel) : Prop where
  sound : Sound k.branches.length k
  snapshots : ∀ (i : Nat) (b : Branch), k.branches[i]? = some b → StateInv i b.snapshot.state
  root : StateInv 0 k.operationRoot.state

theorem kernelInv_new : KernelInv .new where
  sound := ⟨le_rfl, fun i b hb => by simp [TableauKernel.new] at hb, stateInv_new⟩
  snapshots i b hb := by simp [TableauKernel.new] at hb
  root := stateInv_new

variable {p : Permit} {q : StackPermit} {k k' : TableauKernel}

/-- Every branch of the second stack stands at its place in the first, with the same state
to go back to. -/
def Inherits (old new : List Branch) : Prop :=
  ∀ (i : Nat) (b' : Branch), new[i]? = some b' →
    ∃ b, old[i]? = some b ∧ b'.level = b.level ∧ b'.snapshot = b.snapshot

section Inherits
variable {stack new : List Branch} {level : Nat} {b : Branch}

theorem inherits_refl : Inherits stack stack := fun _ b hb => ⟨b, hb, rfl, rfl⟩

theorem inherits_take (m : Nat) : Inherits stack (stack.take m) := by
  intro i b' hb'
  rw [getElem?_take] at hb'
  split at hb'
  · exact ⟨b', hb', rfl, rfl⟩
  · cases hb'

theorem inherits_advanced (hb : stack[level]? = some b) (learned : DependencySet) :
    Inherits stack ((stack.take (level + 1)).set level (advanced b learned)) := by
  intro i b' hb'
  rw [getElem?_set] at hb'
  split at hb'
  · rename_i heq
    subst heq
    split at hb'
    · cases hb'
      exact ⟨b, hb, rfl, rfl⟩
    · cases hb'
  · exact inherits_take _ i b' hb'

theorem inherits_strengthened (id : Nat) (dependency : DependencySet) :
    Inherits stack (stack.map (strengthened id dependency)) := by
  intro i b' hb'
  rw [getElem?_map] at hb'
  obtain ⟨b, hb, rfl⟩ := Option.map_eq_some_iff.mp hb'
  refine ⟨b, hb, ?_⟩
  unfold strengthened
  split <;> exact ⟨rfl, rfl⟩

theorem Inherits.length_le (h : Inherits stack new) : new.length ≤ stack.length := by
  refine Nat.le_of_not_lt fun hlt => ?_
  obtain ⟨b, hb, -⟩ := h _ _ (getElem?_eq_getElem hlt)
  exact Nat.lt_irrefl _ (lt_of_getElem? hb)

theorem Inherits.levels (h : Inherits k.branches k'.branches) (hk : Levels k) : Levels k' := by
  intro i b' hb'
  obtain ⟨b, hb, hlevel, -⟩ := h i b' hb'
  rw [hlevel]
  exact hk i b hb

theorem Inherits.leveled {P : Nat → MutableState → Prop} (h : Inherits stack new)
    (hall : ∀ (i : Nat) (b : Branch), stack[i]? = some b → P i b.snapshot.state) :
    ∀ (i : Nat) (b : Branch), new[i]? = some b → P i b.snapshot.state := by
  intro i b' hb'
  obtain ⟨b, hb, -, hsnap⟩ := h i b' hb'
  rw [hsnap]
  exact hall i b hb

theorem Inherits.snapshots {P : MutableState → Prop} (h : Inherits stack new)
    (hall : ∀ b ∈ stack, P b.snapshot.state) : ∀ b ∈ new, P b.snapshot.state := by
  intro b' hb'
  obtain ⟨i, hi⟩ := mem_iff_getElem?.mp hb'
  obtain ⟨b, hb, -, hsnap⟩ := h i b' hi
  rw [hsnap]
  exact hall b (mem_of_getElem? hb)

end Inherits

/-- `P i` holds of what is under `i` branches: of the kernel's state under all of them, of
every snapshot, and of the operation root under none. -/
structure Leveled (P : Nat → MutableState → Prop) (k : TableauKernel) : Prop where
  state : P k.branches.length k.state
  snapshots : ∀ (i : Nat) (b : Branch), k.branches[i]? = some b → P i b.snapshot.state
  root : P 0 k.operationRoot.state

/-- `P` survives further branches and what permitted turns do to a state. -/
structure Lasting (p : Permit) (q : StackPermit) (P : Nat → MutableState → Prop) : Prop where
  mono : ∀ {n m : Nat} {st : MutableState}, P n st → n ≤ m → P m st
  prim : ∀ {n : Nat} {st st' : MutableState}, StateInv n st → Prim p n st st' → P n st → P n st'
  strengthen : ∀ {k : TableauKernel} {id : Nat} {dependency : DependencySet},
    q.strengthen k id dependency →
    StateInv k.branches.length k.state → P k.branches.length k.state →
    ∀ disjunctions, P k.branches.length { k.state with disjunctions := disjunctions }

/-- **Every turn keeps what lasts.** -/
theorem Turn.leveled {P : Nat → MutableState → Prop} (hP : Lasting p q P) (ht : Turn p q k k')
    (hk : KernelInv k) (h : Leveled P k) : Leveled P k' := by
  have hrestore : ∀ {n : Nat} {snapshot : StateCheckpoint}, StateInv n snapshot.state →
      P n snapshot.state → P n (k.restore snapshot).state :=
    fun hi => hP.prim hi (prim_restore hi.lengths k)
  -- a stack of old branches, above the state of the branch gone back to
  have hback : ∀ {level : Nat} {b : Branch} {stack : List Branch}, k.branches[level]? = some b →
      Inherits k.branches stack → level ≤ stack.length →
      Leveled P { k.restore b.snapshot with branches := stack } := fun hb hin hlen =>
    ⟨hP.mono (hrestore (hk.snapshots _ _ hb) (h.snapshots _ _ hb)) hlen,
      hin.leveled h.snapshots, h.root⟩
  cases ht with
  | moves hm =>
    refine ⟨?_, by rw [hm.branches]; exact h.snapshots, by rw [hm.operationRoot]; exact h.root⟩
    rw [hm.branches]
    have key : ∀ st, Relation.ReflTransGen (Prim p k.branches.length) k.state st →
        StateInv k.branches.length st ∧ P k.branches.length st := by
      intro st hst
      induction hst with
      | refl => exact ⟨hk.sound.state, h.state⟩
      | tail _ hstep ih => exact ⟨hstep.stateInv ih.1, hP.prim ih.1 hstep ih.2⟩
    exact (key _ hm.steps).2
  | beginOperation hnil =>
    refine ⟨h.state, h.snapshots, ?_⟩
    have hstate := h.state
    rw [hnil] at hstate
    exact hstate
  | push hnew =>
    refine ⟨hP.mono h.state (by rw [length_append]; exact Nat.le_add_right _ _),
      fun i b' hb' => ?_, h.root⟩
    rcases getElem?_concat_iff.mp hb' with hold | ⟨rfl, rfl⟩
    · exact h.snapshots i b' hold
    · rw [hnew.snapshot]
      exact h.state
  | @backtrack level b _ hb | @exhaust level b _ hb =>
    have hlt := lt_of_getElem? hb
    exact hback hb (inherits_take _) (by rw [length_take]; omega)
  | @advance level b learned _ hb _ =>
    have hlt := lt_of_getElem? hb
    exact hback hb (inherits_advanced hb learned) (by rw [length_set, length_take]; omega)
  | strengthen hq _ =>
    refine ⟨?_, (inherits_strengthened _ _).leveled h.snapshots, h.root⟩
    rw [length_map]
    exact hP.strengthen hq hk.sound.state h.state _
  | reset _ => exact ⟨hrestore hk.root h.root, nofun, h.root⟩

theorem Turn.levels (ht : Turn p q k k') (h : Levels k) : Levels k' := by
  cases ht with
  | moves hm => exact Inherits.levels (by rw [hm.branches]; exact inherits_refl) h
  | beginOperation _ => exact h
  | push hnew =>
    intro i b' hb'
    rcases getElem?_concat_iff.mp hb' with hold | ⟨rfl, rfl⟩
    · exact h i b' hold
    · exact hnew.level
  | backtrack | exhaust => exact (inherits_take _).levels h
  | advance _ hb => exact (inherits_advanced hb _).levels h
  | strengthen => exact (inherits_strengthened _ _).levels h
  | reset => exact nofun

theorem lasting_stateInv : Lasting p q StateInv where
  mono := StateInv.mono
  prim _ hp h := hp.stateInv h
  strengthen _ h _ _ := h.sameStore ⟨rfl, rfl, rfl, rfl, rfl, rfl, le_rfl⟩

/-- **Every turn keeps the kernel invariant.** -/
theorem Turn.kernelInv (ht : Turn p q k k') (h : KernelInv k) : KernelInv k' := by
  have hleveled := ht.leveled lasting_stateInv h ⟨h.sound.state, h.snapshots, h.root⟩
  exact ⟨⟨le_rfl, ht.levels h.sound.levels, hleveled.state⟩, hleveled.snapshots, hleveled.root⟩

/-! ## Every call is a sequence of turns -/

abbrev Turns (p : Permit) (q : StackPermit) : TableauKernel → TableauKernel → Prop :=
  Relation.ReflTransGen (Turn p q)

theorem Turns.kernelInv (ht : Turns p q k k') (h : KernelInv k) : KernelInv k' := by
  induction ht with
  | refl => exact h
  | tail _ hturn ih => exact hturn.kernelInv ih

/-- Where a run under the two permits may make a call. -/
def KernelOp.Permitted (p : Permit) (q : StackPermit) (k : TableauKernel) : KernelOp → Prop
  | createNode .. => p.lose ∨ Roomy k.state
  | pruneSubtree root | pruneSubtreeInTransaction root => MayPrune p k.state.nodes root
  | backtrackTo level | advanceBranch level _ => q.back level
  | resetToOperationRoot => q.reset
  | strengthenDisjunction id dependency => q.strengthen k id dependency
  | beginOperation | retireNode .. | markExistential .. | setBlocked .. | addFact .. | pushBranch ..
  | mergeNodes .. | mergeNodesInTransaction .. | promoteCoreFact .. => True
  | _ => p = .all

theorem KernelOp.permitted_all (o : KernelOp) : o.Permitted .all .all k := by
  cases o with
  | createNode => exact .inl trivial
  | pruneSubtree | pruneSubtreeInTransaction => exact fun _ _ _ _ _ _ => trivial
  | backtrackTo | advanceBranch | resetToOperationRoot | strengthenDisjunction | beginOperation
  | retireNode | markExistential | setBlocked | addFact | pushBranch | mergeNodes
  | mergeNodesInTransaction | promoteCoreFact => exact trivial
  | _ => exact rfl

theorem StackStep.turns {o : KernelOp} (h : StackStep k o k') (hk : KernelInv k)
    (ho : o.Permitted p q k) : Turns p q k k' := by
  have hrecord : ∀ t record, k.trailLength ≤ t → Moves .all k.branches.length k { k with
      state := k.state.withReuse k.branches.length record, trailLength := t } := fun t record ht =>
    ⟨rfl, rfl, ht, .single (.other ⟨rfl, rfl, rfl, rfl, rfl, rfl, le_rfl⟩ trivial)⟩
  cases h with
  | refused => exact .refl
  | beginOperation hnil => exact .single (.beginOperation hnil)
  | pushBranch halternatives hclash =>
    exact .single (.push ⟨rfl, rfl, rfl, halternatives, rfl, hclash⟩)
  | backtrackTo hb | stop hb => exact .single (.backtrack ho hb)
  | advance hb hlt => exact .single (.advance ho hb hlt)
  | exhaust hb => exact .single (.exhaust ho hb)
  | reset => exact .single (.reset ho)
  | strengthen ht => exact .single (.strengthen ho ht)
  | reuse hk' ht hclash =>
    cases ho
    rw [hk']
    exact .head (.moves (hrecord _ _ ht))
      (.single (.push ⟨rfl, rfl, rfl, Nat.le_refl 2, rfl, hclash⟩))
  | recorded =>
    cases ho
    exact .single (.moves (hrecord _ _ le_rfl))
  | @undone _ _ _ _ after =>
    cases ho
    have hprim : Prim .all k.branches.length k.snapshot.state (after.restore k.snapshot).state :=
      prim_restore hk.sound.state.lengths after
    exact .single (.moves ⟨rfl, rfl, le_rfl, .single hprim⟩)

theorem wp_discard {α : Type} {m : KernelM α} {P : TableauKernel → Prop}
    (h : Ends m P k) : Ends (discard m) P k :=
  wp_map.mpr h

/-- **A call that leaves the stack alone moves the kernel.** -/
theorem KernelOp.moves {n : Nat} (o : KernelOp) (hk : Sound n k) (ho : o.Permitted p q k)
    (hstack : o.onStack = false) : Moves p n k (final o.run k) := by
  refine ends_iff.mp ?_
  cases o with
  | beginOperation | pushBranch | backtrackTo | advanceBranch | resetToOperationRoot
  | strengthenDisjunction | pushExistentialReuseBranch => cases hstack
  | createNode => exact wp_discard (createNode_moves hk ho _ _ _ _ _ _)
  | retireNode => exact retireNode_does _ k hk
  | markExistential => exact markExistential_does _ _ _ k hk
  | setBlocked => exact setBlocked_does _ _ _ k hk
  | addFact => exact wp_discard (addFactDetailed_does k hk)
  | mergeNodes => exact wp_discard (mergeNodes_does k hk)
  | mergeNodesInTransaction => exact wp_discard (mergeNodesInTransaction_does k hk)
  | pruneSubtree => exact wp_discard (pruneSubtree_moves _ hk ho)
  | pruneSubtreeInTransaction => exact wp_discard (pruneSubtreeInTransaction_moves _ hk ho)
  | promoteCoreFact => exact promoteCoreFact_does _ k hk
  | _ =>
    cases ho
    exact KernelOp.agendaFramed _ rfl k

/-- **Every call takes permitted turns only**, whether it returns or fails. -/
theorem KernelOp.turns (o : KernelOp) (hk : KernelInv k) (ho : o.Permitted p q k) :
    Turns p q k (final o.run k) := by
  cases hstack : o.onStack with
  | true => exact (o.stackStep hstack k).turns hk ho
  | false => exact .single (.moves (o.moves hk.sound ho hstack))

end PyHermit
