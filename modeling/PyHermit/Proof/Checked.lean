import PyHermit.Proof.WellKept

/-!
# The kernel's own check passes

`KernelKept`: the store invariant and the node table in full, for the state, for every
snapshot under it and for the operation root. Every turn under `Permit.kept` keeps it
(`Turn.kernelKept`), and `check_invariants` accepts every kernel that has it
(`KernelKept.checkInvariants`), so going back to a branch or to the root does not fail.
-/

open Std Prog List

namespace PyHermit

open TableauKernel

/-! ## One state -/

section OneState

variable {n : Nat} {st : MutableState}

theorem DependencySet.Below.maximum_le {d : DependencySet} (h : d.Below n) :
    d.maximum.all (· ≤ n - 1) = true := by
  cases hm : d.maximum with
  | none => rfl
  | some m =>
    have hlt := below_iff_maximum.mp h m hm
    simp only [Option.all_some, decide_eq_true_eq]
    omega

variable {i : Nat} {node : Node} {row : FactRow}

theorem WellKept.checkTree (h : WellKept n st) (hn : st.nodes[i]? = some (some node)) :
    st.checkTree node = .ok () := by
  unfold MutableState.checkTree
  split
  · rename_i hk
    obtain ⟨p, parent, hp, hparent, hdepth⟩ := (h.born i node hn).tree hk
    rw [hp]
    exact bind_eq_ok.mpr ⟨parent, hparent, ensure_eq_ok.mpr hdepth⟩
  · rename_i hk
    exact ensure_eq_ok.mpr ((h.born i node hn).nonTree hk)

theorem WellKept.checkRepresentative (h : WellKept n st) (hi : StateInv n st)
    (hn : st.nodes[i]? = some (some node)) : st.checkRepresentative (n - 1) node = .ok () := by
  unfold MutableState.checkRepresentative
  split
  · rename_i hm
    obtain ⟨r, m, hr, hc⟩ := (h.pointers i node hn).leads hm
    rw [hr]
    obtain ⟨resolved, hresolved, hactive⟩ := hc.representative hi.unmerged hi.slotted
    refine bind_eq_ok.mpr ⟨resolved, hresolved, ensure_eq_ok.mpr ⟨fun heq => ?_, ?_, ?_⟩⟩
    · -- the end of the chain is active, the node is merged
      obtain ⟨x, hx⟩ := hactive
      obtain ⟨hx, hact⟩ := Arena.requireActive_eq_ok.mp hx
      rw [heq, hi.slotted.requireNode_self hn] at hx
      cases hx
      rw [hm] at hact
      cases hact
    · exact Arena.isOk_requireActive.mpr hactive
    · exact (hi.merges i node hn).maximum_le
  · rename_i hm
    exact ensure_eq_ok.mpr (not_not.mp fun hr => hm ((h.pointers i node hn).merged.mpr hr))

theorem StateInv.checkBlocker (hi : StateInv n st)
    (hn : st.nodes[i]? = some (some node)) : st.checkBlocker node = .ok () := by
  unfold MutableState.checkBlocker
  cases hb : node.blocker with
  | none => rfl
  | some b =>
    obtain ⟨-, hsort, x, hx, hxs⟩ := hi.blockers i node hn b hb
    dsimp only
    rw [if_neg (not_not.mpr hsort)]
    exact bind_eq_ok.mpr ⟨x, hx, ensure_eq_ok.mpr hxs⟩

/-- The node loop, from anywhere in the arena: no identifier ahead has been met. -/
theorem WellKept.checkNodeLoop (h : WellKept n st) (hi : StateInv n st)
    (rest : List (Option Node × Nat)) (hrest : ∀ e ∈ rest, st.nodes[e.2]? = some e.1)
    (hdistinct : rest.Pairwise fun a b => a.2 ≠ b.2) (seen : ExtTreeSet Nat)
    (hseen : ∀ node i, (some node, i) ∈ rest → node.creationId ∉ seen) :
    st.checkNodeLoop (n - 1) seen rest = .ok () := by
  induction rest generalizing seen with
  | nil => rfl
  | cons e rest ih =>
    obtain ⟨o, i⟩ := e
    rw [pairwise_cons] at hdistinct
    have htail := ih (fun e he => hrest e (mem_cons_of_mem _ he)) hdistinct.2
    cases o with
    | none =>
      exact htail seen fun node i hmem => hseen node i (mem_cons_of_mem _ hmem)
    | some node =>
      have hn : st.nodes[i]? = some (some node) := hrest _ mem_cons_self
      have hslot := (hi.slotted i node hn).1
      have hnode : st.checkNode (n - 1) seen i node = .ok (seen.insert node.creationId) := by
        refine bind_eq_ok.mpr ⟨(), ensure_eq_ok.mpr ⟨hslot, ?_, ?_,
          (h.born i node hn).checkpoint⟩, ?_⟩
        · exact h.stamped i node hn
        · exact hseen node i mem_cons_self
        · refine bind_eq_ok.mpr ⟨(), h.checkTree hn, ?_⟩
          refine bind_eq_ok.mpr ⟨(), ensure_eq_ok.mpr (h.lineage.sort i node hn), ?_⟩
          refine bind_eq_ok.mpr ⟨(), h.checkRepresentative hi hn, ?_⟩
          exact bind_eq_ok.mpr ⟨(), hi.checkBlocker hn, rfl⟩
      refine bind_eq_ok.mpr ⟨_, hnode, htail _ fun other j hmem hin => ?_⟩
      rw [mem_insert_eq] at hin
      rcases hin with hid | hin
      · have hother : st.nodes[j]? = some (some other) := hrest _ (mem_cons_of_mem _ hmem)
        exact hdistinct.1 _ hmem (h.lineage.distinct i j node other hn hother hid)
      · exact hseen other j (mem_cons_of_mem _ hmem) hin

/-- **The node section of the check passes.** -/
theorem WellKept.checkNodes (h : WellKept n st) (hi : StateInv n st) :
    st.checkNodes (n - 1) = .ok () := by
  refine bind_eq_ok.mpr ⟨(), ensure_eq_ok.mpr ⟨h.free.symm, hi.lengths⟩, ?_⟩
  refine h.checkNodeLoop hi _ (fun e he => mem_zipIdx_iff_getElem?.mp he) ?_ ∅ fun node i _ => ?_
  · rw [pairwise_iff_getElem]
    intro i j hi hj hij
    simp only [getElem_zipIdx]
    omega
  · exact ExtTreeSet.not_mem_empty

theorem RowInv.checkSupports {arena : Arena} {write : Nat} (h : RowInv n arena write row) :
    MutableState.checkSupports (n - 1) row.supports = .ok () := by
  refine forM_eq_ok.mpr fun d hd => ?_
  refine bind_eq_ok.mpr ⟨(), ensure_eq_ok.mpr (h.below d hd).maximum_le, ensure_eq_ok.mpr ?_⟩
  exact fun e he hne => h.antichain d hd e he hne

/-- One round of the fact loop, when the rows before it have been filed. -/
theorem StateInv.checkFact (hi : StateInv n st) {before rest : List FactRow}
    (hfacts : st.facts = before ++ row :: rest) :
    st.checkFact (n - 1) (rebuildIndexes before) (row, before.length) =
      .ok (rebuildIndexes (before ++ [row])) := by
  have hrow : st.facts[before.length]? = some row := by rw [hfacts]; simp
  have hpre : ∀ (i : Nat) (x : FactRow), before[i]? = some x → st.facts[i]? = some x := by
    intro i x hx
    rw [hfacts, getElem?_append_left (lt_of_getElem? hx)]
    exact hx
  have hrebuilt : rebuildIndexes (before ++ [row]) = if row.active then
      (rebuildIndexes before).file row.key row.rowId else rebuildIndexes before := by
    unfold rebuildIndexes
    rw [foldl_append]
    rfl
  unfold MutableState.checkFact
  dsimp only
  rw [if_neg (not_not.mpr (hi.rowIds _ row hrow)), hrebuilt]
  by_cases hact : row.active = true
  · have hinv := hi.rows _ row hrow hact
    rw [if_neg (by rw [hact]; exact nofun), if_pos hact]
    -- an active row before it with its key would be itself
    have hkey : row.key ∉ (rebuildIndexes before).byKey := by
      intro hmem
      have hexact := exact_foldl_file before FactIndexes.exact_empty (fun _ _ _ _ hfalse => hfalse)
        (pairwise_iff_getElem.mpr fun i j hi' hj hij ha hb hk => by
          have heq := hi.key_unique (hpre i _ (getElem?_eq_getElem hi'))
            (hpre j _ (getElem?_eq_getElem hj)) ha hb hk
          omega)
      have hget := ExtTreeMap.getElem?_eq_some_getElem hmem
      rcases (hexact.byKey _ _).mp hget with hfalse | ⟨x, hx, hxact, hxkey, -⟩
      · exact hfalse
      · obtain ⟨i, hxi⟩ := mem_iff_getElem?.mp hx
        have hlt := lt_of_getElem? hxi
        have heq := hi.key_unique (hpre i x hxi) hrow hxact hact hxkey
        omega
    refine bind_eq_ok.mpr ⟨(), ensure_eq_ok.mpr ⟨hkey, hinv.supported⟩, ?_⟩
    refine bind_eq_ok.mpr ⟨(), ensure_eq_ok.mpr hinv.generation, ?_⟩
    refine bind_eq_ok.mpr ⟨(), hinv.checkSupports, ?_⟩
    refine bind_eq_ok.mpr ⟨(), ensure_eq_ok.mpr
      (DependencySet.sortDependencies_of_strict hinv.sorted), ?_⟩
    refine bind_eq_ok.mpr ⟨(), ensure_eq_ok.mpr fun x hx => ?_, rfl⟩
    exact Arena.isOk_requireActive.mpr (hinv.arguments x hx)
  · rw [if_pos (Bool.eq_false_iff.mpr hact), if_neg hact]

/-- **The fact section of the check passes.** -/
theorem StateInv.checkFacts (hi : StateInv n st) (hgen : st.readGeneration ≤ st.writeGeneration) :
    st.checkFacts (n - 1) = .ok () := by
  have hloop : ∀ rest before : List FactRow, st.facts = before ++ rest →
      (rest.zipIdx before.length).foldlM (st.checkFact (n - 1)) (rebuildIndexes before) =
        .ok (rebuildIndexes st.facts) := by
    intro rest
    induction rest with
    | nil =>
      intro before hfacts
      rw [hfacts, append_nil]
      rfl
    | cons row rest ih =>
      intro before hfacts
      refine bind_eq_ok.mpr ⟨_, hi.checkFact hfacts, ?_⟩
      have htail := ih (before ++ [row]) (by rw [hfacts, append_assoc]; rfl)
      rw [length_append] at htail
      exact htail
  refine bind_eq_ok.mpr ⟨_, hloop st.facts [] rfl, bind_eq_ok.mpr ⟨(), ensure_eq_ok.mpr ?_, ?_⟩⟩
  · exact hi.indexes_eq.symm
  · exact ensure_eq_ok.mpr hgen

theorem OtherInv.checkDisjunctions (h : OtherInv n st) (highest : Nat) :
    st.checkDisjunctions highest = .ok () := by
  unfold MutableState.checkDisjunctions MutableState.pendingDisjunctions
  rw [h.disjunctions, h.disjunctionQueue]
  refine bind_eq_ok.mpr ⟨(), ensure_eq_ok.mpr rfl, ensure_eq_ok.mpr fun record hmem => ?_⟩
  exact absurd hmem not_mem_nil

end OneState

/-! ## The kernel -/

structure KernelKept (k : TableauKernel) : Prop where
  inv : KernelInv k
  kept : Leveled WellKept k
  /-- Each branch is at one of its alternatives. -/
  alternatives : ∀ b ∈ k.branches, b.nextAlternative < b.alternatives.length
  /-- A branch was opened no later than what is above it. -/
  trail : ∀ b ∈ k.branches, b.checkpoint.trailLength ≤ k.trailLength
  trails : ∀ (i j : Nat) (b c : Branch), i ≤ j → k.branches[i]? = some b → k.branches[j]? = some c →
    b.checkpoint.trailLength ≤ c.snapshot.trailLength

theorem kernelKept_new : KernelKept .new where
  inv := kernelInv_new
  kept := ⟨wellKept_new, fun i b hb => by simp [TableauKernel.new] at hb, wellKept_new⟩
  alternatives b hb := by simp [TableauKernel.new] at hb
  trail b hb := by simp [TableauKernel.new] at hb
  trails i j b c _ hb := by simp [TableauKernel.new] at hb

namespace KernelKept

variable {k k' : TableauKernel} (h : KernelKept k)
include h

/-- **`check_invariants` accepts the kernel.** -/
theorem checkInvariants : k.checkInvariants = .ok () := by
  unfold TableauKernel.checkInvariants
  rw [highestBranchLevel_eq h.inv.sound.levels]
  have hstate := h.inv.sound.state
  refine bind_eq_ok.mpr ⟨(), h.kept.state.checkNodes hstate, ?_⟩
  refine bind_eq_ok.mpr ⟨(), hstate.checkFacts h.kept.state.other.generations, ?_⟩
  refine bind_eq_ok.mpr ⟨(), h.kept.state.other.queues, ?_⟩
  refine bind_eq_ok.mpr ⟨(), h.kept.state.other.checkDisjunctions _, ?_⟩
  refine bind_eq_ok.mpr ⟨(), ensure_eq_ok.mpr ?_, bind_eq_ok.mpr ⟨(), ensure_eq_ok.mpr ?_, ?_⟩⟩
  · rw [h.kept.state.other.reuse]
    intro entry hmem
    have hget := ExtTreeMap.mem_toList_iff_getElem?_eq_some.mp hmem
    cases hget
  · cases hc : k.state.clash with
    | none => rfl
    | some clash => exact (h.kept.state.other.clash clash hc).maximum_le
  · refine ensure_eq_ok.mpr fun entry hmem => ?_
    have hget := mem_zipIdx_iff_getElem?.mp hmem
    have hb := mem_of_getElem? hget
    exact ⟨h.inv.sound.levels _ _ hget, h.alternatives _ hb, h.trail _ hb⟩

theorem backAt {level : Nat} {b : Branch} (hb : k.branches[level]? = some b)
    {stack : List Branch} (hinv : KernelInv { k.restore b.snapshot with branches := stack })
    (hkept : Leveled WellKept { k.restore b.snapshot with branches := stack })
    (hle : stack.length ≤ level + 1)
    (hstack : ∀ (i : Nat) (b' : Branch), stack[i]? = some b' → ∃ old, k.branches[i]? = some old ∧
      b'.snapshot = old.snapshot ∧ b'.checkpoint = old.checkpoint ∧
      b'.nextAlternative < b'.alternatives.length) :
    KernelKept { k.restore b.snapshot with branches := stack } where
  inv := hinv
  kept := hkept
  alternatives b' hb' := by
    obtain ⟨i, hi⟩ := mem_iff_getElem?.mp hb'
    obtain ⟨-, -, -, -, hlt⟩ := hstack i b' hi
    exact hlt
  trail b' hb' := by
    obtain ⟨i, hi⟩ := mem_iff_getElem?.mp hb'
    obtain ⟨old, hold, -, hcheck, -⟩ := hstack i b' hi
    have hlt : i < stack.length := lt_of_getElem? hi
    rw [hcheck]
    exact h.trails i level old b (by omega) hold hb
  trails i j b' c hij hb' hc := by
    obtain ⟨oldb, holdb, -, hcheck, -⟩ := hstack i b' hb'
    obtain ⟨oldc, holdc, hsnap, -⟩ := hstack j c hc
    rw [hcheck, hsnap]
    exact h.trails i j oldb oldc hij holdb holdc

theorem take_stack {m i : Nat} {b' : Branch} (hb' : (k.branches.take m)[i]? = some b') :
    ∃ old, k.branches[i]? = some old ∧ b'.snapshot = old.snapshot ∧ b'.checkpoint = old.checkpoint ∧
      b'.nextAlternative < b'.alternatives.length := by
  rw [getElem?_take] at hb'
  split at hb'
  · exact ⟨b', hb', rfl, rfl, h.alternatives b' (mem_of_getElem? hb')⟩
  · cases hb'

end KernelKept

/-- Turns that keep the node table in order: no disjunction is strengthened, there is none. -/
def StackPermit.kept : StackPermit := ⟨fun _ => True, True, fun _ _ _ => False⟩

variable {k k' : TableauKernel}

theorem lasting_wellKept : Lasting .kept .kept WellKept where
  mono h hn := h.mono hn
  prim hi hp h := hp.wellKept h hi
  strengthen hq := hq.elim

/-- **Every permitted turn keeps it.** -/
theorem Turn.kernelKept (ht : Turn .kept .kept k k') (h : KernelKept k) : KernelKept k' := by
  have hinv := ht.kernelInv h.inv
  have hkept := ht.leveled lasting_wellKept h.inv h.kept
  cases ht with
  | moves hm =>
    refine ⟨hinv, hkept, by rw [hm.branches]; exact h.alternatives,
      ?_, by rw [hm.branches]; exact h.trails⟩
    rw [hm.branches]
    exact fun b hb => Nat.le_trans (h.trail b hb) hm.trailLength
  | beginOperation => exact ⟨hinv, hkept, h.alternatives, h.trail, h.trails⟩
  | @push b sequence hnew =>
    refine ⟨hinv, hkept, fun b' hb' => ?_, fun b' hb' => ?_, ?_⟩
    · rcases mem_append.mp hb' with hold | hb'
      · exact h.alternatives b' hold
      · rw [mem_singleton.mp hb', hnew.nextAlternative]
        exact Nat.lt_of_lt_of_le Nat.zero_lt_two hnew.alternatives
    · rcases mem_append.mp hb' with hold | hb'
      · exact h.trail b' hold
      · rw [mem_singleton.mp hb', hnew.trailLength]
    · intro i j b' c hij hb' hc
      rcases getElem?_concat_iff.mp hc with hold | ⟨rfl, rfl⟩
      · rcases getElem?_concat_iff.mp hb' with hb' | ⟨rfl, -⟩
        · exact h.trails i j b' c hij hb' hold
        · have hlt := lt_of_getElem? hold
          omega
      · rw [hnew.snapshot]
        rcases getElem?_concat_iff.mp hb' with hb' | ⟨-, rfl⟩
        · exact h.trail b' (mem_of_getElem? hb')
        · rw [hnew.trailLength]
          exact Nat.le_refl k.trailLength
  | @backtrack level b _ hb | @exhaust level b _ hb =>
    have hlt := lt_of_getElem? hb
    exact h.backAt hb hinv hkept (by rw [length_take]; omega)
      fun i b' hb' => h.take_stack hb'
  | @advance level b learned _ hb hnext =>
    have hlt := lt_of_getElem? hb
    refine h.backAt hb hinv hkept (by rw [length_set, length_take]; omega)
      fun i b' hb' => ?_
    rw [getElem?_set] at hb'
    split at hb'
    · rename_i heq
      subst heq
      split at hb'
      · cases hb'
        exact ⟨b, hb, rfl, rfl, hnext⟩
      · cases hb'
    · exact h.take_stack hb'
  | strengthen hq _ => exact hq.elim
  | reset _ =>
    have hnone : ∀ b : Branch, b ∉ ([] : List Branch) := fun _ => not_mem_nil
    refine ⟨hinv, hkept, fun b hb => absurd hb (hnone b), fun b hb => absurd hb (hnone b), ?_⟩
    exact fun i j b c _ hb => by cases hb

theorem Turns.kernelKept (ht : Turns .kept .kept k k') (h : KernelKept k) : KernelKept k' := by
  induction ht with
  | refl => exact h
  | tail _ hturn ih => exact hturn.kernelKept ih

/-- **Going back to a live branch returns.** -/
theorem KernelKept.backtrackTo (h : KernelKept k) {level : Nat}
    (hlevel : level < k.branches.length) : returned (backtrackTo level) k = some () := by
  have hb := getElem?_eq_getElem hlevel
  have hturn : ∀ b, k.branches[level]? = some b → (k.backAt level b).checkInvariants = .ok () :=
    fun b hb => ((Turn.backtrack trivial hb : Turn .kept .kept k _).kernelKept h).checkInvariants
  have hreturns : wp (TableauKernel.backtrackTo level) (fun _ _ => True) (fun _ _ => False) k := by
    refine wp_backtrackTo (fun hnone _ => ?_) (fun _ _ _ => trivial) fun e b hb he => ?_
    · rw [hb] at hnone
      cases hnone
    · rw [hturn b hb] at he
      cases he
  exact returned_of_wp hreturns

/-- **Going back to the operation root returns.** -/
theorem KernelKept.resetToOperationRoot (h : KernelKept k) :
    returned resetToOperationRoot k = some () := by
  have hcheck := ((Turn.reset trivial : Turn .kept .kept k _).kernelKept h).checkInvariants
  have hreturns : wp TableauKernel.resetToOperationRoot (fun _ _ => True) (fun _ _ => False) k := by
    exact wp_modify_then.mpr ((wp_ask_ok hcheck).mpr trivial)
  exact returned_of_wp hreturns

end PyHermit
