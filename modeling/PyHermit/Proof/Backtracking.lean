import PyHermit.Proof.Stack
import PyHermit.Proof.Arena

/-!
# Backtracking is exact

Opening a branch stores a snapshot of the state in the branch itself, so going back is
exact as long as nobody rewrites the branch records up to it. Every mutator that works on
deeper branches leaves them in place (`KernelOp.below`), with one exception:
`strengthen_disjunction` rewrites the base dependency of the live branches over the
disjunction, and backtracking does not bring the old one back (`strengthen_survives`).
-/

open Std Prog List

namespace PyHermit

open TableauKernel

/-! ## The records up to a branch -/

/-- The call works above `level`: it goes back to deeper branches only. -/
def KernelOp.Above (level : Nat) : KernelOp → Prop
  | backtrackTo target | advanceBranch target _ => level < target
  | resetToOperationRoot => False
  | _ => True

/-- `strengthen_disjunction` finds something to strengthen. -/
def TableauKernel.Strengthens (k : TableauKernel) (disjunctionId : Nat)
    (dependency : DependencySet) : Prop :=
  k.validateDependency dependency = .ok () ∧ ∃ record,
    k.state.disjunction disjunctionId = .ok record ∧
    record.active = true ∧ (record.baseDependency.rankCmp dependency).isLE = false

/-- The call changes no base dependency up to `level`. -/
def KernelOp.SparesBases (level : Nat) (k : TableauKernel) : KernelOp → Prop
  | strengthenDisjunction disjunctionId dependency => k.Strengthens disjunctionId dependency →
      ∀ b ∈ k.branches.take (level + 1), b.choiceKind = .groundDisjunction →
        b.sourceId = disjunctionId → b.baseDependency = dependency
  | _ => True

/-- The records up to `level` are there, and are as before. -/
structure SameBelow (level : Nat) (k k' : TableauKernel) : Prop where
  there : level < k'.branches.length
  records : k'.branches.take (level + 1) = k.branches.take (level + 1)

variable {level : Nat} {k k' : TableauKernel} {undo : TableauKernel → TableauKernel → Prop}

theorem SameBelow.of_append (rest : List Branch)
    (h : level < k.branches.length) (hb : k'.branches = k.branches ++ rest) :
    SameBelow level k k' := by
  constructor
  · rw [hb, length_append]
    omega
  · rw [hb, take_append_of_le_length (by omega)]

theorem SameBelow.of_eq (h : level < k.branches.length) (hb : k'.branches = k.branches) :
    SameBelow level k k' :=
  .of_append [] h (by rw [hb, append_nil])

/-- The stack was cut, or changed, above `level` only. -/
theorem SameBelow.of_cut {target : Nat} (h : level < k.branches.length) (htarget : level < target)
    (stack : List Branch) (hb : k'.branches = k.branches.take target ++ stack) :
    SameBelow level k k' := by
  have hlen : level + 1 ≤ (k.branches.take target).length := by
    rw [length_take]
    omega
  constructor
  · rw [hb, length_append]
    omega
  · rw [hb, take_append_of_le_length hlen, take_take, Nat.min_eq_left (by omega)]

theorem set_take_succ {α : Type} {l : List α} {i : Nat} {a : α} (hi : i < l.length) :
    (l.take (i + 1)).set i a = l.take i ++ [a] := by
  rw [take_succ_eq_append_getElem hi, set_append_right i a (by rw [length_take]; omega),
    length_take, Nat.min_eq_left (Nat.le_of_lt hi), Nat.sub_self, set_cons_zero]

theorem strengthened_take {disjunctionId : Nat} {dependency : DependencySet}
    (h : ∀ b ∈ k.branches.take (level + 1), b.choiceKind = .groundDisjunction →
      b.sourceId = disjunctionId → b.baseDependency = dependency) :
    (k.branches.map (strengthened disjunctionId dependency)).take (level + 1) =
      k.branches.take (level + 1) := by
  rw [← map_take]
  refine (map_congr_left fun b hb => ?_).trans (map_id _)
  unfold strengthened
  split
  · rename_i hover
    rw [← h b hb hover.1 hover.2]
    rfl
  · rfl

/-- **A call above `level` that spares the bases leaves the records up to `level`**, whether
it returns or fails. -/
theorem KernelOp.below (o : KernelOp) (hlive : level < k.branches.length)
    (habove : o.Above level) (hspares : o.SparesBases level k) :
    SameBelow level k (final o.run k) := by
  by_cases hstack : o.onStack = true
  · have hstep := o.stackStep hstack k
    generalize final o.run k = k' at hstep ⊢
    cases hstep with
    | refused | beginOperation | recorded | undone => exact .of_eq hlive rfl
    | pushBranch | reuse => exact .of_append _ hlive rfl
    | backtrackTo | stop =>
      exact .of_cut hlive (Nat.lt_succ_of_lt habove) [] (by rw [append_nil]; rfl)
    | advance hb => exact .of_cut hlive habove _ (set_take_succ (lt_of_getElem? hb))
    | exhaust => exact .of_cut hlive habove [] (by rw [append_nil])
    | reset => exact habove.elim
    | strengthen _ hvalid hrecord hactive hrank =>
      refine ⟨?_, strengthened_take (hspares ⟨hvalid, _, hrecord, hactive, hrank⟩)⟩
      rw [length_map]
      exact hlive
  · exact .of_eq hlive ((o.stackKept (by simpa using hstack)).final k).branches

theorem SameBelow.trans {k'' : TableauKernel} (h : SameBelow level k k')
    (h' : SameBelow level k' k'') : SameBelow level k k'' :=
  ⟨h'.there, h'.records.trans h.records⟩

/-- Later calls, transactions and restorations above `level` leave the records up to it. -/
theorem sameBelow_run (hrun : Run (fun o k => o.Above level ∧ o.SparesBases level k) undo k k')
    (hlive : level < k.branches.length) : SameBelow level k k' := by
  refine hrun.induct (I := SameBelow level k) (fun k' o hk' hcall => ?_)
    (fun before after _ hafter _ => ⟨hafter.there, hafter.records⟩)
    (fun before after hbefore _ => ⟨hbefore.there, hbefore.records⟩) (.of_eq hlive rfl)
  exact hk'.trans (o.below hk'.there hcall.1 hcall.2)

theorem KernelOp.even (o : KernelOp) (h : Even k.state) : Even (final o.run k).state := by
  by_cases hstack : o.onStack = true
  · have hstep := o.stackStep hstack k
    generalize final o.run k = k' at hstep ⊢
    cases hstep with
    | backtrackTo | stop | advance | exhaust | reset | undone => exact even_restore
    | reuse hk' =>
      rw [hk']
      exact h
    | _ => exact h
  · exact ((o.stackKept (by simpa using hstack)).final k).even h

theorem even_run {call : KernelOp → TableauKernel → Prop} (hrun : Run call undo k k')
    (h : Even k.state) : Even k'.state :=
  hrun.induct (I := fun k => Even k.state) (fun _ o hk _ => o.even hk)
    (fun _ _ _ _ _ => even_restore) (fun _ _ _ _ => even_restore) h

/-! ## Checks on a padded state -/

section Padding

variable {arena : Arena} {m : Nat} {h : NodeHandle}

theorem requireNode_append_none :
    Arena.requireNode (arena ++ List.replicate m none) h = arena.requireNode h := by
  unfold Arena.requireNode
  rw [getElem?_append]
  by_cases hlen : h.slot < arena.length
  · rw [if_pos hlen]
  · rw [if_neg hlen, getElem?_eq_none (Nat.le_of_not_lt hlen), getElem?_replicate]
    by_cases hm : h.slot - arena.length < m
    · rw [if_pos hm]
    · rw [if_neg hm]

theorem requireActive_append_none :
    Arena.requireActive (arena ++ List.replicate m none) h = arena.requireActive h := by
  unfold Arena.requireActive
  rw [requireNode_append_none]

variable {r : NodeHandle × DependencySet}

/-- A chain followed to its end is followed to the same end with more fuel. -/
theorem representativeLoop_append_none {fuel fuel' : Nat} {node : Node} {seen : List NodeHandle}
    {deps : List DependencySet} (hle : fuel ≤ fuel')
    (hr : arena.representativeLoop fuel node seen deps = .ok r) :
    Arena.representativeLoop (arena ++ List.replicate m none) fuel' node seen deps = .ok r := by
  induction fuel generalizing fuel' node seen deps with
  | zero => cases hr
  | succ fuel ih =>
    obtain ⟨fuel', rfl⟩ : ∃ f, fuel' = f + 1 := ⟨fuel' - 1, by omega⟩
    rw [Arena.representativeLoop] at hr ⊢
    split
    · rename_i hrep
      rw [hrep] at hr
      exact hr
    · rename_i next hrep
      rw [hrep] at hr
      dsimp only at hr
      split
      · rename_i hseen
        rw [if_pos hseen] at hr
        cases hr
      · rename_i hseen
        rw [if_neg hseen] at hr
        obtain ⟨nextNode, hnext, hr⟩ := bind_eq_ok.mp hr
        rw [requireNode_append_none]
        exact bind_eq_ok.mpr ⟨nextNode, hnext, ih (by omega) hr⟩

theorem representative_append_none (hr : arena.representative h = .ok r) :
    Arena.representative (arena ++ List.replicate m none) h = .ok r := by
  obtain ⟨node, hnode, hloop⟩ := bind_eq_ok.mp hr
  unfold Arena.representative
  rw [requireNode_append_none]
  refine bind_eq_ok.mpr ⟨node, hnode, representativeLoop_append_none ?_ hloop⟩
  rw [length_append]
  omega

theorem isOk_canonicalHandle_append_none (hr : (arena.canonicalHandle h).isOk = true) :
    (Arena.canonicalHandle (arena ++ List.replicate m none) h).isOk = true := by
  cases hcanonical : arena.canonicalHandle h with
  | error e => rw [hcanonical] at hr; cases hr
  | ok r =>
    obtain ⟨h1, node, h2⟩ := Arena.canonicalHandle_eq_ok.mp hcanonical
    have hpad : Arena.canonicalHandle (arena ++ List.replicate m none) h = .ok r :=
      Arena.canonicalHandle_eq_ok.mpr ⟨representative_append_none h1, node,
        requireActive_append_none.trans h2⟩
    rw [hpad]
    rfl

end Padding

section PaddedChecks

variable {st st' : MutableState} {highest : Nat} {seen : ExtTreeSet Nat}

theorem checkNodeLoop_none {entries : List (Option Node × Nat)}
    (h : ∀ entry ∈ entries, entry.1 = none) : st.checkNodeLoop highest seen entries = .ok () := by
  induction entries with
  | nil => rfl
  | cons entry rest ih =>
    obtain ⟨o, index⟩ := entry
    obtain rfl : o = none := h _ mem_cons_self
    exact ih fun entry hentry => h entry (mem_cons_of_mem _ hentry)

variable (h : Padded st st')
include h

theorem checkTree_padded (node : Node) : st'.checkTree node = st.checkTree node := by
  obtain ⟨m, generations, rfl, -, -⟩ := h
  unfold MutableState.checkTree
  simp only [requireNode_append_none]

theorem checkRepresentative_padded {node : Node}
    (hok : st.checkRepresentative highest node = .ok ()) :
    st'.checkRepresentative highest node = .ok () := by
  obtain ⟨m, generations, rfl, -, -⟩ := h
  unfold MutableState.checkRepresentative at hok ⊢
  by_cases hmerged : node.lifecycle = .merged
  · rw [if_pos hmerged] at hok ⊢
    cases hrep : node.representative with
    | none => rwa [hrep] at hok
    | some representative =>
      rw [hrep] at hok
      obtain ⟨resolved, hresolved, hensure⟩ := bind_eq_ok.mp hok
      refine bind_eq_ok.mpr ⟨resolved, representative_append_none hresolved, ?_⟩
      simp only [requireActive_append_none]
      exact hensure
  · rwa [if_neg hmerged] at hok ⊢

theorem checkBlocker_padded (node : Node) :
    st'.checkBlocker node = st.checkBlocker node := by
  obtain ⟨m, generations, rfl, -, -⟩ := h
  unfold MutableState.checkBlocker
  simp only [requireActive_append_none]

theorem checkNode_padded {seen' : ExtTreeSet Nat} {index : Nat} {node : Node}
    (hok : st.checkNode highest seen index node = .ok seen') :
    st'.checkNode highest seen index node = .ok seen' := by
  obtain ⟨_, hhandle, hok⟩ := bind_eq_ok.mp hok
  obtain ⟨_, htree, hok⟩ := bind_eq_ok.mp hok
  obtain ⟨_, hsort, hok⟩ := bind_eq_ok.mp hok
  obtain ⟨_, hrep, hok⟩ := bind_eq_ok.mp hok
  obtain ⟨_, hblocker, hok⟩ := bind_eq_ok.mp hok
  obtain ⟨hslot, hgeneration, hfresh, hcheckpoint⟩ := ensure_eq_ok.mp hhandle
  have hmono : st.generations.getD index 0 ≤ st'.generations.getD index 0 := by
    obtain ⟨m, generations, rfl, -, hmono⟩ := h
    exact hmono index
  refine bind_eq_ok.mpr ⟨(), ensure_eq_ok.mpr ⟨hslot, Nat.le_trans hgeneration hmono, hfresh,
    hcheckpoint⟩, ?_⟩
  refine bind_eq_ok.mpr ⟨(), (checkTree_padded h node).trans htree, ?_⟩
  refine bind_eq_ok.mpr ⟨(), hsort, ?_⟩
  refine bind_eq_ok.mpr ⟨(), checkRepresentative_padded h hrep, ?_⟩
  exact bind_eq_ok.mpr ⟨(), (checkBlocker_padded h node).trans hblocker, hok⟩

theorem checkNodeLoop_padded
    {entries rest : List (Option Node × Nat)} (hrest : ∀ entry ∈ rest, entry.1 = none)
    (hok : st.checkNodeLoop highest seen entries = .ok ()) :
    st'.checkNodeLoop highest seen (entries ++ rest) = .ok () := by
  induction entries generalizing seen with
  | nil => exact checkNodeLoop_none hrest
  | cons entry entries ih =>
    obtain ⟨o, index⟩ := entry
    cases o with
    | none =>
      exact ih hok
    | some node =>
      obtain ⟨seen', hnode, hok⟩ := bind_eq_ok.mp hok
      exact bind_eq_ok.mpr ⟨seen', checkNode_padded h hnode, ih hok⟩

theorem checkNodes_padded (hok : st.checkNodes highest = .ok ()) :
    st'.checkNodes highest = .ok () := by
  obtain ⟨_, -, hloop⟩ := bind_eq_ok.mp hok
  obtain ⟨m, generations, rfl, hlength, hmono⟩ := id h
  refine bind_eq_ok.mpr ⟨(), ensure_eq_ok.mpr ⟨rfl, hlength.symm⟩, ?_⟩
  rw [zipIdx_append]
  refine checkNodeLoop_padded h (fun entry hentry => ?_) hloop
  have hmem := mem_zipIdx hentry
  obtain ⟨o, index⟩ := entry
  exact hmem.2.2.trans (by simp)

theorem checkFacts_padded : st'.checkFacts highest = st.checkFacts highest := by
  have hfact : ∀ rebuilt entry, st'.checkFact highest rebuilt entry =
      st.checkFact highest rebuilt entry := by
    obtain ⟨m, generations, rfl, -, -⟩ := h
    intro rebuilt entry
    unfold MutableState.checkFact
    simp only [requireActive_append_none]
  have hfold : st'.checkFact highest = st.checkFact highest :=
    funext fun rebuilt => funext fun entry => hfact rebuilt entry
  unfold MutableState.checkFacts
  rw [hfold]
  obtain ⟨m, generations, rfl, -, -⟩ := h
  rfl

end PaddedChecks

/-- Two kernels that differ in empty slots, generations and the free list at most. -/
structure SameButSlots (k k' : TableauKernel) : Prop where
  branches : k'.branches = k.branches
  trailLength : k'.trailLength = k.trailLength
  state : Padded k.state k'.state

namespace SameButSlots

variable {k k' : TableauKernel}

theorem logicalValue_eq (h : SameButSlots k k') : k'.logicalValue = k.logicalValue := by
  obtain ⟨m, generations, hstate, -, -⟩ := h.state
  have hlive : k'.state.nodes.liveNodes = k.state.nodes.liveNodes := by
    rw [hstate]
    unfold Arena.liveNodes
    simp
  unfold TableauKernel.logicalValue
  rw [hlive, h.branches, hstate]

theorem checkInvariants_ok (h : SameButSlots k k') (hok : k.checkInvariants = .ok ()) :
    k'.checkInvariants = .ok () := by
  have hhighest : k'.highestBranchLevel = k.highestBranchLevel := by
    unfold TableauKernel.highestBranchLevel
    rw [h.branches]
  have hbranches : k'.checkBranches = k.checkBranches := by
    unfold TableauKernel.checkBranches
    rw [h.branches, h.trailLength]
  have hreuse : ∀ level record, k.reuseRecordConsistent level record = true →
      k'.reuseRecordConsistent level record = true := by
    intro level record hrecord
    unfold TableauKernel.reuseRecordConsistent at hrecord ⊢
    obtain ⟨m, generations, hstate, -, -⟩ := h.state
    rw [h.branches, hstate]
    simp only [Bool.and_eq_true] at hrecord ⊢
    exact ⟨⟨⟨isOk_canonicalHandle_append_none hrecord.1.1.1, hrecord.1.1.2⟩,
      hrecord.1.2⟩, hrecord.2⟩
  unfold TableauKernel.checkInvariants at hok ⊢
  rw [hhighest, hbranches]
  obtain ⟨_, hnodes, hok⟩ := bind_eq_ok.mp hok
  obtain ⟨_, hfacts, hok⟩ := bind_eq_ok.mp hok
  obtain ⟨_, hqueues, hok⟩ := bind_eq_ok.mp hok
  obtain ⟨_, hdisjunctions, hok⟩ := bind_eq_ok.mp hok
  obtain ⟨_, hrecords, hok⟩ := bind_eq_ok.mp hok
  obtain ⟨_, hclash, hok⟩ := bind_eq_ok.mp hok
  refine bind_eq_ok.mpr ⟨(), checkNodes_padded h.state hnodes, ?_⟩
  refine bind_eq_ok.mpr ⟨(), (checkFacts_padded h.state).trans hfacts, ?_⟩
  obtain ⟨m, generations, hstate, -, -⟩ := h.state
  refine bind_eq_ok.mpr ⟨(), by rw [hstate]; exact hqueues, ?_⟩
  refine bind_eq_ok.mpr ⟨(), by rw [hstate]; exact hdisjunctions, ?_⟩
  refine bind_eq_ok.mpr ⟨(), ensure_eq_ok.mpr fun entry hentry => ?_, ?_⟩
  · rw [hstate] at hentry
    exact hreuse _ _ (ensure_eq_ok.mp hrecords entry hentry)
  · exact bind_eq_ok.mpr ⟨(), by rw [hstate]; exact hclash, hok⟩

end SameButSlots

/-! ## The theorem -/

/-- One of the two pushes has opened `level`. -/
def Opens (k : TableauKernel) (level : Nat) (k' : TableauKernel) : Prop :=
  (∃ choiceKind alternatives sourceId baseDependency,
    pushBranch choiceKind alternatives sourceId baseDependency k = .ok level k') ∨
  ∃ root predicateId supports baseDependency,
    pushExistentialReuseBranch root predicateId supports baseDependency k = .ok level k'

/-- A freshly opened branch is the last, and its snapshot is the state it was opened in. -/
structure JustOpened (level : Nat) (k : TableauKernel) : Prop where
  last : ∃ below b, k.branches = below ++ [b] ∧ below.length = level ∧ b.snapshot = k.snapshot
  even : Even k.state

theorem Opens.justOpened (h : Opens k level k') (heven : Even k.state) : JustOpened level k' := by
  rcases h with ⟨choiceKind, alternatives, sourceId, base, hpush⟩ |
    ⟨root, predicate, supports, base, hpush⟩
  · refine wp_ok (Q := JustOpened) (E := fun _ _ => True)
      (wp_pushBranch (fun _ _ => trivial) ?_) hpush
    exact fun _ => ⟨⟨k.branches, _, rfl, rfl, rfl⟩, heven⟩
  · refine wp_ok (Q := JustOpened) (E := fun _ _ => True)
      (wp_pushExistentialReuseBranch (fun _ => trivial)
      (fun _ _ => trivial) (fun _ _ => trivial) fun k' _ _ hk' _ _ => ?_) hpush
    refine ⟨⟨k.branches, _, rfl, rfl, rfl⟩, ?_⟩
    rw [hk']
    exact heven

theorem backAt_sameButSlots {k₁ : TableauKernel} (hopened : JustOpened level k₁)
    (hbelow : SameBelow level k₁ k) :
    ∃ b, k.branches[level]? = some b ∧ SameButSlots k₁ (k.backAt level b) := by
  obtain ⟨below, b, hbranches, hlength, hsnapshot⟩ := hopened.last
  have htake : k₁.branches.take (level + 1) = k₁.branches :=
    take_of_length_le (by rw [hbranches, length_append, hlength]; rfl)
  have hb : k.branches[level]? = some b := by
    have heq := congrArg (fun l => l[level]?) (hbelow.records.trans htake)
    simp only [getElem?_take, if_pos (Nat.lt_succ_self level)] at heq
    rw [heq, hbranches, ← hlength, getElem?_concat_length]
  refine ⟨b, hb, hbelow.records.trans htake, ?_, ?_⟩
  · rw [show (k.backAt level b).trailLength = b.snapshot.trailLength from rfl, hsnapshot]
    rfl
  · have heven : Even b.snapshot.state := by
      rw [hsnapshot]
      exact hopened.even
    have hpadded := padded_restore heven k
    rw [hsnapshot] at hpadded
    rw [show (k.backAt level b).state = (k.restore b.snapshot).state from rfl, hsnapshot]
    exact hpadded

/-- **Backtracking is exact.** After a push opened `level`, whatever calls follow above it
without rewriting a base dependency up to it, `backtrack_to` leaves the kernel of that
push: the same value, and up to slots and generations the same kernel. It returns
whenever that kernel passes the invariant check. -/
theorem backtrackTo_exact {k₀ k₁ k : TableauKernel} {level : Nat}
    (hreach : Run (fun _ _ => True) (fun _ _ => True) .new k₀) (hopens : Opens k₀ level k₁)
    (hrun : Run (fun o k => o.Above level ∧ o.SparesBases level k) (fun _ _ => True) k₁ k) :
    (final (backtrackTo level) k).logicalValue = k₁.logicalValue ∧
      SameButSlots k₁ (final (backtrackTo level) k) ∧
      (k₁.checkInvariants = .ok () → returned (backtrackTo level) k = some ()) := by
  have hopened := hopens.justOpened (even_run hreach rfl)
  have hlive : level < k₁.branches.length := by
    obtain ⟨below, b, hbranches, hlength, -⟩ := hopened.last
    rw [hbranches, length_append, hlength]
    exact Nat.lt_succ_self level
  obtain ⟨b, hb, hsame⟩ := backAt_sameButSlots hopened (sameBelow_run hrun hlive)
  have hfinal : final (backtrackTo level) k = k.backAt level b := by
    refine (ends_iff (P := fun k' => k' = k.backAt level b)).mp (wp_backtrackTo (fun hnone => ?_)
      (fun b' hb' _ => ?_) fun _ b' hb' _ => ?_)
    · rw [hb] at hnone
      cases hnone
    · rw [hb] at hb'
      cases hb'
      rfl
    · rw [hb] at hb'
      cases hb'
      rfl
  rw [hfinal]
  refine ⟨hsame.logicalValue_eq, hsame, fun hok => ?_⟩
  have hreturns : wp (backtrackTo level) (fun _ _ => True) (fun _ _ => False) k := by
    refine wp_backtrackTo (fun hnone => ?_) (fun _ _ _ => trivial) fun e b' hb' he => ?_
    · rw [hb] at hnone
      cases hnone
    · rw [hb] at hb'
      cases hb'
      rw [hsame.checkInvariants_ok hok] at he
      cases he
  exact returned_of_wp hreturns

namespace BacktrackingSample

/-- A branch, and a disjunction that rests on it. -/
def before : TableauKernel :=
  runCalls .new [.pushBranch .merge [0, 1] 0 .empty, .addDisjunction [1, 2] (.ofLevels [0])]

def push : KernelM Nat := pushBranch .groundDisjunction [1, 2] 0 (.ofLevels [0])

def opened : TableauKernel := final push before

/-- The disjunction turns out to rest on nothing. -/
def later : TableauKernel := runCalls opened [.strengthenDisjunction 0 .empty]

/-- The new base dependency survives backtracking to the branch. -/
theorem strengthen_survives : Run (fun _ _ => True) (fun _ _ => True) .new before ∧
    Opens before 1 opened ∧ Run (fun o _ => o.Above 1) (fun _ _ => True) opened later ∧
    (final (backtrackTo 1) later).logicalValue ≠ opened.logicalValue := by
  refine ⟨.of_calls ⟨trivial, trivial, trivial⟩, .inl ⟨_, _, _, _, eq_ok_of_returned ?_⟩,
    .of_calls ⟨trivial, trivial⟩, ?_⟩
  · decide +kernel
  · decide +kernel

/-- Calls that add a node, a fact, a disjunction of their own and a deeper branch are
undone without a trace. -/
theorem backtrackTo_exact_sample :
    (final (backtrackTo 1) (runCalls opened [.createNode .root none false none none none,
      .addFact 7 [⟨0, 1⟩] (.ofLevels [1]) false none, .addDisjunction [3, 4] (.ofLevels [0, 1]),
      .pushBranch .groundDisjunction [3, 4] 1 (.ofLevels [0, 1]),
      .strengthenDisjunction 1 (.ofLevels [0])])).logicalValue = opened.logicalValue := by
  have hreach : Run (fun _ _ => True) (fun _ _ => True) .new before :=
    .of_calls ⟨trivial, trivial, trivial⟩
  have hopens : Opens before 1 opened := .inl ⟨_, _, _, _, eq_ok_of_returned (by decide +kernel)⟩
  refine (backtrackTo_exact hreach hopens (.of_calls ?_)).1
  refine ⟨⟨trivial, trivial⟩, ⟨trivial, trivial⟩, ⟨trivial, trivial⟩, ⟨trivial, trivial⟩,
    ⟨trivial, fun _ => ?_⟩, trivial⟩
  decide +kernel

end BacktrackingSample

end PyHermit
