import PyHermit.Proof.Checked
import PyHermit.Proof.MergingMoves

/-!
# Merged nodes lead to active ones

Over every run of node operations, merges and branching: a merged node leads to an active
one, a blocker is an active object node, and the kernel's own check passes.

The exception is pruning. It cuts off a subtree without asking whether a merged node
outside points into it; merging a node prunes its children, so merges alone can do it
(`merge_dangles`). A run that never prunes a node others were merged into is safe
(`representatives_reachable`).
-/

open Std Prog List

namespace PyHermit

open TableauKernel Arena

/-! ## What a prune must spare -/

/-- No node of the subtree is one that another points to. -/
def PruneSafe (arena : Arena) (root : NodeHandle) : Prop :=
  ∀ x ∈ arena.liveNodes, x.lifecycle = .active →
    (x.handle = root ∨ arena.hasAncestor x root = .ok true) →
    ∀ y ∈ arena.liveNodes, y.representative ≠ some x.handle

instance (arena : Arena) (root : NodeHandle) : Decidable (PruneSafe arena root) := by
  unfold PruneSafe
  infer_instance

section Thinning

variable {arena arena' : Arena} {root : NodeHandle}

theorem Thins.requireNode (h : Thins arena arena') {x : NodeHandle} {node' : Node}
    (hn : arena'.requireNode x = .ok node') :
    ∃ node, arena.requireNode x = .ok node ∧ node'.outline = node.outline := by
  obtain ⟨hslot, hgen, hret⟩ := requireNode_eq_ok.mp hn
  obtain ⟨node, hnode, hout⟩ := h.back hslot
  have hhandle : node'.handle = node.handle := congrArg (·.1) hout
  have hretired : decide (node'.lifecycle = .retired) = decide (node.lifecycle = .retired) :=
    congrArg (·.2.2.2) hout
  refine ⟨node, requireNode_eq_ok.mpr ⟨hnode, by rw [← hhandle]; exact hgen, fun hr =>
    hret ?_⟩, hout⟩
  rw [decide_eq_decide] at hretired
  exact hretired.mpr hr

theorem Thins.hasAncestorLoop (h : Thins arena arena') (fuel : Nat) (value : Option NodeHandle)
    (seen : List NodeHandle) (ht : arena'.hasAncestorLoop root fuel value seen = .ok true) :
    arena.hasAncestorLoop root fuel value seen = .ok true := by
  induction fuel generalizing value seen with
  | zero => cases value <;> cases ht
  | succ fuel ih =>
    cases value with
    | none => cases ht
    | some value =>
      rw [Arena.hasAncestorLoop] at ht ⊢
      split at ht
      · rename_i heq
        rw [if_pos heq]
      · rename_i hne
        rw [if_neg hne]
        split at ht
        · cases ht
        · rename_i hfresh
          rw [if_neg hfresh]
          obtain ⟨node', hn', ht⟩ := bind_eq_ok.mp ht
          obtain ⟨node, hn, hout⟩ := h.requireNode hn'
          have hparent : node'.parent = node.parent := congrArg (·.2.1) hout
          rw [hparent] at ht
          exact bind_eq_ok.mpr ⟨node, hn, ih _ _ ht⟩

theorem Thins.liveNodes (h : Thins arena arena') {x' : Node} (hx : x' ∈ arena'.liveNodes) :
    ∃ x ∈ arena.liveNodes, x'.outline = x.outline ∧
    (x'.lifecycle = .active → x.lifecycle = .active) := by
  obtain ⟨i, hi⟩ := mem_liveNodes.mp hx
  obtain ⟨x, hxi, hout⟩ := h.back hi
  exact ⟨x, mem_liveNodes.mpr ⟨i, hxi⟩, hout, h.active i x x' hxi hi⟩

theorem PruneSafe.thins (hs : PruneSafe arena root) (h : Thins arena arena') :
    PruneSafe arena' root := by
  intro x' hx' hact hbelow y' hy' hrep
  obtain ⟨x, hx, hxout, hxact⟩ := h.liveNodes hx'
  obtain ⟨y, hy, hyout, -⟩ := h.liveNodes hy'
  have hhandle : x'.handle = x.handle := congrArg (·.1) hxout
  have hparent : x'.parent = x.parent := congrArg (·.2.1) hxout
  have hyrep : y'.representative = y.representative := congrArg (·.2.2.1) hyout
  have hlen : arena'.length = arena.length := by
    have hmap := congrArg List.length h.outline
    rw [length_map, length_map] at hmap
    exact hmap
  rw [hhandle, hyrep] at hrep
  refine hs x hx (hxact hact)
    (hbelow.imp (fun heq => by rw [← hhandle]; exact heq) fun hanc => ?_) y hy hrep
  unfold Arena.hasAncestor at hanc ⊢
  rw [hparent, hlen] at hanc
  exact h.hasAncestorLoop _ _ _ hanc

theorem PruneSafe.mayPrune (hs : PruneSafe arena root) : MayPrune .kept arena root := by
  intro affected haffected arena' h node hnode i y' hy'
  obtain ⟨hlive, htest⟩ := ((filterM_eq_ok haffected).2 node).mp hnode
  obtain ⟨y, hy, hout, -⟩ := h.liveNodes (mem_liveNodes.mpr ⟨i, hy'⟩)
  have hrep : y'.representative = y.representative := congrArg (·.2.2.1) hout
  rw [hrep]
  split at htest
  · cases htest
  · rename_i hact
    refine hs node hlive (not_not.mp hact) ?_ y hy
    split at htest
    · rename_i heq
      exact .inl heq
    · exact .inr htest

end Thinning

/-! ## Queues -/

variable {q : StableQueue} {value : QueueValue}

theorem StableQueue.mem_values :
    value ∈ ExtTreeSet.ofList q.values (compare : QueueValue → QueueValue → Ordering) ↔
      ∃ priority : List Int, q.entries[priority]? = some value := by
  rw [ExtTreeSet.mem_ofList, contains_iff_mem]
  unfold StableQueue.values
  rw [mem_map]
  constructor
  · rintro ⟨⟨priority, v⟩, hmem, rfl⟩
    exact ⟨priority, ExtTreeMap.mem_toList_iff_getElem?_eq_some.mp hmem⟩
  · rintro ⟨priority, hget⟩
    exact ⟨(priority, value), ExtTreeMap.mem_toList_iff_getElem?_eq_some.mpr hget, rfl⟩

variable {priority : List Int} {added : Bool} {n : Nat}

theorem StableQueue.enqueue_checkInvariants {q' : StableQueue}
    (h : q.checkInvariants = .ok ()) (he : q.enqueue value priority = .ok (added, q')) :
    q'.checkInvariants = .ok () := by
  unfold StableQueue.enqueue at he
  split at he
  · cases he
    exact h
  · rename_i hnew
    split at he
    · cases he
    · rename_i hfree
      cases he
      obtain ⟨hsize, hmembers⟩ := ensure_eq_ok.mp h
      have hvalues : ExtTreeSet.ofList (StableQueue.values ⟨q.entries.insert priority value,
          q.members.insert value⟩) (compare : QueueValue → QueueValue → Ordering) =
          q.members.insert value := by
        apply ExtTreeSet.ext_mem
        intro v
        rw [StableQueue.mem_values, mem_insert_eq, ← hmembers,
          StableQueue.mem_values]
        constructor
        · rintro ⟨r, hr⟩
          rcases getElem?_insert_cases hr with ⟨-, rfl⟩ | ⟨-, hr⟩
          · exact .inl rfl
          · exact .inr ⟨r, hr⟩
        · rintro (rfl | ⟨r, hr⟩)
          · exact ⟨priority, ExtTreeMap.getElem?_insert_self⟩
          · refine ⟨r, ?_⟩
            rw [getElem?_insert_eq, if_neg fun heq => hfree ?_]
            · exact hr
            · rw [heq]
              exact mem_iff_found.mpr ⟨_, hr⟩
      refine ensure_eq_ok.mpr ⟨?_, hvalues⟩
      have hentries : (q.entries.insert priority value).size = q.entries.size + 1 := by
        rw [ExtTreeMap.size_insert, if_neg (mt ExtTreeMap.contains_iff_mem.mp hfree)]
      rw [hvalues, ExtTreeSet.size_insert,
        if_neg (mt ExtTreeSet.contains_iff_mem.mp hnew), hentries, ← hmembers, hsize]

theorem OtherInv.enqueueNode {st : MutableState} (h : OtherInv n st) {queue : NodeQueue}
    (he : (queue.lens.get st).enqueue value priority = .ok (added, q)) :
    OtherInv n (queue.lens.put st q) := by
  have hqueues := h.queues
  obtain ⟨_, h1, hqueues⟩ := bind_eq_ok.mp hqueues
  obtain ⟨_, h2, hqueues⟩ := bind_eq_ok.mp hqueues
  obtain ⟨_, h3, hqueues⟩ := bind_eq_ok.mp hqueues
  obtain ⟨_, h4, hqueues⟩ := bind_eq_ok.mp hqueues
  obtain ⟨_, h5, h6⟩ := bind_eq_ok.mp hqueues
  have hcheck : MutableState.checkQueues (queue.lens.put st q) = .ok () := by
    cases queue with
    | existentialCandidates =>
      have h3' := StableQueue.enqueue_checkInvariants h3 he
      exact bind_eq_ok.mpr ⟨(), h1, bind_eq_ok.mpr ⟨(), h2, bind_eq_ok.mpr ⟨(), h3',
        bind_eq_ok.mpr ⟨(), h4, bind_eq_ok.mpr ⟨(), h5, h6⟩⟩⟩⟩⟩
    | blockingInvalidations =>
      have h6' := StableQueue.enqueue_checkInvariants h6 he
      exact bind_eq_ok.mpr ⟨(), h1, bind_eq_ok.mpr ⟨(), h2, bind_eq_ok.mpr ⟨(), h3,
        bind_eq_ok.mpr ⟨(), h4, bind_eq_ok.mpr ⟨(), h5, h6'⟩⟩⟩⟩⟩
  cases queue <;> exact { h with queues := hcheck }

theorem merges_kept : Permit.kept.Merges n where
  clash st clash hbelow h := { h with clash := fun c hc => by cases hc; exact hbelow }
  enqueue st added q queue value priority he h := h.enqueueNode he

/-! ## Runs -/

/-- A call of the kernel, or a merge through the manager. -/
inductive TreeAction where
  | call (o : KernelOp)
  | merge (manager : MergingManager) (cancellation : Cancellation) (polls : Nat)
      (left right : NodeHandle) (dependency : DependencySet)

namespace TreeAction

/-- The kernel it leaves, whether it returns or fails. -/
def run (k : TableauKernel) : TreeAction → TableauKernel
  | call o => final o.run k
  | merge manager cancellation polls left right dependency =>
    (final (manager.merge cancellation left right dependency) ⟨k, polls⟩).kernel

/-- Nodes, facts, merges, prunes, blocking and branches. -/
def Listed : TreeAction → Prop
  | call (.createNode ..) | call (.retireNode _) | call (.addFact ..) | call (.mergeNodes ..)
  | call (.pruneSubtree _) | call (.setBlocked ..) | call (.pushBranch ..) | call (.backtrackTo _)
  | call (.advanceBranch ..) | call .beginOperation | call .resetToOperationRoot | merge .. => True
  | call _ => False

/-- Nothing it prunes is pointed to, and a new node finds room. A merge prunes if it returns
with a node merged. -/
def Safe (k : TableauKernel) : TreeAction → Prop
  | call (.createNode ..) => Roomy k.state
  | call (.pruneSubtree root) => PruneSafe k.state.nodes root
  | merge manager cancellation polls left right dependency =>
    ∀ result ∈ returned (manager.merge cancellation left right dependency) ⟨k, polls⟩,
      ∀ child ∈ result.prunes k.state.nodes, PruneSafe k.state.nodes child
  | call _ => True

instance (a : TreeAction) : Decidable a.Listed := by
  unfold Listed
  split <;> infer_instance

instance (k : TableauKernel) (a : TreeAction) : Decidable (a.Safe k) := by
  unfold Safe
  split <;> infer_instance

/-- Actions taken one after the other, each listed and allowed. -/
def Along (allowed : TableauKernel → TreeAction → Prop) : TableauKernel → List TreeAction → Prop
  | _, [] => True
  | k, a :: rest => a.Listed ∧ allowed k a ∧ Along allowed (a.run k) rest

instance decidableAlong {allowed : TableauKernel → TreeAction → Prop}
    [∀ k a, Decidable (allowed k a)] :
    (k : TableauKernel) → (actions : List TreeAction) → Decidable (Along allowed k actions)
  | _, [] => inferInstanceAs (Decidable True)
  | k, a :: rest =>
    have : Decidable (Along allowed (a.run k) rest) := decidableAlong (a.run k) rest
    inferInstanceAs (Decidable (a.Listed ∧ allowed k a ∧ Along allowed (a.run k) rest))

end TreeAction

/-- The kernels such actions lead to, each allowed where it is taken. -/
inductive TreeRun (allowed : TableauKernel → TreeAction → Prop) : TableauKernel → Prop where
  | new : TreeRun allowed .new
  | step {k : TableauKernel} {a : TreeAction} : TreeRun allowed k → a.Listed → allowed k a →
      TreeRun allowed (a.run k)

variable {k : TableauKernel}

theorem TreeRun.of_actions {allowed : TableauKernel → TreeAction → Prop} {k : TableauKernel}
    (hk : TreeRun allowed k) : ∀ {actions : List TreeAction}, TreeAction.Along allowed k actions →
      TreeRun allowed (actions.foldl TreeAction.run k)
  | [], _ => hk
  | _ :: _, ⟨hl, ha, hrest⟩ => (hk.step hl ha).of_actions hrest

theorem TreeAction.turns {a : TreeAction} (hk : KernelKept k) (hl : a.Listed) (hs : a.Safe k) :
    Turns .kept .kept k (a.run k) := by
  cases a with
  | merge manager cancellation polls left right dependency =>
    refine .single (.moves (MergingManager.merge_moves (s := ⟨k, polls⟩) manager
      merges_kept left right
      dependency hk.inv.sound fun result hresult child hchild arena hthins => ?_))
    exact ((hs result hresult child hchild).thins hthins).mayPrune
  | call o =>
    refine o.turns hk.inv ?_
    cases o with
    | createNode => exact .inr hs
    | pruneSubtree root => exact PruneSafe.mayPrune hs
    | beginOperation | retireNode | setBlocked | addFact | pushBranch | backtrackTo | advanceBranch
    | resetToOperationRoot | mergeNodes => exact trivial
    | _ => exact hl.elim

theorem TreeRun.kernelKept (hrun : TreeRun (fun k a => a.Safe k) k) : KernelKept k := by
  induction hrun with
  | new => exact kernelKept_new
  | step _ hl hs ih => exact (TreeAction.turns ih hl hs).kernelKept ih

/-- What a client may rely on about merged and blocked nodes. -/
structure RepresentativesInv (k : TableauKernel) : Prop where
  /-- From a merged node, finitely many pointers lead to an active one, and
  `representative` finds it. -/
  merged : ∀ node ∈ k.state.nodes.liveNodes, node.lifecycle = .merged →
    ∃ r m found, node.representative = some r ∧ Chain k.state.nodes m r ∧
      k.state.nodes.representative node.handle = .ok found ∧ k.state.nodes.Active found.1
  /-- A blocker is an active object node. -/
  blockers : ∀ node ∈ k.state.nodes.liveNodes, ∀ b, node.blocker = some b →
    ∃ blocker, k.state.nodes.requireActive b = .ok blocker ∧ blocker.sort = .object
  /-- The node section of the check passes, and all the others. -/
  nodes : k.state.checkNodes (k.highestBranchLevel.getD 0) = .ok ()
  check : k.checkInvariants = .ok ()
  /-- Going back works, to every live branch and to the operation root. -/
  back : ∀ level < k.branches.length, returned (backtrackTo level) k = some ()
  reset : returned resetToOperationRoot k = some ()

theorem KernelKept.representativesInv (h : KernelKept k) : RepresentativesInv k where
  merged node hnode hm := by
    have hi := h.inv.sound.state
    obtain ⟨i, hn⟩ := mem_liveNodes.mp hnode
    obtain ⟨r, m, hr, hc⟩ := (h.kept.state.pointers i node hn).leads hm
    have hself : Chain k.state.nodes (m + 1) node.handle :=
      .step (hi.slotted.requireNode_self hn) hr hc
    obtain ⟨found, hfound, hactive⟩ := hself.representative hi.unmerged hi.slotted
    exact ⟨r, m, found, hr, hc, hfound, hactive⟩
  blockers node hnode b hb := by
    obtain ⟨i, hn⟩ := mem_liveNodes.mp hnode
    obtain ⟨-, -, blocker, hactive, hsort⟩ := h.inv.sound.state.blockers i node hn b hb
    exact ⟨blocker, hactive, hsort⟩
  nodes := by
    rw [highestBranchLevel_eq h.inv.sound.levels]
    exact h.kept.state.checkNodes h.inv.sound.state
  check := h.checkInvariants
  back level hlevel := h.backtrackTo hlevel
  reset := h.resetToOperationRoot

/-- **Representatives never dangle** in a run that prunes no node another points to, and
that never asks for a node the counters have no room for. -/
theorem representatives_reachable {k : TableauKernel} (hrun : TreeRun (fun k a => a.Safe k) k) :
    RepresentativesInv k :=
  hrun.kernelKept.representativesInv

namespace MergedSample

/-- Two roots, the second with two children. -/
def oldRoot : NodeHandle := ⟨0, 1⟩

def root : NodeHandle := ⟨1, 1⟩

def left : NodeHandle := ⟨2, 1⟩

def right : NodeHandle := ⟨3, 1⟩

def grow (kind : NodeKind) (parent : Option NodeHandle) : TreeAction :=
  .call (.createNode kind parent false none none none)

/-- A merge in a program without inequalities, never cancelled. -/
def join (left right : NodeHandle) : TreeAction :=
  .merge ⟨fun _ => none⟩ (fun _ => .ok ()) 0 left right .empty

def family : List TreeAction :=
  [grow .root none, grow .root none, grow .tree (some root), grow .tree (some root),
    join left right]

def runAll (actions : List TreeAction) : TableauKernel := actions.foldl TreeAction.run .new

/-- The children are merged; then merging the roots prunes the child that is left. -/
def dangling : TableauKernel :=
  runAll (family ++ [join oldRoot root, .call (.pushBranch .merge [0, 1] 0 .empty)])

/-- The child that was merged away leads nowhere, and the kernel cannot go back. -/
theorem merge_dangles : TreeRun (fun _ _ => True) dangling ∧ ¬ RepresentativesInv dangling ∧
    (∃ node ∈ dangling.state.nodes.liveNodes, node.lifecycle = .merged ∧
      node.representative = some left ∧ ¬ dangling.state.nodes.Active left) ∧
    returned (backtrackTo 0) dangling = none := by
  have hback : returned (backtrackTo 0) dangling = none := by decide +kernel
  refine ⟨?_, fun h => ?_, ?_, hback⟩
  · exact TreeRun.new.of_actions (by decide +kernel)
  · have hlive : 0 < dangling.branches.length := by decide +kernel
    rw [h.back 0 hlive] at hback
    cases hback
  · have hactive : (dangling.state.nodes.requireActive left).isOk = false := by decide +kernel
    have hnode : ∃ node ∈ dangling.state.nodes.liveNodes, node.lifecycle = .merged ∧
        node.representative = some left := by decide +kernel
    obtain ⟨node, hmem, hm, hr⟩ := hnode
    refine ⟨node, hmem, hm, hr, fun ha => ?_⟩
    rw [isOk_requireActive.mpr ha] at hactive
    cases hactive

/-- Merging the children and then pruning neither of them. -/
theorem representatives_spared :
    RepresentativesInv (runAll (family ++ [.call (.pruneSubtree oldRoot)])) := by
  exact representatives_reachable (TreeRun.new.of_actions (by decide +kernel))

end MergedSample

end PyHermit
