import PyHermit.Engine.Merging
import PyHermit.Proof.AgendaMoves

/-!
# A merge with its subtrees moves the kernel

`MergingManager::merge` prunes, writes existentials and queues, merges, or installs a
clash, all in one transaction: whatever the polls answer, it only moves the kernel
(`merge_moves`). What it may prune matters only if it returns with a node merged.
-/

open Std Prog

namespace PyHermit

open TableauKernel MergingManager

variable {p : Permit} {n : Nat} {s : Polled} {cancellation : Cancellation}

/-- Clashes and node queues may change. -/
structure Permit.Merges (p : Permit) (n : Nat) : Prop where
  clash : ∀ st clash, clash.dependency.Below n → p.other n st { st with clash := some clash }
  enqueue : ∀ st added q (queue : NodeQueue) value priority,
    (queue.lens.get st).enqueue (.node value) priority = .ok (added, q) →
    p.other n st (queue.lens.put st q)

/-- From a sound kernel, `m` only moves it, whether it returns or fails. -/
def Drives {α : Type} (p : Permit) (n : Nat) (m : PolledM α) : Prop :=
  ∀ s, Sound n s.kernel → wp m (fun _ s' => Moves p n s.kernel s'.kernel)
    (fun _ s' => Moves p n s.kernel s'.kernel) s

variable {α : Type} {E : NativeError → Polled → Prop}

theorem Drives.after {m : PolledM α} {k : TableauKernel} (hm : Drives p n m) (hk : Sound n k)
    (h : Moves p n k s.kernel) :
    wp m (fun _ s' => Moves p n k s'.kernel) (fun _ s' => Moves p n k s'.kernel) s :=
  wp_mono (hm s (hk.moves h)) (fun _ _ h' => h.trans h') fun _ _ h' => h.trans h'

theorem onKernel_drives {m : KernelM α} (hm : Does p n m) : Drives p n (onKernel m) :=
  fun s hs => wp_zoom.mpr (hm s.kernel hs)

theorem wp_poll {Q : Unit → Polled → Prop}
    (hok : ∀ s', s'.kernel = s.kernel → Q () s') (herr : ∀ e s', s'.kernel = s.kernel → E e s') :
    wp (poll cancellation) Q E s :=
  wp_get_then.mpr (wp_bind.mpr (wp_set.mpr
    (wp_ask (fun _ _ => hok _ rfl) fun e _ => herr e _ rfl)))

theorem wp_onKernel_readState {f : MutableState → Except NativeError α} {Q : α → Polled → Prop}
    (hok : ∀ a, f s.kernel.state = .ok a → Q a s) (herr : ∀ e, E e s) :
    wp (onKernel (readState f)) Q E s :=
  wp_zoom.mpr (wp_ask (fun a ha => hok a ha) fun e _ => herr e)

/-- A transaction has left branches and operation root alone. -/
structure Framed (k k' : TableauKernel) : Prop where
  branches : k'.branches = k.branches
  operationRoot : k'.operationRoot = k.operationRoot

theorem Moves.framed {k k' : TableauKernel} (h : Moves p n k k') : Framed k k' :=
  ⟨h.branches, h.operationRoot⟩

/-- However far it went, a transaction that fails ends in a restored state. -/
theorem wp_atomically {m : PolledM α} {Q : α → Polled → Prop} (hk : Sound n s.kernel)
    (hm : wp m Q (fun _ s' => Framed s.kernel s'.kernel) s) :
    wp (atomically m) Q (fun _ s' => Moves p n s.kernel s'.kernel) s := by
  refine wp_orUndo.mpr (wp_fail hm fun _ s' hs' => ?_)
  have hprim : Prim p n s.kernel.snapshot.state (s'.kernel.restore s.kernel.snapshot).state :=
    prim_restore hk.state.lengths s'.kernel
  exact ⟨hs'.branches, hs'.operationRoot, le_rfl, .single hprim⟩

/-- The subtrees that are gone after a merge with this result. -/
def MergeResult.prunes (arena : Arena) (result : MergeResult) : List NodeHandle :=
  match result.merged with
  | some source => (arena.directChildren source).toOption.getD []
  | none => []

theorem MergeResult.prunes_eq {arena : Arena} {result : MergeResult} {source : NodeHandle}
    {children : List NodeHandle} (hmerged : result.merged = some source)
    (hc : arena.directChildren source = .ok children) : result.prunes arena = children := by
  unfold prunes
  rw [hmerged]
  dsimp only
  rw [hc]
  rfl

/-- These subtrees may be pruned, one after the other. -/
def MayPruneAll (p : Permit) (arena : Arena) (children : List NodeHandle) : Prop :=
  ∀ child ∈ children, ∀ arena', Thins arena arena' → MayPrune p arena' child

namespace MergingManager

variable (manager : MergingManager)

theorem inequalityClash_does (hp : p.Merges n) (left right : NodeHandle) (sort : NodeSort)
    (support : DependencySet) : Does p n (manager.inequalityClash left right sort support) := by
  unfold inequalityClash
  split
  · exact .pure
  · refine readState_does.bind fun _ => readState_does.bind fun _ =>
      readState_does.bind fun rows => ?_
    refine .ite .pure (readState_does.bind fun facts => ?_)
    split
    · exact .throw
    · exact (installClash_does fun hbelow st => hp.clash st _ hbelow).bind fun _ => .pure

theorem wp_inequalityClash_none {k : TableauKernel} (left right : NodeHandle) (sort : NodeSort)
    (support : DependencySet) :
    wp (manager.inequalityClash left right sort support) (fun result k' => result = none → k' = k)
      (fun _ _ => True) k := by
  unfold inequalityClash
  split
  · exact fun _ => rfl
  · refine wp_ask_then (fun _ _ => ?_) fun _ _ => trivial
    refine wp_ask_then (fun _ _ => ?_) fun _ _ => trivial
    refine wp_ask_then (fun rows _ => ?_) fun _ _ => trivial
    refine wp_ite (fun _ _ => rfl) fun _ => wp_ask_then (fun facts _ => ?_) fun _ _ => trivial
    split
    · exact trivial
    · exact wp_then wp_true (fun _ _ _ => nofun) fun _ _ _ => trivial

theorem absorbSource_does (hp : p.Merges n) (source target : NodeHandle) (pending : List Nat)
    (support : DependencySet) : Does p n (absorbSource source target pending support) := by
  have hqueue : ∀ queue rank, Does p n (enqueueNode queue target (rankPriority rank)) :=
    fun queue rank =>
    enqueueNode_does fun st added q h => hp.enqueue st added q queue target _ h
  refine (Does.forM (fun _ => markExistential_does _ _ _) pending).bind fun _ => ?_
  refine mergeNodesInTransaction_does.bind fun _ => Does.ensure.bind fun _ => ?_
  refine readState_does.bind fun rank => readState_does.bind fun node => ?_
  exact .ite (hqueue _ rank) ((hqueue _ rank).bind fun _ => hqueue _ rank)

theorem wp_pruneChildren {k : TableauKernel} (children : List NodeHandle) (hk : Sound n k)
    (hs : Moves p n k s.kernel) (hthins : Thins k.state.nodes s.kernel.state.nodes)
    (hpermit : MayPruneAll p k.state.nodes children) :
    wp (pruneChildren cancellation children) (fun _ s' => Moves p n k s'.kernel)
      (fun _ s' => Moves p n k s'.kernel) s := by
  induction children generalizing s with
  | nil => exact hs
  | cons child rest ih =>
    refine wp_bind.mpr (wp_poll (fun s' hs' => ?_) fun _ s' hs' => by rw [hs']; exact hs)
    rw [← hs'] at hs hthins
    refine wp_bind.mpr (wp_zoom.mpr (wp_mono (wp_pruneSubtreeInTransaction child (hk.moves hs)
      (hpermit child List.mem_cons_self _ hthins)) ?_ fun _ k' h => hs.trans h))
    rintro pruned k' ⟨hmoves, hthins', -⟩
    refine wp_seq (ih (hs.trans hmoves) (hthins.trans hthins') fun c hc =>
      hpermit c (List.mem_cons_of_mem _ hc)) (fun _ _ h => h)

theorem wp_pruneAndAbsorb (hp : p.Merges n) (hk : Sound n s.kernel) {children : List NodeHandle}
    (hpermit : MayPruneAll p s.kernel.state.nodes children) (source target : NodeHandle)
    (pending : List Nat) (support : DependencySet) :
    wp (do
        let pruned ← pruneChildren cancellation children
        onKernel (absorbSource source target pending support)
        return (⟨target, some source, pruned, false⟩ : MergeResult))
      (fun result s' => result.merged = some source ∧ Moves p n s.kernel s'.kernel)
      (fun _ s' => Moves p n s.kernel s'.kernel) s := by
  refine wp_seq (wp_pruneChildren children hk Moves.refl Thins.refl hpermit) fun pruned s' hs' => ?_
  exact wp_then ((onKernel_drives (absorbSource_does hp _ _ _ _)).after hk hs')
    (fun _ _ h => ⟨rfl, h⟩) fun _ _ h => h

variable (hp : p.Merges n) (left right : NodeHandle) (dependency : DependencySet)
  (hk : Sound n s.kernel)
include hp hk

theorem wp_mergeInner : wp (manager.mergeInner cancellation left right dependency)
    (fun result s' => Framed s.kernel s'.kernel ∧
      (MayPruneAll p s.kernel.state.nodes (result.prunes s.kernel.state.nodes) →
        Moves p n s.kernel s'.kernel))
    (fun _ s' => Framed s.kernel s'.kernel) s := by
  have hrefl : Framed s.kernel s.kernel := ⟨rfl, rfl⟩
  refine wp_bind.mpr (wp_onKernel_readState (fun leftRep _ => ?_) fun _ => hrefl)
  refine wp_bind.mpr (wp_onKernel_readState (fun rightRep _ => ?_) fun _ => hrefl)
  refine wp_ite (fun _ => ⟨hrefl, fun _ => Moves.refl⟩) fun _ => ?_
  refine wp_bind.mpr (wp_onKernel_readState (fun sort _ => ?_) fun _ => hrefl)
  refine wp_bind.mpr (wp_onKernel_readState (fun rightSort _ => ?_) fun _ => hrefl)
  refine wp_ensure_then (fun _ => ?_) fun _ => hrefl
  refine wp_bind.mpr (wp_zoom.mpr (wp_mono
    (wp_and (manager.inequalityClash_does hp leftRep.1 rightRep.1 sort _ s.kernel hk)
      (manager.wp_inequalityClash_none leftRep.1 rightRep.1 sort _)) ?_
    fun _ _ h => h.1.framed))
  rintro (_ | result) k' ⟨hmoves, hnone⟩
  · rw [hnone rfl]
    refine wp_bind.mpr (wp_onKernel_readState (fun direction _ => ?_) fun _ => hrefl)
    refine wp_bind.mpr (wp_onKernel_readState (fun children hc => ?_) fun _ => hrefl)
    refine wp_bind.mpr (wp_onKernel_readState (fun node _ => ?_) fun _ => hrefl)
    by_cases hpermit : MayPruneAll p s.kernel.state.nodes children
    · exact wp_mono (wp_pruneAndAbsorb hp hk hpermit _ _ _ _)
        (fun _ _ h => ⟨h.2.framed, fun _ => h.2⟩) fun _ _ h => h.framed
    · -- what it prunes then is of interest only to a merge that returns
      have hall : Permit.all.Merges n := ⟨fun _ _ _ => trivial, fun _ _ _ _ _ _ _ => trivial⟩
      refine wp_mono (wp_pruneAndAbsorb hall hk (fun _ _ _ _ _ _ _ _ _ _ => trivial) _ _ _ _)
        (fun result _ h => ?_) fun _ _ h => h.framed
      exact ⟨h.2.framed, fun hgone => absurd (MergeResult.prunes_eq h.1 hc ▸ hgone) hpermit⟩
  · exact ⟨hmoves.framed, fun _ => hmoves⟩

/-- **A merge only moves the kernel**, whether it returns or fails. -/
theorem merge_moves
    (hpermit : ∀ result ∈ returned (manager.merge cancellation left right dependency) s,
      MayPruneAll p s.kernel.state.nodes (result.prunes s.kernel.state.nodes)) :
    Moves p n s.kernel (final (manager.merge cancellation left right dependency) s).kernel := by
  have hmerge : wp (manager.merge cancellation left right dependency) (fun result s' =>
      MayPruneAll p s.kernel.state.nodes (result.prunes s.kernel.state.nodes) →
        Moves p n s.kernel s'.kernel)
      (fun _ s' => Moves p n s.kernel s'.kernel) s := by
    refine wp_bind.mpr (wp_poll (fun s' hs' => ?_) fun _ s' hs' => by rw [hs']; exact Moves.refl)
    rw [← hs'] at hk ⊢
    refine wp_atomically hk (wp_seq (manager.wp_mergeInner hp left right dependency hk)
      fun result s'' hs'' => ?_)
    refine wp_bind.mpr (wp_poll (fun t ht => wp_pure.mpr ?_) fun _ t ht => ?_)
    · rw [ht]
      exact hs''.2
    · rw [ht]
      exact hs''.1
  refine (ends_iff (P := fun s' : Polled => Moves p n s.kernel s'.kernel)).mp ?_
  exact wp_mono (wp_and hmerge wp_run) (fun result s' h =>
    h.1 (hpermit result (returned_of_ok h.2))) fun _ _ h => h.1

end MergingManager

end PyHermit
