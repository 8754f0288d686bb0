import PyHermit.Engine.Nominals
import PyHermit.Proof.Backtracking
import PyHermit.Proof.Dispatch

/-!
# When a step of nominal introduction fails

A failed step rolls the kernel back with `atomic`, which restores the saved state but not
the branch stack. A step that has opened a branch, or moved one on, and then fails leaves
the stack changed: the poll right after the push is such a point. This file says from which
states that can happen, and that from all others a failed step leaves no trace.
-/

open Std Prog List

namespace PyHermit

open TableauKernel

/-! ## What leaves the stack alone -/

def SameStack (s s' : NominalState) : Prop := s'.kernel.branches = s.kernel.branches

instance : Std.Refl SameStack := ⟨fun _ => rfl⟩

instance : IsTrans NominalState SameStack := ⟨fun _ _ _ h1 h2 => h2.trans h1⟩

namespace NominalIntroductionManager

variable {engine : RuleEngine} {limits : NominalLimits} {cancellation : Cancellation} {α : Type}
  {root : NodeHandle} {level : Nat}

theorem onEngine_stack {m : RuleM α} (hm : Within Dispatched m) : Within SameStack (onEngine m) :=
  fun s => wp_zoom.mpr (wp_mono (hm s.rules) (fun _ _ h => h.kernel.branches) fun _ _ h =>
    h.kernel.branches)

theorem onKernel_stack {m : KernelM α} (hm : Within Keeps m) : Within SameStack (onKernel m) :=
  onEngine_stack (RuleEngine.onKernel_dispatched hm)

theorem poll_stack : Within SameStack (poll cancellation) :=
  onEngine_stack RuleEngine.poll_dispatched

theorem modify_stack {f : NominalState → NominalState}
    (hf : ∀ s, (f s).kernel.branches = s.kernel.branches) :
    Within SameStack (modify f : NominalM Unit) :=
  within_modify hf

variable {context : BranchContext} {dependency : DependencySet} {predicate : RulePredicate}

theorem recordContext_stack {event : NominalEvent} {handles : List NodeHandle}
    {choice : Option Nat} :
    Within SameStack (recordContext event context dependency handles choice) :=
  within_modify fun _ => rfl

theorem findRootKey_stack : Within SameStack (findRootKey root predicate level) := by
  have hscan : ∀ arena direct roots, Within SameStack (findRootKey.scan root arena direct roots) :=
    fun _ _ _ => (modify_stack (by exact fun _ => rfl)).bind fun _ => within_pure
  refine within_ask.bind fun direct => within_get.bind fun s => ?_
  split
  · exact .ite within_pure (hscan _ _ _)
  · exact hscan _ _ _

theorem registerNode_dispatched {handle : NodeHandle} :
    Within Dispatched (engine.registerNode handle dependency) := by
  refine RuleEngine.observe_dispatched.bind fun sort => ?_
  cases engine.equalityOf sort.termSort with
  | none => exact within_pure
  | some predicateId =>
    exact within_ask.bind fun _ => RuleEngine.dispatchNested_dispatched _ _ _ _ _

theorem getOrCreateRoot_stack :
    Within SameStack (getOrCreateRoot engine root predicate level dependency context) := by
  refine findRootKey_stack.bind fun found => ?_
  cases found with
  | some entry => exact within_ask.bind fun _ => recordContext_stack.bind fun _ => within_pure
  | none =>
    exact within_ask.bind fun _ => (onKernel_stack createNode_keeps).bind fun _ =>
      (onEngine_stack registerNode_dispatched).bind fun _ =>
      (modify_stack (by exact fun _ => rfl)).bind fun _ =>
      recordContext_stack.bind fun _ => within_pure

theorem mergeNodes_stack {left right : NodeHandle} :
    Within SameStack (mergeNodes engine cancellation left right dependency) :=
  onEngine_stack (RuleEngine.mergeNodesSemantic_dispatched (RuleEngine.dispatchNested_dispatched _))

theorem mergeOther_stack {choice : Nat} {other niRoot : NodeHandle} {support : DependencySet} :
    Within SameStack (mergeOther engine cancellation context choice other niRoot support) := by
  refine within_get.bind fun s => ?_
  cases s.kernel.state.nodes.requireNode other with
  | error _ => exact within_pure
  | ok otherNode =>
    exact .ite within_pure (within_ask.bind fun _ => within_ask.bind fun _ =>
        mergeNodes_stack.bind fun _ =>
      recordContext_stack)

theorem applyChoice_stack {choice : Nat} :
    Within SameStack (applyChoice engine cancellation context choice dependency) := by
  refine poll_stack.bind fun _ => within_ask.bind fun _ => within_ask.bind fun found => ?_
  cases found with
  | none => exact within_pure
  | some entry =>
    exact within_ask.bind fun _ => getOrCreateRoot_stack.bind fun _ =>
        mergeNodes_stack.bind fun _ =>
      recordContext_stack.bind fun _ => .ite within_pure (poll_stack.bind fun _ => mergeOther_stack)

end NominalIntroductionManager

/-! ## What a failed step leaves behind -/

/-- All that a failed step promises to leave as it was. -/
structure NominalState.Unchanged (s s' : NominalState) : Prop where
  logicalValue : s'.kernel.logicalValue = s.kernel.logicalValue
  annotatedEqualities : s'.kernel.state.annotatedEqualities = s.kernel.state.annotatedEqualities
  roots : s'.roots = s.roots
  branchContexts : s'.branchContexts = s.branchContexts
  trace : s'.trace = s.trace

/-- A failed step leaves everything unchanged, whatever the polls answer. -/
def FailsCleanly {α : Type} (step : Cancellation → NominalM α) (s : NominalState) : Prop :=
  ∀ cancellation e s', step cancellation s = .error e s' → s.Unchanged s'

theorem logicalValue_rollBack {k k' : TableauKernel} (heven : Even k.state)
    (hstack : k'.branches = k.branches) : (rollBack k k').logicalValue = k.logicalValue :=
  SameButSlots.logicalValue_eq ⟨hstack, rfl, padded_restore heven k'⟩

/-- The state after a poll. -/
abbrev NominalState.polledOnce (s : NominalState) : NominalState :=
  { s with rules := { s.rules with polled := { s.rules.polled with
    polls := s.rules.polled.polls + 1 } } }

namespace NominalIntroductionManager

variable {engine : RuleEngine} {limits : NominalLimits} {cancellation : Cancellation}
  {s : NominalState} {α : Type} {m : Cancellation → NominalM α} {n : Nat}

/-- If the program inside never fails with the stack changed, the step fails cleanly. -/
theorem failsCleanly_of_sameStack (heven : Even s.kernel.state)
    (hm : ∀ cancellation, wp (m cancellation) (fun _ _ => True) (fun _ s' => SameStack s s') s) :
    FailsCleanly (fun cancellation => atomically (m cancellation)) s := by
  intro cancellation e s' hs'
  have hundo : wp (atomically (m cancellation)) (fun _ _ => True)
      (fun _ s' => s.Unchanged s') s := by
    refine wp_orUndo.mpr (wp_fail (hm cancellation) fun _ after hstack => ?_)
    exact ⟨logicalValue_rollBack heven hstack, rfl, rfl, rfl, rfl⟩
  exact wp_error (E := fun _ s' => s.Unchanged s') hundo hs'

/-- If it can fail with another stack, the step does not. -/
theorem not_failsCleanly (hm : wp (m cancellation) (fun _ _ => False)
      (fun _ s' => s'.kernel.branches.map (·.logicalValue) ≠
        s.kernel.branches.map (·.logicalValue)) s) :
    ¬ FailsCleanly (fun cancellation => atomically (m cancellation)) s := by
  intro hclean
  have hundo : wp (atomically (m cancellation)) (fun _ _ => False)
      (fun _ s' => ¬ s.Unchanged s') s := by
    refine wp_orUndo.mpr (wp_fail hm fun _ after hstack hsame => hstack ?_)
    exact congrArg LogicalValue.branches hsame.logicalValue
  cases hrun : atomically (m cancellation) s with
  | ok a s' => exact wp_ok hundo hrun
  | error e s' => exact wp_error hundo hrun (hclean cancellation e s' hrun)

/-! ## Opening a branch -/

variable {k : TableauKernel} {E : NativeError → TableauKernel → Prop} {dependency : DependencySet}
  {Q : Unit → NominalState → Prop} {Stop : NativeError → NominalState → Prop}

theorem wp_poll (hok : cancellation s.rules.polled.polls = .ok () → Q () s.polledOnce)
    (herr : ∀ e, cancellation s.rules.polled.polls = .error e → Stop e s.polledOnce) :
    wp (poll cancellation) Q Stop s := by
  refine wp_zoom.mpr (wp_zoom.mpr (wp_get_then.mpr (wp_bind.mpr (wp_set.mpr ?_))))
  exact wp_ask (fun _ h => hok h) herr

/-! ### The next annotation -/

/-- The annotation an entry of the queue stands for. -/
def pendingAction (engine : RuleEngine) (r : RuleState) (actionId : Nat) :
    Except NativeError PendingAnnotatedEquality := do
  let atom ← RuleEngine.atomForId r actionId
  let kind ← engine.program.predicateKind atom.predicateId
  ensure (kind = .annotatedEquality)
    (NativeError.invariant "annotated-equality queue references a different predicate kind")
  let rows := r.kernel.state.factHistory atom.predicateId atom.arguments
  PendingAnnotatedEquality.new actionId atom (rows.flatMap (·.supports))
    (rows.flatMap (·.provenanceIds.toList))

/-- The annotation at the head of the queue, if it can be taken. -/
def nextAction (engine : RuleEngine) (r : RuleState) : Option PendingAnnotatedEquality :=
  match r.kernel.state.annotatedEqualities.pop with
  | some (.integer actionId, _) =>
    if r.kernel.trailLength < u64Max then (pendingAction engine r actionId).toOption else none
  | _ => none

/-- The state with another queue of annotations and another trail. -/
def requeued (r : RuleState) (queue : StableQueue) (trail : Nat) : RuleState :=
  { r with polled := { r.polled with kernel := { r.kernel with
    state := { r.kernel.state with annotatedEqualities := queue }
    trailLength := trail } } }

theorem wp_takeInteger {Q : Option Nat → TableauKernel → Prop}
    (hempty : k.state.annotatedEqualities.pop = none → Q none k)
    (htaken : ∀ value queue, k.state.annotatedEqualities.pop = some (.integer value, queue) →
      k.trailLength < u64Max → Q (some value) { k with
        state := { k.state with annotatedEqualities := queue }
        trailLength := k.trailLength + 1 })
    (hfail : ∀ e queue trail, (∀ value rest, k.state.annotatedEqualities.pop =
      some (.integer value, rest) → ¬ k.trailLength < u64Max) → E e { k with
        state := { k.state with annotatedEqualities := queue }
        trailLength := trail }) :
    wp (takeInteger .annotatedEqualities) Q E k := by
  refine wp_bind.mpr (wp_get_then.mpr ?_)
  have hfield : (IntegerQueue.lens .annotatedEqualities).get k.state =
    k.state.annotatedEqualities := rfl
  rw [hfield]
  cases hpop : k.state.annotatedEqualities.pop with
  | none => exact hempty hpop
  | some entry =>
    obtain ⟨value, queue⟩ := entry
    refine wp_modify_then.mpr (wp_pure.mpr (wp_bind.mpr ?_))
    refine wp_ask_then (fun length hlength => ?_) fun e herror => ?_
    · obtain ⟨rfl, hlt⟩ := bounded_ok hlength
      refine wp_modify.mpr ?_
      cases value with
      | integer value => exact htaken value queue hpop hlt
      | node handle =>
        refine hfail _ queue _ fun value rest h => ?_
        rw [hpop] at h
        cases h
    · exact hfail e queue _ fun value rest _ => bounded_error herror

/-- Once an entry is off the queue, the rest of `take_pending_annotated_equality` is a read. -/
theorem takePending_eq : engine.takePendingAnnotatedEquality = (do
    match ← RuleEngine.onKernel (takeInteger .annotatedEqualities) with
    | none => return none
    | some actionId => ask fun r => some <$> pendingAction engine r actionId) := by
  unfold RuleEngine.takePendingAnnotatedEquality
  congr 1
  funext found
  cases found with
  | none => rfl
  | some actionId =>
    simp only [ensure_eq_ask, get_bind_ask, ask_bind_ask]
    congr 1
    funext r
    unfold pendingAction
    simp only [map_bind]

theorem wp_takePending {r : RuleState} {Q : Option PendingAnnotatedEquality → RuleState → Prop}
    {E : NativeError → RuleState → Prop} (hempty : nextAction engine r = none → Q none r)
    (htaken : ∀ pending queue trail, nextAction engine r = some pending →
      Q (some pending) (requeued r queue trail))
    (hfail : ∀ e queue trail, nextAction engine r = none → E e (requeued r queue trail)) :
    wp engine.takePendingAnnotatedEquality Q E r := by
  rw [takePending_eq]
  refine wp_bind.mpr (wp_zoom.mpr
    (wp_takeInteger (fun hpop => ?_) (fun actionId queue hpop htrail => ?_) ?_))
  · refine hempty ?_
    have hpop : r.kernel.state.annotatedEqualities.pop = none := hpop
    unfold nextAction
    rw [hpop]
  · have hpop : r.kernel.state.annotatedEqualities.pop = some (.integer actionId, queue) := hpop
    have hnext : nextAction engine r = (pendingAction engine r actionId).toOption := by
      unfold nextAction
      rw [hpop]
      exact if_pos htrail
    refine wp_ask (fun found hfound => ?_) fun e herror => hfail e queue _ ?_
    · have hfound : some <$> pendingAction engine r actionId = .ok found := hfound
      cases hact : pendingAction engine r actionId with
      | error e =>
        rw [hact] at hfound
        cases hfound
      | ok pending =>
        rw [hact] at hfound
        cases hfound
        refine htaken pending queue _ ?_
        rw [hnext, hact]
        rfl
    · have herror : some <$> pendingAction engine r actionId = .error e := herror
      cases hact : pendingAction engine r actionId with
      | error e' =>
        rw [hnext, hact]
        rfl
      | ok pending =>
        rw [hact] at herror
        cases herror
  · intro e queue trail hnone
    refine hfail e queue trail ?_
    unfold nextAction
    split
    · rename_i value rest hpop
      exact if_neg (hnone value rest hpop)
    · rfl

/-! ### The next choice -/

/-- The choice the next annotation calls for: its action, how many new roots there are to
choose from, and what it rests on. -/
def nextChoice (engine : RuleEngine) (s : NominalState) : Option (Nat × Nat × DependencySet) := do
  let pending ← nextAction engine s.rules
  let predicate ← (annotationPredicate engine pending.atom.predicateId).toOption
  let support ← (actionSupport pending).toOption
  let (nodes, dependency) ←
    (canonicalNodes s.kernel.state.nodes pending.atom.arguments support true).toOption.join
  let (first, second, root) ← (threeNodes nodes).toOption
  let forgettable ← (canForgetCanonical s.kernel.state.nodes first second root).toOption
  let cardinality ← predicate.cardinality
  if forgettable then none else some (pending.actionId, cardinality, dependency)

theorem toOption_eq_some {ε : Type} {x : Except ε α} {a : α} : x.toOption = some a ↔ x = .ok a := by
  cases x with
  | ok b => exact ⟨fun h => congrArg _ (Option.some.inj h), fun h => congrArg _ (Except.ok.inj h)⟩
  | error e => exact ⟨nofun, nofun⟩

theorem threeNodes_eq_ok {nodes : List NodeHandle} {three : NodeHandle × NodeHandle × NodeHandle} :
    threeNodes nodes = .ok three ↔ nodes = [three.1, three.2.1, three.2.2] := by
  unfold threeNodes
  split
  · constructor
    · intro h
      cases h
      rfl
    · intro h
      cases h
      rfl
  · rename_i hnot
    exact ⟨nofun, fun h => absurd h (hnot _ _ _)⟩

theorem nextChoice_eq_some {actionId cardinality : Nat} :
    nextChoice engine s = some (actionId, cardinality, dependency) ↔
      ∃ pending predicate support first second root,
        nextAction engine s.rules = some pending ∧
        annotationPredicate engine pending.atom.predicateId = .ok predicate ∧
        actionSupport pending = .ok support ∧
        canonicalNodes s.kernel.state.nodes pending.atom.arguments support true =
          .ok (some ([first, second, root], dependency)) ∧
        canForgetCanonical s.kernel.state.nodes first second root = .ok false ∧
        predicate.cardinality = some cardinality ∧ pending.actionId = actionId := by
  constructor
  · intro h
    obtain ⟨pending, hpending, h⟩ := Option.bind_eq_some_iff.mp h
    obtain ⟨predicate, hpredicate, h⟩ := Option.bind_eq_some_iff.mp h
    obtain ⟨support, hsupport, h⟩ := Option.bind_eq_some_iff.mp h
    obtain ⟨⟨nodes, d⟩, hnodes, h⟩ := Option.bind_eq_some_iff.mp h
    obtain ⟨⟨first, second, root⟩, hthree, h⟩ := Option.bind_eq_some_iff.mp h
    obtain ⟨forgettable, hforget, h⟩ := Option.bind_eq_some_iff.mp h
    obtain ⟨count, hcount, h⟩ := Option.bind_eq_some_iff.mp h
    have hnodes' := toOption_eq_some.mp (Option.join_eq_some_iff.mp hnodes)
    rw [threeNodes_eq_ok.mp (toOption_eq_some.mp hthree)] at hnodes'
    cases forgettable with
    | true => cases h
    | false =>
      cases h
      exact ⟨pending, predicate, support, first, second, root, hpending,
        toOption_eq_some.mp hpredicate,
        toOption_eq_some.mp hsupport, hnodes', toOption_eq_some.mp hforget, hcount, rfl⟩
  · rintro ⟨pending, predicate, support, first, second, root, hpending, hpredicate,
      hsupport, hnodes, hforget, hcount, rfl⟩
    refine Option.bind_eq_some_iff.mpr ⟨pending, hpending, ?_⟩
    refine Option.bind_eq_some_iff.mpr ⟨predicate, toOption_eq_some.mpr hpredicate, ?_⟩
    refine Option.bind_eq_some_iff.mpr ⟨support, toOption_eq_some.mpr hsupport, ?_⟩
    refine Option.bind_eq_some_iff.mpr
      ⟨_, Option.join_eq_some_iff.mpr (toOption_eq_some.mpr hnodes), ?_⟩
    refine Option.bind_eq_some_iff.mpr ⟨(first, second, root), rfl, ?_⟩
    refine Option.bind_eq_some_iff.mpr ⟨false, toOption_eq_some.mpr hforget, ?_⟩
    exact Option.bind_eq_some_iff.mpr ⟨cardinality, hcount, rfl⟩

/-- The choice is within the limit, has no branch yet, and a branch for it can be pushed. -/
structure CanBranch (limits : NominalLimits) (s : NominalState) (actionId cardinality : Nat)
    (dependency : DependencySet) : Prop where
  limit : cardinality ≤ limits.maxBranchChoices
  unowned : s.branchContexts[actionId]? = none
  push : CanPush s.kernel (List.range' 1 cardinality) dependency

/-- The next step opens a branch. -/
def OpensBranch (engine : RuleEngine) (limits : NominalLimits) (s : NominalState) : Prop :=
  ∃ actionId cardinality dependency, nextChoice engine s = some (actionId, cardinality,
    dependency) ∧ CanBranch limits s actionId cardinality dependency

theorem branchOver_sameStack {context : BranchContext}
    (h : ¬ CanBranch limits s context.actionId context.cardinality dependency) :
    wp (branchOver engine limits cancellation context dependency) (fun _ _ => True)
      (fun _ s' => SameStack s s') s := by
  refine wp_ensure_then (fun hlimit => ?_) fun _ => rfl
  refine wp_get_then.mpr (wp_modify_then.mpr (wp_ensure_then (fun hunowned => ?_) fun _ => rfl))
  refine wp_bind.mpr (wp_zoom.mpr (wp_zoom.mpr (wp_pushBranch (fun _ _ => rfl) fun hpush => ?_)))
  exact absurd
    ⟨hlimit, Option.isSome_eq_false_iff.mp hunowned |> Option.isNone_iff_eq_none.mp, hpush⟩ h

theorem introduce_sameStack {pending : PendingAnnotatedEquality} {predicate : RulePredicate}
    {first second root : NodeHandle}
    (h : ∀ cardinality, canForgetCanonical s.kernel.state.nodes first second root = .ok false →
      predicate.cardinality = some cardinality →
      ¬ CanBranch limits s pending.actionId cardinality dependency) :
    wp (introduce engine limits cancellation pending predicate first second root dependency)
      (fun _ _ => True) (fun _ s' => SameStack s s') s := by
  refine wp_ask_then (fun forgettable hforget => ?_) fun _ _ => rfl
  cases forgettable with
  | true =>
    refine wp_imp (Within.at ?_ s) fun _ _ _ => trivial
    exact mergeNodes_stack.bind fun _ =>
      (modify_stack (by exact fun _ => rfl)).bind fun _ => within_pure
  | false =>
    refine wp_ask_then (fun pair _ => ?_) fun _ _ => rfl
    refine wp_ask_then (fun cardinality hcardinality => ?_) fun _ _ => rfl
    have hcardinality : predicate.cardinality = some cardinality := by
      unfold required at hcardinality
      split at hcardinality
      · rename_i hsome
        cases hcardinality
        exact hsome
      · cases hcardinality
    -- one root is chosen at once, several open a branch
    refine wp_get_then.mpr (wp_ite (fun _ => ?_) fun _ => ?_)
    · refine wp_imp (Within.at ?_ s) fun _ _ _ => trivial
      exact applyChoice_stack.bind fun _ => within_pure
    · exact branchOver_sameStack (h cardinality hforget hcardinality)

/-- The step fails with the stack as it was, unless it opens a branch. -/
theorem processNextInner_sameStack (h : ¬ OpensBranch engine limits s) :
    wp (processNextInner engine limits cancellation) (fun _ _ => True)
      (fun _ s' => SameStack s s') s := by
  refine wp_bind.mpr (wp_poll (fun _ => ?_) fun _ _ => rfl)
  refine wp_modify_then.mpr (wp_bind.mpr (wp_zoom.mpr (wp_takePending (fun _ => trivial)
    (fun pending queue trail hnext => ?_) fun _ _ _ _ => rfl)))
  refine wp_bind.mpr (wp_poll (fun _ => ?_) fun _ _ => rfl)
  refine wp_ask_then (fun predicate hpredicate => ?_) fun _ _ => rfl
  refine wp_ask_then (fun support hsupport => ?_) fun _ _ => rfl
  refine wp_ask_then (fun found hfound => ?_) fun _ _ => rfl
  cases found with
  | none => trivial
  | some entry =>
    obtain ⟨nodes, dependency⟩ := entry
    refine wp_ask_then (fun three hthree => ?_) fun _ _ => rfl
    obtain ⟨first, second, root⟩ := three
    refine introduce_sameStack fun cardinality hforget hcardinality hcan => h ?_
    refine ⟨pending.actionId, cardinality, dependency, ?_, hcan.limit, hcan.unowned, ?_⟩
    · rw [threeNodes_eq_ok.mp hthree] at hfound
      exact nextChoice_eq_some.mpr ⟨pending, predicate, support, first, second, root,
        hnext, hpredicate, hsupport, hfound, hforget, hcardinality, rfl⟩
    · exact ⟨hcan.push.alternatives, hcan.push.clash, hcan.push.level, hcan.push.dependency,
        hcan.push.sequence⟩

/-- A token that is cancelled from the given poll on. -/
def cancelledFrom (n : Nat) : Cancellation := fun i =>
  if i < n then .ok () else .error (NativeError.invariant "cancelled")

theorem wp_poll_ok (hlt : s.rules.polled.polls < n) (h : Q () s.polledOnce) :
    wp (poll (cancelledFrom n)) Q Stop s := by
  refine wp_poll (fun _ => h) fun e he => ?_
  unfold cancelledFrom at he
  rw [if_pos hlt] at he
  cases he

theorem wp_poll_error (hge : n ≤ s.rules.polled.polls) (h : ∀ e, Stop e s.polledOnce) :
    wp (poll (cancelledFrom n)) Q Stop s := by
  refine wp_poll (fun hok => ?_) fun e _ => h e
  unfold cancelledFrom at hok
  rw [if_neg (by omega)] at hok
  cases hok

/-- A step that opens a branch and is cancelled right after leaves the branch behind. -/
theorem processNextInner_opens (h : OpensBranch engine limits s) :
    wp (processNextInner engine limits (cancelledFrom (s.rules.polled.polls + 2)))
      (fun _ _ => False) (fun _ s' => s'.kernel.branches.length = s.kernel.branches.length + 1) s := by
  obtain ⟨actionId, cardinality, dependency, hchoice, hlimit, hunowned, hpush⟩ := h
  obtain ⟨pending, predicate, support, first, second, root, hnext, hpredicate, hsupport,
    hnodes, hforget, hcardinality, rfl⟩ := nextChoice_eq_some.mp hchoice
  have hcount : 2 ≤ cardinality := by
    have hlength := hpush.alternatives.1
    rw [length_range'] at hlength
    exact hlength
  obtain ⟨firstNode, hfirst, -⟩ := bind_eq_ok.mp hforget
  refine wp_bind.mpr (wp_poll_ok (by omega) (wp_modify_then.mpr (wp_bind.mpr (wp_zoom.mpr ?_))))
  refine wp_takePending (fun hnone => ?_) (fun pending' queue trail hnext' => ?_)
    fun _ _ _ hnone => ?_
  · exact absurd (hnone.symm.trans hnext) nofun
  · cases Option.some.inj (hnext'.symm.trans hnext)
    refine wp_bind.mpr (wp_poll_ok (Nat.lt_succ_self _) ?_)
    refine wp_ask_known hpredicate ?_
    refine wp_ask_known hsupport ?_
    refine wp_ask_known hnodes ?_
    refine wp_ask_known rfl ?_
    refine wp_ask_known hforget ?_
    have hpair : ∃ pair, orientedPair s.kernel.state.nodes first second root = .ok pair := by
      unfold orientedPair
      rw [hfirst]
      exact ⟨_, (apply_ite Except.ok _ _ _).symm⟩
    obtain ⟨pair, hpair⟩ := hpair
    refine wp_ask_known hpair ?_
    refine wp_ask_known (b := cardinality) (by rw [hcardinality]; rfl) ?_
    refine wp_get_then.mpr (wp_ite (fun hone => absurd hone (by omega)) fun _ => ?_)
    refine wp_ensure_known hlimit (wp_get_then.mpr (wp_modify_then.mpr ?_))
    have howned : s.branchContexts[pending.actionId]?.isSome = false := by
      rw [hunowned]
      rfl
    refine wp_ensure_known (by exact howned) ?_
    refine wp_bind.mpr (wp_zoom.mpr (wp_zoom.mpr (wp_pushBranch (fun hnot => ?_) fun _ => ?_)))
    · exact absurd
        ⟨hpush.alternatives, hpush.clash, hpush.level, hpush.dependency, hpush.sequence⟩ hnot
    · -- the third poll stops the step, with the branch pushed
      refine wp_modify_then.mpr (wp_bind.mpr ?_)
      refine wp_bind.mpr (wp_poll_error le_rfl fun _ => ?_)
      exact length_append
  · exact absurd (hnone.symm.trans hnext) nofun

/-! ## Moving a branch on -/

/-- The next resolution moves a branch: the clash rests on a merge of the manager, and
either there are branches above it to drop or its state passes the invariant check. -/
def MovesBranch (s : NominalState) : Prop :=
  ∃ clash level branch context, s.kernel.state.clash = some clash ∧
    clash.dependency.maximum = some level ∧ s.kernel.branches[level]? = some branch ∧
    s.branchContexts[branch.sourceId]? = some context ∧ branch.choiceKind = .merge ∧
    (level + 1 < s.kernel.branches.length ∨ (s.kernel.backAt level branch).checkInvariants = .ok ())

theorem branch_eq_ok {level : Nat} {branch : Branch} :
    k.branch level = .ok branch ↔ k.branches[level]? = some branch := by
  unfold TableauKernel.branch
  cases k.branches[level]? with
  | none => exact ⟨nofun, nofun⟩
  | some b => exact ⟨fun h => congrArg _ (Except.ok.inj h), fun h => congrArg _ (Option.some.inj h)⟩

/-- The resolution fails with the stack as it was, unless it moves a branch. -/
theorem resolveClashInner_sameStack (h : ¬ MovesBranch s) :
    wp (resolveClashInner engine cancellation) (fun _ _ => True)
      (fun _ s' => SameStack s s') s := by
  refine wp_bind.mpr (wp_poll (fun _ => ?_) fun _ _ => rfl)
  refine wp_get_then.mpr ?_
  split
  · trivial
  · rename_i clash hclash
    split
    · trivial
    · rename_i level hlevel
      refine wp_ask_then (fun branch hbranch => ?_) fun _ _ => rfl
      have hbranch : s.kernel.branches[level]? = some branch := branch_eq_ok.mp hbranch
      split
      · trivial
      · rename_i context hcontext
        refine wp_ite (fun _ => trivial) fun hmerge => ?_
        have hstuck : ∀ hcheck : level + 1 < s.kernel.branches.length ∨
            (s.kernel.backAt level branch).checkInvariants = .ok (), False :=
          fun hcheck => h ⟨clash, level, branch, context, hclash, hlevel, hbranch, hcontext,
            not_not.mp hmerge, hcheck⟩
        refine wp_bind.mpr (wp_zoom.mpr (wp_zoom.mpr (wp_bind.mpr (wp_backtrackTo (fun _ _ => rfl)
          (fun b hb hok => ?_) fun _ b hb _ => ?_))))
        · cases Option.some.inj (hb.symm.trans hbranch)
          exact (hstuck (.inr hok)).elim
        · -- the branch was on top, so going back to it dropped none
          have hle : s.kernel.branches.length ≤ level + 1 := by
            by_contra hlt
            exact hstuck (.inl (by omega))
          exact take_of_length_le hle

/-- A resolution that moves a branch and is cancelled right after leaves it moved. -/
theorem resolveClashInner_moves (h : MovesBranch s) :
    wp (resolveClashInner engine (cancelledFrom (s.rules.polled.polls + 1))) (fun _ _ => False)
      (fun _ s' => s'.kernel.branches.map (·.logicalValue) ≠
        s.kernel.branches.map (·.logicalValue)) s := by
  obtain ⟨clash, level, branch, context, hclash, hlevel, hbranch, hcontext, hmerge, hmoves⟩ := h
  have hlt := lt_of_getElem? hbranch
  have hshorter : ∀ l : List Branch, l.length < s.kernel.branches.length →
      l.map (·.logicalValue) ≠ s.kernel.branches.map (·.logicalValue) := by
    intro l hl heq
    have hlength := congrArg List.length heq
    rw [length_map, length_map] at hlength
    omega
  -- an alternative that was advanced is not the one it was
  have hadvanced : ((s.kernel.branches.take (level + 1)).set level
      (advanced branch (clash.dependency.without level))).map (·.logicalValue) ≠
        s.kernel.branches.map (·.logicalValue) := by
    intro heq
    have hentry := congrArg (fun l => l[level]?) heq
    rw [getElem?_map, getElem?_map, hbranch,
      getElem?_set_self (by rw [length_take]; omega)] at hentry
    have hnext : branch.nextAlternative + 1 = branch.nextAlternative :=
      congrArg BranchValue.nextAlternative (Option.some.inj hentry)
    omega
  refine wp_bind.mpr (wp_poll_ok (Nat.lt_succ_self _) (wp_get_then.mpr ?_))
  rw [hclash]
  dsimp only
  rw [hlevel]
  refine wp_ask_known (branch_eq_ok.mpr hbranch) ?_
  rw [hcontext]
  refine wp_ite (fun hnot => absurd hmerge hnot) fun _ => ?_
  refine wp_bind.mpr (wp_zoom.mpr
    (wp_zoom.mpr (wp_advanceBranch (fun hnone _ => ?_) (fun e b hb herror => ?_)
    (fun b hb _ => ?_) (fun b current hb _ => ?_) fun e b hb _ => ?_)))
  · exact absurd (hnone.symm.trans hbranch) nofun
  · -- the check fails after the way back, so that way dropped branches
    cases Option.some.inj (hb.symm.trans hbranch)
    rcases hmoves with hdrop | hok
    · refine hshorter _ ?_
      change (s.kernel.branches.take (level + 1)).length < s.kernel.branches.length
      rw [length_take]
      omega
    · exact absurd (herror.symm.trans hok) nofun
  · refine wp_bind.mpr (wp_poll_error le_rfl fun _ => hshorter _ ?_)
    change (s.kernel.branches.take level).length < s.kernel.branches.length
    rw [length_take]
    omega
  · cases Option.some.inj (hb.symm.trans hbranch)
    exact wp_bind.mpr (wp_poll_error le_rfl fun _ => hadvanced)
  · cases Option.some.inj (hb.symm.trans hbranch)
    exact hadvanced

/-- **A failed step leaves everything unchanged exactly when it moves no branch.**
`process_next` is atomic from a state, whatever the token answers, if and only if it would
not open a branch there; `resolve_clash` if and only if it would not move one. -/
theorem nominal_steps_atomic (engine : RuleEngine) (limits : NominalLimits) (s : NominalState)
    (heven : Even s.kernel.state) :
    (FailsCleanly (processNext engine limits) s ↔ ¬ OpensBranch engine limits s) ∧
      (FailsCleanly (resolveClash engine) s ↔ ¬ MovesBranch s) := by
  refine ⟨⟨fun hclean hopens => ?_, fun hnot => ?_⟩, fun hclean hmoves => ?_, fun hnot => ?_⟩
  · refine not_failsCleanly (wp_fail (processNextInner_opens hopens) ?_) hclean
    intro _ s' hlength heq
    have hlengths := congrArg List.length heq
    rw [length_map, length_map] at hlengths
    omega
  · exact failsCleanly_of_sameStack heven fun _ => processNextInner_sameStack hnot
  · exact not_failsCleanly (resolveClashInner_moves hmoves) hclean
  · exact failsCleanly_of_sameStack heven fun _ => resolveClashInner_sameStack hnot

end NominalIntroductionManager

/-! ## A branch that is left behind -/

namespace NominalSample

/-- A concept, equality and inequality, and one annotation that counts two successors. -/
def program : RuleProgram where
  predicates := [
    { predicateId := 0, kind := .concept, argumentSorts := [.object], symbolId := some 0 },
    { predicateId := 1, kind := .equality, argumentSorts := [.object, .object]
      oppositePredicateId := some 2 },
    { predicateId := 2, kind := .inequality, argumentSorts := [.object, .object]
      oppositePredicateId := some 1 },
    { predicateId := 3, kind := .annotatedEquality, argumentSorts := [.object, .object, .object]
      cardinality := some 2, roleId := some 7, fillerPredicateId := some 0 }]
  clauses := []
  formed := RuleProgram.formed_nil
  valid := by decide +kernel

def engine : RuleEngine where
  program := program
  joinProgram := ⟨[], []⟩
  sourceNodes := ∅
  dataNodes := ∅
  learning := true
  merger := ⟨fun sort => if sort = .object then some 2 else none⟩
  limits := .default
  depth := 3

/-- A root, its child and its grandchild. -/
def kernel : TableauKernel :=
  runCalls .new [.createNode .root none false none none none,
    .createNode .tree (some ⟨0, 1⟩) false none none none,
    .createNode .tree (some ⟨1, 1⟩) false none none none]

/-- The annotation says that the child and the grandchild are the same successor of the
root. -/
def pending : NominalState :=
  .new (final (engine.dispatchGroundAtom ⟨3, [⟨1, 1⟩, ⟨2, 1⟩, ⟨0, 1⟩]⟩ .empty false [5])
    (.new kernel))

def limits : NominalLimits := ⟨1000000, 1000000, Nat.succ_pos _, Nat.succ_pos _⟩

open NominalIntroductionManager

/-- The step opens a branch over the two successors, is cancelled at its third poll, and
leaves the branch on the stack. -/
theorem cancelled_step_leaves_branch : let run := processNext engine limits (cancelledFrom 2)
    returned run pending = none ∧ pending.kernel.branches.length = 0 ∧
      (final run pending).kernel.branches.length = 1 := by
  decide +kernel

def narrow : NominalLimits := ⟨1, 1000000, Nat.succ_pos _, Nat.succ_pos _⟩

/-- Where two choices are one too many, the step is refused, and both steps fail cleanly. -/
theorem refused_step_fails_cleanly :
    returned (processNext engine narrow (cancelledFrom 9)) pending = none ∧
    FailsCleanly (processNext engine narrow) pending ∧ FailsCleanly
    (resolveClash engine) pending := by
  have heven : Even pending.kernel.state := by
    unfold Even
    decide +kernel
  have hatomic := nominal_steps_atomic engine narrow pending heven
  refine ⟨by decide +kernel, hatomic.1.mpr ?_, hatomic.2.mpr ?_⟩
  · intro hopens
    obtain ⟨_, cardinality, _, hchoice, hbranch⟩ := hopens
    have htwo : (nextChoice engine pending).map (·.2.1) = some 2 := by decide +kernel
    rw [hchoice] at htwo
    cases htwo
    exact absurd hbranch.limit (by decide)
  · intro hmoves
    obtain ⟨clash, _, _, _, hclash, -⟩ := hmoves
    have hnone : pending.kernel.state.clash = none := by decide +kernel
    exact absurd (hnone.symm.trans hclash) nofun

end NominalSample

end PyHermit
