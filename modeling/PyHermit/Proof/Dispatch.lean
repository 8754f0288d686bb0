import PyHermit.Engine.Rules
import PyHermit.Proof.Backjumping

/-!
# What dispatching an atom leaves alone

A dispatch adds facts, merges nodes, queues work and installs clashes. It opens or closes no
branch, enters no disjunction, and adds to the registry of atoms only at its end, whatever
state it starts from and whether it returns or fails.
-/

open Std Prog List

namespace PyHermit

open TableauKernel

/-! ## Merging -/

/-- `Keeps` of the kernel behind the polls. -/
def KeepsPolled (p p' : Polled) : Prop := Keeps p.kernel p'.kernel

instance : Std.Refl KeepsPolled := ⟨fun p => Std.Refl.refl (r := Keeps) p.kernel⟩

instance : IsTrans Polled KeepsPolled :=
  ⟨fun _ _ _ h1 h2 => IsTrans.trans (r := Keeps) _ _ _ h1 h2⟩

theorem poll_keeps {cancellation : Cancellation} : Within KeepsPolled (poll cancellation) := by
  intro p
  have hsame : KeepsPolled p { p with polls := p.polls + 1 } := Std.Refl.refl (r := Keeps) p.kernel
  exact wp_get_then.mpr (wp_bind.mpr (wp_set.mpr (wp_ask (fun _ _ => hsame) fun _ _ => hsame)))

theorem onKernel_keeps {α : Type} {m : KernelM α} (hm : Within Keeps m) :
    Within KeepsPolled (onKernel m) :=
  fun p => wp_zoom.mpr (hm p.kernel)

theorem readState_keeps {α : Type} {f : MutableState → Except NativeError α} :
    Within Keeps (readState f) := within_ask

theorem atomically_keeps {α : Type} {m : PolledM α} (hm : Within KeepsPolled m) :
    Within KeepsPolled (atomically m) :=
  fun p => wp_orUndo.mpr (wp_fail (hm p) fun _ _ h =>
    ⟨⟨h.branches, h.operationRoot, fun _ => even_restore⟩, rfl⟩)

variable {left right : NodeHandle}

namespace MergingManager

variable {manager : MergingManager} {cancellation : Cancellation}
  {dependency support : DependencySet}

theorem inequalityClash_keeps {sort : NodeSort} :
    Within Keeps (manager.inequalityClash left right sort support) := by
  unfold inequalityClash
  cases manager.inequalityBySort sort.termSort with
  | none => exact within_pure
  | some predicateId =>
    refine within_ask.bind fun _ => within_ask.bind fun _ => within_ask.bind fun rows => ?_
    refine .ite within_pure (within_ask.bind fun facts => ?_)
    cases minDependency (facts.flatMap (·.supports)) with
    | none => exact within_throw
    | some inequality => exact installClash_frame.bind fun _ => within_pure

theorem pruneChildren_keeps (children : List NodeHandle) :
    Within KeepsPolled (pruneChildren cancellation children) := by
  induction children with
  | nil => exact within_pure
  | cons child rest ih =>
    have hprune : Within Keeps (pruneSubtreeInTransaction child) :=
      within_ask.bind fun _ => pruneSubtreeInner_frame
    exact poll_keeps.bind fun _ => (onKernel_keeps hprune).bind fun _ =>
      ih.bind fun _ => within_pure

theorem absorbSource_keeps {source target : NodeHandle} {pending : List Nat} :
    Within Keeps (absorbSource source target pending support) := by
  have hmerge : Within Keeps (mergeNodesInTransaction source target support) :=
    within_ask.bind fun _ => mergeNodesInner_frame
  refine (Within.forM (fun _ => markExistential_frame) _).bind fun _ => hmerge.bind fun _ =>
    within_ensure.bind fun _ => readState_keeps.bind fun _ => readState_keeps.bind fun node => ?_
  exact .ite (within_pure.bind fun _ => enqueueNode_frame)
    (enqueueNode_frame.bind fun _ => enqueueNode_frame)

theorem mergeInner_keeps :
    Within KeepsPolled (manager.mergeInner cancellation left right dependency) := by
  have hread : ∀ {α : Type} {f : MutableState → Except NativeError α},
      Within KeepsPolled (onKernel (readState f)) := onKernel_keeps readState_keeps
  refine hread.bind fun _ => hread.bind fun _ => .ite within_pure ?_
  refine hread.bind fun _ => hread.bind fun _ => within_ensure.bind fun _ =>
    (onKernel_keeps inequalityClash_keeps).bind fun clashed => ?_
  cases clashed with
  | some result => exact within_pure
  | none =>
    exact hread.bind fun _ => hread.bind fun _ => hread.bind fun _ => (pruneChildren_keeps _).bind
      fun _ => (onKernel_keeps absorbSource_keeps).bind fun _ => within_pure

theorem merge_keeps : Within KeepsPolled (manager.merge cancellation left right dependency) :=
  poll_keeps.bind fun _ => atomically_keeps (mergeInner_keeps.bind fun _ => poll_keeps.bind fun _ =>
    within_pure)

end MergingManager

/-! ## Dispatch -/

/-- An atom's identifier is its place in the registry. -/
def RuleState.Interned (s : RuleState) : Prop :=
  ∀ (atom : GroundAtom) (atomId : Nat), s.atomIds[atom]? = some atomId →
    s.atoms[atomId]? = some atom

/-- What a dispatch does to the state of the engine, as far as branches, disjunctions and
registries go. -/
structure Dispatched (s s' : RuleState) : Prop where
  kernel : Keeps s.kernel s'.kernel
  keys : s'.disjunctionKeys = s.disjunctionKeys
  registrations : s'.registrations = s.registrations
  initialized : s'.initialized = s.initialized
  atoms : s.atoms <+: s'.atoms
  interned : s.Interned → s'.Interned

instance : Std.Refl Dispatched :=
  ⟨fun s => ⟨Std.Refl.refl (r := Keeps) s.kernel, rfl, rfl, rfl, prefix_rfl, fun h => h⟩⟩

instance : IsTrans RuleState Dispatched :=
  ⟨fun _ _ _ h1 h2 => ⟨IsTrans.trans (r := Keeps) _ _ _ h1.kernel h2.kernel, h2.keys.trans h1.keys,
    h2.registrations.trans h1.registrations, h2.initialized.trans h1.initialized,
    h1.atoms.trans h2.atoms, fun h => h2.interned (h1.interned h)⟩⟩

namespace RuleEngine

variable {engine : RuleEngine} {cancellation : Cancellation} {α : Type} {atom : GroundAtom}
  {dependency : DependencySet} {provenanceId : Option Nat}

theorem polled_dispatched {m : PolledM α} (hm : Within KeepsPolled m) :
    Within Dispatched (zoom polledLens m) := by
  have hput : ∀ s p', KeepsPolled s.polled p' → Dispatched s (polledLens.put s p') :=
    fun s p' h => ⟨h, rfl, rfl, rfl, prefix_rfl, fun h => h⟩
  exact fun s => wp_zoom.mpr (wp_mono (hm s.polled) (fun _ _ h => hput s _ h)
    fun _ _ h => hput s _ h)

theorem poll_dispatched : Within Dispatched (poll cancellation) := polled_dispatched poll_keeps

theorem pollWith_dispatched (control : Option Cancellation) :
    Within Dispatched (pollWith control) := by
  cases control with
  | none => exact within_pure
  | some cancellation => exact poll_dispatched

theorem onKernel_dispatched {m : KernelM α} (hm : Within Keeps m) :
    Within Dispatched (onKernel m) := by
  have hput : ∀ s k', Keeps s.kernel k' → Dispatched s ((polledLens.comp kernelLens).put s k') :=
    fun s k' h => ⟨h, rfl, rfl, rfl, prefix_rfl, fun h => h⟩
  exact fun s => wp_zoom.mpr (wp_mono (hm s.kernel) (fun _ _ h => hput s _ h)
    fun _ _ h => hput s _ h)

theorem observe_dispatched {f : MutableState → Except NativeError α} :
    Within Dispatched (observe f) := onKernel_dispatched readState_keeps

theorem hasClash_dispatched : Within Dispatched hasClash := within_get.bind fun _ => within_pure

theorem prefix_getElem? {l l' : List α} (h : l <+: l') {i : Nat} {a : α} (ha : l[i]? = some a) :
    l'[i]? = some a := by
  obtain ⟨rest, rfl⟩ := h
  rw [getElem?_append_left (lt_of_getElem? ha)]
  exact ha

/-- A new atom goes to the end of the registry; what it is called is where it is. -/
theorem wp_atomId {s : RuleState} : wp (engine.atomId atom)
      (fun atomId s' => Dispatched s s' ∧ (s.Interned → s'.atoms[atomId]? = some atom))
      (fun _ s' => Dispatched s s') s := by
  refine wp_get_then.mpr ?_
  cases hid : s.atomIds[atom]? with
  | some atomId => exact ⟨Std.Refl.refl (r := Dispatched) s, fun h => h atom atomId hid⟩
  | none =>
    refine wp_ask_then (fun atomId hatomId => ?_) fun _ _ => Std.Refl.refl (r := Dispatched) s
    refine wp_ask_then (fun _ _ => ?_) fun _ _ => Std.Refl.refl (r := Dispatched) s
    have hnew : (s.atoms ++ [atom])[atomId]? = some atom := by
      rw [toU32_ok hatomId, getElem?_append_right le_rfl, Nat.sub_self]
      rfl
    have hprefix : s.atoms <+: s.atoms ++ [atom] := prefix_append _ _
    refine wp_bind.mpr (wp_set.mpr
      ⟨⟨Std.Refl.refl (r := Keeps) s.kernel, rfl, rfl, rfl, hprefix, ?_⟩, fun _ => hnew⟩)
    intro h other otherId hother
    rcases getElem?_insert_cases hother with ⟨rfl, rfl⟩ | ⟨-, hother⟩
    · exact hnew
    · exact prefix_getElem? hprefix (h other otherId hother)

theorem atomId_dispatched : Within Dispatched (engine.atomId atom) :=
  fun _ => wp_mono wp_atomId (fun _ _ h => h.1) fun _ _ h => h

theorem addFact_keeps {predicateId : Nat} {arguments : List NodeHandle} {core : Bool} :
    Within Keeps (addFact predicateId arguments dependency core provenanceId) :=
  addFactDetailed_frame.map

theorem addExtensionAtom_keeps {core : Bool} {provenanceIds : List Nat} :
    Within Keeps (addExtensionAtom atom dependency core provenanceIds) :=
  addFactDetailed_frame.bind fun _ =>
    (Within.forM (fun _ => addFact_keeps.bind fun _ => within_pure) _).bind fun _ => within_pure

theorem installClash_dispatched {kind : ClashKind} {participants : List Nat} :
    Within Dispatched (onKernel (installClash kind dependency participants provenanceId)) :=
  onKernel_dispatched installClash_frame

section

variable {dispatch : GroundAtom → DependencySet → Bool → List Nat → RuleM Bool}
  (hdispatch : ∀ atom dependency core provenanceIds,
    Within Dispatched (dispatch atom dependency core provenanceIds))

include hdispatch

variable {core : Bool} {provenanceIds : List Nat} {control : Option Cancellation}
  {predicate : RulePredicate}

theorem deriveConcreteRoleInequalities_dispatched {opposite : Nat} : Within Dispatched
      (engine.deriveConcreteRoleInequalities dispatch atom opposite dependency core
        provenanceIds) := by
  refine within_ask.bind fun _ => within_ask.bind fun target => observe_dispatched.bind fun _ =>
    Within.forM ?_ _
  rintro ⟨other, supports, oppositeCore⟩
  cases engine.dataInequality with
  | none => exact observe_dispatched.bind fun _ => within_ensure
  | some predicateId =>
    exact Within.forM
      (fun _ => within_ask.bind fun _ => (hdispatch _ _ _ _).bind fun _ => within_pure) _

theorem supportsLoop_dispatched {ground : GroundAtom} {row : FactRow}
    (supports : List DependencySet) :
    Within Dispatched (redispatch.supportsLoop dispatch ground row supports) := by
  induction supports with
  | nil => exact within_pure
  | cons support rest ih =>
    exact (hdispatch _ _ _ _).bind fun _ => hasClash_dispatched.bind fun _ => .ite within_pure ih

theorem redispatch_dispatched (rows : List FactRow) :
    Within Dispatched (redispatch dispatch control rows) := by
  induction rows with
  | nil => exact within_pure
  | cons row rest ih =>
    exact (pollWith_dispatched control).bind fun _ => within_ask.bind fun _ =>
      (supportsLoop_dispatched hdispatch _).bind fun _ => .ite within_pure ih

theorem mergeNodesSemantic_dispatched :
    Within Dispatched (engine.mergeNodesSemantic dispatch left right dependency control) :=
  (polled_dispatched MergingManager.merge_keeps).bind fun _ => .ite within_pure <|
    observe_dispatched.bind fun _ => (redispatch_dispatched hdispatch _).bind fun _ =>
      .ite within_pure within_pure

theorem dispatchEquality_dispatched :
    Within Dispatched (engine.dispatchEquality dispatch atom dependency core provenanceIds) := by
  refine within_ask.bind fun left => within_ask.bind fun right => observe_dispatched.bind fun _ =>
    .ite (atomId_dispatched.bind fun _ => installClash_dispatched) ?_
  refine within_ask.bind fun predicate => ?_
  refine observe_dispatched.bind fun inequality => ?_
  cases inequality with
  | some inequality => exact atomId_dispatched.bind fun _ => installClash_dispatched
  | none =>
    refine .ite ((mergeNodesSemantic_dispatched hdispatch).bind fun result =>
      .ite within_pure ?_) ?_
    · exact within_ask.bind fun _ =>
        (onKernel_dispatched addExtensionAtom_keeps).bind fun _ => within_pure
    · exact within_ask.bind fun _ => onKernel_dispatched addExtensionAtom_keeps

omit hdispatch in
theorem contradict_dispatched :
    Within Dispatched (engine.contradict predicate atom dependency provenanceIds) := by
  refine observe_dispatched.bind fun refutation => ?_
  cases refutation with
  | none => exact within_pure
  | some refutation =>
    exact atomId_dispatched.bind fun _ => installClash_dispatched.bind fun _ => within_pure

omit hdispatch in
theorem scheduleExistential_dispatched : Within Dispatched (scheduleExistential predicate atom) :=
  .ite (within_ask.bind fun _ => (onKernel_dispatched markExistential_frame).bind fun _ =>
    observe_dispatched.bind fun _ => onKernel_dispatched enqueueNode_frame) within_pure

theorem dispatchFact_dispatched :
    Within Dispatched
    (engine.dispatchFact dispatch predicate atom dependency core provenanceIds) := by
  have hirreflexive : Within Dispatched
    (engine.clashOnIrreflexive predicate atom dependency provenanceIds) :=
    .ite (atomId_dispatched.bind fun _ => installClash_dispatched.bind fun _ => within_pure)
      within_pure
  have hseparate : Within Dispatched
      (engine.separateTargets dispatch predicate atom dependency core provenanceIds) := by
    unfold separateTargets
    cases predicate.oppositePredicateId with
    | none => exact within_pure
    | some opposite => exact .ite (deriveConcreteRoleInequalities_dispatched hdispatch) within_pure
  refine (onKernel_dispatched addExtensionAtom_keeps).bind fun _ => hirreflexive.bind fun _ =>
    contradict_dispatched.bind fun _ => .ite ?_ (hseparate.bind fun _ => ?_)
  all_goals exact scheduleExistential_dispatched.bind fun _ => within_pure

theorem dispatchNormalized_dispatched :
    Within Dispatched (engine.dispatchNormalized dispatch atom dependency core provenanceIds) := by
  refine within_ask.bind fun predicate => ?_
  cases predicate.kind with
  | orderingGuard => exact within_throw
  | equality => exact dispatchEquality_dispatched hdispatch
  | annotatedEquality =>
    exact atomId_dispatched.bind fun _ => (onKernel_dispatched addExtensionAtom_keeps).bind fun _ =>
      (onKernel_dispatched enqueueInteger_frame).bind fun _ => within_pure
  | _ => exact dispatchFact_dispatched hdispatch

end

theorem dispatchNested_dispatched (depth : Nat) (atom : GroundAtom) (dependency : DependencySet)
    (core : Bool) (provenanceIds : List Nat) :
    Within Dispatched (engine.dispatchNested depth atom dependency core provenanceIds) := by
  induction depth generalizing atom dependency core provenanceIds with
  | zero => exact within_throw
  | succ depth ih => exact observe_dispatched.bind fun _ => dispatchNormalized_dispatched ih

theorem dispatchAtom_dispatched {atomId : Nat} :
    Within Dispatched (engine.dispatchAtom atomId dependency) :=
  within_ask.bind fun _ => dispatchNested_dispatched _ _ _ _ _

/-- The engine's atoms are what the brancher asks of an access. -/
theorem access_lawful : engine.access.Lawful :=
  fun _ _ => dispatchAtom_dispatched.mono fun _ _ h => h.kernel.branches

end RuleEngine

end PyHermit
