import PyHermit.Proof.Incremental
import PyHermit.Proof.Refreshing

/-!
# Block marks in the kernel

The manager keeps an assignment for every node, the kernel a mark. `compute_and_apply` sends
the kernel the difference between the assignments before and after a computation, so it
relies on the marks having been in step before. They need not be: a backtrack restores marks
and not assignments, `ready_for_sat` recomputes assignments and writes no marks, and a node
that was blocked may no longer be there to be unmarked.

`Blockings.Sound` is what holds in every run of the two together. `InStep` names the steps
that do not part mark and assignment of a node, `Sends` those that bring them together; by
induction over the run (`Sound.follows_run`) a refresh leaves them equal for every node
that was not parted since (`computeAndApply_marks`). What a refresh needs to succeed at
all is `computeAndApply_succeeds`.
-/

open Std Prog List

namespace PyHermit

open TableauKernel

/-! ## Validation -/

variable {m : BlockingManager}

namespace BlockingManager

theorem issued_new {plan : BlockingPlan} {checker : DirectChecker} {limits : BlockingLimits}
    {trace : Nat} (h : new plan checker none limits trace = .ok m) {st : MutableState} :
    m.Issued st := by
  obtain ⟨rfl, -⟩ := new_eq_ok h
  exact fun _ hlast => nomatch hlast

/-- What a validation leaves: it has seen `P`, and has changes for all it moved. -/
structure Validated (m : BlockingManager) (P : BlockingProjection) (changes : List AssignmentChange)
    (m' : BlockingManager) : Prop where
  neat : Neat m'
  last : m'.lastProjection = some P
  sent : Sent m changes m'

/-- **A validation right after a computation moves no assignment unsaid.** -/
theorem Neat.wp_validationPass (hm : Neat m) {state : BlockingState} (holder : state.ParentsOlder)
    (hsame : m.isUnchanged (state.projection m.checker.vocabulary) false = true)
    (validator : BlockValidator) (control : BlockingControl) (w : BlockingWork) :
    wp (m.validationPass state validator control)
      (fun answer _ => Validated m (state.projection m.checker.vocabulary) (sent answer.1) answer.2)
      (fun _ _ => True) w := by
  generalize hP : state.projection m.checker.vocabulary = P at hsame
  have hcompute := hm.wp_compute holder control false w
  rw [hP] at hcompute
  refine BlockingManager.wp_validationPass
    (I := fun c => Neat c ∧ c = { m with lastProjection := some P }) (J := Validated m P)
    (wp_mono hcompute (fun _ _ h => ⟨h.1.neat, (if_pos hsame).mp h.2⟩) fun _ _ _ => trivial) ?_
  rintro c ⟨hc, rfl⟩
  refine ⟨⟨hc, rfl, .nil, nofun, fun _ _ => rfl⟩, P, rfl, fun c' h =>
    ?_, fun c' h block hblock blocker violations => ?_⟩
  · -- all blocks stand
    refine ⟨(h.neat hc).setValidated _, ?_, .nil, nofun, fun _ _ => ?_⟩
    · rw [h]
    · rw [h]
      rfl
  · -- one is rejected: its node is unblocked, and the kernel is told
    have hassigned : c'.assigned = m.assigned := by rw [h]
    have hneat : Neat (c'.reject P block.node blocker violations) := by
      refine (h.neat hc).reject (a := block) ?_ _
      rw [hassigned]
      exact hc.assigned_of_block hblock
    obtain ⟨hinsert, hlast⟩ := (reject_untraced c' P block.node blocker violations).fields
    refine ⟨hneat, ?_, nodup_singleton _, fun change hin => ?_, fun g hg => ?_⟩
    · rw [hlast, h]
    · cases mem_singleton.mp hin
      rw [held, hinsert, getElem?_insert_eq, if_pos rfl]
      rfl
    · have hne : ¬ block.node = g := fun heq => hg _ mem_cons_self heq.symm
      rw [held, hinsert, getElem?_insert_eq, if_neg hne, hassigned]
      rfl

end BlockingManager

/-! ## Programs over a kernel move it -/

/-- Whether it returns or fails, the program moves the kernel under `n` branches. -/
def Moving {α : Type} (n : Nat) (program : BlockingRunM α) : Prop :=
  ∀ b : Blocking, Sound n b.kernel → wp program (fun _ b' => Moves .all n b.kernel b'.kernel)
    (fun _ b' => Moves .all n b.kernel b'.kernel) b

namespace Moving

variable {α β : Type} {n : Nat}

theorem bind {program : BlockingRunM β} {f : β → BlockingRunM α} (h : Moving n program)
    (hf : ∀ x, Moving n (f x)) : Moving n (program >>= f) := by
  intro b hb
  refine wp_seq (h b hb) (fun x b' hmoves => ?_)
  exact wp_mono (hf x b' (hb.moves hmoves)) (fun _ _ h' => hmoves.trans h') fun _ _ h' =>
    hmoves.trans h'

theorem pure {x : α} : Moving n (Pure.pure x) := fun _ _ => Moves.refl

theorem get : Moving n (MonadState.get : BlockingRunM Blocking) := fun _ _ => Moves.refl

theorem ask {f : Blocking → Except BlockingError α} : Moving n (Prog.ask f) :=
  fun _ _ => wp_ask (fun _ _ => Moves.refl) fun _ _ => Moves.refl

theorem zoom {program : BlockingM α} : Moving n (Prog.zoom blockingWorkLens program) :=
  fun _ _ => wp_zoom.mpr (wp_mono wp_true (fun _ _ _ => Moves.refl) fun _ _ _ => Moves.refl)

theorem applyToKernel {m : KernelM Unit} (hm : Does .all n m) :
    Moving n (PyHermit.applyToKernel m) :=
  fun b hb => wp_applyToKernel (wp_imp (hm b.kernel hb) (fun _ _ h => h))

variable {control : BlockingControl}

theorem applyEach {apply : β → BlockingRunM Unit} (h : ∀ x, Moving n (apply x)) :
    ∀ items : List β, Moving n (PyHermit.applyEach control apply items)
  | [] => pure
  | item :: items => ((h item).bind fun _ => zoom).bind fun _ => applyEach h items

theorem computeAndMark {forceFull : Bool} : Moving n (m.computeAndMark control forceFull) :=
  get.bind fun _ => zoom.bind fun _ => zoom.bind fun _ =>
    (applyEach (fun _ => applyToKernel (setBlocked_does _ _ _)) _).bind fun _ =>
      (applyEach (fun _ => applyToKernel fun k _ => rescheduleExistentials_frame k) _).bind
        fun _ => pure

theorem blockingAtomic {program : BlockingRunM α} (h : Moving n program) :
    Moving n (PyHermit.blockingAtomic program) := by
  intro b hb
  refine wp_orUndo.mpr (wp_fail (h b hb) fun _ b' hmoves => ?_)
  have hprim : Prim .all n b.kernel.snapshot.state (b'.kernel.restore b.kernel.snapshot).state :=
    prim_restore hb.state.lengths b'.kernel
  exact ⟨hmoves.branches, hmoves.operationRoot, le_rfl, .single hprim⟩

theorem validationAndApply {validator : BlockValidator} {forceFull : Bool} :
    Moving n (m.validationAndApply validator control forceFull) := by
  refine blockingAtomic (computeAndMark.bind fun _ => bind ?_ fun _ => zoom.bind fun _ => ?_)
  · exact get.bind fun _ => zoom.bind fun _ => ask.bind fun _ => pure
  · refine (applyEach (fun _ => applyToKernel (setBlocked_does _ _ _)) _).bind fun _ => ?_
    refine (applyEach (fun _ => applyToKernel (promoteCoreFact_does _)) _).bind fun _ => ?_
    exact (applyEach (fun _ => applyToKernel fun k _ => rescheduleExistentials_frame k) _).bind
      fun _ => pure

end Moving

theorem wp_applyEach_nodes {α : Type} {apply : α → KernelM Unit} {items : List α}
    {control : BlockingControl} {b : Blocking} (h : ∀ x k, Ends (apply x) (SameNodes k) k) :
    wp (applyEach control (fun x => applyToKernel (apply x)) items)
      (fun _ b' => SameNodes b.kernel b'.kernel) (fun _ _ => True) b := by
  induction items generalizing b with
  | nil => rfl
  | cons x items ih =>
    refine wp_bind.mpr (wp_bind.mpr
      (wp_applyToKernel (wp_mono (h x b.kernel) ?_ fun _ _ _ => trivial)))
    intro _ k hk
    refine wp_pollBlocking (fun w => ?_) fun _ _ _ => trivial
    exact wp_imp ih fun _ b' hb' => hb'.trans hk

/-! ## Runs -/

/-- A kernel and the manager that blocks its nodes. -/
structure Blockings where
  kernel : TableauKernel
  manager : BlockingManager

/-- What can be done with the two. Everything but blocking is a call on the kernel. -/
inductive BlockingsStep where
  | call (o : KernelOp)
  | invalidateNode (node : NodeHandle)
  | invalidateAll
  | notifyFactChange (fact : FactRecord)
  | computeAndApply (control : BlockingControl) (forceFull : Bool)
  | validationAndApply (validator : BlockValidator) (control : BlockingControl) (forceFull : Bool)
  | readyForSat (control : BlockingControl)

variable {limits : BlockingLimits}

namespace Blockings

/-- Run a program of the manager on the kernel; when it fails, the manager is as before. -/
def after {α : Type} (s : Blockings) (program : BlockingRunM (α × BlockingManager)) : Blockings :=
  match program ⟨s.kernel, ⟨0, {}⟩⟩ with
  | .ok (_, manager) b => ⟨b.kernel, manager⟩
  | .error _ b => ⟨b.kernel, s.manager⟩

def perform (s : Blockings) : BlockingsStep → Blockings
  | .call o => { s with kernel := final o.run s.kernel }
  | .invalidateNode node => { s with manager := s.manager.invalidateNode node }
  | .invalidateAll => { s with manager := s.manager.invalidateAll }
  | .notifyFactChange fact => { s with manager := s.manager.notifyFactChange fact }
  | .computeAndApply control forceFull => s.after (s.manager.computeAndApply control forceFull)
  | .validationAndApply validator control forceFull =>
    s.after (s.manager.validationAndApply validator control forceFull)
  | .readyForSat control =>
    s.after (zoom blockingWorkLens (s.manager.readyForSat s.kernel.blockingState control))

def run (s : Blockings) (steps : List BlockingsStep) : Blockings := steps.foldl perform s

/-- What a program leaves holds if it holds of what it returns, and of the old manager
when it fails. -/
theorem wp_after {α : Type} {s : Blockings} {program : BlockingRunM (α × BlockingManager)}
    {Q : Blockings → Prop}
    (h : wp program (fun answer b => Q ⟨b.kernel, answer.2⟩) (fun _ b => Q ⟨b.kernel, s.manager⟩)
      ⟨s.kernel, ⟨0, {}⟩⟩) : Q (s.after program) := by
  unfold Blockings.after
  unfold wp at h
  cases hp : program ⟨s.kernel, ⟨0, {}⟩⟩ with
  | ok | error =>
    rw [hp] at h
    exact h

/-- What holds in every run. -/
structure Sound (s : Blockings) : Prop where
  kernel : KernelInv s.kernel
  lineage : Throughout Lineage s.kernel
  stamped : Throughout Stamped s.kernel
  manager : s.manager.Neat
  issued : s.manager.Issued s.kernel.state

/-- Mark and assignment of the node are in step. -/
abbrev Follows (s : Blockings) : NodeHandle → Prop := MarksFollow s.manager s.kernel.state.nodes

/-- What writing the changes to the kernel leaves of the two. -/
structure Applied (s : Blockings) (changes : List AssignmentChange) (s' : Blockings) : Prop where
  manager : s'.manager.Neat
  issued : s'.manager.Issued s.kernel.state
  follows : ∀ h, (∃ c ∈ changes, c.node = h) ∨ s.Follows h → s'.Follows h

section
variable {s : Blockings} (hs : Sound s)
include hs

theorem Sound.turns {k : TableauKernel} (ht : Turns .all .all s.kernel k)
    (hle : ∀ slot, s.kernel.state.stamp slot ≤ k.state.stamp slot) : Sound { s with kernel := k } :=
  ⟨ht.kernelInv hs.kernel, ht.throughout stable_lineage hs.kernel hs.lineage,
    ht.throughout stable_stamped hs.kernel hs.stamped, hs.manager, hs.issued.mono hle⟩

theorem Sound.after {α : Type} {program : BlockingRunM (α × BlockingManager)}
    {E : BlockingError → Blocking → Prop} (hmoving : Moving s.kernel.branches.length program)
    (hneat : wp program (fun answer _ => answer.2.Neat ∧ answer.2.Issued s.kernel.state) E
      ⟨s.kernel, ⟨0, {}⟩⟩) : Sound (s.after program) := by
  have hmoved : ∀ {k : TableauKernel}, Moves .all s.kernel.branches.length s.kernel k →
      Sound { s with kernel := k } :=
        fun hmoves => hs.turns (.single (.moves hmoves)) hmoves.carried.grows
  refine wp_after (wp_mono (wp_and (hmoving ⟨s.kernel, ⟨0, {}⟩⟩ hs.kernel.sound) hneat) ?_ ?_)
  · rintro answer b ⟨hmoves, hn, hissued⟩
    exact { hmoved hmoves with manager := hn, issued := hissued.mono hmoves.carried.grows }
  · rintro e b ⟨hmoves, -⟩
    exact hmoved hmoves

theorem Sound.invalidateCreation (creationId : Nat) (node : Option NodeHandle) :
    Sound { s with manager := s.manager.invalidateCreation creationId node } := by
  refine { hs with
    manager := hs.manager.invalidateCreation _ _, issued := fun P hlast => hs.issued P ?_ }
  have hrecord : (s.manager.invalidateCreation creationId node).lastProjection = _ :=
    (BlockingManager.record_untraced _ _ _ _ _ _).fields.2
  exact hrecord.symm.trans hlast

theorem Sound.parentsOlder : s.kernel.blockingState.ParentsOlder :=
  parentsOlder_of_lineage hs.kernel.sound.state hs.lineage.state

theorem Sound.issued_computed {result : ComputeResult} {m' : BlockingManager}
    (hc : s.manager.Computed s.kernel.blockingState result m') : m'.Issued s.kernel.state :=
  issued_of_projection hs.kernel.sound.state hs.lineage.state hs.stamped.state hc.neat hc.projection

variable (control : BlockingControl) (forceFull : Bool)

/-- A refresh keeps the two in step, or leaves the marks it found. -/
theorem Sound.wp_computeAndApply (w : BlockingWork) :
    wp (s.manager.computeAndApply control forceFull)
    (fun answer b => Refreshed s.manager s.kernel answer.1 answer.2 b.kernel ∧
      Applied s answer.1.changed ⟨b.kernel, answer.2⟩)
    (fun _ b => SettledKernel s.kernel b.kernel) ⟨s.kernel, w⟩ := by
  have hi := hs.kernel.sound.state
  refine wp_orUndo.mpr (wp_mono
    (wp_computeAndMark control forceFull hs.manager hi hs.lineage.state) ?_ ?_)
  · exact fun _ _ hr =>
      ⟨hr, hr.computed.neat, hs.issued_computed hr.computed, fun _ => hr.follows hi hs.manager⟩
  · exact fun _ _ _ => settled_undo rfl

/-- So does a refresh with a validation: what the validation rejects is sent too. -/
theorem Sound.wp_validationAndApply (validator : BlockValidator) (w : BlockingWork) :
    wp (s.manager.validationAndApply validator control forceFull)
      (fun answer b =>
        Applied s (answer.1.1.changed ++ answer.1.2.assignmentChanges) ⟨b.kernel, answer.2⟩)
      (fun _ b => SettledKernel s.kernel b.kernel) ⟨s.kernel, w⟩ := by
  have hi := hs.kernel.sound.state
  refine wp_orUndo.mpr (wp_fail (E := fun _ _ => True) ?_ fun _ _ _ =>
    settled_undo rfl)
  refine wp_then (wp_computeAndMark control forceFull hs.manager hi hs.lineage.state) ?_
    fun _ _ _ => trivial
  rintro ⟨_, m₁⟩ b₁ hr
  have holder : b₁.kernel.blockingState.ParentsOlder := by
    rw [hr.reads]
    exact hs.parentsOlder
  refine wp_bind.mpr (wp_get_then.mpr (wp_bind.mpr (wp_zoom.mpr ?_)))
  refine wp_mono (hr.computed.neat.wp_validationPass holder hr.isUnchanged validator control _) ?_
    fun _ _ _ => trivial
  rintro ⟨outcome, m₂⟩ w' hv
  refine wp_ask_then (fun result houtcome => wp_pure.mpr ?_) fun _ _ => trivial
  cases houtcome
  refine wp_bind.mpr (wp_pollBlocking (fun w => ?_) fun _ _ _ => trivial)
  refine wp_then (wp_applyChanges hv.sent.nodup) ?_ fun _ _ _ => trivial
  rintro _ b₂ ⟨hobject, hkernel⟩
  refine wp_then (wp_applyEach_nodes fun _ _ => promoteCoreFact_nodes) ?_ fun _ _ _ => trivial
  intro _ b₃ hpromoted
  refine wp_then (wp_applyEach_nodes fun _ k => rescheduleExistentials_frame k) ?_
    fun _ _ _ => trivial
  intro _ b₄ hqueued
  refine wp_pure.mpr ⟨hv.neat, fun P hlast h hh => ?_, fun h hf => ?_⟩
  · -- what the validation has seen is what the refresh has seen
    cases hv.last.symm.trans hlast
    rw [hr.reads, hr.computed.checker] at hh
    exact hs.issued_computed hr.computed _ hr.computed.projection h hh
  · have hslotted : b₁.kernel.state.nodes.Slotted := by
      rw [hr.nodes]
      exact slotted_marks hi.slotted
    -- a change the refresh had for the node is written before those of the validation
    have hnow : (∃ c ∈ result.assignmentChanges, c.node = h) ∨
        MarksFollow m₁ b₁.kernel.state.nodes h := by
      rcases hf with ⟨c, hc, hnode⟩ | hf
      · rcases mem_append.mp hc with hc | hc
        · exact .inr (hr.follows hi hs.manager (.inl ⟨c, hc, hnode⟩))
        · exact .inl ⟨c, hc, hnode⟩
      · exact .inr (hr.follows hi hs.manager (.inr hf))
    change MarksFollow m₂ b₄.kernel.state.nodes h
    rw [hqueued, hpromoted, hkernel]
    exact .marks hnow hv.sent hv.neat hslotted hobject

variable (step : BlockingsStep)

theorem Sound.perform : Sound (s.perform step) := by
  cases step with
  | call o => exact hs.turns (o.turns hs.kernel o.permitted_all) (o.stamp_le hs.kernel.sound)
  | invalidateNode | invalidateAll => exact hs.invalidateCreation _ _
  | notifyFactChange fact =>
    change Sound { s with manager := s.manager.notifyFactChange fact }
    unfold BlockingManager.notifyFactChange
    split
    · exact hs.invalidateCreation _ _
    · exact hs
  | computeAndApply control forceFull =>
    exact hs.after Moving.computeAndMark.blockingAtomic
      (wp_imp (hs.wp_computeAndApply control forceFull _) fun _ _ h => ⟨h.2.manager, h.2.issued⟩)
  | validationAndApply validator control forceFull =>
    exact hs.after Moving.validationAndApply
      (wp_imp (hs.wp_validationAndApply control forceFull validator _) fun _ _ h =>
        ⟨h.manager, h.issued⟩)
  | readyForSat control =>
    refine hs.after (E := fun _ _ => True) Moving.zoom (wp_zoom.mpr ?_)
    refine wp_then (hs.manager.wp_compute hs.parentsOlder control false _) ?_ fun _ _ _ => trivial
    rintro ⟨_, computed⟩ w ⟨hc, -⟩
    have hgood := And.intro hc.neat (hs.issued_computed hc)
    exact wp_ite (fun _ => hgood) fun _ => hgood

end

/-- The step does not part mark and assignment of the node: no direct `set_blocked`, no
state brought back where its mark is not the one held, and no assignment recomputed without
being written. -/
def InStep (s : Blockings) (h : NodeHandle) : BlockingsStep → Prop
  | .call o => o.SparesMarks s.kernel ∧ ∀ st ∈ o.restored s.kernel, MarksFollow s.manager st.nodes h
  | .readyForSat control => (s.perform (.readyForSat control)).manager.held h = s.manager.held h
  | _ => True

/-- The step is a refresh that returns and has a change for the node. -/
def Sends (s : Blockings) (h : NodeHandle) : BlockingsStep → Prop
  | .computeAndApply control forceFull =>
    ∃ answer ∈ returned (s.manager.computeAndApply control forceFull) ⟨s.kernel, ⟨0, {}⟩⟩,
      ∃ c ∈ answer.1.changed, c.node = h
  | .validationAndApply validator control forceFull =>
    ∃ answer ∈ returned (s.manager.validationAndApply validator control forceFull) ⟨s.kernel,
      ⟨0, {}⟩⟩, ∃ c ∈ answer.1.1.changed ++ answer.1.2.assignmentChanges, c.node = h
  | _ => False

/-- Since the beginning, where it was `together`, or since the last refresh with a change
for it, no step has parted mark and assignment of the node. -/
def Together (h : NodeHandle) : Blockings → Prop → List BlockingsStep → Prop
  | _, together, [] => together
  | s, together, step :: steps =>
    Together h (s.perform step) (s.Sends h step ∨ together ∧ s.InStep h step) steps

section
variable (s : Blockings) (h : NodeHandle)

instance (step : BlockingsStep) : Decidable (s.InStep h step) := by
  unfold InStep
  cases step <;> infer_instance

instance (step : BlockingsStep) : Decidable (s.Sends h step) := by
  unfold Sends
  cases step <;> infer_instance

instance decidableTogether (s : Blockings) (together : Prop) [Decidable together] :
    (steps : List BlockingsStep) → Decidable (Together h s together steps)
  | [] => inferInstanceAs (Decidable together)
  | step :: steps => decidableTogether (s.perform step)
    (s.Sends h step ∨ together ∧ s.InStep h step) steps

end

section
variable {s : Blockings} {h : NodeHandle}

theorem follows_invalidate {creationId : Nat} {node : Option NodeHandle} (hf : s.Follows h) :
    MarksFollow (s.manager.invalidateCreation creationId node) s.kernel.state.nodes h := by
  have hheld : (s.manager.invalidateCreation creationId node).held = s.manager.held := by
    unfold BlockingManager.held
    rw [show (s.manager.invalidateCreation creationId node).assigned = _ from
      (BlockingManager.record_untraced _ _ _ _ _ _).fields.1]
  unfold MarksFollow
  rw [hheld]
  exact hf

variable (hs : Sound s)
include hs

theorem Sound.follows_settled (hf : s.Follows h) {k : TableauKernel} (hk : SettledKernel s.kernel k)
    (hslotted : k.state.nodes.Slotted) : MarksFollow s.manager k.state.nodes h :=
  hf.settled hk hslotted fun _ hnew => hs.manager.unissued hs.issued hnew

/-- So do programs that write all they change, and undo what they do when they fail. -/
theorem Sound.follows_after {α : Type} {program : BlockingRunM (α × BlockingManager)}
    (changes : α → List AssignmentChange)
    (hp : wp program (fun answer b => Applied s (changes answer.1) ⟨b.kernel, answer.2⟩)
      (fun _ b => SettledKernel s.kernel b.kernel) ⟨s.kernel, ⟨0, {}⟩⟩)
    (hh : (∃ answer ∈ returned program ⟨s.kernel, ⟨0, {}⟩⟩, ∃ c ∈ changes answer.1, c.node = h) ∨
      s.Follows h)
    (hslotted : (s.after program).kernel.state.nodes.Slotted) : (s.after program).Follows h := by
  unfold Blockings.after returned at *
  unfold wp at hp
  cases hr : program ⟨s.kernel, ⟨0, {}⟩⟩ with
  | ok answer b =>
    rw [hr] at hp hh
    refine hp.follows h (hh.imp_left ?_)
    rintro ⟨_, hmem, hc⟩
    cases hmem
    exact hc
  | error e b =>
    rw [hr] at hp hh hslotted
    refine hs.follows_settled (hh.resolve_left ?_) hp hslotted
    rintro ⟨_, hmem, -⟩
    cases hmem

/-- **A step keeps mark and assignment of a node in step**, if it does not part them, and
brings them in step if it has a change for the node. -/
theorem Sound.follows_perform {step : BlockingsStep}
    (hstep : s.Sends h step ∨ s.Follows h ∧ s.InStep h step) : (s.perform step).Follows h := by
  have hslotted := (hs.perform step).kernel.sound.state.slotted
  cases step with
  | call o =>
    obtain ⟨hf, hspares, hrestored⟩ := hstep.resolve_left not_false
    rcases o.hands hs.kernel.sound with ⟨hnone, -⟩ | ⟨snapshot, hsnapshot, hstate⟩
    · exact hs.follows_settled hf (o.settled hs.kernel hspares hnone) hslotted
    · -- the marks are those of the state brought back
      have hback := hrestored snapshot.state (by rw [hsnapshot]; exact mem_cons_self)
      refine hback.settled (N := fun _ => False) (settled_of_nodes fun i x hx => ?_) hslotted nofun
      change (final o.run s.kernel).state.nodes[i]? = _ at hx
      rw [hstate] at hx
      exact restored_node hx
  | invalidateNode | invalidateAll => exact follows_invalidate (hstep.resolve_left not_false).1
  | notifyFactChange fact =>
    change MarksFollow (s.manager.notifyFactChange fact) _ h
    unfold BlockingManager.notifyFactChange
    split
    · exact follows_invalidate (hstep.resolve_left not_false).1
    · exact (hstep.resolve_left not_false).1
  | computeAndApply control forceFull =>
    refine hs.follows_after (·.changed) ?_ (hstep.imp_right And.left) hslotted
    exact wp_imp (hs.wp_computeAndApply control forceFull _) fun _ _ h => h.2
  | validationAndApply validator control forceFull =>
    exact hs.follows_after (fun answer => answer.1.changed ++ answer.2.assignmentChanges)
      (hs.wp_validationAndApply control forceFull validator _) (hstep.imp_right And.left) hslotted
  | readyForSat control =>
    obtain ⟨hf, hheld⟩ := hstep.resolve_left not_false
    have hkernel : (s.perform (.readyForSat control)).kernel = s.kernel :=
      wp_after (Q := fun s' => s'.kernel = s.kernel)
        (wp_zoom.mpr (wp_mono wp_true (fun _ _ _ => rfl) fun _ _ _ => rfl))
    change (s.perform (.readyForSat control)).manager.held h = s.manager.held h at hheld
    unfold Blockings.Follows MarksFollow
    rw [hkernel, hheld]
    exact hf

/-- **In every run**, what the steps tell of the node is so. -/
theorem Sound.follows_run {together : Prop} (hf : together → s.Follows h)
    {steps : List BlockingsStep} (ht : Together h s together steps) : (s.run steps).Follows h := by
  induction steps generalizing s together with
  | nil => exact hf ht
  | cons step steps ih =>
    exact ih (hs.perform step)
      (fun hstep => hs.follows_perform (hstep.imp_right (And.imp_left hf))) ht

end

section
variable {plan : BlockingPlan} {checker : DirectChecker} {trace : Nat}
  (h : BlockingManager.new plan checker none limits trace = .ok m)
include h

theorem sound_new : Sound ⟨.new, m⟩ where
  kernel := kernelInv_new
  lineage := ⟨lineage_new, fun _ hb => absurd hb not_mem_nil, lineage_new⟩
  stamped := ⟨stamped_new, fun _ hb => absurd hb not_mem_nil, stamped_new⟩
  manager := (BlockingManager.new_eq_ok h).2
  issued := BlockingManager.issued_new h

theorem sound_run (steps : List BlockingsStep) : Sound (run ⟨.new, m⟩ steps) := by
  have hall : ∀ s : Blockings, Sound s → Sound (s.run steps) := by
    induction steps with
    | nil => exact fun _ hs => hs
    | cons step steps ih => exact fun s hs => ih _ (hs.perform step)
  exact hall _ (sound_new h)

end

end Blockings

/-- **After a refresh the mark of a node is its assignment**, in every run of kernel and
manager: for every node the refresh has a change for, and for every other that no step has
parted from its assignment since the last refresh with a change for it. -/
theorem computeAndApply_marks {plan : BlockingPlan} {checker : DirectChecker}
    {maxTraceEvents : Nat} {m₀ : BlockingManager}
    (hnew : BlockingManager.new plan checker none limits maxTraceEvents = .ok m₀)
    (steps : List BlockingsStep) {s : Blockings} (hs : s = Blockings.run ⟨.new, m₀⟩ steps)
    {control : BlockingControl} {forceFull : Bool} {w : BlockingWork}
    {result : ComputeResult} {b : Blocking}
    (hok : s.manager.computeAndApply control forceFull ⟨s.kernel, w⟩ = .ok (result, m) b) :
    ∀ x ∈ b.kernel.state.nodes.liveNodes, x.lifecycle = .active → x.sort = .object →
      ((∃ c ∈ result.changed, c.node = x.handle) ∨
        Blockings.Together x.handle ⟨.new, m₀⟩ True steps) →
      ∃ a, m.assigned[x.handle]? = some a ∧ x.blocker = a.blocker ∧
      x.directlyBlocked = a.directly := by
  intro x hx hact hsort hx'
  have hsound : s.Sound := by
    rw [hs]
    exact Blockings.sound_run hnew steps
  have hf : (∃ c ∈ result.changed, c.node = x.handle) ∨ s.Follows x.handle := by
    refine hx'.imp_right fun ht => ?_
    rw [hs]
    exact (Blockings.sound_new hnew).follows_run (fun _ _ hin => absurd hin not_mem_nil) ht
  obtain ⟨hr, happlied⟩ := wp_ok (hsound.wp_computeAndApply control forceFull w) hok
  exact hr.agree hsound.kernel.sound.state hsound.lineage.state
    (happlied.follows _ hf) hx hact hsort

/-- **A refresh only fails when it is halted**, if the nodes the manager holds blocked are
still active, the parents of active tree nodes are, no place in the queue is taken and no
counter is near its end. Then every change it reports is written. -/
theorem computeAndApply_succeeds {plan : BlockingPlan} {checker : DirectChecker}
    {maxTraceEvents : Nat} {m₀ : BlockingManager}
    (hnew : BlockingManager.new plan checker none limits maxTraceEvents = .ok m₀)
    (steps : List BlockingsStep) {s : Blockings} (hs : s = Blockings.run ⟨.new, m₀⟩ steps)
    (hneeds : Refreshable s.manager s.kernel) (control : BlockingControl) (forceFull : Bool)
    (w : BlockingWork) : wp (s.manager.computeAndApply control forceFull)
      (fun answer b => ∀ c ∈ answer.1.changed, ∃ x,
        b.kernel.state.nodes.requireActive c.node = .ok x ∧
        x.blocker = c.mark.1 ∧ x.directlyBlocked = (c.mark.1.isSome && c.mark.2))
      (fun e _ => Halted control e) ⟨s.kernel, w⟩ := by
  have hsound : s.Sound := by
    rw [hs]
    exact Blockings.sound_run hnew steps
  refine wp_orUndo.mpr (wp_mono (wp_computeAndMark control forceFull hsound.manager
    hsound.kernel.sound.state hsound.lineage.state) ?_ ?_)
  · rintro ⟨result, m⟩ b hr c hc
    have hnodup : (result.changed.map (·.node)).Nodup := by
      rw [hr.computed.changed]
      exact nodup_assignmentChanges _ _
    obtain ⟨x, hx, -⟩ := hr.objects c hc
    rw [hr.nodes]
    exact ⟨_, requireActive_marks hr.objects hnodup hc hx, rfl, rfl⟩
  · rintro e b (hh | hbad)
    · exact hh
    · exact absurd hneeds hbad

def BlockingManager.Blocks (m : BlockingManager) (node b : NodeHandle) : Prop :=
  ∃ a, m.assigned[node]? = some a ∧ a.blocker = some b

theorem BlockingManager.Neat.blocks_older (hm : Neat m) :
    ∃ age : NodeHandle → Nat, ∀ node b, m.Blocks node b → age b < age node := by
  cases hlast : m.lastProjection with
  | none =>
    refine ⟨fun _ => 0, ?_⟩
    rintro node b ⟨a, ha, -⟩
    simp [hm.fresh hlast] at ha
  | some P =>
    refine ⟨P.creationAt, ?_⟩
    rintro node b ⟨a, ha, hb⟩
    exact ((hm.tidy P hlast).2.blocker node a b ha hb).2.2

/-- **Nodes never block each other in a circle**, whatever is called, fails or is taken back. -/
theorem blocking_wellFounded {plan : BlockingPlan} {checker : DirectChecker} {trace : Nat}
    {m₀ : BlockingManager} (hnew : BlockingManager.new plan checker none limits trace = .ok m₀)
    (steps : List BlockingsStep) :
    WellFounded fun b node => (Blockings.run ⟨.new, m₀⟩ steps).manager.Blocks node b := by
  obtain ⟨age, hage⟩ := (Blockings.sound_run hnew steps).manager.blocks_older
  exact Subrelation.wf (fun {b node} h => hage node b h) (measure age).wf

namespace BlockMarksSample

open BlockingSample

def plan : BlockingPlan := ⟨.anywhere, .single, .simple, false⟩

/-- Two concepts count for blocking. -/
def checker : DirectChecker := ⟨.single, ⟨.ofList [7, 8], ∅⟩, false⟩

def manager : BlockingManager :=
  { plan, checker, limits := .default, cache := none, maxTraceEvents := 0 }

theorem manager_new : BlockingManager.new plan checker none .default 0 = .ok manager := rfl

/-- A root with two children. -/
def created : List BlockingsStep :=
  [.call (.createNode .root none false none none none),
    .call (.createNode .tree (some root) false none none none),
    .call (.createNode .tree (some root) false none none none)]

/-- A refresh, after which the elder child blocks the younger. -/
def blocked : List BlockingsStep := created ++ [.computeAndApply neverCancel false]

/-- In a branch the younger child gets a label of its own and comes unblocked. The branch
is given up, and the child gets another label. -/
def relabelled : List BlockingsStep :=
  blocked ++ [.call (.pushBranch .merge [0, 1] 0 .empty),
    .call (.addFact 7 [younger] (.ofLevels [0]) false none),
    .computeAndApply neverCancel false, .call (.backtrackTo 0), .invalidateAll,
    .call (.addFact 8 [younger] .empty false none)]

/-- A refresh right after the backtrack finds the younger child blocked again. Then the
child gets a label. -/
def refreshed : List BlockingsStep :=
  blocked ++ [.call (.pushBranch .merge [0, 1] 0 .empty),
    .call (.addFact 7 [younger] (.ofLevels [0]) false none),
    .computeAndApply neverCancel false, .call (.backtrackTo 0), .invalidateAll,
    .computeAndApply neverCancel false, .call (.addFact 8 [younger] .empty false none)]

/-- The elder child is cut off, and blocks the younger no longer. -/
def widowed : List BlockingsStep := blocked ++ [.call (.pruneSubtree elder)]

/-- The younger child is cut off. -/
def pruned : List BlockingsStep := blocked ++ [.call (.pruneSubtree younger)]

def reached (steps : List BlockingsStep) : Blockings := Blockings.run ⟨.new, manager⟩ steps

def refresh (s : Blockings) :
    EStateM.Result BlockingError Blocking (ComputeResult × BlockingManager) :=
  s.manager.computeAndApply neverCancel false ⟨s.kernel, ⟨0, {}⟩⟩

/-- The backtrack restored the mark, and the assignment has not changed since: the younger
child stays marked as blocked by a node that does not block it. -/
theorem restored_mark : BlockingManager.new plan checker none .default 0 = .ok manager ∧
    (match refresh (reached relabelled) with
    | .ok (result, m) b => some (result.changed, m.assigned[younger]?,
        (b.kernel.state.nodes.requireActive younger).toOption.map fun (x : Node) =>
          (x.blocker, x.directlyBlocked))
    | .error _ _ => none) = some ([], some (.unblocked younger), some (some elder, true)) := by
  refine ⟨manager_new, ?_⟩
  decide +kernel

/-- The backtrack parts mark and assignment of the younger child and the refresh after it
brings them together: the elder child blocks the younger until the last refresh, which
clears its mark. -/
theorem refreshed_marks : (reached refreshed).manager.Blocks younger elder ∧
    ∃ result m b, refresh (reached refreshed) = .ok (result, m) b ∧ result.changed ≠ [] ∧
    ∀ h ∈ [root, elder, younger], Blockings.Together h ⟨.new, manager⟩ True refreshed ∧
      ∀ x ∈ b.kernel.state.nodes.liveNodes, x.handle = h → x.lifecycle = .active →
      x.sort = .object →
        ∃ a, m.assigned[x.handle]? = some a ∧ x.blocker = a.blocker ∧
        x.directlyBlocked = a.directly := by
  have htogether : ∀ h ∈ [root, elder, younger],
      Blockings.Together h ⟨.new, manager⟩ True refreshed := by
    decide +kernel
  have hheld : (reached refreshed).manager.assigned[younger]?.map (·.blocker) =
      some (some elder) := by
    decide +kernel
  have hsome : (returned ((reached refreshed).manager.computeAndApply neverCancel false)
      ⟨(reached refreshed).kernel, ⟨0, {}⟩⟩).any
        (fun answer => !answer.1.changed.isEmpty) = true := by
    decide +kernel
  obtain ⟨⟨result, m⟩, hr, hchanged⟩ := (Option.any_eq_true _ _).mp hsome
  have hok := eq_ok_of_returned hr
  refine ⟨Option.map_eq_some_iff.mp hheld, result, m, _, hok, by simpa using hchanged,
    fun h hh => ?_⟩
  refine ⟨htogether h hh, ?_⟩
  rintro x hx rfl hact hsort
  exact computeAndApply_marks manager_new refreshed rfl hok x hx hact hsort (.inr (htogether _ hh))

/-- The manager asks the kernel to clear the mark of a node that has been pruned. -/
theorem pruned_block : BlockingManager.new plan checker none .default 0 = .ok manager ∧
    ∃ e b, refresh (reached pruned) = .error e b ∧ ¬ Halted neverCancel e := by
  refine ⟨manager_new, ?_⟩
  have herror : (match refresh (reached pruned) with
      | .ok _ _ => none
      | .error e _ => some e) = some (.invalid "node is not active") := by
    decide +kernel
  cases hr : refresh (reached pruned) with
  | ok answer b =>
    rw [hr] at herror
    cases herror
  | error e b =>
    rw [hr] at herror
    cases herror
    refine ⟨_, b, rfl, ?_⟩
    rintro (⟨i, hi⟩ | ⟨message, limit, observed, allowed, -, heq⟩)
    · cases hi
    · cases heq

/-- When the blocker is cut off, nothing stands in the way of unblocking the younger child. -/
theorem widowed_succeeds : Refreshable (reached widowed).manager (reached widowed).kernel ∧
    wp ((reached widowed).manager.computeAndApply neverCancel false)
      (fun answer b => ∀ c ∈ answer.1.changed, ∃ x,
        b.kernel.state.nodes.requireActive c.node = .ok x ∧
        x.blocker = c.mark.1 ∧ x.directlyBlocked = (c.mark.1.isSome && c.mark.2))
      (fun e _ => Halted neverCancel e) ⟨(reached widowed).kernel, ⟨0, {}⟩⟩ := by
  have hneeds : Refreshable (reached widowed).manager (reached widowed).kernel := by decide +kernel
  have hs : reached widowed = Blockings.run ⟨.new, manager⟩ widowed := rfl
  -- the state itself is of no interest, and large
  generalize reached widowed = s at hs hneeds ⊢
  exact ⟨hneeds, computeAndApply_succeeds manager_new widowed hs hneeds neverCancel false _⟩

theorem relabelled_wellFounded :
    WellFounded fun b node => (reached relabelled).manager.Blocks node b :=
  blocking_wellFounded manager_new relabelled

end BlockMarksSample

end PyHermit
