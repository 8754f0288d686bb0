import PyHermit.Proof.Computed

/-!
# Incremental blocking

A computation that starts at a frontier reuses what the last one found about everything
older. That is right as long as nothing an older assignment depends on has changed: the
projection, and the rejected blocks. The frontier takes care of the first. Of the second it
knows nothing: a rejection belongs to the state it was made on, and the next state forgets
it, also for a node that is not recomputed.

`Current`: the manager's assignments agree with a full pass on everything created before
the dirty mark. A computation that forgets no rejection of an older node
(`ForgetsNothingOld`) restores full agreement.
-/

open Std Prog List

namespace PyHermit

open BlockingProjection

/-! ## The manager -/

variable {state : BlockingState}

namespace BlockingManager

/-- How the assignments relate to a full pass over the last projection. -/
structure Current (m : BlockingManager) (P : BlockingProjection) : Prop where
  lawful : P.Lawful
  /-- Rejections were made on this state. -/
  rejections : ∀ (pair : NodePair) (digest : StateDigest), m.rejectedBlocks[pair]? = some digest →
    digest = P.stateDigest
  /-- Before the dirty mark, everything is as in a full pass. -/
  settled : ∀ e, (∀ d, m.dirtyCreationId = some d → e ≤ d) →
    BlockingPass.retain P e m.passState = (m.fullPass P).sweep ((m.fullPass P).front e)
  /-- Without a dirty mark, everything is. -/
  complete : m.dirtyCreationId = none → m.passState = (m.fullPass P).sweep P.orderedNodes

/-- What holds of a manager without cache that agrees with a full pass where it is not dirty. -/
structure Kept (m : BlockingManager) : Prop extends Neat m where
  unrejected : m.lastProjection = none → m.rejectedBlocks = ∅
  current : ∀ P, m.lastProjection = some P → Current m P

variable {m : BlockingManager} {P P' : BlockingProjection} {forceFull : Bool}

theorem kept_new {plan : BlockingPlan} {checker : DirectChecker} {limits : BlockingLimits}
    {trace : Nat} (h : new plan checker none limits trace = .ok m) : Kept m := by
  obtain ⟨rfl, hm⟩ := new_eq_ok h
  exact ⟨hm, fun _ => rfl, nofun⟩

theorem Untraced.current {m' : BlockingManager} (h : Untraced m m') (hc : Current m P) :
    Current m' P := by
  rw [h]
  exact ⟨hc.lawful, hc.rejections, hc.settled, hc.complete⟩

theorem Untraced.kept {m' : BlockingManager} (h : Untraced m m') (hk : Kept m) : Kept m' where
  toNeat := h.neat hk.toNeat
  unrejected hlast := by
    rw [h] at hlast ⊢
    exact hk.unrejected hlast
  current P hlast := by
    rw [h] at hlast
    exact h.current (hk.current P hlast)

theorem Kept.invalidateCreation (hk : Kept m) (creationId : Nat) (node : Option NodeHandle) :
    Kept (m.invalidateCreation creationId node) := by
  refine (record_untraced _ _ _ _ _ _).kept
    ⟨⟨hk.uncached, hk.kinds, hk.limits, hk.fresh, hk.tidy⟩, hk.unrejected, fun P hP => ?_⟩
  have hc := hk.current P hP
  refine ⟨hc.lawful, hc.rejections, fun e he => hc.settled e fun d hd => ?_, nofun⟩
  have := he _ rfl
  rw [hd] at this
  simp only [Option.elim_some] at this
  omega

/-- The state differs from the last one only if no rejection of a node older than the
recomputed part is forgotten. -/
def ForgetsNothingOld (m : BlockingManager) (P : BlockingProjection) (forceFull : Bool) : Prop :=
  m.lastProjection.map (·.stateDigest) = some P.stateDigest ∨
    ∀ rejection ∈ m.rejectedBlocks.toList, ∀ creation ∈ m.creationOf rejection.1.first,
      m.earliest P forceFull ≤ creation

instance (m : BlockingManager) (P : BlockingProjection) (forceFull : Bool) :
    Decidable (m.ForgetsNothingOld P forceFull) := by
  unfold ForgetsNothingOld
  infer_instance

theorem forgetRejections_eq (m : BlockingManager) (P : BlockingProjection) (pair : NodePair) :
    (m.forgetRejections P).rejectedBlocks[pair]? =
      (m.rejectedBlocks[pair]?).filter (· = P.stateDigest) := by
  unfold forgetRejections
  rw [ExtTreeMap.getElem?_filter']

theorem earliest_le_dirty {d : Nat} (h : m.dirtyCreationId = some d) : m.earliest P false ≤ d := by
  unfold earliest
  cases m.lastProjection with
  | none => exact Nat.zero_le _
  | some last =>
    simp only [h, Bool.false_eq_true, if_false]
    unfold minOption
    cases last.earliestDifference P <;> simp

/-- The new pass sees what the last one saw of everything before the frontier. -/
theorem Current.alike (hc : Current m P) (hlast : m.lastProjection = some P) (hP' : P'.Lawful)
    (hold : m.ForgetsNothingOld P' false) (control : BlockingControl) :
    BlockingPass.Alike (m.earliest P' false) (m.fullPass P)
    ((m.forgetRejections P').pass P' control) where
  lawful := hc.lawful
  lawful' := hP'
  projection := BlockingProjection.Alike.of_difference hc.lawful hP' fun d hd =>
    earliest_le_difference hlast hd
  checker := rfl
  plan := rfl
  rejected node candidate hnode := by
    change decide ((m.forgetRejections P').rejectedBlocks[_]? = some P'.stateDigest) =
      decide (m.rejectedBlocks[_]? = some P.stateDigest)
    rw [forgetRejections_eq]
    refine decide_eq_decide.mpr ?_
    cases hr : m.rejectedBlocks[(⟨node, candidate⟩ : NodePair)]? with
    | none => simp
    | some digest =>
      rcases hold with hsame | hnone
      · rw [hlast, Option.map_some, Option.some.injEq] at hsame
        rw [hsame]
        simp
      · -- a rejection of a node before the frontier would have been forgotten
        obtain ⟨r, hrec, hlt⟩ := isBefore_iff.mp hnode
        have hmem := ExtTreeMap.mem_toList_iff_getElem?_eq_some.mpr hr
        have hcre : m.creationOf node = some r.creationId := by
          unfold creationOf
          rw [hlast, Option.bind_some]
          exact Option.map_eq_some_iff.mpr ⟨r, hrec, rfl⟩
        exact absurd (hnone _ hmem _ hcre) (by omega)

theorem Kept.found_eq (hk : Kept m) (hP' : P'.Lawful)
    (hold : m.ForgetsNothingOld P' forceFull) (control : BlockingControl) :
    m.found P' control forceFull = ((m.forgetRejections P').pass P' control).sweep
      P'.orderedNodes := by
  refine found_cases (motive := (· = _)) hk.uncached rfl fun P hlast hfull => ?_
  subst hfull
  have hc := hk.current P hlast
  have halike := hc.alike hlast hP' hold control
  have hstart : BlockingPass.retain P' (m.earliest P' false) m.passState =
      ((m.forgetRejections P').pass P' control).sweep
        (((m.forgetRejections P').pass P' control).front (m.earliest P' false)) := by
    rw [halike.sweep_front, ← hc.settled _ fun d hd => earliest_le_dirty hd]
    refine BlockingPass.passState_ext (fun h => ?_) (fun key => ?_) rfl
    · rw [BlockingPass.retain_assignments, BlockingPass.retain_assignments,
        show P'.isBefore _ h = P.isBefore _ h from halike.projection.isBefore h]
    · rw [BlockingPass.retain_index, BlockingPass.retain_index]
      unfold BlockingPass.keptOf
      rw [show P'.isBefore (m.earliest P' false) = P.isBefore (m.earliest P' false) from
        funext halike.projection.isBefore]
  rw [hstart]
  exact (BlockingPass.sweep_ordered _).symm

theorem current_of_sweep (hP : P.Lawful)
    (hrej : ∀ (pair : NodePair) (digest : StateDigest), m.rejectedBlocks[pair]? = some digest →
      digest = P.stateDigest) (hall : m.passState = (m.fullPass P).sweep P.orderedNodes) :
    Current m P where
  lawful := hP
  rejections := hrej
  settled e _ := by
    rw [hall]
    exact BlockingPass.retain_sweep (show (m.fullPass P).projection.Lawful from hP) e
  complete _ := hall

theorem Kept.current_unchanged (hk : Kept m) (hP' : P'.Lawful)
    (hsame : m.isUnchanged P' forceFull = true) :
    Current { m with lastProjection := some P' } P' := by
  obtain ⟨hsame, hdigest⟩ := Bool.and_eq_true_iff.mp hsame
  obtain ⟨-, hdirty⟩ := Bool.and_eq_true_iff.mp hsame
  rw [Option.isNone_iff_eq_none] at hdirty
  obtain ⟨P, hlast, hd⟩ := Option.map_eq_some_iff.mp (of_decide_eq_true hdigest)
  have hc := hk.current P hlast
  refine current_of_sweep hP' (fun pair digest hr => (hc.rejections pair digest hr).trans hd) ?_
  change m.passState = _
  rw [hc.complete hdirty]
  -- some frontier lies after every node
  obtain ⟨e, he⟩ := hc.lawful.exists_frontier
  have halike : BlockingPass.Alike e (m.fullPass P)
      (({ m with lastProjection := some P' } : BlockingManager).fullPass P') :=
    ⟨hc.lawful, hP', hc.lawful.alike_of_digest hP' hd e, rfl, rfl, fun node candidate _ => by
      change decide (m.rejectedBlocks[_]? = some P'.stateDigest) =
        decide (m.rejectedBlocks[_]? = some P.stateDigest)
      rw [hd]⟩
  rw [← hc.lawful.ordered_of_digest hP' hd]
  exact (halike.foldl_eq BlockingPass.tidy_empty he (List.Sublist.refl _)).symm

theorem Kept.current_absorbed (hk : Kept m) (hP' : P'.Lawful)
    (hold : m.ForgetsNothingOld P' forceFull) (control : BlockingControl) (e : Nat) :
    Current ((m.forgetRejections P').absorbed P' e (m.found P' control forceFull)) P' := by
  refine current_of_sweep hP' (fun pair digest hd => ?_) ?_
  · change (m.forgetRejections P').rejectedBlocks[pair]? = some digest at hd
    rw [forgetRejections_eq] at hd
    exact of_decide_eq_true (Option.filter_eq_some_iff.mp hd).2
  · -- limits and control have no part in a sweep
    exact (hk.found_eq hP' hold control).trans rfl

/-- A computation that forgets nothing old leaves the manager with a full pass. -/
theorem Kept.wp_compute (hk : Kept m) (holder : state.ParentsOlder)
    (hold : m.ForgetsNothingOld (state.projection m.checker.vocabulary) forceFull)
    (control : BlockingControl) (w : BlockingWork) : wp (m.compute state control forceFull)
      (fun result _ => Kept result.2 ∧ (∃ P, result.2.lastProjection = some P) ∧
        result.2.dirtyCreationId = none) (fun _ _ => True) w := by
  refine wp_mono (hk.toNeat.wp_compute holder control forceFull w) ?_ fun _ _ _ => trivial
  rintro ⟨result, m'⟩ w' ⟨hc, hleaves⟩
  refine ⟨⟨hc.neat, fun hnone => ?_, fun P hlast => ?_⟩, ⟨_, hc.projection⟩, hc.clean⟩
  · cases hc.projection.symm.trans hnone
  · cases hc.projection.symm.trans hlast
    have hP := (hc.neat.tidy _ hlast).1
    dsimp only [Leaves] at hleaves
    split at hleaves
    · rename_i hsame
      subst hleaves
      exact hk.current_unchanged hP hsame
    · exact hleaves.current (hk.current_absorbed hP hold control _)

/-! ## Validation -/

theorem Kept.setValidated (hk : Kept m) (digest : Option StateDigest) :
    Kept { m with validatedDigest := digest } :=
  ⟨hk.toNeat.setValidated digest, hk.unrejected, fun P hP => ⟨(hk.current P hP).lawful,
    (hk.current P hP).rejections, (hk.current P hP).settled, (hk.current P hP).complete⟩⟩

/-- What comes before a node does not ask about its rejections. -/
theorem sweep_front_reject (hP : P.Lawful) {node : NodeHandle} (blocker : NodeHandle) {e : Nat}
    (hnode : P.isBefore e node = false) (digest : StateDigest) :
    let m' := { m with rejectedBlocks := m.rejectedBlocks.insert ⟨node, blocker⟩ digest }
    (m'.fullPass P).sweep ((m'.fullPass P).front e) =
      (m.fullPass P).sweep ((m.fullPass P).front e) := by
  intro m'
  have halike : BlockingPass.Alike e (m.fullPass P) (m'.fullPass P) :=
    ⟨hP, hP, hP.alike_of_digest hP rfl e, rfl, rfl, fun x candidate hx => by
      change decide ((m.rejectedBlocks.insert ⟨node, blocker⟩ digest)[_]? = some P.stateDigest) =
        decide (m.rejectedBlocks[_]? = some P.stateDigest)
      rw [getElem?_insert_eq, if_neg]
      intro heq
      rw [show node = x from congrArg NodePair.first heq] at hnode
      exact Bool.false_ne_true (hnode.symm.trans hx)⟩
  exact halike.sweep_front

/-- Rejecting a block of a node marks everything from the node on as dirty. -/
theorem Kept.reject (hk : Kept m) (hlast : m.lastProjection = some P) {node : NodeHandle}
    {a : BlockingAssignment} (ha : m.assigned[node]? = some a) (blocker : NodeHandle)
    (violations : List Nat) :
    Kept (m.reject P node blocker violations) := by
  have hc := hk.current P hlast
  have hun := reject_untraced m P node blocker violations
  refine ⟨hk.toNeat.reject ha violations, fun hnone => ?_, fun Q hQ => hun.current ?_⟩
  · cases hlast.symm.trans (hun.fields.2.symm.trans hnone)
  · cases hlast.symm.trans (hun.fields.2.symm.trans hQ)
    refine ⟨hc.lawful, ?_, fun e he => ?_, nofun⟩
    · intro pair digest hd
      rcases getElem?_insert_cases hd with ⟨rfl, rfl⟩ | ⟨-, hd⟩
      · rfl
      · exact hc.rejections pair digest hd
    · -- the dirty mark is at most the creation of the node
      have hle := he _ rfl
      have hdirty : ∀ d, m.dirtyCreationId = some d → e ≤ d := by
        intro d hd
        simp only [hd, Option.elim_some] at hle
        omega
      have hcre : e ≤ (m.creationOf node).getD 0 := by
        cases hd : m.dirtyCreationId with
        | none =>
          rw [hd] at hle
          exact hle
        | some d =>
          rw [hd] at hle
          change e ≤ min d ((m.creationOf node).getD 0) at hle
          omega
      have hnode : P.isBefore e node = false := by
        rw [Bool.eq_false_iff]
        intro hb
        obtain ⟨r, hr, hlt⟩ := isBefore_iff.mp hb
        have : m.creationOf node = some r.creationId := by
          unfold creationOf
          rw [hlast, Option.bind_some, hr]
          rfl
        rw [this, Option.getD_some] at hcre
        omega
      refine Eq.trans ?_ ((hc.settled e hdirty).trans
        (sweep_front_reject (m := m) hc.lawful blocker hnode P.stateDigest).symm)
      refine BlockingPass.passState_ext (fun h => ?_) (fun key => rfl) rfl
      rw [BlockingPass.retain_assignments, BlockingPass.retain_assignments]
      split
      · rename_i hb
        change (m.assigned.insert node (.unblocked node))[h]? = m.assigned[h]?
        rw [getElem?_insert_eq, if_neg]
        intro heq
        rw [heq, hb] at hnode
        cases hnode
      · rfl

/-- What holds of the changes a validation has for the kernel and of the manager it leaves:
all blocks stand, or one is rejected. -/
structure Survives (J : List AssignmentChange → BlockingManager → Prop) (m : BlockingManager)
    (P : BlockingProjection) (blocks : List BlockingAssignment) : Prop where
  valid : ∀ m', Untraced m m' → J [] { m' with validatedDigest := some P.stateDigest }
  reject : ∀ m', Untraced m m' → ∀ block ∈ blocks, ∀ blocker violations,
    J [⟨block.node, m'.assigned[block.node]?, some (.unblocked block.node)⟩]
      (m'.reject P block.node blocker violations)

/-- The changes an outcome of a validation has for the kernel. -/
def sent : Except BlockingError ValidationPassResult → List AssignmentChange
  | .ok result => result.assignmentChanges
  | .error _ => []

variable {validator : BlockValidator} {control : BlockingControl}
  {J : List AssignmentChange → BlockingManager → Prop}

theorem Survives.wp_validateBlocks {blocks : List BlockingAssignment} {checked : Nat}
    {m' : BlockingManager} (h : Survives J m P blocks) (hm : Untraced m m') (w : BlockingWork) :
    wp (validateBlocks validator P control blocks checked m')
      (fun answer _ => J answer.1.assignmentChanges answer.2) (fun _ _ => True) w := by
  induction blocks generalizing checked m' w with
  | nil =>
    refine wp_bind.mpr (wp_blockingPoll (fun w' _ => ?_) fun _ _ _ _ => trivial)
    exact wp_pure.mpr (h.valid m' hm)
  | cons block blocks ih =>
    refine wp_bind.mpr (wp_blockingPoll (fun w' _ => ?_) fun _ _ _ _ => trivial)
    cases hb : block.blocker with
    | none => exact trivial
    | some blocker =>
      refine wp_ask_then (fun signature _ => ?_) fun _ _ => trivial
      refine wp_ask_then (fun decision _ => ?_) fun _ _ => trivial
      refine wp_ask_then (fun _ _ => ?_) fun _ _ => trivial
      refine wp_bind.mpr (wp_blockingPoll (fun w'' _ => ?_) fun _ _ _ _ => trivial)
      refine wp_ite (fun _ => ?_) fun _ => ?_
      · exact ih ⟨h.valid, fun m' hm' b hb => h.reject m' hm' b (mem_cons_of_mem _ hb)⟩
          (hm.trans (record_untraced _ _ _ _ _ _)) w''
      · exact wp_pure.mpr (h.reject m' hm block mem_cons_self blocker _)

theorem wp_validationPass {I : BlockingManager → Prop} {w : BlockingWork}
    (hcompute : wp (m.compute state control false) (fun answer _ => I answer.2) (fun _ _ => True) w)
    (hI : ∀ c, I c → J [] c ∧ ∃ P, c.lastProjection = some P ∧ Survives J c P c.directBlocks) :
    wp (m.validationPass state validator control) (fun answer _ => J (sent answer.1) answer.2)
      (fun _ _ => True) w := by
  refine wp_ensure_then (fun _ => ?_) fun _ => trivial
  refine wp_then hcompute ?_ fun _ _ _ => trivial
  rintro ⟨_, computed⟩ w' hc
  obtain ⟨hJ, P, hlast, hsurvives⟩ := hI computed hc
  have hsame : Untraced computed computed := rfl
  have hblocks : wp (computed.validateComputed validator control)
      (fun answer _ => J answer.1.assignmentChanges answer.2) (fun _ _ => True) w' := by
    unfold validateComputed
    rw [hlast]
    refine wp_ask_then (fun _ _ => ?_) fun _ _ => trivial
    refine wp_ite (fun _ => ?_) fun _ => ?_
    · exact hsurvives.wp_validateBlocks hsame w'
    · exact wp_ask_then (fun _ _ => hsurvives.wp_validateBlocks hsame w') fun _ _ => trivial
  refine wp_get_then.mpr ?_
  unfold wp at hblocks
  cases hv : computed.validateComputed validator control w' with
  | ok answer w'' =>
    rw [hv] at hblocks
    exact hblocks
  | error e w'' => exact hJ

theorem Kept.wp_validationPass (hk : Kept m) (holder : state.ParentsOlder)
    (hold : m.ForgetsNothingOld (state.projection m.checker.vocabulary) false) (w : BlockingWork) :
    wp (m.validationPass state validator control) (fun result _ => Kept result.2)
    (fun _ _ => True) w := by
  refine BlockingManager.wp_validationPass (I := fun c => ∃ P, c.lastProjection = some P ∧ Kept c)
    (J := fun _ => Kept)
    (wp_imp (hk.wp_compute holder hold control w) fun _ _ ⟨hc, ⟨P, hlast⟩, _⟩ => ⟨P, hlast, hc⟩) ?_
  rintro c ⟨P, hlast, hc⟩
  refine ⟨hc, P, hlast, fun c' h =>
    (h.kept hc).setValidated _, fun c' h block hblock blocker violations => ?_⟩
  refine (h.kept hc).reject (by rw [h]; exact hlast) (a := block) ?_ _ _
  rw [h]
  exact hc.toNeat.assigned_of_block hblock

/-! ## The checks of the manager -/

/-- With a full pass behind it, a manager's assignments are the reference assignments, and
its check succeeds unless it is halted. -/
theorem Kept.checks (hk : Kept m)
    (hlast : m.lastProjection = some P) (hdirty : m.dirtyCreationId = none)
    (control : BlockingControl)
    (w : BlockingWork) : wp (m.referenceAssignments control) (fun expected _ =>
      expected = m.assignments)
        (fun e _ => Halted control e) w ∧
      wp (m.checkInvariants control) (fun _ _ => True) (fun e _ => Halted control e ∧
        ((∃ i, control i = .error e) ∨
          m.limits.maxCandidateChecks < P.nodes.size * P.nodes.size)) w := by
  have hc := hk.current P hlast
  have hall := hc.complete hdirty
  have hP := hc.lawful
  have htidy : (m.fullPass P).Tidy P.orderedNodes m.passState := by
    rw [hall]
    exact BlockingPass.tidy_sweep (show (m.fullPass P).projection.Lawful from hP)
      (List.Sublist.refl _)
  have hassigned : m.assignments = P.orderedNodes.filterMap (m.assigned[·]?) := by
    unfold assignments
    rw [hlast]
  have href : wp (m.referenceAssignments control) (fun expected _ => expected = m.assignments)
      (fun e _ => Halted control e ∧ ((∃ i, control i = .error e) ∨
        m.limits.maxCandidateChecks < P.nodes.size * P.nodes.size)) w := by
    unfold referenceAssignments
    rw [hlast]
    refine wp_seq (BlockingPass.wp_recompute_full
      (show (m.pass P control).projection.Lawful from hP) hk.kinds
      (.inr hk.uncached) w) ?_
    rintro ⟨found, stats⟩ w' hfound
    have hsweep : found = m.passState := by
      rw [htidy.uncached] at hfound
      rw [hall]
      exact hfound
    rw [hassigned, hsweep]
    exact wp_pure.mpr rfl
  refine ⟨wp_fail href fun _ _ he => he.1, ?_⟩
  refine wp_ask_known (structural_of_tidy hlast hP htidy) (wp_seq href ?_)
  rintro expected w' rfl
  exact wp_ensure (fun _ => trivial) fun h => absurd rfl h

end BlockingManager

/-! ## Runs -/

/-- A call on the manager, with the state it is made on and the control it is given. -/
inductive BlockingAction where
  | compute (state : BlockingState) (control : BlockingControl) (forceFull : Bool)
  | invalidateNode (node : NodeHandle)
  | invalidateAll
  | notifyFactChange (fact : FactRecord)
  | validationPass (state : BlockingState) (validator : BlockValidator) (control : BlockingControl)

/-- The states of a run have parents older than their children. -/
def BlockingAction.Legal : BlockingAction → Prop
  | .compute state _ _ => state.ParentsOlder
  | .validationPass state _ _ => state.ParentsOlder
  | .invalidateNode _ | .invalidateAll | .notifyFactChange _ => True

namespace BlockingManager

variable (m : BlockingManager)

/-- The manager a call leaves; one that fails leaves it as it was, a validation pass that
fails after computing leaves what was computed. -/
def perform : BlockingAction → BlockingManager
  | .compute state control forceFull =>
    ((returned (m.compute state control forceFull) ⟨0, {}⟩).map (·.2)).getD m
  | .invalidateNode node => m.invalidateNode node
  | .invalidateAll => m.invalidateAll
  | .notifyFactChange fact => m.notifyFactChange fact
  | .validationPass state validator control =>
    ((returned (m.validationPass state validator control) ⟨0, {}⟩).map (·.2)).getD m

def run (actions : List BlockingAction) : BlockingManager :=
  actions.foldl perform m

/-- The call, unless it leaves the manager as it was, forgets no rejection of a node it does
not recompute. -/
def Remembers : BlockingAction → Prop
  | .compute state control forceFull =>
    (returned (m.compute state control forceFull) ⟨0, {}⟩).isSome = true →
      m.ForgetsNothingOld (state.projection m.checker.vocabulary) forceFull
  | .validationPass state validator control =>
    (returned (m.validationPass state validator control) ⟨0, {}⟩).isSome = true →
      m.ForgetsNothingOld (state.projection m.checker.vocabulary) false
  | .invalidateNode _ | .invalidateAll | .notifyFactChange _ => True

/-- No call of the run does. -/
def RemembersAll : BlockingManager → List BlockingAction → Prop
  | _, [] => True
  | m, action :: rest => m.Remembers action ∧ RemembersAll (m.perform action) rest

variable {m : BlockingManager}

theorem kept_returned {α : Type} {program : BlockingM (α × BlockingManager)} (hk : Kept m)
    {w : BlockingWork} (h : (returned program w).isSome = true →
      wp program (fun result _ => Kept result.2) (fun _ _ => True) w) :
    Kept (((returned program w).map (·.2)).getD m) := by
  cases hr : returned program w with
  | none => exact hk
  | some result =>
    rw [hr] at h
    have hkept := wp_ok (h rfl) (eq_ok_of_returned hr)
    exact hkept

theorem Kept.perform (hk : Kept m) {action : BlockingAction} (hl : action.Legal)
    (hr : m.Remembers action) : Kept (m.perform action) := by
  cases action with
  | compute state control forceFull =>
    exact kept_returned hk fun h => wp_imp (hk.wp_compute hl (hr h) control _) fun _ _ h => h.1
  | invalidateNode | invalidateAll => exact hk.invalidateCreation _ _
  | notifyFactChange fact =>
    change Kept (m.notifyFactChange fact)
    unfold notifyFactChange
    split
    · exact hk.invalidateCreation _ _
    · exact hk
  | validationPass state validator control =>
    exact kept_returned hk fun h => hk.wp_validationPass hl (hr h) _

theorem Kept.run (hk : Kept m) {actions : List BlockingAction}
    (hl : ∀ action ∈ actions, action.Legal) (hr : m.RemembersAll actions) :
    Kept (m.run actions) := by
  induction actions generalizing m with
  | nil => exact hk
  | cons action rest ih =>
    exact ih (hk.perform (hl action mem_cons_self) hr.1)
      (fun a ha => hl a (mem_cons_of_mem _ ha)) hr.2

end BlockingManager

/-- **Incremental blocking is full recomputation** as long as no computation forgets a
rejection of a node it does not recompute. Then after every computation that succeeds the
assignments are the reference assignments. The manager's own check succeeds with them: it
fails only if the control stops it, or the full pass makes more candidate checks than
allowed, which takes more pairs of nodes than there are checks. -/
theorem compute_matches_reference {plan : BlockingPlan} {checker : DirectChecker}
    {limits : BlockingLimits} {maxTraceEvents : Nat} {m₀ : BlockingManager}
    (hnew : BlockingManager.new plan checker none limits maxTraceEvents = .ok m₀)
    {actions : List BlockingAction} (hlegal : ∀ action ∈ actions, action.Legal)
    (hrun : m₀.RemembersAll actions) (holder : state.ParentsOlder)
    {control : BlockingControl} {forceFull : Bool}
    (hold : (m₀.run actions).ForgetsNothingOld
      (state.projection (m₀.run actions).checker.vocabulary) forceFull)
    {result : ComputeResult} {m : BlockingManager} {w w' : BlockingWork}
    (hcompute : (m₀.run actions).compute state control forceFull w = .ok (result, m) w') :
    ∃ P, m.lastProjection = some P ∧ ∀ (control : BlockingControl) (w : BlockingWork),
      wp (m.referenceAssignments control) (fun expected _ => expected = m.assignments)
          (fun e _ => Halted control e) w ∧
        wp (m.checkInvariants control) (fun _ _ => True) (fun e _ => Halted control e ∧
          ((∃ i, control i = .error e) ∨
            m.limits.maxCandidateChecks < P.nodes.size * P.nodes.size)) w := by
  have hk := (BlockingManager.kept_new hnew).run hlegal hrun
  obtain ⟨hkm, ⟨P, hlast⟩, hdirty⟩ := wp_ok (hk.wp_compute holder hold control w) hcompute
  exact ⟨P, hlast, fun control w => hkm.checks hlast hdirty control w⟩

namespace IncrementalSample

open BlockingSample

/-- Without labels, either child could block the other. -/
def before : BlockingState := siblings []

/-- The same with one more root. -/
def after : BlockingState where
  revision := 4
  nodeRecords := before.nodeRecords ++ [⟨⟨3, 1⟩, 3, .root, .active, none, false⟩]
  activeFactRecords := []

def plan : BlockingPlan := ⟨.validatedAnywhere, .validatedSingle, .simple, false⟩

def checker : DirectChecker := ⟨.validatedSingle, ⟨∅, ∅⟩, false⟩

def fresh : BlockingManager :=
  { plan, checker, limits := .default, cache := none, maxTraceEvents := 0 }

/-- A validator that rejects the first block it is shown. -/
def rejecting : BlockValidator where
  beginPass := .ok ()
  validateBlock _ _ _ _ _ := .ok ⟨false, [], [], [7]⟩

def actions : List BlockingAction :=
  [.validationPass before rejecting neverCancel, .compute before neverCancel false]

theorem actions_legal : ∀ action ∈ actions, action.Legal :=
  forall_mem_cons.mpr ⟨(siblings_parentsOlder []),
    forall_mem_singleton.mpr (siblings_parentsOlder [])⟩

theorem fresh_new : BlockingManager.new plan checker none .default 0 = .ok fresh := rfl

/-- What a computation on a state leaves. -/
def computed (state : BlockingState) : Option BlockingManager :=
  (returned ((fresh.run actions).compute state neverCancel false) ⟨0, {}⟩).map (·.2)

/-- The younger child was blocked by the elder, and the block was rejected. One more root
changes the digest, so the rejection is forgotten, but the younger child is older than the
new root and keeps its assignment: the check fails. -/
theorem forgotten_rejection : BlockingManager.new plan checker none .default 0 = .ok fresh ∧
    (∀ action ∈ actions, action.Legal) ∧ after.ParentsOlder ∧
    ((computed after).map fun m => (returned (m.checkInvariants neverCancel) ⟨0, {}⟩,
      m.assigned[younger]?, (returned (m.referenceAssignments neverCancel) ⟨0, {}⟩).map (·[2]?))) =
      some (none, some (.unblocked younger), some (some (.direct younger elder))) := by
  refine ⟨fresh_new, actions_legal, ?_, ?_⟩
  · unfold BlockingState.ParentsOlder
    decide
  · decide +kernel

/-- On the state it was made on, the rejection is remembered. -/
theorem remembered_rejection : ∃ result m w',
    (fresh.run actions).compute before neverCancel false ⟨0, {}⟩ = .ok (result, m) w' ∧
      wp (m.referenceAssignments neverCancel) (fun expected _ => expected = m.assignments)
        (fun e _ => Halted neverCancel e) ⟨0, {}⟩ := by
  have hsome : (returned ((fresh.run actions).compute before neverCancel false) ⟨0, {}⟩).isSome =
      true := by
    decide +kernel
  have hvalidate : fresh.ForgetsNothingOld (before.projection fresh.checker.vocabulary) false := by
    decide +kernel
  have hrecompute : (fresh.run (actions.take 1)).ForgetsNothingOld
      (before.projection (fresh.run (actions.take 1)).checker.vocabulary) false := by decide +kernel
  have hcompute : (fresh.run actions).ForgetsNothingOld
      (before.projection (fresh.run actions).checker.vocabulary) false := by decide +kernel
  obtain ⟨⟨result, m⟩, hr⟩ := Option.isSome_iff_exists.mp hsome
  have hok := eq_ok_of_returned hr
  obtain ⟨_, -, hchecks⟩ := compute_matches_reference fresh_new actions_legal
    ⟨fun _ => hvalidate, fun _ => hrecompute, trivial⟩ (siblings_parentsOlder []) hcompute hok
  exact ⟨result, m, _, hok, (hchecks neverCancel ⟨0, {}⟩).1⟩

end IncrementalSample

end PyHermit
