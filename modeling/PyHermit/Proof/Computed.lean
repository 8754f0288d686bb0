import PyHermit.Proof.Retained

/-!
# What a computation leaves

Whether or not an incremental computation finds what a full one would, it leaves one
assignment for every projected node, each blocked by an older tree node that is projected
too (`Neat`), as what is retained is about nodes both projections agree on. So the manager's
structural check never stops a computation, and the changes it reports are those between the
assignments before and after (`Neat.wp_compute`).
-/

open Std Prog List

namespace PyHermit

open BlockingProjection BlockingPass

/-! ## What is retained is tidy -/

namespace BlockingPass

/-- Of a tidy pass, what lies before a frontier is tidy for any projection that looks the
same up to there. -/
theorem Tidy.retained {pass pass' : BlockingPass} {e : Nat} {acc : PassState}
    (ht : pass.Tidy pass.projection.orderedNodes acc) (hP : pass.projection.Lawful)
    (hP' : pass'.projection.Lawful)
    (ha : BlockingProjection.Alike e pass.projection pass'.projection)
    (hchecker : pass'.checker = pass.checker) :
    pass'.Tidy (pass'.front e) (retain pass'.projection e acc) := by
  have hfront : pass'.front e =
      pass.projection.orderedNodes.filter (pass.projection.isBefore e) := by
    rw [← hP.takeWhile_ordered e (List.Sublist.refl _)]
    exact ha.front hP hP'
  have hcreation : ∀ x, pass.projection.isBefore e x = true →
      pass'.projection.creationAt x = pass.projection.creationAt x := by
    intro x hx
    obtain ⟨r, hr, hlt⟩ := isBefore_iff.mp hx
    obtain ⟨r', hr', hd⟩ := ha.nodes x r hr hlt
    rw [creationAt_eq hr, creationAt_eq hr']
    exact (congrArg DigestedNode.creationId hd :)
  have hkeep : ∀ (h : NodeHandle) (a : BlockingAssignment),
      (retain pass'.projection e acc).assignments[h]? = some a ↔
        pass.projection.isBefore e h = true ∧ acc.assignments[h]? = some a := by
    intro h a
    rw [retain_assignments, ha.isBefore]
    split
    · rename_i hb
      exact ⟨fun h => ⟨hb, h⟩, fun h => h.2⟩
    · rename_i hb
      exact ⟨nofun, fun h => absurd h.1 hb⟩
  refine ⟨ht.uncached, fun h => ?_, fun h a hget => ?_, fun h a b hget hb =>
    ?_, fun key bucket hget => ?_⟩
  · rw [hfront, mem_filter, ← ht.assigned h]
    constructor
    · rintro ⟨a, hget⟩
      obtain ⟨hbefore, hget⟩ := (hkeep h a).mp hget
      exact ⟨⟨a, hget⟩, hbefore⟩
    · rintro ⟨⟨a, hget⟩, hbefore⟩
      exact ⟨a, (hkeep h a).mpr ⟨hbefore, hget⟩⟩
  · exact ht.plain h a ((hkeep h a).mp hget).2
  · obtain ⟨hbefore, hget⟩ := (hkeep h a).mp hget
    obtain ⟨hth, htb, hlt⟩ := ht.blocker h a b hget hb
    -- the blocker is older, so it lies before the frontier too
    have hbb : pass.projection.isBefore e b = true := by
      obtain ⟨r, hr, hlt'⟩ := isBefore_iff.mp hbefore
      obtain ⟨rb, hrb, -⟩ := hP.isTree_iff.mp htb
      rw [creationAt_eq hr, creationAt_eq hrb] at hlt
      exact isBefore_iff.mpr ⟨rb, hrb, Nat.lt_trans hlt hlt'⟩
    rw [ha.isTree hP hP' hbefore, ha.isTree hP hP' hbb, hcreation h hbefore, hcreation b hbb]
    exact ⟨hth, htb, hlt⟩
  · rw [retain_index] at hget
    obtain ⟨old, hold, hkept⟩ := Option.bind_eq_some_iff.mp hget
    obtain ⟨-, hsub, hfiled⟩ := ht.filed key old hold
    unfold keptOf at hkept
    split at hkept
    · cases hkept
    · rename_i hne
      cases hkept
      have hbefore : pass'.projection.isBefore e = pass.projection.isBefore e := funext ha.isBefore
      refine ⟨hne, ?_, fun x hx => ?_⟩
      · rw [hfront, hbefore]
        exact hsub.filter _
      · obtain ⟨hx, hxb⟩ := mem_filter.mp hx
        rw [hbefore] at hxb
        obtain ⟨hel, a, hget, hun⟩ := hfiled x hx
        rw [hchecker, ha.eligible hP hP' hxb]
        exact ⟨hel, a, (hkeep x a).mpr ⟨hxb, hget⟩, hun⟩

end BlockingPass

/-! ## The manager -/

namespace BlockingManager

variable {m : BlockingManager} {a : BlockingAssignment} {P P' : BlockingProjection}
  {forceFull : Bool}

/-- The two managers differ in their traces only. -/
def Untraced (m m' : BlockingManager) : Prop := m' = { m with trace := m'.trace }

theorem record_untraced (m : BlockingManager) (event : BlockingEvent)
    (node blocker : Option NodeHandle) (digest : Option StateDigest) (details : List Nat) :
    Untraced m (m.record event node blocker digest details) := by
  unfold Untraced record
  split <;> rfl

theorem Untraced.trans {a b c : BlockingManager} (h : Untraced a b) (h' : Untraced b c) :
    Untraced a c := by
  unfold Untraced at *
  rw [h', h]

theorem Untraced.fields {m' : BlockingManager} (h : Untraced m m') :
    m'.assigned = m.assigned ∧ m'.lastProjection = m.lastProjection := by
  rw [h]
  exact ⟨rfl, rfl⟩

theorem foldl_recordChange_untraced (digest : StateDigest) (changes : List AssignmentChange)
    (m : BlockingManager) : Untraced m (changes.foldl (recordChange digest) m) := by
  induction changes generalizing m with
  | nil => rfl
  | cons change changes ih =>
    refine Untraced.trans ?_ (ih _)
    unfold recordChange
    cases change.after with
    | none => rfl
    | some after => exact record_untraced _ _ _ _ _ _

theorem absorb_untraced (m : BlockingManager) (P : BlockingProjection) (e : Nat) (found : PassState)
    (stats : ComputeStats) (changes : List AssignmentChange) :
    Untraced (m.absorbed P e found) (m.absorb P e found stats changes) :=
  (foldl_recordChange_untraced P.stateDigest changes _).trans (record_untraced _ _ _ _ _ _)

theorem reject_untraced (m : BlockingManager) (P : BlockingProjection) (node blocker : NodeHandle)
    (violations : List Nat) : Untraced { m with
      rejectedBlocks := m.rejectedBlocks.insert ⟨node, blocker⟩ P.stateDigest
      validatedDigest := none
      assigned := m.assigned.insert node (.unblocked node)
      dirtyCreationId := some (m.dirtyCreationId.elim ((m.creationOf node).getD 0)
        (min · ((m.creationOf node).getD 0))) } (m.reject P node blocker violations) := by
  unfold reject invalidateNode invalidateCreation creationOf
  rw [record_untraced _ .blockRejected]
  exact record_untraced _ _ _ _ _ _

/-- The manager's pass over a projection, whatever the control. -/
def fullPass (m : BlockingManager) (P : BlockingProjection) : BlockingPass := m.pass P neverCancel

/-- What holds of a manager without cache between calls, whatever it has forgotten. -/
structure Neat (m : BlockingManager) : Prop where
  uncached : m.cache = none
  kinds : m.checker.kind = m.plan.directCheckerKind
  limits : m.limits.validate = .ok ()
  fresh : m.lastProjection = none → m.assigned = ∅
  tidy : ∀ P, m.lastProjection = some P → P.Lawful ∧ (m.fullPass P).Tidy P.orderedNodes m.passState

theorem new_eq_ok {plan : BlockingPlan} {checker : DirectChecker} {limits : BlockingLimits}
    {trace : Nat} (h : new plan checker none limits trace = .ok m) :
    m = ⟨plan, checker, limits, none, trace, ∅, ∅, none, some 0, none, ∅, none, []⟩ ∧ Neat m := by
  obtain ⟨_, hlimits, h⟩ := bind_eq_ok.mp h
  obtain ⟨_, hkind, h⟩ := bind_eq_ok.mp h
  obtain ⟨_, -, h⟩ := bind_eq_ok.mp h
  rw [pure_eq_ok] at h
  subst h
  exact ⟨rfl, rfl, ensure_eq_ok.mp hkind, hlimits, fun _ => rfl, nofun⟩

theorem Neat.plain (hm : Neat m) {h : NodeHandle} (ha : m.assigned[h]? = some a) :
    BlockingPass.Plain h a := by
  cases hlast : m.lastProjection with
  | none =>
    rw [hm.fresh hlast] at ha
    simp at ha
  | some P => exact (hm.tidy P hlast).2.plain h a ha

theorem Untraced.neat {m' : BlockingManager} (h : Untraced m m') (hm : Neat m) : Neat m' := by
  rw [h]
  exact ⟨hm.uncached, hm.kinds, hm.limits, hm.fresh, hm.tidy⟩

theorem Neat.invalidateCreation (hm : Neat m) (creationId : Nat) (node : Option NodeHandle) :
    Neat (m.invalidateCreation creationId node) :=
  (record_untraced _ _ _ _ _ _).neat ⟨hm.uncached, hm.kinds, hm.limits, hm.fresh, hm.tidy⟩

theorem Neat.setValidated (hm : Neat m) (digest : Option StateDigest) :
    Neat { m with validatedDigest := digest } :=
  ⟨hm.uncached, hm.kinds, hm.limits, hm.fresh, hm.tidy⟩

theorem Neat.assigned_of_block (hm : Neat m) (ha : a ∈ m.directBlocks) :
    m.assigned[a.node]? = some a := by
  have hmem := (mem_filter.mp ha).1
  unfold assignments at hmem
  cases hlast : m.lastProjection with
  | none => simp [hlast] at hmem
  | some P =>
    simp only [hlast] at hmem
    obtain ⟨node, -, hget⟩ := mem_filterMap.mp hmem
    rw [(hm.plain hget).node]
    exact hget

theorem Neat.reject (hm : Neat m) {node blocker : NodeHandle} (ha : m.assigned[node]? = some a)
    (violations : List Nat) : Neat (m.reject P node blocker violations) := by
  refine (reject_untraced m P node blocker violations).neat ?_
  have hget : ∀ h : NodeHandle, (m.assigned.insert node (.unblocked node))[h]? =
      if node = h then some (.unblocked node) else m.assigned[h]? := by
    intro h
    rw [getElem?_insert_eq]
  refine ⟨hm.uncached, hm.kinds, hm.limits, fun hnone => ?_, fun Q hQ => ?_⟩
  · change m.lastProjection = none at hnone
    rw [hm.fresh hnone] at ha
    simp at ha
  · obtain ⟨hlawful, ht⟩ := hm.tidy Q hQ
    refine ⟨hlawful, ht.uncached, fun h => ?_, fun h b hb => ?_, fun h b x hb hx => ?_,
      fun key bucket hb => ?_⟩
    · change (∃ b, (m.assigned.insert node (.unblocked node))[h]? = some b) ↔ _
      rw [hget, ← ht.assigned h]
      split
      · rename_i heq
        exact ⟨fun _ => ⟨a, by rw [← heq]; exact ha⟩, fun _ => ⟨_, rfl⟩⟩
      · rfl
    · change (m.assigned.insert node (.unblocked node))[h]? = some b at hb
      rw [hget] at hb
      split at hb
      · rename_i heq
        cases hb
        rw [← heq]
        exact plain_unblocked node
      · exact ht.plain h b hb
    · change (m.assigned.insert node (.unblocked node))[h]? = some b at hb
      rw [hget] at hb
      split at hb
      · cases hb
        cases hx
      · exact ht.blocker h b x hb hx
    · obtain ⟨hne, hsub, hfiled⟩ := ht.filed key bucket hb
      refine ⟨hne, hsub, fun x hx => ?_⟩
      obtain ⟨hel, b, hget', hun⟩ := hfiled x hx
      refine ⟨hel, ?_⟩
      change ∃ b, (m.assigned.insert node (.unblocked node))[x]? = some b ∧ _
      rw [hget]
      split
      · exact ⟨_, rfl, rfl⟩
      · exact ⟨b, hget', hun⟩

theorem structural_of_tidy (hlast : m.lastProjection = some P) (hP : P.Lawful)
    (ht : (m.fullPass P).Tidy P.orderedNodes m.passState) :
    m.checkStructuralInvariants = .ok () := by
  have hassigned : m.assignments = P.orderedNodes.filterMap (m.assigned[·]?) := by
    unfold assignments
    rw [hlast]
  have hkeys : m.assigned.keys.Perm P.orderedNodes := by
    refine (perm_ext_iff_of_nodup ?_ hP.ordered_nodup).mpr fun h => ?_
    · exact (ExtTreeMap.distinct_keys (t := m.assigned)).imp fun hne heq =>
        hne (Std.compare_eq_iff_eq.mpr heq)
    · rw [ExtTreeMap.mem_keys, ← ht.assigned h, ExtTreeMap.mem_iff_isSome_getElem?,
        Option.isSome_iff_exists]
      rfl
  unfold checkStructuralInvariants
  rw [hlast, hassigned]
  refine bind_eq_ok.mpr ⟨(), ensure_eq_ok.mpr ?_,
    bind_eq_ok.mpr ⟨(), forM_eq_ok.mpr ?_, forM_eq_ok.mpr ?_⟩⟩
  · rw [← ExtTreeMap.length_keys, hkeys.length_eq]
  · intro a ha
    obtain ⟨h, hh, hget⟩ := mem_filterMap.mp ha
    obtain ⟨r, hr⟩ := hP.mem_ordered.mp hh
    have hnode := (ht.plain h a hget).node
    unfold checkAssignment
    rw [hnode, hr]
    cases hb : a.blocker with
    | none => rfl
    | some b =>
      obtain ⟨-, htree, hlt⟩ := ht.blocker h a b hget hb
      obtain ⟨rb, hrb, -⟩ := hP.isTree_iff.mp htree
      have hrb' : P.nodes[b]? = some rb := hrb
      change P.creationAt b < P.creationAt h at hlt
      rw [creationAt_eq hr, creationAt_eq hrb'] at hlt
      simp only [hrb']
      exact ensure_eq_ok.mpr hlt
  · rintro ⟨key, bucket⟩ hmem
    refine forM_eq_ok.mpr fun x hx => ?_
    obtain ⟨-, -, hfiled⟩ := ht.filed key bucket
      (ExtTreeMap.mem_toList_iff_getElem?_eq_some.mp hmem)
    obtain ⟨hel, a, ha, hab⟩ := hfiled x hx
    unfold checkIndexed
    rw [show m.assigned[x]? = some a from ha]
    exact ensure_eq_ok.mpr ⟨hab, hel⟩

theorem earliest_le_difference {last : BlockingProjection} {d : Nat}
    (hlast : m.lastProjection = some last) (h : last.earliestDifference P = some d) :
    m.earliest P false ≤ d := by
  unfold earliest
  rw [hlast]
  simp only [h, Bool.false_eq_true, if_false]
  unfold minOption
  cases m.dirtyCreationId <;> simp

/-- What the pass of a recomputation finds. -/
def found (m : BlockingManager) (P : BlockingProjection) (control : BlockingControl)
    (forceFull : Bool) : PassState :=
  let pass := (m.forgetRejections P).pass P control
  let frontier := if forceFull = false ∧ 0 < m.earliest P forceFull
    then some (m.earliest P forceFull)
    else none
  (pass.visits frontier).foldl pass.sweepNode (pass.start frontier (m.forgetRejections P).passState)

/-- A recomputation goes over all nodes, or goes on from what is retained of the last pass. -/
theorem found_cases {motive : PassState → Prop} {control : BlockingControl}
    (hcache : m.cache = none)
    (full : motive (((m.forgetRejections P').pass P' control).sweep P'.orderedNodes))
    (part : ∀ P, m.lastProjection = some P → forceFull = false →
      motive ((((m.forgetRejections P').pass P' control).visits (some (m.earliest P' false))).foldl
        ((m.forgetRejections P').pass P' control).sweepNode
        (retain P' (m.earliest P' false) m.passState))) :
    motive (m.found P' control forceFull) := by
  unfold found
  by_cases hf : forceFull = false ∧ 0 < m.earliest P' forceFull
  · rw [if_pos hf]
    obtain ⟨rfl, hpos⟩ := hf
    cases hlast : m.lastProjection with
    | none =>
      unfold earliest at hpos
      rw [hlast] at hpos
      exact absurd hpos (Nat.lt_irrefl 0)
    | some P => exact part P hlast rfl
  · have hnone : (m.forgetRejections P').passState.cache = none := hcache
    rw [if_neg hf]
    unfold start visits
    simp only [hnone]
    exact full

theorem Neat.tidy_found (hm : Neat m) (hP' : P'.Lawful) (control : BlockingControl) :
    ((m.forgetRejections P').pass P' control).Tidy P'.orderedNodes
    (m.found P' control forceFull) := by
  refine found_cases hm.uncached ?_ fun P hlast _ => ?_
  · have hproj : ((m.forgetRejections P').pass P' control).projection.Lawful := hP'
    exact tidy_sweep hproj (List.Sublist.refl _)
  · obtain ⟨hP, ht⟩ := hm.tidy P hlast
    have halike : BlockingProjection.Alike (m.earliest P' false) P P' :=
      .of_difference hP hP' fun d hd => earliest_le_difference hlast hd
    generalize hpass : (m.forgetRejections P').pass P' control = pass
    have hproj : pass.projection = P' := by rw [← hpass]; rfl
    subst hproj
    have happend : pass.front (m.earliest pass.projection false) ++
        pass.visits (some (m.earliest pass.projection false)) = pass.projection.orderedNodes :=
      takeWhile_append_dropWhile
    have hstart := ht.retained hP hP' halike (by rw [← hpass]; rfl)
    have hall := hstart.foldl hP' (by rw [happend])
    rw [happend] at hall
    exact hall

theorem Neat.absorbed (hm : Neat m) (hP' : P'.Lawful) (control : BlockingControl) (e : Nat) :
    Neat ((m.forgetRejections P').absorbed P' e (m.found P' control forceFull)) := by
  have ht : ((m.forgetRejections P').pass P' control).Tidy P'.orderedNodes
    (m.found P' control forceFull) :=
    hm.tidy_found hP' control
  refine ⟨ht.uncached, hm.kinds, hm.limits, nofun, fun Q hQ => ?_⟩
  cases hQ
  exact ⟨hP', ht.uncached, ht.assigned, ht.plain, ht.blocker, ht.filed⟩

/-- The manager a computation on the projection leaves. -/
def Leaves (m : BlockingManager) (P : BlockingProjection) (control : BlockingControl)
    (forceFull : Bool) (m' : BlockingManager) : Prop :=
  if m.isUnchanged P forceFull = true then m' = { m with lastProjection := some P }
  else Untraced ((m.forgetRejections P).absorbed P (m.earliest P forceFull)
    (m.found P control forceFull)) m'

/-- What a computation on the state answers, and the manager it leaves. -/
structure Computed (m : BlockingManager) (state : BlockingState) (result : ComputeResult)
    (m' : BlockingManager) : Prop where
  neat : Neat m'
  projection : m'.lastProjection = some (state.projection m.checker.vocabulary)
  checker : m'.checker = m.checker
  clean : m'.dirtyCreationId = none
  changed : result.changed = assignmentChanges m.assigned m'.assigned
  rescheduled : result.rescheduleNodes = [] ∨
    result.rescheduleNodes = rescheduled (state.projection m.checker.vocabulary) result.changed

theorem assignmentChanges_self (assignments : Assignments) :
    assignmentChanges assignments assignments = [] := by
  unfold assignmentChanges
  rw [filterMap_eq_nil_iff]
  intro node _
  simp

theorem Neat.unchanged (hm : Neat m) (hP' : P'.Lawful)
    {forceFull : Bool} (hsame : m.isUnchanged P' forceFull = true) :
    Neat { m with lastProjection := some P' } := by
  obtain ⟨P, hlast, hd⟩ := Option.map_eq_some_iff.mp
    (of_decide_eq_true (Bool.and_eq_true_iff.mp hsame).2)
  obtain ⟨hP, ht⟩ := hm.tidy P hlast
  refine ⟨hm.uncached, hm.kinds, hm.limits, nofun, fun Q hQ => ?_⟩
  cases hQ
  refine ⟨hP', ?_⟩
  -- some frontier lies after every node
  obtain ⟨e, he⟩ := hP.exists_frontier
  have hall := ht.retained hP
    (show (({ m with lastProjection := some P' } : BlockingManager).fullPass
      P').projection.Lawful from hP')
    (hP.alike_of_digest hP' hd e) rfl
  have hretain : retain P' e m.passState = m.passState := by
    have hbefore : P'.isBefore e = P.isBefore e := funext (hP.alike_of_digest hP' hd e).isBefore
    have hself := ht.retain_eq he
    unfold retain at hself ⊢
    rw [hbefore]
    exact hself
  have hfront : (({ m with lastProjection := some P' } : BlockingManager).fullPass P').front e =
      P'.orderedNodes := by
    refine takeWhile_eq_self_iff.mpr fun x hx => ?_
    change x ∈ P'.orderedNodes at hx
    change P'.isBefore e x = true
    rw [← hP.ordered_of_digest hP' hd] at hx
    rw [(hP.alike_of_digest hP' hd e).isBefore]
    exact he x hx
  rw [hfront] at hall
  change Tidy _ _ (retain P' e m.passState) at hall
  rw [hretain] at hall
  exact hall

theorem Neat.wp_recompute (hm : Neat m) (hP : P.Lawful) (control : BlockingControl)
    (forceFull : Bool) (w : BlockingWork) : wp (m.recompute P control forceFull)
      (fun result _ => Neat result.2 ∧ Untraced ((m.forgetRejections P).absorbed P
          (m.earliest P forceFull) (m.found P control forceFull)) result.2 ∧
        result.1.changed = assignmentChanges m.assigned result.2.assigned ∧
        result.1.rescheduleNodes = rescheduled P result.1.changed)
      (fun e _ => Halted control e) w := by
  refine wp_bind.mpr (wp_blockingPoll (fun w' _ => ?_) fun _ _ _ hi => .inl hi)
  refine wp_seq (BlockingPass.wp_recompute
    (show ((m.forgetRejections P).pass P control).projection.Lawful from hP) hm.kinds
      hm.uncached w') ?_
  rintro ⟨found, stats⟩ w'' (rfl : found = m.found P control forceFull)
  dsimp only
  generalize hchanges : assignmentChanges m.assigned
    (m.found P control forceFull).assignments = changes
  have hun := absorb_untraced (m.forgetRejections P) P (m.earliest P forceFull)
    (m.found P control forceFull) stats changes
  generalize (m.forgetRejections P).absorb P (m.earliest P forceFull)
    (m.found P control forceFull) stats changes = updated at hun
  have hneat : Neat updated := hun.neat (hm.absorbed hP control _)
  have hlast : updated.lastProjection = some P := by rw [hun]; rfl
  refine wp_ask_known (structural_of_tidy hlast hP (hneat.tidy P hlast).2) ?_
  refine wp_pure.mpr ⟨hneat, hun, ?_, rfl⟩
  rw [hun]
  exact hchanges.symm

/-- **A computation only fails when it is halted**, on a state that can be projected. -/
theorem Neat.wp_compute (hm : Neat m) {state : BlockingState} (holder : state.ParentsOlder)
    (control : BlockingControl) (forceFull : Bool) (w : BlockingWork) :
    wp (m.compute state control forceFull)
      (fun result _ => Computed m state result.1 result.2 ∧
        m.Leaves (state.projection m.checker.vocabulary) control forceFull result.2)
      (fun e _ => Halted control e ∨ ¬ state.Projectable) w := by
  refine wp_then (wp_fromState holder w) ?_ fun e _ he => ?_
  · rintro P w' ⟨rfl, hP⟩
    refine wp_ite (fun hsame => ?_) fun hmoved => ?_
    · have hclean := Option.isNone_iff_eq_none.mp
        (Bool.and_eq_true_iff.mp (Bool.and_eq_true_iff.mp hsame).1).2
      exact wp_pure.mpr ⟨⟨hm.unchanged hP hsame, rfl, rfl, hclean,
        (assignmentChanges_self _).symm, .inl rfl⟩, (if_pos hsame).mpr rfl⟩
    · refine wp_mono (hm.wp_recompute hP control forceFull w') ?_ fun _ _ he => .inl he
      rintro ⟨result, m'⟩ w'' ⟨hneat, hun, hchanged, hrescheduled⟩
      refine ⟨⟨hneat, ?_, ?_, ?_, hchanged, .inr hrescheduled⟩, (if_neg hmoved).mpr hun⟩
      all_goals
        dsimp only at hun ⊢
        rw [hun]
        rfl
  · rcases he with he | he | he
    · exact .inl he
    · exact absurd hm.limits he
    · exact .inr he

end BlockingManager

end PyHermit
