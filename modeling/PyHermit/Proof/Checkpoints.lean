import PyHermit.Session.Tableau

/-!
# Operation checkpoints

Each operation takes a token out of the engine's registry and gives it back by rolling back
or releasing. A token gets lost only at the last poll of `operation_checkpoint`, after the
engine has issued it and before the session has it. As long as no transaction ends there, a
session that is not poisoned has after every operation the registry it had before.
-/

open Std Prog List

namespace PyHermit

open NativeError TableauKernel ProductionTableau

/-! ## Phases -/

section Phases

variable {κ Query Checkpoint : Type} {R : κ → κ → Prop}

/-- A relation between tableaux, whatever the control was asked. -/
def Under (R : κ → κ → Prop) (s s' : Controlled κ) : Prop := R s.tableau s'.tableau

instance [Std.Refl R] : Std.Refl (Under R) := ⟨fun s => Std.Refl.refl (r := R) s.tableau⟩

instance [IsTrans κ R] : IsTrans (Controlled κ) (Under R) :=
  ⟨fun _ _ _ h1 h2 => IsTrans.trans (r := R) _ _ _ h1 h2⟩

/-- Every phase of the scheduler moves the tableau along `R`. -/
structure NativeTableau.Phased (tableau : NativeTableau κ Query Checkpoint)
    (R : κ → κ → Prop) : Prop where
  processNominals : ∀ control, Within (Under R) (tableau.processNominals control)
  applyNextDelta : ∀ control, Within (Under R) (tableau.applyNextDelta control)
  checkDatatypes : ∀ control, Within (Under R) (tableau.checkDatatypes control)
  refreshBlocking : ∀ control, Within (Under R) (tableau.refreshBlocking control)
  processExistential : ∀ control, Within (Under R) (tableau.processExistential control)
  processDisjunction : ∀ control, Within (Under R) (tableau.processDisjunction control)
  resolveClash : ∀ control, Within (Under R) (tableau.resolveClash control)
  invalidateAfterBacktrack : Within R tableau.invalidateAfterBacktrack
  validateBlocking : ∀ control, Within (Under R) (tableau.validateBlocking control)

variable {tableau : NativeTableau κ Query Checkpoint} {control : OperationControl}

theorem question_under [Std.Refl R] {answer : Nat → Except NativeError Unit} :
    Within (Under R) (OperationControl.question (κ := κ) answer) := by
  intro s
  have hsame : Under R s { s with calls := s.calls + 1 } := Std.Refl.refl (r := R) s.tableau
  exact wp_get_then.mpr (wp_bind.mpr (wp_set.mpr (wp_ask (fun _ _ => hsame) fun _ _ => hsame)))

variable [Std.Refl R] [IsTrans κ R] {statistics : SchedulerStatistics}

theorem count_under {field : SchedulerStatistics → Nat → SchedulerStatistics}
    {read : SchedulerStatistics → Nat} {amount : Nat} {overflow : String} :
    Within (Under R) (count (κ := κ) field read amount overflow statistics) :=
  within_ask.bind fun _ => within_pure

section
variable (h : tableau.Phased R)
include h

theorem datatypePhase_under : Within (Under R) (datatypePhase tableau control statistics) :=
  (h.checkDatatypes control).bind fun _ => count_under.bind fun _ => within_get.bind fun _ =>
    within_ensure.bind fun _ => within_pure

theorem afterDelta_under : Within (Under R) (afterDelta tableau control statistics) :=
  count_under.bind fun _ => (datatypePhase_under h).bind fun _ => within_get.bind fun _ =>
    .ite within_pure ((h.processNominals control).bind fun _ => count_under)

theorem expansionPhase_under : Within (Under R) (expansionPhase tableau control statistics) := by
  refine within_get.bind fun s => .ite (count_under.bind fun _ =>
    (h.refreshBlocking control).bind fun _ => count_under.bind fun _ => ?_) ?_
  all_goals
    refine (h.processExistential control).bind fun _ =>
      .ite (count_under.bind fun _ => within_pure) ?_
    exact (h.processDisjunction control).bind fun _ =>
      .ite (count_under.bind fun _ => within_pure) within_pure

theorem forwardPhases_under : Within (Under R) (forwardPhases tableau control statistics) := by
  refine (h.processNominals control).bind fun _ => count_under.bind fun _ => .ite within_pure ?_
  refine (h.applyNextDelta control).bind fun _ => within_ask.bind fun _ => count_under.bind fun _ =>
    count_under.bind fun _ => count_under.bind fun _ => ?_
  exact .ite ((afterDelta_under h).bind fun _ => within_pure)
    ((datatypePhase_under h).bind fun _ => .ite within_pure (expansionPhase_under h))

theorem clashPhase_under : Within (Under R) (clashPhase tableau control statistics) := by
  refine (h.resolveClash control).bind fun resolution => ?_
  cases resolution with
  | unsatisfiable => exact within_ask.bind fun _ => within_pure
  | backtracked =>
    have hinvalidate : Within (Under R) (zoom tableauLens tableau.invalidateAfterBacktrack) :=
      fun s => wp_zoom.mpr (h.invalidateAfterBacktrack s.tableau)
    exact hinvalidate.bind fun _ => count_under.bind fun _ => within_pure

theorem validationPhase_under : Within (Under R) (validationPhase tableau control statistics) := by
  refine (h.validateBlocking control).bind fun _ => count_under.bind fun _ =>
    .ite ?_ (count_under.bind fun _ => ?_)
  all_goals
    refine .ite within_pure (within_ask.bind fun _ => ?_)
    exact within_ensure.bind fun _ => within_ask.bind fun _ => within_pure

theorem driveRound_under {maxSteps : Nat} :
    Within (Under R) (driveRound tableau control maxSteps statistics) := by
  refine question_under.bind fun _ => count_under.bind fun _ => within_ensure.bind fun _ =>
    within_get.bind fun _ => .ite (within_pure.bind fun _ => ?_)
      ((forwardPhases_under h).bind fun _ => ?_)
  all_goals
    exact .ite within_pure (within_get.bind fun _ =>
      .ite (clashPhase_under h) (validationPhase_under h))

/-- **The whole run of the scheduler moves the tableau along `R`.** -/
theorem driveTableau_under {maxSteps : Nat} :
    Within (Under R) (driveTableau tableau control maxSteps) := by
  have hrounds : ∀ fuel statistics, Within (Under R)
      (driveRounds tableau control maxSteps fuel statistics) := by
    intro fuel
    induction fuel with
    | zero => exact fun _ => within_throw
    | succ fuel ih =>
      intro statistics
      refine (driveRound_under h).bind fun outcome => ?_
      obtain ⟨result, statistics⟩ := outcome
      cases result with
      | some result => exact within_pure
      | none => exact ih statistics
  exact hrounds _ _

end

end Phases

/-! ## The registry -/

def SameRegistry {ω : Type} (t t' : ProductionTableau ω) : Prop :=
  t'.permanent.registry = t.permanent.registry

instance {ω : Type} : Std.Refl (SameRegistry (ω := ω)) := ⟨fun _ => rfl⟩

instance {ω : Type} : IsTrans (ProductionTableau ω) SameRegistry := ⟨fun _ _ _ h1 h2 => h2.trans h1⟩

/-- The registry has the same entries and counts the same bytes. -/
structure CheckpointRegistry.SameEntries (r r' : CheckpointRegistry) : Prop where
  checkpoints : r'.checkpoints = r.checkpoints
  checkpointBytes : r'.checkpointBytes = r.checkpointBytes
  limits : r'.limits = r.limits

/-- The second registry is the first with one more token out. -/
structure CheckpointRegistry.Issued (r r' : CheckpointRegistry)
    (token : RuleEngineCheckpoint) : Prop where
  checked : r.check = .ok ()
  token : token.sequence = r.nextSequence
  entries : ∃ stored, r'.checkpoints = r.checkpoints.insert r.nextSequence stored ∧
    r'.checkpointBytes = r.checkpointBytes + stored.estimatedBytes
  limits : r'.limits = r.limits

namespace CheckpointRegistry

/-- What the loop of the check has found out about the entries it went through. -/
theorem foldlM_check {next : Nat} (entries : List (Nat × StoredRuleCheckpoint)) {start total : Nat}
    (h : entries.foldlM (fun bytes (entry : Nat × StoredRuleCheckpoint) => do
      ensure (entry.1 < next) (invariant "active rule checkpoint is outside the issued sequence")
      checkedAdd bytes entry.2.estimatedBytes "active rule checkpoint byte counter overflow")
      start = .ok total) :
    (∀ entry ∈ entries, entry.1 < next) ∧
      total = start + (entries.map (·.2.estimatedBytes)).sum := by
  induction entries generalizing start with
  | nil =>
    cases h
    exact ⟨fun _ h => absurd h not_mem_nil, rfl⟩
  | cons entry rest ih =>
    obtain ⟨bytes, hbytes, h⟩ := bind_eq_ok.mp h
    obtain ⟨_, hlt, hbytes⟩ := bind_eq_ok.mp hbytes
    obtain ⟨hrest, htotal⟩ := ih h
    refine ⟨forall_mem_cons.mpr ⟨ensure_eq_ok.mp hlt, hrest⟩, ?_⟩
    rw [htotal, (bounded_ok hbytes).1, map_cons, sum_cons, Nat.add_assoc]

variable {r : CheckpointRegistry} {token : RuleEngineCheckpoint}

/-- A checked registry has issued all its tokens, and its bytes are those of its entries. -/
theorem check_ok (h : r.check = .ok ()) : (∀ sequence ∈ r.checkpoints, sequence < r.nextSequence) ∧
      r.checkpointBytes = storedBytes r.checkpoints := by
  obtain ⟨bytes, hbytes, h⟩ := bind_eq_ok.mp h
  obtain ⟨hissued, htotal⟩ := foldlM_check _ hbytes
  obtain ⟨_, hequal, -⟩ := bind_eq_ok.mp h
  refine ⟨fun sequence hmem => ?_, ?_⟩
  · have hentry := ExtTreeMap.mem_toList_iff_getElem?_eq_some.mpr
      (ExtTreeMap.getElem?_eq_some_getElem hmem)
    exact hissued _ hentry
  · rw [← ensure_eq_ok.mp hequal, htotal, Nat.zero_add]
    rfl

theorem erase_insert (h : r.check = .ok ()) (stored : StoredRuleCheckpoint) :
    (r.checkpoints.insert r.nextSequence stored).erase r.nextSequence = r.checkpoints := by
  have hnot : r.nextSequence ∉ r.checkpoints := fun hmem => Nat.lt_irrefl _ ((check_ok h).1 _ hmem)
  apply ExtTreeMap.ext_getElem?
  intro k
  rw [ExtTreeMap.getElem?_erase]
  split
  · rename_i heq
    rw [← Std.compare_eq_iff_eq.mp heq, ExtTreeMap.getElem?_eq_none hnot]
  · rename_i hne
    rw [ExtTreeMap.getElem?_insert, if_neg hne]

theorem filter_issued (h : r.check = .ok ()) :
    r.checkpoints.filter (fun candidate _ => decide (candidate < r.nextSequence)) =
      r.checkpoints := by
  refine ExtTreeMap.filter_eq_self_iff.mpr fun k hk => decide_eq_true ?_
  rw [ExtTreeMap.getKey_eq]
  exact (check_ok h).1 k hk

/-- Rolling back to the token just issued gives the entries from before. -/
theorem Issued.consumeRollback {r' r'' : CheckpointRegistry}
    {snapshot : RuleEngineMutableSnapshot} (h : r.Issued r' token)
    (hconsume : r'.consumeRollback token.sequence = .ok (snapshot, r'')) : r.SameEntries r'' := by
  obtain ⟨stored, hentries, hbytes⟩ := h.entries
  unfold CheckpointRegistry.consumeRollback at hconsume
  rw [h.token] at hconsume
  split at hconsume
  · cases hconsume
  · cases hconsume
    have hback : (r'.checkpoints.erase r.nextSequence).filter
        (fun candidate _ => decide (candidate < r.nextSequence)) = r.checkpoints := by
      rw [hentries, erase_insert h.checked, filter_issued h.checked]
    refine ⟨hback, ?_, h.limits⟩
    rw [hback]
    exact (check_ok h.checked).2.symm

theorem Issued.release {r' r'' : CheckpointRegistry} (h : r.Issued r' token)
    (hrelease : r'.release token = .ok r'') : r.SameEntries r'' := by
  obtain ⟨stored, hentries, hbytes⟩ := h.entries
  obtain ⟨_, -, hrelease⟩ := bind_eq_ok.mp hrelease
  rw [h.token, hentries, ExtTreeMap.getElem?_insert_self] at hrelease
  cases hrelease
  refine ⟨erase_insert h.checked stored, ?_, h.limits⟩
  rw [hbytes, Nat.add_sub_cancel]

end CheckpointRegistry

namespace ProductionTableau

variable {ω σ Query : Type} {runtime : Runtime ω σ Query} {control : OperationControl}

/-! ## The tableau's operations -/

theorem put_registry (t : ProductionTableau ω) (active : ActiveState ω) :
    SameRegistry t (activeLens.put t active) := by
  obtain ⟨permanent, query⟩ := t
  cases query <;> rfl

theorem native_phased : (native runtime).Phased SameRegistry := by
  have hzoom : ∀ {α : Type} (m : ControlledM (ActiveState ω) α),
      Within (Under SameRegistry) (zoom controlledActive m) := by
    intro α m s
    exact wp_zoom.mpr (wp_mono wp_true (fun _ c _ => put_registry s.tableau c.tableau) fun _ c _ =>
      put_registry s.tableau c.tableau)
  refine ⟨fun _ => hzoom _, fun _ => hzoom _, fun _ => hzoom _, fun _ => hzoom _, fun _ => hzoom _,
    fun _ => hzoom _, fun _ => hzoom _, fun t => ?_, fun _ => hzoom _⟩
  exact wp_zoom.mpr (wp_mono wp_true (fun _ c _ => put_registry t c) fun _ c _ => put_registry t c)

theorem installQuery_registry {query : Query} :
    Within (Under SameRegistry) (installQuery runtime query control) :=
  within_ask.bind fun _ => question_under.bind fun _ => within_ask.bind fun _ =>
    question_under.bind fun _ =>
    within_modify fun _ => rfl

theorem wp_question {κ : Type} {s : Controlled κ} {answer : Nat → Except NativeError Unit}
    {Q : Unit → Controlled κ → Prop} {E : NativeError → Controlled κ → Prop}
    (hok : answer s.calls = .ok () → Q () { s with calls := s.calls + 1 })
    (herr : ∀ e, answer s.calls = .error e → E e { s with calls := s.calls + 1 }) :
    wp (OperationControl.question answer) Q E s :=
  wp_get_then.mpr (wp_bind.mpr (wp_set.mpr (wp_ask (fun _ h => hok h) fun e h => herr e h)))

variable {s : Controlled (ProductionTableau ω)} {t : ProductionTableau ω}
  {checkpoint : ProductionCheckpoint σ}

/-- The engine issues a token, or leaves the registry as it was. It asks three questions. -/
theorem wp_engineCheckpoint : wp (engineCheckpoint runtime control)
      (fun token s' => s'.calls = s.calls + 3 ∧ s'.tableau.query = s.tableau.query ∧
        s.tableau.permanent.registry.Issued s'.tableau.permanent.registry token)
      (fun _ s' => SameRegistry s.tableau s'.tableau) s := by
  refine wp_bind.mpr (wp_question (fun _ => ?_) fun _ _ => rfl)
  refine wp_get_then.mpr (wp_ask_then (fun _ hcheck => ?_) fun _ _ => rfl)
  refine wp_ask_then (fun _ _ => ?_) fun _ _ => rfl
  refine wp_ensure_then (fun _ => ?_) fun _ => rfl
  refine wp_ask_then (fun estimated _ => ?_) fun _ _ => rfl
  refine wp_ask_then (fun observed hobserved => ?_) fun _ _ => rfl
  refine wp_ensure_then (fun _ => ?_) fun _ => rfl
  refine wp_bind.mpr (wp_question (fun _ => ?_) fun _ _ => rfl)
  refine wp_ask_then (fun next _ => ?_) fun _ _ => rfl
  refine wp_ensure_then (fun _ => ?_) fun _ => rfl
  refine wp_bind.mpr (wp_question (fun _ => ?_) fun _ _ => rfl)
  refine wp_modify_then.mpr (wp_pure.mpr ⟨rfl, rfl, hcheck, rfl, ⟨_, rfl, ?_⟩, rfl⟩)
  exact (bounded_ok hobserved).1

/-- A checkpoint that fails with its token out was refused the last poll, its fifth question. -/
theorem wp_operationCheckpoint : wp (operationCheckpoint runtime control)
      (fun checkpoint s' => s'.tableau.query = none ∧
        s.tableau.permanent.registry.Issued s'.tableau.permanent.registry checkpoint.engine)
      (fun _ s' => SameRegistry s.tableau s'.tableau ∨
        (s'.calls = s.calls + 5 ∧ control.poll (s.calls + 4) ≠ .ok ())) s := by
  refine wp_get_then.mpr (wp_ensure_then (fun hnone => ?_) fun _ => .inl rfl)
  refine wp_bind.mpr (wp_question (fun _ => ?_) fun _ _ => .inl rfl)
  refine wp_get_then.mpr (wp_then wp_engineCheckpoint ?_ fun _ _ => .inl)
  intro token s' hissued
  obtain ⟨hcalls, hquery, hissued⟩ := hissued
  refine wp_bind.mpr (wp_question (fun _ => ?_) fun e herror => .inr ?_)
  · exact ⟨hquery.trans (Option.isNone_iff_eq_none.mp hnone), hissued⟩
  · rw [hcalls] at herror ⊢
    exact ⟨rfl, fun hok => absurd (herror.symm.trans hok) nofun⟩

variable {registry : CheckpointRegistry}

theorem wp_restorePermanentCheckpoint (h : registry.Issued t.permanent.registry checkpoint.engine) :
    wp (restorePermanentCheckpoint runtime checkpoint)
      (fun _ t' => registry.SameEntries t'.permanent.registry) (fun _ _ => True) t := by
  refine wp_get_then.mpr (wp_ask_then (fun _ _ => ?_) fun _ _ => trivial)
  refine wp_ask_then (fun _ _ => ?_) fun _ _ => trivial
  refine wp_ask_then (fun consumed hconsume => ?_) fun _ _ => trivial
  obtain ⟨snapshot, registry'⟩ := consumed
  exact wp_modify.mpr (h.consumeRollback hconsume)

theorem wp_finishOperation {disposition : OperationDisposition}
    (h : registry.Issued t.permanent.registry checkpoint.engine) :
    wp (finishOperation runtime checkpoint disposition)
      (fun _ t' => registry.SameEntries t'.permanent.registry) (fun _ _ => True) t := by
  refine wp_get_then.mpr (wp_modify_then.mpr (wp_ensure_then (fun _ => ?_) fun _ => trivial))
  cases disposition with
  | rollbackQuery => exact wp_restorePermanentCheckpoint h
  | commitPermanent =>
    refine wp_get_then.mpr (wp_ite (fun _ => wp_restorePermanentCheckpoint h) fun _ => ?_)
    refine wp_ask_then (fun registry' hrelease => ?_) fun _ _ => trivial
    refine wp_modify_then.mpr (wp_zoom.mpr (wp_mono wp_true (fun _ _ _ => ?_) fun _ _ _ => trivial))
    exact h.release hrelease

end ProductionTableau

/-! ## Sessions -/

namespace Session

variable {ω σ Query : Type} {runtime : Runtime ω σ Query} {control : OperationControl}
  {limits : SessionLimits}

abbrev registry (s : Session (ProductionTableau ω)) : CheckpointRegistry :=
  s.controlled.tableau.permanent.registry

/-- A session that is not poisoned afterwards was not before, and has the same entries in
its registry. -/
def NoLeak (s s' : Session (ProductionTableau ω)) : Prop :=
  s'.poisoned = false → s.poisoned = false ∧ s.registry.SameEntries s'.registry

instance : Std.Refl (NoLeak (ω := ω)) := ⟨fun _ h => ⟨h, rfl, rfl, rfl⟩⟩

instance : IsTrans (Session (ProductionTableau ω)) NoLeak where
  trans _ _ _ h1 h2 h := by
    obtain ⟨hmid, hsame2⟩ := h2 h
    obtain ⟨hfirst, hsame1⟩ := h1 hmid
    exact ⟨hfirst, hsame2.checkpoints.trans hsame1.checkpoints,
      hsame2.checkpointBytes.trans hsame1.checkpointBytes, hsame2.limits.trans hsame1.limits⟩

/-- The registry and the poisoned mark are the same. -/
structure Quiet (s s' : Session (ProductionTableau ω)) : Prop where
  poisoned : s'.poisoned = s.poisoned
  registry : s'.registry = s.registry

instance : Std.Refl (Quiet (ω := ω)) := ⟨fun _ => ⟨rfl, rfl⟩⟩

instance : IsTrans (Session (ProductionTableau ω)) Quiet :=
  ⟨fun _ _ _ h1 h2 => ⟨h2.poisoned.trans h1.poisoned, h2.registry.trans h1.registry⟩⟩

variable {s s' : Session (ProductionTableau ω)}

theorem Quiet.noLeak (h : Quiet s s') : NoLeak s s' := by
  intro hhealthy
  rw [h.poisoned] at hhealthy
  refine ⟨hhealthy, ?_⟩
  rw [h.registry]
  exact ⟨rfl, rfl, rfl⟩

theorem noLeak_of_poisoned (h : s'.poisoned = true) : NoLeak s s' :=
  fun hhealthy => absurd (h.symm.trans hhealthy) nofun

theorem Quiet.within {α : Type} {m : SessionM (ProductionTableau ω) α} (h : Within Quiet m) :
    Within NoLeak m :=
  h.mono fun _ _ h => h.noLeak

/-! ### Bookkeeping -/

variable {capacity : Nat} {context : OperationContext}

theorem pushEvent_quiet {event : SessionEvent} :
    Within Quiet (pushEvent (κ := ProductionTableau ω) capacity event) := by
  intro s
  refine wp_get_then.mpr (wp_ask_then (fun _ _ => ?_) fun _ _ => ⟨rfl, rfl⟩)
  exact wp_ite (fun _ => wp_set.mpr ⟨rfl, rfl⟩) fun _ => wp_set.mpr ⟨rfl, rfl⟩

theorem modify_quiet {f : Session (ProductionTableau ω) → Session (ProductionTableau ω)}
    (hf : ∀ s, Quiet s (f s)) : Within Quiet (modify f : SessionM (ProductionTableau ω) Unit) :=
  within_modify hf

theorem completeOperation_quiet {record : OperationRecord} {checks : List CompletedCheck} :
    Within Quiet (completeOperation (κ := ProductionTableau ω) context record checks capacity) := by
  refine within_ensure.bind fun _ => pushEvent_quiet.bind fun _ =>
    (Within.forM (fun _ => pushEvent_quiet) _).bind fun _ =>
      .ite (pushEvent_quiet.bind fun _ => ?_) ?_
  all_goals exact pushEvent_quiet.bind fun _ => modify_quiet (by exact fun _ => ⟨rfl, rfl⟩)

theorem abort_quiet {α : Type} {e : NativeError} :
    Within Quiet (abort (κ := ProductionTableau ω) (α := α) context e capacity) :=
  pushEvent_quiet.bind fun _ => pushEvent_quiet.bind fun _ =>
    (modify_quiet (by exact fun _ => ⟨rfl, rfl⟩)).bind fun _ => within_throw

/-! ### Outcomes and poisoning -/

section

variable {α κ : Type} {m : SessionM κ α} {s : Session κ} {E : NativeError → Session κ → Prop}

theorem wp_attempt {Q : Except NativeError α → Session κ → Prop} :
    wp (attempt m) Q E s ↔ wp m (fun a => Q (.ok a)) (fun e => Q (.error e)) s := by
  unfold wp attempt
  cases m s <;> rfl

theorem wp_poisoning {Q : α → Session κ → Prop}
    (h : wp m Q (fun e s' => E e { s' with poisoned := s'.poisoned || poisons e }) s) :
    wp (poisoning m) Q E s := by
  refine wp_bind.mpr (wp_attempt.mpr (wp_fail h fun e s' he => ?_))
  refine wp_ite (fun hpoisons => wp_modify_then.mpr ?_) fun hpoisons => ?_
  · rw [hpoisons, Bool.or_true] at he
    exact he
  · rw [Bool.not_eq_true] at hpoisons
    rw [hpoisons, Bool.or_false] at he
    exact he

end

theorem noLeak_poison (h : NoLeak s s') (mark : Bool) :
    NoLeak s { s' with poisoned := s'.poisoned || mark } := by
  intro hhealthy
  exact h (Bool.or_eq_false_iff.mp hhealthy).1

variable {E : NativeError → Session (ProductionTableau ω) → Prop}

/-- A question fails with the session as it was, but for the mark. -/
theorem wp_asking {answer : Nat → Except NativeError Unit}
    {Q : Unit → Session (ProductionTableau ω) → Prop}
    (hok : Q () { s with controlled := { s.controlled with calls := s.controlled.calls + 1 } })
    (herr : ∀ e s', NoLeak s s' → E e s') :
    wp (poisoning (onTableau (OperationControl.question answer))) Q E s := by
  refine wp_poisoning (wp_zoom.mpr (wp_question (fun _ => hok) fun e _ => herr e _ ?_))
  exact noLeak_poison (Quiet.noLeak ⟨rfl, rfl⟩) _

theorem wp_estimate {Q : Nat → Session (ProductionTableau ω) → Prop} (hok : ∀ bytes, Q bytes s)
    (herr : ∀ e s', NoLeak s s' → E e s') :
    wp (poisoning (ask fun s => (native runtime).estimatedMemoryBytes s.controlled.tableau))
      Q E s := by
  refine wp_poisoning (wp_ask (fun bytes _ => hok bytes) fun e _ => herr e _ ?_)
  exact noLeak_poison (Quiet.noLeak ⟨rfl, rfl⟩) _

/-! ### Transactions -/

variable {α : Type} {disposition : OperationDisposition} {kind : SessionOperationKind}

theorem onTableau_quiet {m : ControlledM (ProductionTableau ω) α}
    (hm : Within (Under SameRegistry) m) : Within Quiet (onTableau m) :=
  fun s => wp_zoom.mpr (wp_mono (hm s.controlled) (fun _ _ h => ⟨rfl, h⟩) fun _ _ h => ⟨rfl, h⟩)

variable {query : Option (SessionQuery Query)} {checkpoint : ProductionCheckpoint σ}
  {itemBytes total : Nat}

theorem transactionBody_quiet :
    Within Quiet (transactionBody (native runtime) limits query control) := by
  have hrest : Within Quiet (do
      let result ← onTableau
        (driveTableau (native runtime) control limits.maxSchedulerSteps)
      onTableau control.askPoll
      ask fun s => (native runtime).checkInvariants s.controlled.tableau
      return result) :=
    (onTableau_quiet (driveTableau_under native_phased)).bind fun _ =>
      (onTableau_quiet question_under).bind fun _ => within_ask.bind fun _ => within_pure
  cases query with
  | none => exact hrest
  | some query => exact (onTableau_quiet installQuery_registry).bind fun _ => hrest

variable {s s₀ : Session (ProductionTableau ω)}
  {Q : Except NativeError Unit → Session (ProductionTableau ω) → Prop}

/-- Rolling back or committing either gives the token back or poisons the session. -/
theorem wp_finishing (hpoisoned : s.poisoned = s₀.poisoned)
    (hissued : s₀.registry.Issued s.registry checkpoint.engine)
    (hok : ∀ s', NoLeak s₀ s' → Q (.ok ()) s') (herr : ∀ e s', Q (.error e) s') :
    wp (attempt (onKernel ((native runtime).finishOperation checkpoint disposition))) Q E s := by
  refine wp_attempt.mpr (wp_zoom.mpr (wp_zoom.mpr ?_))
  refine wp_mono (wp_finishOperation hissued) (fun _ t hsame => hok _ fun hhealthy => ?_)
    fun e _ _ => herr e _
  exact ⟨hpoisoned.symm.trans hhealthy, hsame⟩

theorem wp_checking (h : NoLeak s₀ s) (hok : NoLeak s₀ s → Q (.ok ()) s)
    (herr : ∀ e, Q (.error e) s) :
    wp (attempt (ask fun s => (native runtime).checkInvariants s.controlled.tableau)) Q E s :=
  wp_attempt.mpr (wp_ask (fun _ _ => hok h) fun e _ => herr e)

theorem wp_recover (s₀ : Session (ProductionTableau ω)) {original : NativeError}
    {Q : α → Session (ProductionTableau ω) → Prop} (hpoisoned : s.poisoned = s₀.poisoned)
    (hissued : s₀.registry.Issued s.registry checkpoint.engine) :
    wp (recover (native runtime) checkpoint original) Q (fun _ s' => NoLeak s₀ s') s := by
  refine wp_bind.mpr (wp_finishing hpoisoned hissued (fun s' hs' => ?_) fun e s' => ?_)
  · refine wp_bind.mpr (wp_checking hs' (fun hs' => ?_) fun e => ?_)
    · refine wp_ite (fun _ => wp_modify_then.mpr ?_) fun _ => ?_
      · exact noLeak_of_poisoned rfl
      · exact hs'
    · exact wp_modify_then.mpr (noLeak_of_poisoned rfl)
  · exact wp_modify_then.mpr (noLeak_of_poisoned rfl)

theorem wp_finishTransaction (s₀ : Session (ProductionTableau ω))
    (hpoisoned : s.poisoned = s₀.poisoned)
    (hissued : s₀.registry.Issued s.registry checkpoint.engine) :
    Ends (finishTransaction (native runtime) checkpoint disposition) (NoLeak s₀) s := by
  refine wp_bind.mpr (wp_finishing hpoisoned hissued (fun s' hs' => ?_) fun e s' => ?_)
  · refine wp_bind.mpr (wp_checking hs' (fun hs' => hs') fun e => ?_)
    exact wp_modify_then.mpr (noLeak_of_poisoned rfl)
  · exact wp_modify_then.mpr (noLeak_of_poisoned rfl)

/-- A transaction ended at the poll that follows the issue of its token: its seventh question
was answered with a failure, and it asked no other. -/
def Cut (control : OperationControl) (s s' : Session (ProductionTableau ω)) : Prop :=
  s'.controlled.calls = s.controlled.calls + 7 ∧ control.poll (s.controlled.calls + 6) ≠ .ok ()

/-- **A transaction gives its token back**, or poisons the session, unless it is cut. -/
theorem wp_runTransaction : Ends (runTransaction (native runtime) limits query disposition control)
    (fun s' => NoLeak s s' ∨ Cut control s s') s := by
  refine wp_bind.mpr (wp_asking ?_ fun _ _ => .inl)
  refine wp_bind.mpr (wp_estimate (fun bytes => ?_) fun _ _ => .inl)
  refine wp_bind.mpr (wp_asking ?_ fun _ _ => .inl)
  refine wp_bind.mpr (wp_poisoning (wp_zoom.mpr (wp_mono
    (wp_operationCheckpoint (s := ⟨s.controlled.tableau, s.controlled.calls + 2⟩)) ?_ ?_)))
  · intro checkpoint c hc
    have hissued : ∀ s', Quiet { s with controlled := c } s' →
        s.registry.Issued s'.registry checkpoint.engine := by
      intro s' hquiet
      rw [hquiet.registry]
      exact hc.2
    refine wp_bind.mpr (wp_attempt.mpr
      (wp_mono (transactionBody_quiet _) (fun result s' hquiet => ?_) fun e s' hquiet => ?_))
    · exact wp_then (wp_finishTransaction s hquiet.poisoned (hissued s' hquiet)) (fun _ _ => .inl)
        fun _ _ => .inl
    · exact wp_mono (wp_recover s hquiet.poisoned (hissued s' hquiet))
        (fun _ _ h => h) fun _ _ => .inl
  · intro e c hfailed
    rcases hfailed with hsame | hcut
    · have hquiet : Quiet s { s with controlled := c } := ⟨rfl, hsame⟩
      exact .inl (noLeak_poison hquiet.noLeak _)
    · exact .inr hcut

/-- The transaction that starts here is not cut. -/
def Steady (runtime : Runtime ω σ Query) (limits : SessionLimits)
    (query : Option (SessionQuery Query))
    (disposition : OperationDisposition) (control : OperationControl)
    (s : Session (ProductionTableau ω)) : Prop :=
  ¬ Cut control s (final (runTransaction (native runtime) limits query disposition control) s)

theorem Steady.noLeak (hsteady : Steady runtime limits query disposition control s) :
    Ends (runTransaction (native runtime) limits query disposition control) (NoLeak s) s :=
  ends_iff.mpr ((ends_iff.mp wp_runTransaction).resolve_right hsteady)

/-! ### Operations -/

/-- The query is answered without a transaction, or by a steady one. -/
def AnswerSteady (runtime : Runtime ω σ Query) (limits : SessionLimits) (query : SessionQuery Query)
    (control : OperationControl) (s : Session (ProductionTableau ω)) : Prop :=
  s.permanentSatisfiable = some false ∨ Steady runtime limits (some query) .rollbackQuery control s

/-- Each query of the batch that is reached is answered steadily. -/
def BatchSteady (runtime : Runtime ω σ Query) (limits : SessionLimits)
    (control : OperationControl) : List (SessionQuery Query) → Session (ProductionTableau ω) → Prop
  | [], _ => True
  | query :: rest, s => IfReturns (controlledPoll control) (fun polled =>
      AnswerSteady runtime limits query control polled ∧
        IfReturns (answerQuery (ProductionTableau.native runtime) limits query control (pure ()))
          (BatchSteady runtime limits control rest) polled) s

theorem NoLeak.trans {s₁ s₂ s₃ : Session (ProductionTableau ω)} (h1 : NoLeak s₁ s₂)
    (h2 : NoLeak s₂ s₃) : NoLeak s₁ s₃ := IsTrans.trans (r := NoLeak) _ _ _ h1 h2

theorem NoLeak.after {m : SessionM (ProductionTableau ω) α}
    (h : NoLeak s s') (hm : Ends m (NoLeak s') s') : Ends m (NoLeak s) s' :=
  wp_mono hm (fun _ _ h' => h.trans h') fun _ _ h' => h.trans h'

theorem controlledPoll_noLeak : Within NoLeak (controlledPoll (κ := ProductionTableau ω) control) :=
  fun _ => wp_asking (Quiet.noLeak ⟨rfl, rfl⟩) fun _ _ h => h

theorem wp_answerQuery {query : SessionQuery Query} {cached : SessionM (ProductionTableau ω) Unit}
    (hcached : Within NoLeak cached) (hsteady : AnswerSteady runtime limits query control s) :
    Ends (answerQuery (native runtime) limits query control cached) (NoLeak s) s := by
  refine wp_get_then.mpr (wp_ite (fun _ => ?_) fun hopen => (hsteady.resolve_left hopen).noLeak)
  exact wp_seq (hcached s) fun _ _ h => h

theorem wp_batchLoop (queries : List (SessionQuery Query))
    (hsteady : BatchSteady runtime limits control queries s) :
    Ends (batchLoop (native runtime) limits control queries) (NoLeak s) s := by
  induction queries generalizing s with
  | nil => exact Quiet.noLeak ⟨rfl, rfl⟩
  | cons query rest ih =>
    refine wp_then (wp_and (controlledPoll_noLeak s) hsteady) (fun _ polled hpolled => ?_)
      fun _ _ h => h.1
    obtain ⟨hnoLeak, hfirst, hrest⟩ := hpolled
    refine hnoLeak.after (wp_then (wp_and (wp_answerQuery within_pure hfirst) hrest)
      (fun _ answered hanswered => ?_) fun _ _ h => h.1)
    exact hanswered.1.after (wp_seq (ih hanswered.2) (fun _ _ h => h))

theorem prepareBatch_noLeak {queryCount : Nat} :
    Within NoLeak (prepareBatch (native runtime) limits itemBytes queryCount control) := by
  have hestimate : Within NoLeak (poisoning (ask fun s : Session (ProductionTableau ω) =>
      (native runtime).estimatedMemoryBytes s.controlled.tableau)) :=
    fun _ => wp_estimate (fun _ => Quiet.noLeak ⟨rfl, rfl⟩) fun _ _ h => h
  have hobserve : ∀ bytes, Within NoLeak
    (controlledObserve (κ := ProductionTableau ω) control bytes) :=
    fun _ _ => wp_asking (Quiet.noLeak ⟨rfl, rfl⟩) fun _ _ h => h
  exact within_ensure.bind fun _ => within_ensure.bind fun _ => within_ensure.bind fun _ =>
    hestimate.bind fun _ => (hobserve _).bind fun _ => controlledPoll_noLeak

/-- What every operation does around its body: a failure is noted, a success recorded. -/
theorem wp_concluded {β : Type} {body : SessionM (ProductionTableau ω) α}
    {conclude : Except NativeError α → SessionM (ProductionTableau ω) β}
    (hbody : Ends body (NoLeak s) s) (hfailed : ∀ e, Within NoLeak (conclude (.error e)))
    (hcompleted : ∀ a, Within NoLeak (conclude (.ok a))) :
    Ends (attempt body >>= conclude) (NoLeak s) s := by
  refine wp_bind.mpr (wp_attempt.mpr (wp_mono hbody (fun a s' h => ?_) fun e s' h => ?_))
  · exact h.after (hcompleted a s')
  · exact h.after (hfailed e s')

def opening {κ : Type} (kind : SessionOperationKind) (total : Nat) :
    SessionM κ OperationContext := do
  preflight
  startOperation kind total

theorem opening_noLeak : Within NoLeak (opening (κ := ProductionTableau ω) kind total) := by
  intro s
  have hunmoved : ∀ s', Quiet s s' → NoLeak s s' := fun _ => Quiet.noLeak
  refine wp_bind.mpr (wp_get_then.mpr (wp_ensure_then (fun _ => ?_) fun _ => hunmoved _ ⟨rfl, rfl⟩))
  refine wp_ensure_then (fun _ => wp_set.mpr ?_) fun _ => hunmoved _ ⟨rfl, rfl⟩
  refine wp_get_then.mpr (wp_ask_then (fun _ _ => ?_) fun _ _ => hunmoved _ ⟨rfl, rfl⟩)
  refine wp_ask_then (fun _ _ => ?_) fun _ _ => hunmoved _ ⟨rfl, rfl⟩
  exact wp_modify_then.mpr (wp_pure.mpr (hunmoved _ ⟨rfl, rfl⟩))

theorem wp_opened {P : Session (ProductionTableau ω) → Prop}
    {rest : OperationContext → SessionM (ProductionTableau ω) α}
    (hopened : IfReturns (opening kind total) P s)
    (hrest : ∀ context s', P s' → Ends (rest context) (NoLeak s') s') :
    Ends (preflight >>= fun _ => startOperation kind total >>= rest) (NoLeak s) s := by
  have hopening : wp (opening kind total) _ _ s := wp_and (opening_noLeak s) hopened
  refine wp_then (wp_bind.mp hopening) (fun _ _ hstart => ?_) fun _ _ h => h.1
  refine wp_then hstart (fun context s' hs' => ?_) fun _ _ h => h.1
  exact hs'.1.after (hrest context s' hs'.2)

theorem wp_checkPermanent (hsteady : IfReturns (opening .permanentCheck 1) (fun s =>
      s.permanentSatisfiable = none → Steady runtime limits none .commitPermanent control s) s) :
    Ends (checkPermanent (native runtime) limits control) (NoLeak s) s := by
  refine wp_opened hsteady fun context s' hsteady => wp_concluded ?_ ?_ ?_
  · refine wp_get_then.mpr ?_
    cases hcached : s'.permanentSatisfiable with
    | some satisfiable => exact wp_seq (controlledPoll_noLeak s') fun _ _ h => h
    | none => exact (hsteady hcached).noLeak
  · exact fun e => Quiet.within abort_quiet
  · refine fun result => Quiet.within (completeOperation_quiet.bind fun _ => .ite within_pure ?_)
    exact (modify_quiet (by exact fun _ => ⟨rfl, rfl⟩)).bind fun _ => within_pure

theorem wp_checkQuery {query : SessionQuery Query}
    (hsteady : IfReturns (opening .queryCheck 1) (AnswerSteady runtime limits query control) s) :
    Ends (checkQuery (native runtime) limits query control) (NoLeak s) s := by
  refine wp_opened hsteady fun context s' hsteady => wp_concluded ?_ ?_ ?_
  · exact wp_answerQuery controlledPoll_noLeak hsteady
  · exact fun e => Quiet.within abort_quiet
  · exact fun result => Quiet.within (completeOperation_quiet.bind fun _ => within_pure)

/-- What a batch does before its first query. -/
def openBatch (runtime : Runtime ω σ Query) (limits : SessionLimits) (itemBytes queryCount : Nat)
    (control : OperationControl) : SessionM (ProductionTableau ω) Unit := do
  let _ ← opening .batchCheck (min queryCount u32Max)
  prepareBatch (ProductionTableau.native runtime) limits itemBytes queryCount control

theorem wp_checkMany {queries : List (SessionQuery Query)}
    (hsteady : IfReturns (openBatch runtime limits itemBytes queries.length control)
      (BatchSteady runtime limits control queries) s) :
    Ends (checkMany (native runtime) limits itemBytes queries control) (NoLeak s) s := by
  refine wp_opened (wp_bind.mp hsteady) fun context s' hsteady => wp_concluded ?_ ?_ ?_
  · refine wp_then (wp_and (prepareBatch_noLeak s') hsteady) (fun _ prepared hprepared => ?_)
      fun _ _ h => h.1
    refine hprepared.1.after (wp_then (wp_batchLoop queries hprepared.2)
      (fun _ looped hlooped => ?_) fun _ _ h => h)
    exact hlooped.after (wp_seq (controlledPoll_noLeak looped) (fun _ _ h => h))
  · exact fun e => Quiet.within abort_quiet
  · exact fun result => Quiet.within (completeOperation_quiet.bind fun _ => within_pure)

theorem resetToPermanent_registry : Within SameRegistry (resetToPermanent (ω := ω)) :=
  (within_modify (by exact fun _ => rfl)).bind fun _ => within_ask.bind fun _ => within_ask

theorem wp_resetQueryState : Ends (resetQueryState (native runtime) limits) (NoLeak s) s := by
  have hreset : Within Quiet (onKernel (native runtime).resetToPermanent) :=
    onTableau_quiet fun s => wp_zoom.mpr (resetToPermanent_registry s.tableau)
  refine wp_opened wp_true fun context s' _ =>
    wp_concluded (Quiet.within (hreset.bind fun _ => within_ask) s') ?_ ?_
  · have hpoison : Within NoLeak (poison (κ := ProductionTableau ω)) :=
      within_modify fun _ => noLeak_of_poisoned rfl
    exact fun e => hpoison.bind fun _ => Quiet.within abort_quiet
  · exact fun _ => Quiet.within completeOperation_quiet

end Session

/-! ## Runs -/

section Runs

variable {ω σ Query : Type} (runtime : Runtime ω σ Query) (limits : SessionLimits)

/-- No transaction of the operation ends at the poll right after the engine has issued its
token. Every other poll and every observation may fail. -/
def SessionOp.Steady (s : Session (ProductionTableau ω)) : SessionOp Query → Prop
  | checkPermanent control =>
    IfReturns (Session.opening .permanentCheck 1) (fun s => s.permanentSatisfiable = none →
      Session.Steady runtime limits none .commitPermanent control s) s
  | checkQuery query control =>
    IfReturns (Session.opening .queryCheck 1) (Session.AnswerSteady runtime limits query control) s
  | checkMany itemBytes queries control =>
    IfReturns (Session.openBatch runtime limits itemBytes queries.length control)
      (Session.BatchSteady runtime limits control queries) s
  | resetQueryState => True

/-- The state after an operation, whether it returned or failed. -/
def SessionOp.after (s : Session (ProductionTableau ω)) (op : SessionOp Query) :
    Session (ProductionTableau ω) :=
  final (op.run (ProductionTableau.native runtime) limits) s

/-- Steady operations, one after the other. -/
inductive SteadyRun (start : Session (ProductionTableau ω)) : Session (ProductionTableau ω) → Prop
  | refl : SteadyRun start start
  | step {s : Session (ProductionTableau ω)} (op : SessionOp Query) (run : SteadyRun start s)
      (hsteady : op.Steady runtime limits s) : SteadyRun start (op.after runtime limits s)

variable {runtime limits}

/-- **One operation leaks nothing.** -/
theorem SessionOp.noLeak (op : SessionOp Query) {s : Session (ProductionTableau ω)}
    (hsteady : op.Steady runtime limits s) : Session.NoLeak s (op.after runtime limits s) := by
  cases op with
  | checkPermanent control => exact ends_iff.mp (wp_map.mpr (Session.wp_checkPermanent hsteady))
  | checkQuery query control => exact ends_iff.mp (wp_map.mpr (Session.wp_checkQuery hsteady))
  | checkMany itemBytes queries control =>
    exact ends_iff.mp (wp_map.mpr (Session.wp_checkMany hsteady))
  | resetQueryState => exact ends_iff.mp Session.wp_resetQueryState

theorem SteadyRun.noLeak {start s : Session (ProductionTableau ω)}
    (run : SteadyRun runtime limits start s) : Session.NoLeak start s := by
  induction run with
  | refl => exact Std.Refl.refl (r := Session.NoLeak) start
  | step op run hsteady ih => exact ih.trans (op.noLeak hsteady)

/-- **Operation checkpoints never leak**, as long as no transaction ends at the poll after the
issue of its token. After each operation of such a run a session that is not poisoned has the
registry it had before that operation; and a registry with room for a checkpoint at the
start has room for it everywhere in the run. -/
theorem checkpoints_never_leak {start s : Session (ProductionTableau ω)}
    (run : SteadyRun runtime limits start s) :
    (∀ op : SessionOp Query, op.Steady runtime limits s →
      (op.after runtime limits s).poisoned = false →
      s.registry.SameEntries (op.after runtime limits s).registry) ∧
    (s.poisoned = false → start.registry.checkpoints.size < start.registry.limits.maxCheckpoints →
      s.registry.checkpoints.size < s.registry.limits.maxCheckpoints) := by
  refine ⟨fun op hsteady hhealthy => (op.noLeak hsteady hhealthy).2, fun hhealthy hroom => ?_⟩
  obtain ⟨-, hsame⟩ := run.noLeak hhealthy
  rw [hsame.checkpoints, hsame.limits]
  exact hroom

end Runs

namespace CheckpointSample

/-- A tableau without predicates, clauses or nodes. -/
def tableau : ProductionTableau Unit where
  permanent :=
    { active :=
        { engine :=
            { program :=
                { predicates := [], clauses := [], formed := nofun, valid := by decide +kernel }
              joinProgram := ⟨[], []⟩
              sourceNodes := ∅
              dataNodes := ∅
              learning := true
              merger := ⟨fun _ => none⟩
              limits := .default
              depth := 0 }
          rules := { RuleState.new .new with initialized := true }
          managers := () }
      registry := .new 1 ⟨8, 1000000, by decide, by decide⟩ }
  query := none

/-- Nothing is pending in any phase. -/
def runtime : Runtime Unit Unit Unit where
  layout := ⟨1, 1, 1, 1, 1, fun _ => .ok 0⟩
  saveManagers _ := ()
  restoreManagers _ _ := ()
  checkManagers _ := .ok ()
  admitQuery _ := .ok ()
  loadQuery _ := .ok tableau.permanent
  processNominals _ := return 0
  applyNextDelta _ := return ⟨0, 0, 0⟩
  checkDatatypes _ := return ⟨0, false, false⟩
  refreshBlocking _ := return 0
  processExistential _ := return .noWork
  processDisjunction _ := return .noWork
  resolveClash _ := return .unsatisfiable
  invalidateAfterBacktrack := return ()
  validateBlocking _ := return (.notRequired, 0)
  readyForSat _ := .ok true

def limits : SessionLimits := ⟨10, 10, 1000, 2, by decide, by decide, by decide, by decide⟩

def start : Session (ProductionTableau Unit) := .new tableau

/-- A control that is cancelled before the i-th question. -/
def cancelledAt (i : Nat) : OperationControl where
  poll n := if i ≤ n then .error timeout else .ok ()
  observeMemory _ _ := .ok ()

def willing : OperationControl where
  poll _ := .ok ()
  observeMemory _ _ := .ok ()

/-- Eight checks, each cancelled at its seventh question, fill the registry. The session is
not poisoned, and from then on a check that nobody cancels fails. -/
theorem cancelled_checks_fill_registry :
    let filled := (List.replicate 8 (SessionOp.checkPermanent (cancelledAt 6))).foldl
      (SessionOp.after runtime limits) start
    let check := Session.checkPermanent (native runtime) limits willing
    start.registry.checkpoints.size = 0 ∧ (returned check start).isSome = true ∧
      filled.poisoned = false ∧ filled.registry.checkpoints.size = 8 ∧
      filled.registry.checkpointBytes ≠ start.registry.checkpointBytes ∧
      wp check (fun _ _ => False) (fun e _ => e =
        resourceLimit "rule checkpoint count limit exceeded" "max_checkpoints" 9 8) filled := by
  have hcheck : wp (Session.checkPermanent (native runtime) limits willing) (fun _ _ => False)
      (fun e _ => e = resourceLimit "rule checkpoint count limit exceeded" "max_checkpoints" 9 8)
      ((List.replicate 8 (SessionOp.checkPermanent (cancelledAt 6))).foldl
        (SessionOp.after runtime limits) start) := by
    unfold wp
    rfl
  refine ⟨?_, ?_, ?_, ?_, ?_, hcheck⟩ <;> decide +kernel

/-- A check cancelled at its fourth question, then one that nobody cancels. -/
theorem cancelled_check_leaks_nothing :
    let stopped := SessionOp.after runtime limits start (.checkPermanent (cancelledAt 3))
    stopped.registry.SameEntries
      (SessionOp.after runtime limits stopped (.checkPermanent willing)).registry := by
  have hstopped : (SessionOp.checkPermanent (cancelledAt 3)).Steady runtime limits start :=
    fun _ hcut => absurd hcut.1 (by decide +kernel)
  refine (checkpoints_never_leak (.step _ .refl hstopped)).1 (.checkPermanent willing)
    (fun _ hcut => hcut.2 rfl) ?_
  decide +kernel

end CheckpointSample

end PyHermit
