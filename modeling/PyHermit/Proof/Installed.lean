import PyHermit.Proof.Registry
import Mathlib.Data.List.Destutter

/-!
# No disjunction is lost

A head with two or more open atoms is either in the kernel already, under the identifier the
registry has for it, or it is entered now. In every run that registers no disjunction under
an identifier some key still has, the kernel afterwards holds an active record of exactly
those atoms (`applyGroundHead_installs`).

Without that proviso it need not. After the eight calls of
`InstalledSample.disjunction_lost` a disjunction just derived is nowhere: its key dates from
before a backtrack, and the identifier went to another disjunction since.
-/

open Std Prog List

namespace PyHermit

open TableauKernel RuleEngine

namespace RuleEngine

variable {engine : RuleEngine} {cancellation : Cancellation}

/-! ## The order of disjuncts -/

def disjunctLE (a b : DisjunctRank × GroundAtom) : Prop :=
  (compareLex (compareOn (·.1)) (compareOn (·.2)) a b).isLE = true

instance : DecidableRel disjunctLE := fun a b =>
  inferInstanceAs (Decidable ((compareLex (compareOn (·.1)) (compareOn (·.2)) a b).isLE = true))

instance : IsTrans (DisjunctRank × GroundAtom) disjunctLE := ⟨fun _ _ _ => TransCmp.isLE_trans⟩

instance : Std.Total disjunctLE := by
  refine ⟨fun a b => ?_⟩
  unfold disjunctLE
  have hswap : compareLex (compareOn Prod.fst) (compareOn Prod.snd) b a =
      (compareLex (compareOn Prod.fst) (compareOn Prod.snd) a b).swap := OrientedCmp.eq_swap
  rw [hswap]
  cases compareLex (compareOn Prod.fst) (compareOn Prod.snd) a b <;> decide

variable {arena : Arena} {atoms : List GroundAtom} {dependency : DependencySet} {s : RuleState}

/-- The pairs the planner sorts: each atom with its rank. -/
theorem ranked_eq_ok {ranked : List (DisjunctRank × GroundAtom)} :
    (atoms.mapM fun atom => return (← engine.disjunctRank arena atom, atom)) = .ok ranked ↔
      atoms = ranked.map (·.2) ∧ ∀ p ∈ ranked, engine.disjunctRank arena p.2 = .ok p.1 := by
  rw [mapM_eq_ok]
  constructor
  · intro h
    induction h with
    | nil => exact ⟨rfl, nofun⟩
    | cons hp _ ih =>
      obtain ⟨rank, hrank, hp⟩ := bind_eq_ok.mp hp
      rw [pure_eq_ok] at hp
      rw [← hp]
      exact ⟨congrArg (List.cons _) ih.1, forall_mem_cons.mpr ⟨hrank, ih.2⟩⟩
  · rintro ⟨rfl, h⟩
    induction ranked with
    | nil => exact .nil
    | cons p rest ih =>
      refine .cons (bind_eq_ok.mpr ⟨p.1, h p (mem_cons_self ..), rfl⟩) (ih fun q hq => ?_)
      exact h q (mem_cons_of_mem _ hq)

variable {ordered : List GroundAtom} {state : MutableState}
  {provenanceIds participantIds : List Nat} {α : Type} {completedSteps rowId : Nat}
  {m : JoinView → JoinM α}

theorem orderDisjuncts_sublist {l : List GroundAtom}
    (h : engine.orderDisjuncts arena atoms = .ok ordered) (hl : l.Sublist ordered) :
    engine.orderDisjuncts arena l = .ok l := by
  obtain ⟨ranked, hranked, h⟩ := bind_eq_ok.mp h
  rw [pure_eq_ok] at h
  obtain ⟨_, hranks⟩ := ranked_eq_ok.mp hranked
  rw [← h] at hl
  obtain ⟨kept, hkept, rfl⟩ := sublist_map_iff.mp hl
  have hsorted : (ranked.insertionSort disjunctLE).Pairwise disjunctLE :=
    pairwise_insertionSort disjunctLE ranked
  refine bind_eq_ok.mpr ⟨kept, ranked_eq_ok.mpr ⟨rfl, fun p hp => ?_⟩, ?_⟩
  · exact hranks p ((mem_insertionSort _).mp (hkept.subset hp))
  · rw [pure_eq_ok]
    exact congrArg _ ((hsorted.sublist hkept).insertionSort_eq)

theorem orderDisjuncts_nodup
    (h : engine.orderDisjuncts arena atoms = .ok ordered) (hatoms : atoms.Nodup) :
    ordered.Nodup := by
  obtain ⟨ranked, hranked, h⟩ := bind_eq_ok.mp h
  rw [pure_eq_ok] at h
  rw [(ranked_eq_ok.mp hranked).1] at hatoms
  rw [← h]
  exact ((perm_insertionSort disjunctLE ranked).map _).nodup_iff.mpr hatoms

theorem destutter_eq_self (h : atoms.Nodup) : atoms.destutter (· ≠ ·) = atoms :=
  destutter_of_isChain _ _ h.isChain

theorem openAtoms_sublist :
    ∀ {result : List GroundAtom × List DependencySet}, engine.openAtoms state atoms = .ok result →
      result.1.Sublist atoms := by
  induction atoms with
  | nil =>
    intro result h
    rw [← pure_eq_ok.mp h]
  | cons atom rest ih =>
    intro result h
    obtain ⟨refutation, _, h⟩ := bind_eq_ok.mp h
    obtain ⟨kept, hkept, h⟩ := bind_eq_ok.mp h
    cases refutation with
    | some _ =>
      rw [← pure_eq_ok.mp h]
      exact (ih hkept).cons atom
    | none =>
      rw [← pure_eq_ok.mp h]
      exact (ih hkept).cons_cons atom

/-- The open atoms of a head are already as `install_disjunction` puts them. -/
theorem openHead_ordered {head : OpenHead}
    (h : engine.openHead state atoms dependency = .ok (some head)) :
    engine.orderDisjuncts state.nodes head.remaining = .ok head.remaining ∧
      head.remaining.Nodup := by
  obtain ⟨canonicalized, _, h⟩ := bind_eq_ok.mp h
  obtain ⟨normalized, hnormalized, h⟩ := bind_eq_ok.mp h
  obtain ⟨satisfied, _, h⟩ := bind_eq_ok.mp h
  cases satisfied with
  | true => cases h
  | false =>
    obtain ⟨⟨remaining, refutations⟩, hopen, h⟩ := bind_eq_ok.mp h
    cases h
    have hsub := openAtoms_sublist hopen
    refine ⟨orderDisjuncts_sublist hnormalized hsub, ?_⟩
    have hnodup := (ExtTreeSet.distinct_toList (t := ExtTreeSet.ofList (canonicalized.map (·.1))))
    refine (orderDisjuncts_nodup hnormalized (hnodup.imp fun hne heq => hne ?_)).sublist hsub
    exact Std.compare_eq_iff_eq.mpr heq

/-! ## Installing -/

/-- The records are the same, and no atom has lost its identifier. -/
structure Steady (s s' : RuleState) : Prop where
  shapes : s'.kernel.state.shapes = s.kernel.state.shapes
  atoms : s.atoms <+: s'.atoms

instance : Std.Refl Steady := ⟨fun _ => ⟨rfl, prefix_rfl⟩⟩

instance : IsTrans RuleState Steady :=
  ⟨fun _ _ _ h1 h2 => ⟨h2.shapes.trans h1.shapes, h1.atoms.trans h2.atoms⟩⟩

theorem strengthenKnown_steady {disjunctionId : Nat} :
    Within Steady (engine.strengthenKnown disjunctionId dependency) := by
  have hstrengthen : Within Steady (onKernel (strengthenDisjunction disjunctionId dependency)) :=
    fun s => wp_zoom.mpr (wp_mono (strengthenDisjunction_sameShapes s.kernel)
      (fun _ _ h => ⟨h.shapes, prefix_rfl⟩) fun _ _ h => ⟨h.shapes, prefix_rfl⟩)
  have hdispatch : ∀ {atomId : Nat} {dependency : DependencySet},
      Within Steady (engine.dispatchAtom atomId dependency) :=
    dispatchAtom_dispatched.mono fun _ _ h => ⟨h.kernel.sameShapes.shapes, h.atoms⟩
  exact hstrengthen.bind fun _ => .ite (within_get.bind fun _ => Within.forM (fun _ =>
    hdispatch.bind fun _ => within_pure) _) within_pure

theorem knownDisjunction_eq_some {id : Nat} (h : knownDisjunction s atoms = some id) :
    s.disjunctionKeys[atoms]? = some id ∧
      ∃ ids, s.kernel.state.shapes[id]? = some (ids, true) := by
  unfold knownDisjunction at h
  cases hkey : s.disjunctionKeys[atoms]? with
  | none =>
    rw [hkey] at h
    cases h
  | some id' =>
    rw [hkey] at h
    dsimp only at h
    unfold MutableState.disjunction at h
    cases hrecord : s.kernel.state.disjunctions[id']? with
    | none =>
      rw [hrecord] at h
      cases h
    | some record =>
      rw [hrecord] at h
      dsimp only at h
      split at h
      · rename_i hactive
        cases h
        refine ⟨rfl, record.disjunctIds, ?_⟩
        unfold MutableState.shapes
        rw [getElem?_map, hrecord]
        unfold GroundDisjunction.shape
        rw [Option.map_some, hactive]
      · cases h

/-- An active record of exactly these atoms. -/
def Holds (s : RuleState) (atoms : List GroundAtom) : Prop :=
  ∃ ids, (ids, true) ∈ s.kernel.state.shapes ∧ s.Names ids atoms

theorem eraseKey_maintains :
    Within Maintains (modify fun s =>
      { s with disjunctionKeys := s.disjunctionKeys.erase atoms } : RuleM Unit) := by
  refine within_modify fun s hs => ⟨hs.interned, hs.nested, fun hr => ?_⟩
  refine (hs.sound hr).recede (fun key id hkey => ?_) prefix_rfl prefix_rfl
  rw [ExtTreeMap.getElem?_erase] at hkey
  split at hkey
  · cases hkey
  · exact hkey

/-- **What `install_disjunction` leaves behind**, from a registry that can be trusted. -/
theorem wp_installDisjunction
    (hs : RegistryInv s) (hordered : engine.orderDisjuncts s.kernel.state.nodes atoms = .ok atoms)
    (hnodup : atoms.Nodup) : wp (engine.installDisjunction atoms dependency)
      (fun _ s' => RegistryInv s' ∧ ((∀ r ∈ s.registrations, r.Unaliased) → Holds s' atoms))
      (fun _ s' => RegistryInv s') s := by
  refine wp_bind.mpr (wp_zoom.mpr (wp_ask (fun ordered h => ?_) fun _ _ => hs))
  have h : engine.orderDisjuncts s.kernel.state.nodes atoms = .ok ordered := h
  rw [hordered] at h
  cases h
  rw [destutter_eq_self hnodup]
  refine wp_get_then.mpr ?_
  have hput : (polledLens.comp kernelLens).put s ((polledLens.comp kernelLens).get s) = s :=
    (polledLens.comp kernelLens).put_get s
  rw [hput]
  cases hknown : knownDisjunction s atoms with
  | some id =>
    obtain ⟨hkey, ids, hshape⟩ := knownDisjunction_eq_some hknown
    refine wp_then (wp_and (strengthenKnown_maintains s) (strengthenKnown_steady s))
      (fun _ s' h => ?_) fun _ _ h => h.1 hs
    refine ⟨h.1 hs, fun hr => ⟨ids, ?_, ?_⟩⟩
    · rw [h.2.shapes]
      exact mem_of_getElem? hshape
    · exact (hs.sound hr atoms id _ hkey hshape).grow h.2.atoms
  | none =>
    refine wp_then (eraseKey_maintains s) (fun _ s1 h1 => ?_) fun _ _ h => h hs
    exact wp_imp (wp_registerDisjunction (h1 hs)) (fun _ _ h => ⟨h.1, fun _ => h.2⟩)

theorem wp_applyGroundHead (hs : RegistryInv s) :
    wp (engine.applyGroundHead atoms dependency provenanceIds participantIds)
      (fun _ s' => RegistryInv s' ∧ ∀ head, engine.openHead s.kernel.state atoms dependency =
        .ok (some head) →
        2 ≤ head.remaining.length → (∀ r ∈ s.registrations, r.Unaliased) → Holds s' head.remaining)
      (fun _ s' => RegistryInv s') s := by
  refine wp_bind.mpr (wp_zoom.mpr (wp_ask (fun result hresult => ?_) fun _ _ => hs))
  have hresult : engine.openHead s.kernel.state atoms dependency = .ok result := hresult
  have hput : (polledLens.comp kernelLens).put s ((polledLens.comp kernelLens).get s) = s :=
    (polledLens.comp kernelLens).put_get s
  rw [hput, hresult]
  -- a head that is not a disjunction keeps the invariant, and says nothing more
  have hother : ∀ {m : RuleM Bool} {r : Option OpenHead}, Within Maintains m →
      (∀ head, r = some head → head.remaining.length < 2) →
      wp m (fun _ s' => RegistryInv s' ∧ ∀ head, (Except.ok r : Except NativeError _) =
        .ok (some head) →
        2 ≤ head.remaining.length → (∀ r ∈ s.registrations, r.Unaliased) → Holds s' head.remaining)
        (fun _ s' => RegistryInv s') s := by
    intro m r hm hshort
    refine wp_mono (hm s) (fun _ s' h => ⟨h hs, fun head hhead htwo => ?_⟩) fun _ _ h => h hs
    have hlt := hshort head (Except.ok.inj hhead)
    omega
  cases result with
  | none => exact hother within_pure nofun
  | some head =>
    dsimp only
    cases hremaining : head.remaining with
    | nil =>
      refine hother ?_ fun head' hhead' => ?_
      · exact within_ask.bind fun _ => maintains_of_dispatched installClash_dispatched
      · rw [← Option.some.inj hhead', hremaining]
        exact Nat.zero_lt_two
    | cons first rest =>
      cases hrest : rest with
      | nil =>
        refine hother ?_ fun head' hhead' => ?_
        · exact maintains_of_dispatched
            (dispatchNormalized_dispatched (dispatchNested_dispatched _))
        · rw [← Option.some.inj hhead', hremaining, hrest]
          exact Nat.one_lt_two
      | cons second rest =>
        obtain ⟨hordered, hnodup⟩ := openHead_ordered hresult
        rw [hremaining, hrest] at hordered hnodup
        refine wp_imp (wp_installDisjunction hs hordered hnodup) (fun _ s' h => ⟨h.1, ?_⟩)
        intro head' hhead' _ hr
        rw [← Option.some.inj (Except.ok.inj hhead'), hremaining, hrest]
        exact h.2 hr

theorem applyGroundHead_maintains :
    Within Maintains (engine.applyGroundHead atoms dependency provenanceIds participantIds) := by
  intro s
  by_cases hs : RegistryInv s
  · exact wp_mono (wp_applyGroundHead hs) (fun _ _ h _ => h.1) fun _ _ h _ => h
  · exact wp_mono wp_true (fun _ _ _ h => absurd h hs) fun _ _ _ h => absurd h hs

theorem applyMatch_maintains {matched : JoinMatch} : Within Maintains (engine.applyMatch matched) :=
  within_ask.bind fun _ => observe_maintains.bind fun _ => applyGroundHead_maintains

/-! ## Generations -/

theorem evaluate_dispatched :
    Within Dispatched (engine.evaluate cancellation completedSteps m) := by
  refine within_ask.bind fun limits => poll_dispatched.bind fun _ s => ?_
  have hpolls : ∀ polls, Dispatched s { s with polled := { s.polled with polls := polls } } :=
    fun _ => ⟨Std.Refl.refl (r := Keeps) s.kernel, rfl, rfl, rfl, prefix_rfl, fun h => h⟩
  unfold wp
  dsimp only
  cases m ⟨engine.program, s.kernel.state, engine.sourceNodes, engine.dataNodes, limits⟩
    ⟨s.polled.polls, 0, 0, 0, ∅⟩ with
  | ok a j => exact hpolls j.polls
  | error e j => exact hpolls j.polls

theorem evaluate_maintains : Within Maintains (engine.evaluate cancellation completedSteps m) :=
  maintains_of_dispatched evaluate_dispatched

theorem applyMatches_maintains (found : List JoinMatch) (progress : DeltaProgress) :
    Within Maintains (engine.applyMatches cancellation found progress) := by
  induction found generalizing progress with
  | nil => exact within_pure
  | cons matched rest ih =>
    exact poll_maintains.bind fun _ => .ite (ih progress) <| within_ask.bind fun _ =>
      applyMatch_maintains.bind fun _ => hasClash_maintains.bind fun _ => .ite within_pure (ih _)

theorem runPlans_maintains (plans : List ClauseJoinPlan) (progress : DeltaProgress) :
    Within Maintains (engine.runPlans cancellation rowId plans progress) := by
  induction plans generalizing progress with
  | nil => exact within_pure
  | cons plan rest ih =>
    exact observe_maintains.bind fun _ => hasClash_maintains.bind fun _ => .ite within_pure <|
      evaluate_maintains.bind fun _ => within_ensure.bind fun _ =>
        (applyMatches_maintains _ _).bind fun _ => ih _

theorem runRow_maintains {progress : DeltaProgress} :
    Within Maintains (engine.runRow cancellation progress rowId) :=
  poll_maintains.bind fun _ => observe_maintains.bind fun _ =>
    .ite within_pure (runPlans_maintains _ _)

theorem deltaRows_maintains : Within Maintains (engine.deltaRows cancellation) :=
  within_get.bind fun _ => (Within.filterM (fun _ =>
    (maintains_of_dispatched (pollWith_dispatched _)).bind fun _ => observe_maintains.bind fun _ =>
      within_pure) _).bind fun _ => within_pure

theorem applyNextDelta_maintains : Within Maintains (engine.applyNextDelta cancellation) := by
  refine within_get.bind fun _ => within_ensure.bind fun _ => recoverTo_maintains ?_
  exact poll_maintains.bind fun _ => (onKernel_maintains_keeps prepareNextDelta_frame).bind fun _ =>
    deltaRows_maintains.bind fun _ =>
      (Within.foldlM (fun _ _ => runRow_maintains) _ _).bind fun _ =>
    poll_maintains.bind fun _ => within_pure

/-! ## Setting up -/

theorem seedReflexiveEqualities_maintains : Within Maintains engine.seedReflexiveEqualities := by
  refine within_get.bind fun _ =>
    Within.forM (fun handle => observe_maintains.bind fun sort => ?_) _
  cases engine.equalityOf sort.termSort with
  | none => exact within_pure
  | some predicateId =>
    exact within_ask.bind fun _ =>
      (onKernel_maintains_keeps addExtensionAtom_keeps).bind fun _ => within_pure

theorem applyUnconditional_maintains (found : List JoinMatch) (matchCount : Nat) :
    Within Maintains (engine.applyUnconditional cancellation found matchCount) := by
  induction found generalizing matchCount with
  | nil => exact within_pure
  | cons matched rest ih =>
    exact poll_maintains.bind fun _ => within_ask.bind fun _ => applyMatch_maintains.bind fun _ =>
      hasClash_maintains.bind fun _ => .ite within_pure (ih _)

theorem fireClauses_maintains (clauseIds : List Nat) (joinSteps matchCount : Nat) :
    Within Maintains (engine.fireClauses cancellation clauseIds joinSteps matchCount) := by
  induction clauseIds generalizing joinSteps matchCount with
  | nil => exact within_pure
  | cons clauseId rest ih =>
    exact poll_maintains.bind fun _ => evaluate_maintains.bind fun _ => within_ensure.bind fun _ =>
      (applyUnconditional_maintains _ _).bind fun _ => .ite within_pure (ih _ _)

theorem initializeEngine_maintains : Within Maintains (engine.initializeEngine cancellation) := by
  have hinner : Within Maintains (engine.initializeInner cancellation) :=
    observe_maintains.bind fun _ => seedReflexiveEqualities_maintains.bind fun _ =>
      (fireClauses_maintains _ _ _).bind fun _ =>
        (onKernel_maintains_keeps within_ask).bind fun _ =>
      onKernel_maintains beginOperation_recedes
  have hdone : Within Maintains (modify fun s => { s with initialized := true } : RuleM Unit) :=
    within_modify fun s hs => ⟨hs.interned, hs.nested, hs.sound⟩
  exact within_get.bind fun _ => within_ensure.bind fun _ => poll_maintains.bind fun _ =>
    (onKernel_maintains beginOperation_recedes).bind fun _ =>
      (recoverTo_maintains hinner).bind fun _ => hdone

theorem registerNode_maintains {handle : NodeHandle} :
    Within Maintains (engine.registerNode handle dependency) := by
  refine observe_maintains.bind fun sort => ?_
  cases engine.equalityOf sort.termSort with
  | none => exact within_pure
  | some predicateId =>
    exact within_ask.bind fun _ => maintains_of_dispatched (dispatchNested_dispatched _ _ _ _ _)

/-! ## Branching -/

section Branching

open DisjunctionBrancher

theorem brancherPoll_maintains :
    Within Maintains (DisjunctionBrancher.poll engine.access cancellation) :=
  poll_maintains

theorem brancherKernel_maintains {α : Type} {m : KernelM α} (hm : Within Recedes m) :
    Within Maintains (DisjunctionBrancher.onKernel engine.access m) := onKernel_maintains hm

theorem accessDispatch_maintains {atomId : Nat} :
    Within Maintains (engine.access.dispatchAtom atomId dependency) :=
  maintains_of_dispatched dispatchAtom_dispatched

theorem installClash_recedes {kind : ClashKind} {participants : List Nat}
    {provenanceId : Option Nat} :
    Within Recedes (installClash kind dependency participants provenanceId) :=
  installClash_frame.mono fun _ _ (h : Keeps _ _) => h.sameShapes.recedes

theorem anySatisfied_maintains (atomIds : List Nat) :
    Within Maintains (anySatisfied engine.access cancellation atomIds) := by
  induction atomIds with
  | nil => exact within_pure
  | cons atomId rest ih =>
    exact brancherPoll_maintains.bind fun _ => within_ask.bind fun _ => .ite within_pure ih

theorem splitRefuted_maintains (atomIds : List Nat) :
    Within Maintains (splitRefuted engine.access cancellation atomIds) := by
  induction atomIds with
  | nil => exact within_pure
  | cons atomId rest ih =>
    refine brancherPoll_maintains.bind fun _ => within_ask.bind fun refutation =>
      ih.bind fun _ => ?_
    cases refutation <;> exact within_pure

theorem branchOn_maintains {disjunctionId : Nat} {combined : DependencySet} (atomIds : List Nat) :
    Within Maintains (branchOn engine.access cancellation disjunctionId combined atomIds) := by
  match atomIds with
  | [] =>
    exact (brancherKernel_maintains installClash_recedes).bind fun _ => brancherPoll_maintains.bind
      fun _ => within_pure
  | [atomId] =>
    exact accessDispatch_maintains.bind fun _ => brancherPoll_maintains.bind fun _ => within_pure
  | first :: second :: rest =>
    exact (brancherKernel_maintains pushBranch_recedes).bind fun _ => accessDispatch_maintains.bind
      fun _ => brancherPoll_maintains.bind fun _ => within_pure

theorem processNextDisjunction_maintains :
    Within Maintains (engine.processNextDisjunction cancellation) := by
  have hread : ∀ {α : Type} {f : MutableState → Except NativeError α},
      Within Maintains (DisjunctionBrancher.onKernel engine.access (readState f)) :=
    brancherKernel_maintains within_ask
  refine recoverTo_maintains (brancherPoll_maintains.bind fun _ => (brancherKernel_maintains
    (takeDisjunction_sameShapes.mono fun _ _ h => h.recedes)).bind fun taken => ?_)
  cases taken with
  | none => exact brancherPoll_maintains.bind fun _ => within_pure
  | some disjunctionId =>
    exact hread.bind fun _ => (anySatisfied_maintains _).bind fun _ => .ite
      (brancherPoll_maintains.bind fun _ => within_pure)
      ((splitRefuted_maintains _).bind fun _ => branchOn_maintains _)

theorem resolveRound_maintains {learning : Bool} :
    Within Maintains (DisjunctionBrancher.resolveClash engine.access cancellation learning) := by
  refine recoverTo_maintains (brancherPoll_maintains.bind fun _ =>
    (brancherKernel_maintains within_get).bind fun k => ?_)
  cases k.state.clash with
  | none => exact within_pure
  | some clash =>
    dsimp only
    cases target learning k clash with
    | none => exact within_pure
    | some t =>
      refine (brancherKernel_maintains within_ask).bind fun branch =>
        (brancherKernel_maintains advanceBranch_recedes).bind fun alternative =>
        brancherPoll_maintains.bind fun _ => ?_
      cases alternative with
      | some atomId =>
        exact (brancherKernel_maintains within_ask).bind fun _ => accessDispatch_maintains.bind
          fun _ => brancherPoll_maintains.bind fun _ => within_pure
      | none =>
        exact (brancherKernel_maintains installClash_recedes).bind fun _ =>
          brancherPoll_maintains.bind fun _ => within_pure

theorem resolveClash_maintains : Within Maintains (engine.resolveClash cancellation) := by
  have hrounds : ∀ fuel, Within Maintains
      (resolveRounds engine.access cancellation engine.learning fuel) := by
    intro fuel
    induction fuel with
    | zero => exact within_pure
    | succ fuel ih => exact resolveRound_maintains.bind fun _ => .ite within_pure ih
  refine (brancherKernel_maintains within_get).bind fun k => (hrounds _).bind fun transition => ?_
  cases transition with
  | none => exact within_throw
  | some transition => exact within_pure

end Branching

end RuleEngine

/-! ## Runs -/

/-- The calls a tableau makes on its rule engine. -/
inductive RuleAction where
  | initializeEngine
  | applyNextDelta
  | applyGroundHead (atoms : List GroundAtom) (dependency : DependencySet)
      (provenanceIds participantIds : List Nat)
  | applyMatch (matched : JoinMatch)
  | processNextDisjunction
  | resolveClash
  | registerNode (handle : NodeHandle) (dependency : DependencySet)
  | dispatchGroundAtom (atom : GroundAtom) (dependency : DependencySet) (core : Bool)
      (provenanceIds : List Nat)

/-- The state a call leaves, whether it returns or fails. -/
def RuleAction.run (engine : RuleEngine) (cancellation : Cancellation) (s : RuleState) :
    RuleAction → RuleState
  | initializeEngine => final (engine.initializeEngine cancellation) s
  | applyNextDelta => final (engine.applyNextDelta cancellation) s
  | applyGroundHead atoms dependency provenanceIds participantIds =>
    final (engine.applyGroundHead atoms dependency provenanceIds participantIds) s
  | applyMatch matched => final (engine.applyMatch matched) s
  | processNextDisjunction => final (engine.processNextDisjunction cancellation) s
  | resolveClash => final (engine.resolveClash cancellation) s
  | registerNode handle dependency => final (engine.registerNode handle dependency) s
  | dispatchGroundAtom atom dependency core provenanceIds =>
    final (engine.dispatchGroundAtom atom dependency core provenanceIds) s

def runRules (engine : RuleEngine) (cancellation : Cancellation) (actions : List RuleAction)
    (s : RuleState) : RuleState := actions.foldl (RuleAction.run engine cancellation) s

/-- A kernel with nodes and facts perhaps, but without branches or disjunctions. -/
structure TableauKernel.Bare (k : TableauKernel) : Prop where
  branches : k.branches = []
  disjunctions : k.state.disjunctions = []
  operationRoot : k.operationRoot.state.disjunctions = []

theorem registryInv_new {kernel : TableauKernel} (h : kernel.Bare) : RegistryInv (.new kernel) := by
  refine ⟨fun atom id hid => ?_, ?_, fun _ atoms id shape hkey => ?_⟩
  · have hid : (∅ : ExtTreeMap GroundAtom Nat)[atom]? = some id := hid
    cases hid
  · unfold TableauKernel.pastShapes MutableState.shapes
    show Nested (kernel.operationRoot.state.disjunctions.map _ :: kernel.branches.map _)
      (kernel.state.disjunctions.map _)
    rw [h.branches, h.disjunctions, h.operationRoot]
    exact ⟨pairwise_singleton _ _, fun l hl => mem_singleton.mp hl ▸ prefix_rfl⟩
  · have hkey : (∅ : ExtTreeMap (List GroundAtom) Nat)[atoms]? = some id := hkey
    cases hkey

theorem RuleAction.maintains (engine : RuleEngine) (cancellation : Cancellation) (s : RuleState)
    (action : RuleAction) : Maintains s (action.run engine cancellation s) := by
  cases action with
  | initializeEngine => exact initializeEngine_maintains.final s
  | applyNextDelta => exact applyNextDelta_maintains.final s
  | applyGroundHead => exact applyGroundHead_maintains.final s
  | applyMatch => exact applyMatch_maintains.final s
  | processNextDisjunction => exact processNextDisjunction_maintains.final s
  | resolveClash => exact resolveClash_maintains.final s
  | registerNode => exact registerNode_maintains.final s
  | dispatchGroundAtom =>
    exact (maintains_of_dispatched (dispatchNested_dispatched _ _ _ _ _)).final s

variable {s : RuleState} {atoms : List GroundAtom}

/-- **Every run keeps the invariant**, whatever fails on the way. -/
theorem registryInv_run {engine : RuleEngine} {cancellation : Cancellation}
    (actions : List RuleAction)
    (hs : RegistryInv s) : RegistryInv (runRules engine cancellation actions s) := by
  induction actions generalizing s with
  | nil => exact hs
  | cons action rest ih => exact ih (action.maintains engine cancellation s hs)

theorem RuleState.Names.readBack {ids : List Nat} (h : s.Names ids atoms) :
    ids.mapM (atomForId s) = .ok atoms := by
  rw [mapM_eq_ok]
  induction ids generalizing atoms with
  | nil =>
    cases atoms with
    | nil => exact .nil
    | cons _ _ => cases h
  | cons id ids ih =>
    cases atoms with
    | nil => cases h
    | cons atom atoms =>
      obtain ⟨hatom, hrest⟩ := List.cons.inj h
      have hatom : s.atoms[id]? = some atom := hatom
      refine .cons ?_ (ih hrest)
      unfold atomForId
      rw [hatom]

/-- A record for the atoms: read back through the registry, its disjuncts are exactly they. -/
def GroundDisjunction.IsFor (record : GroundDisjunction) (s : RuleState)
    (atoms : List GroundAtom) : Prop :=
  record.disjunctIds.mapM (RuleEngine.atomForId s) = .ok atoms

instance (record : GroundDisjunction) (s : RuleState) (atoms : List GroundAtom) :
    Decidable (record.IsFor s atoms) := inferInstanceAs (Decidable (_ = _))

theorem RuleEngine.Holds.record (h : Holds s atoms) :
    ∃ record ∈ s.kernel.state.disjunctions, record.active = true ∧ record.IsFor s atoms := by
  obtain ⟨ids, hmem, hnames⟩ := h
  obtain ⟨record, hrecord, hshape⟩ := mem_map.mp hmem
  obtain ⟨hids, hactive⟩ := Prod.mk.inj hshape
  refine ⟨record, hrecord, hactive, ?_⟩
  unfold GroundDisjunction.IsFor
  rw [hids]
  exact hnames.readBack

/-- **No disjunction is lost** in a run that never registers one under an identifier to
which a key is bound: a key leads to the record of its own atoms or to none, and a head
with two or more open atoms is in the kernel once it is applied. -/
theorem applyGroundHead_installs (engine : RuleEngine) (cancellation : Cancellation)
    {kernel : TableauKernel} (hbare : kernel.Bare) (actions : List RuleAction) {s : RuleState}
    (hrun : runRules engine cancellation actions (.new kernel) = s)
    (hunaliased : ∀ r ∈ s.registrations, r.Unaliased) :
    (∀ (atoms : List GroundAtom) (id : Nat) (record : GroundDisjunction),
      s.disjunctionKeys[atoms]? = some id → s.kernel.state.disjunction id = .ok record →
        record.IsFor s atoms) ∧
    ∀ (atoms : List GroundAtom) (dependency : DependencySet)
      (provenanceIds participantIds : List Nat) (head : RuleEngine.OpenHead) (changed : Bool)
      (s' : RuleState),
      engine.openHead s.kernel.state atoms dependency = .ok (some head) →
      2 ≤ head.remaining.length →
      engine.applyGroundHead atoms dependency provenanceIds participantIds s = .ok changed s' →
      ∃ record ∈ s'.kernel.state.disjunctions, record.active = true ∧
      record.IsFor s' head.remaining := by
  have hs : RegistryInv s := by
    rw [← hrun]
    exact registryInv_run actions (registryInv_new hbare)
  constructor
  · intro atoms id record hkey hrecord
    have hshape : s.kernel.state.shapes[id]? = some record.shape := by
      unfold MutableState.disjunction at hrecord
      unfold MutableState.shapes
      rw [getElem?_map]
      cases hfound : s.kernel.state.disjunctions[id]? with
      | none =>
        rw [hfound] at hrecord
        cases hrecord
      | some record' =>
        rw [hfound] at hrecord
        cases hrecord
        rfl
    exact (hs.sound hunaliased atoms id record.shape hkey hshape).readBack
  · intro atoms dependency provenanceIds participantIds head changed s' hhead htwo happly
    have hpost := wp_ok (wp_applyGroundHead hs) happly
    exact (hpost.2 head hhead htwo hunaliased).record

/-- **Identifiers keep their meaning over a run**, whatever fails, is cancelled or undone: an
atom is found where its identifier says, and going back to any branch, or to the start of
the operation, takes away the latest disjunctions only. -/
theorem identifiers_stable (engine : RuleEngine) (cancellation : Cancellation)
    {kernel : TableauKernel} (hbare : kernel.Bare) (actions : List RuleAction) {s : RuleState}
    (hrun : runRules engine cancellation actions (.new kernel) = s) :
    s.Interned ∧ Nested s.kernel.pastShapes s.kernel.state.shapes := by
  have hs : RegistryInv s := by
    rw [← hrun]
    exact registryInv_run actions (registryInv_new hbare)
  exact ⟨hs.interned, hs.nested⟩

/-! ## A disjunction that is lost -/

namespace InstalledSample

def concept (symbolId : Nat) : RulePredicate :=
  { predicateId := symbolId, kind := .concept, argumentSorts := [.object],
    symbolId := some symbolId }

/-- Six concepts and no clauses. -/
def program : RuleProgram where
  predicates := (List.range 6).map concept
  clauses := []
  formed := RuleProgram.formed_nil
  valid := by decide +kernel

def engine : RuleEngine where
  program := program
  joinProgram := ⟨[], []⟩
  sourceNodes := ∅
  dataNodes := ∅
  learning := true
  merger := ⟨fun _ => none⟩
  limits := .default
  depth := 1

def kernel : TableauKernel := final (createNode .root none false none none none) .new

def atom (predicateId : Nat) : GroundAtom := ⟨predicateId, [⟨0, 1⟩]⟩

def head (p q : Nat) (dependency : DependencySet) : RuleAction :=
  .applyGroundHead [atom p, atom q] dependency [] []

def onBranch : DependencySet := DependencySet.empty.add 0

/-- Branch over 0 ∨ 1; there derive 2 ∨ 3, and clash, so that the branch moves on. -/
def backtracked : List RuleAction :=
  [.initializeEngine, head 0 1 .empty, .processNextDisjunction, head 2 3 onBranch,
    .applyGroundHead [] onBranch [] [], .resolveClash]

def after (actions : List RuleAction) : RuleState :=
  runRules engine (fun _ => .ok ()) actions (.new kernel)

/-- Then 4 ∨ 5 gets the identifier of 2 ∨ 3, and a head 2 ∨ 3 is open, is applied without
an error, and is not in the kernel afterwards. -/
theorem disjunction_lost : let s := after (backtracked ++ [head 4 5 .empty])
    let apply := engine.applyGroundHead [atom 2, atom 3] .empty [] []
    withLimits program ∅ ∅ .default true 1 = .ok engine ∧
      (engine.openHead s.kernel.state [atom 2, atom 3] .empty).toOption.map (·.map (·.remaining)) =
        some (some [atom 2, atom 3]) ∧
      returned apply s = some false ∧
      ∀ record ∈ (final apply s).kernel.state.disjunctions,
        ¬ record.IsFor (final apply s) [atom 2, atom 3] := by
  refine ⟨rfl, ?_⟩
  decide +kernel

theorem exists_openHead {result : Except NativeError (Option OpenHead)}
    (h : result.toOption.map (·.map (·.remaining)) = some (some atoms)) :
    ∃ head, result = .ok (some head) ∧ head.remaining = atoms := by
  match result with
  | .error _ => cases h
  | .ok none => cases h
  | .ok (some head) => exact ⟨head, rfl, Option.some.inj (Option.some.inj h)⟩

/-- Straight after the backtrack the identifier is still free: 2 ∨ 3 is registered again,
under its old key. -/
theorem disjunction_installed :
    let s := final (engine.applyGroundHead [atom 2, atom 3] .empty [] []) (after backtracked)
    ∃ record ∈ s.kernel.state.disjunctions, record.active = true ∧ record.IsFor s
    [atom 2, atom 3] := by
  have hbare : kernel.Bare := ⟨by decide +kernel, by decide +kernel, by decide +kernel⟩
  have hopen :
    (engine.openHead (after backtracked).kernel.state [atom 2, atom 3] .empty).toOption.map
      (·.map (·.remaining)) = some (some [atom 2, atom 3]) := by decide +kernel
  have hreturned : returned (engine.applyGroundHead [atom 2, atom 3] .empty [] [])
    (after backtracked) =
      some true := by decide +kernel
  have hrun : runRules engine (fun _ => .ok ()) backtracked (.new kernel) = after backtracked := by
    rfl
  have hunaliased : ∀ r ∈ (after backtracked).registrations, r.Unaliased := by decide +kernel
  obtain ⟨opened, hopened, hremaining⟩ := exists_openHead hopen
  have hfound :=
    (applyGroundHead_installs engine (fun _ => .ok ()) hbare backtracked hrun hunaliased).2
    [atom 2, atom 3] .empty [] [] opened true _ hopened (by rw [hremaining]; decide)
    (eq_ok_of_returned hreturned)
  rw [hremaining] at hfound
  exact hfound

theorem identifiers_backtracked : (after backtracked).Interned ∧
    Nested (after backtracked).kernel.pastShapes (after backtracked).kernel.state.shapes :=
  identifiers_stable engine (fun _ => .ok ())
    ⟨by decide +kernel, by decide +kernel, by decide +kernel⟩ backtracked rfl

end InstalledSample

end PyHermit
