import PyHermit.Proof.Projected

/-!
# Taking a projection

When `from_state` returns, it returns the state's projection (`BlockingState.projection`),
and that is a lawful one. It fails only when the control stops it, when a limit is exceeded,
or when the state has no projection (`wp_fromState`).
-/

open Std Prog List

namespace PyHermit

open BlockingProjection

/-- The control's answer was this error, or a configured limit is exceeded. -/
def Halted (control : BlockingControl) (e : BlockingError) : Prop :=
  (∃ i, control i = .error e) ∨
    ∃ message limit observed allowed, allowed < observed ∧
    e = .resource message limit observed allowed

variable {control : BlockingControl} {Q : Unit → BlockingWork → Prop}
  {E : BlockingError → BlockingWork → Prop}

section
variable {w : BlockingWork} (hok : ∀ w', w'.stats = w.stats → Q () w')
  (herr : ∀ e w', w'.stats = w.stats → (∃ i, control i = .error e) → E e w')
include hok herr

theorem wp_blockingPoll : wp control.poll Q E w := by
  refine wp_get_then.mpr (wp_bind.mpr (wp_set.mpr (wp_ask ?_ ?_)))
  · exact fun _ _ => hok _ rfl
  · exact fun e he => herr e _ rfl ⟨_, he⟩

theorem wp_pollEvery {interval index : Nat} : wp (control.pollEvery interval index) Q E w :=
  wp_ite (fun _ => wp_blockingPoll hok herr) fun _ => hok w rfl

end

namespace BlockingState

variable (state : BlockingState)

/-- The active records by handle. -/
def activeNodes : ExtTreeMap NodeHandle NodeRecord :=
  state.nodeRecords.foldl (fun nodes record =>
    if record.lifecycle = .active then nodes.insert record.node record else nodes) ∅

/-- The projection of a state, when there is one. -/
def projection (vocabulary : BlockingVocabulary) : BlockingProjection :=
  .build state.revision vocabulary state.activeNodes
    ((state.activeFactRecords.filter (·.isRelevant vocabulary state.activeNodes)).map (·.relevant))

def ParentsOlder : Prop := ∀ r ∈ state.nodeRecords, ∀ p ∈ state.nodeRecords, r.lifecycle = .active →
  p.lifecycle = .active → r.parent = some p.node → p.creationId < r.creationId

/-- What a projection checks: handles and creation identifiers do not repeat, and exactly
the tree nodes have an active parent. -/
structure Projectable : Prop where
  distinct : (state.nodeRecords.filter (·.lifecycle = .active)).Pairwise fun a b =>
    a.node ≠ b.node ∧ a.creationId ≠ b.creationId
  tree : ∀ r ∈ state.nodeRecords, r.lifecycle = .active → r.kind = .tree →
    ∃ p ∈ state.nodeRecords, p.lifecycle = .active ∧ r.parent = some p.node
  nonTree : ∀ r ∈ state.nodeRecords, r.lifecycle = .active → r.kind ≠ .tree → r.parent = none

end BlockingState

/-- What the loop over the records has collected from `seen`. -/
structure Collected (seen : List NodeRecord) (creations : ExtTreeSet Nat)
    (nodes : ExtTreeMap NodeHandle NodeRecord) : Prop where
  keyed : ∀ (h : NodeHandle) (r : NodeRecord), nodes[h]? = some r →
    r.node = h ∧ r ∈ seen ∧ r.lifecycle = .active ∧ r.creationId ∈ creations
  all : ∀ r ∈ seen, r.lifecycle = .active → nodes[r.node]? = some r
  creation : ∀ (a b : NodeHandle) (ra rb : NodeRecord), nodes[a]? = some ra → nodes[b]? = some rb →
    ra.creationId = rb.creationId → a = b
  creations : ∀ c ∈ creations, ∃ r ∈ seen, r.lifecycle = .active ∧ r.creationId = c

variable {seen : List NodeRecord} {creations : ExtTreeSet Nat}
  {nodes : ExtTreeMap NodeHandle NodeRecord} {r : NodeRecord} {limits : BlockingLimits}
  {vocabulary : BlockingVocabulary}

theorem Collected.skip (h : Collected seen creations nodes) (hr : r.lifecycle ≠ .active) :
    Collected (seen ++ [r]) creations nodes where
  keyed x rx hx := by
    obtain ⟨h1, h2, h3⟩ := h.keyed x rx hx
    exact ⟨h1, mem_append_left _ h2, h3⟩
  all x hx hact := by
    rcases mem_append.mp hx with hx | hx
    · exact h.all x hx hact
    · rw [mem_singleton.mp hx] at hact
      exact absurd hact hr
  creation := h.creation
  creations c hc := by
    obtain ⟨rc, hrc, h2⟩ := h.creations c hc
    exact ⟨rc, mem_append_left _ hrc, h2⟩

theorem Collected.take (h : Collected seen creations nodes)
    (hr : r.lifecycle = .active) (hnode : r.node ∉ nodes) (hcre : r.creationId ∉ creations) :
    Collected (seen ++ [r]) (creations.insert r.creationId) (nodes.insert r.node r) := by
  refine ⟨?_, ?_, ?_, ?_⟩
  · intro x rx hx
    rcases getElem?_insert_cases hx with ⟨rfl, rfl⟩ | ⟨-, hx⟩
    · exact ⟨rfl, mem_append_right _ (mem_singleton.mpr rfl), hr, ExtTreeSet.mem_insert_self⟩
    · obtain ⟨h1, h2, h3, h4⟩ := h.keyed x rx hx
      exact ⟨h1, mem_append_left _ h2, h3, mem_insert_eq.mpr (.inr h4)⟩
  · intro x hx hact
    rcases mem_append.mp hx with hx | hx
    · have hin := h.all x hx hact
      rw [getElem?_insert_eq, if_neg, hin]
      intro heq
      rw [heq] at hnode
      exact hnode (mem_iff_found.mpr ⟨_, hin⟩)
    · rw [mem_singleton.mp hx]
      exact ExtTreeMap.getElem?_insert_self
  · intro a b ra rb ha hb heq
    -- a creation of the new record is not one of the collected
    rcases getElem?_insert_cases ha with ⟨rfl, rfl⟩ | ⟨-, ha'⟩ <;>
      rcases getElem?_insert_cases hb with ⟨rfl, rfl⟩ | ⟨-, hb'⟩
    · rfl
    · rw [heq] at hcre
      exact absurd (h.keyed b rb hb').2.2.2 hcre
    · rw [← heq] at hcre
      exact absurd (h.keyed a ra ha').2.2.2 hcre
    · exact h.creation a b ra rb ha' hb' heq
  · intro c hc
    rcases mem_insert_eq.mp hc with hc | hc
    · exact ⟨r, mem_append_right _ (mem_singleton.mpr rfl), hr, hc⟩
    · obtain ⟨rc, hrc, h2⟩ := h.creations c hc
      exact ⟨rc, mem_append_left _ hrc, h2⟩

/-- The records of `seen` and `rest` can be told apart by handle and by creation. -/
def Distinct (records : List NodeRecord) : Prop :=
  (records.filter (·.lifecycle = .active)).Pairwise fun a b =>
    a.node ≠ b.node ∧ a.creationId ≠ b.creationId

theorem Distinct.fresh {rest : List NodeRecord} (hd : Distinct (seen ++ r :: rest))
    (hr : r.lifecycle = .active) {a : NodeRecord} (ha : a ∈ seen) (hact : a.lifecycle = .active) :
    a.node ≠ r.node ∧ a.creationId ≠ r.creationId := by
  unfold Distinct at hd
  rw [filter_append, pairwise_append] at hd
  exact hd.2.2 a (mem_filter.mpr ⟨ha, by simpa using hact⟩) r
    (mem_filter.mpr ⟨mem_cons_self, by simpa using hr⟩)

/-- The active records by handle are the active records, when handles do not repeat. -/
theorem BlockingState.getElem?_activeNodes {state : BlockingState} (hd : Distinct state.nodeRecords)
    {h : NodeHandle} :
    state.activeNodes[h]? = some r ↔ r ∈ state.nodeRecords ∧ r.lifecycle = .active ∧
      r.node = h := by
  unfold activeNodes
  have key : ∀ (records : List NodeRecord) (nodes : ExtTreeMap NodeHandle NodeRecord),
      Distinct records → (∀ r ∈ records, r.lifecycle = .active → nodes[r.node]? = none) →
      ((records.foldl (fun nodes record =>
        if record.lifecycle = .active then nodes.insert record.node record
          else nodes) nodes)[h]? = some r ↔
          nodes[h]? = some r ∨ r ∈ records ∧ r.lifecycle = .active ∧ r.node = h) := by
    intro records
    induction records with
    | nil => simp
    | cons record records ih =>
      intro nodes hd hfresh
      have hdrest : Distinct records := by
        exact hd.sublist ((sublist_cons_self record records).filter _)
      by_cases hlife : record.lifecycle = .active
      · have hne : ∀ a ∈ records, a.lifecycle = .active → record.node ≠ a.node := by
          intro a ha hact
          unfold Distinct at hd
          rw [filter_cons_of_pos (by simpa using hlife), pairwise_cons] at hd
          exact (hd.1 a (mem_filter.mpr ⟨ha, by simpa using hact⟩)).1
        -- the record is filed, and nothing after it has its handle
        rw [foldl_cons, if_pos hlife, ih _ hdrest fun a ha hact => ?_]
        · rw [getElem?_insert_eq]
          split
          · rename_i heq
            rw [← heq, hfresh record mem_cons_self hlife]
            constructor
            · rintro (hr | ⟨hr, hact, hnode⟩)
              · cases hr
                exact .inr ⟨mem_cons_self, hlife, rfl⟩
              · exact .inr ⟨mem_cons_of_mem _ hr, hact, hnode⟩
            · rintro (hr | ⟨hr, hact, hnode⟩)
              · cases hr
              · rcases mem_cons.mp hr with rfl | hr
                · exact .inl rfl
                · exact .inr ⟨hr, hact, hnode⟩
          · rename_i hneq
            refine or_congr_right ⟨fun hr => ⟨mem_cons_of_mem _ hr.1, hr.2⟩, fun hr => ?_⟩
            rcases mem_cons.mp hr.1 with rfl | hmem
            · exact absurd hr.2.2 hneq
            · exact ⟨hmem, hr.2⟩
        · rw [getElem?_insert_eq, if_neg fun heq => hne a ha hact heq]
          exact hfresh a (mem_cons_of_mem _ ha) hact
      · rw [foldl_cons, if_neg hlife, ih nodes hdrest fun a ha => hfresh a (mem_cons_of_mem _ ha)]
        refine or_congr_right ⟨fun hr => ⟨mem_cons_of_mem _ hr.1, hr.2⟩, fun hr => ?_⟩
        rcases mem_cons.mp hr.1 with rfl | hmem
        · exact absurd hr.2.1 hlife
        · exact ⟨hmem, hr.2⟩
  rw [key state.nodeRecords ∅ hd fun r _ _ => ExtTreeMap.getElem?_empty]
  simp

/-- The collecting loop adds the active records, and fails on a repetition only. -/
theorem wp_collectNodes {rest : List (NodeRecord × Nat)}
    (hc : Collected seen creations nodes) (w : BlockingWork) :
    wp (collectNodes limits control rest creations nodes)
      (fun nodes' _ => (∃ creations', Collected (seen ++ rest.map (·.1)) creations' nodes') ∧
        nodes' = (rest.map (·.1)).foldl (fun nodes record =>
          if record.lifecycle = .active then nodes.insert record.node record else nodes) nodes)
      (fun e _ => (∃ i, control i = .error e) ∨ ¬ Distinct (seen ++ rest.map (·.1))) w := by
  induction rest generalizing seen creations nodes w with
  | nil => exact ⟨⟨creations, by simpa using hc⟩, rfl⟩
  | cons entry rest ih =>
    obtain ⟨r, index⟩ := entry
    have hassoc : seen ++ ((r, index) :: rest).map (·.1) = (seen ++ [r]) ++ rest.map (·.1) := by
      simp
    have hsplit : seen ++ ((r, index) :: rest).map (·.1) = seen ++ r :: rest.map (·.1) := rfl
    refine wp_bind.mpr (wp_pollEvery (fun w' _ => ?_) fun e w' _ hi => .inl hi)
    refine wp_ite (fun hlife => ?_) fun hlife => ?_
    · rw [hassoc, map_cons, foldl_cons, if_neg hlife]
      exact ih (hc.skip hlife) w'
    · rw [not_not] at hlife
      refine wp_ensure_then (fun hnode => ?_) fun hnode => ?_
      · refine wp_ensure_then (fun hcre => ?_) fun hcre => ?_
        · rw [hassoc, map_cons, foldl_cons, if_pos hlife]
          exact ih (hc.take hlife hnode hcre) w'
        · refine .inr fun hd => ?_
          obtain ⟨a, ha, hact, heq⟩ := hc.creations _ (not_not.mp hcre)
          exact (hd.fresh hlife ha hact).2 heq
      · refine .inr fun hd => ?_
        obtain ⟨a, ha⟩ := mem_iff_found.mp (not_not.mp hnode)
        obtain ⟨h1, h2, h3, -⟩ := hc.keyed _ a ha
        exact (hd.fresh hlife h2 h3).1 h1

theorem wp_collectFacts {facts : List (FactRecord × Nat)} (w : BlockingWork) :
    wp (collectFacts vocabulary limits control nodes facts)
      (fun found _ => found =
        ((facts.map (·.1)).filter (·.isRelevant vocabulary nodes)).map (·.relevant))
      (fun e _ => ∃ i, control i = .error e) w := by
  induction facts generalizing w with
  | nil => rfl
  | cons entry facts ih =>
    obtain ⟨fact, index⟩ := entry
    refine wp_bind.mpr (wp_pollEvery (fun w' _ => ?_) fun e w' _ hi => hi)
    refine wp_seq (ih w') ?_
    rintro found _ rfl
    refine wp_pure.mpr ?_
    rw [map_cons, filter_cons]
    split
    · rfl
    · rfl

theorem checkParent_eq_ok : checkParent nodes r = .ok () ↔
      (r.kind = .tree → ∃ p, r.parent = some p ∧ p ∈ nodes) ∧
      (r.kind ≠ .tree → r.parent = none) := by
  unfold checkParent
  split
  · rename_i hk
    cases hp : r.parent with
    | none => simp [hk]
    | some p =>
      simp only [ensure_eq_ok]
      constructor
      · exact fun h => ⟨fun _ => ⟨p, rfl, h⟩, fun hne => absurd hk hne⟩
      · rintro ⟨h, -⟩
        obtain ⟨p', hp', hm⟩ := h hk
        cases hp'
        exact hm
  · rename_i hk
    rw [ensure_eq_ok]
    exact ⟨fun h => ⟨fun hk' => absurd hk' hk, fun _ => h⟩, fun h => h.2 hk⟩

theorem checkLimit_error {observed allowed : Nat} {limit message : String} {e : BlockingError}
    (h : checkLimit observed allowed limit message = .error e) : Halted control e := by
  unfold checkLimit ensure at h
  split at h
  · cases h
  · rename_i hgt
    cases h
    exact .inr ⟨_, _, _, _, by omega, rfl⟩

/-- Projecting a state gives its projection. It fails only if it is halted, the limits are
invalid, or the state is not one that can be projected. -/
theorem wp_fromState {state : BlockingState} (holder : state.ParentsOlder) (w : BlockingWork) :
    wp (BlockingProjection.fromState state vocabulary limits control)
      (fun P _ => P = state.projection vocabulary ∧ P.Lawful)
      (fun e _ => Halted control e ∨ limits.validate ≠ .ok () ∨ ¬ state.Projectable) w := by
  have hzip : state.nodeRecords.zipIdx.map (·.1) = state.nodeRecords := zipIdx_map_fst _ _
  have hzipf : state.activeFactRecords.zipIdx.map (·.1) = state.activeFactRecords :=
    zipIdx_map_fst _ _
  refine wp_ask_then (fun _ _ => ?_) fun e he => .inr (.inl (by rw [he]; nofun))
  refine wp_bind.mpr (wp_blockingPoll (fun w _ => ?_) fun e _ _ hi => .inl (.inl hi))
  refine wp_ask_then (fun _ _ => ?_) fun e he => .inl (checkLimit_error he)
  have hstart : Collected [] ∅ ∅ := ⟨by simp, by simp, by simp, by simp⟩
  refine wp_then (wp_collectNodes hstart w) ?_ ?_
  · rintro nodes w' ⟨⟨creations, hcol⟩, hnodes⟩
    rw [nil_append, hzip] at hcol
    rw [hzip] at hnodes
    refine wp_ask_then (fun _ hparents => ?_) fun e he => ?_
    · refine wp_ask_then (fun _ _ => ?_) fun e he => .inl (checkLimit_error he)
      refine wp_then (wp_collectFacts w') ?_ fun e _ hi => .inl (.inl hi)
      rintro found w' rfl
      rw [hzipf]
      refine wp_bind.mpr (wp_blockingPoll (fun w _ => ?_) fun e _ _ hi => .inl (.inl hi))
      refine wp_bind.mpr (wp_blockingPoll (fun w _ => ?_) fun e _ _ hi => .inl (.inl hi))
      refine wp_pure.mpr ⟨by rw [hnodes]; rfl,
        ⟨⟨vocabulary, _, rfl⟩, ?_, ?_, ?_, ?_, hcol.creation⟩⟩
      · exact fun h r hr => (hcol.keyed h r hr).1
      · exact fun h r hr => (hcol.keyed h r hr).2.2.1
      · intro h r hr hk
        have hcheck := forM_eq_ok.mp hparents (h, r)
          (ExtTreeMap.mem_toList_iff_getElem?_eq_some.mpr hr)
        obtain ⟨p, hp, hmem⟩ := (checkParent_eq_ok.mp hcheck).1 hk
        obtain ⟨rp, hrp⟩ := mem_iff_found.mp hmem
        obtain ⟨-, hr2, hr3, -⟩ := hcol.keyed h r hr
        obtain ⟨hp1, hp2, hp3, -⟩ := hcol.keyed p rp hrp
        exact ⟨p, rp, hp, hrp, holder r hr2 rp hp2 hr3 hp3 (by rw [hp1]; exact hp)⟩
      · intro h r hr hk
        have hcheck := forM_eq_ok.mp hparents (h, r)
          (ExtTreeMap.mem_toList_iff_getElem?_eq_some.mpr hr)
        exact (checkParent_eq_ok.mp hcheck).2 hk
    · -- the parents of a state that can be projected are all collected
      refine .inr (.inr fun hproj => ?_)
      have hok : (nodes.toList.forM fun entry => checkParent nodes entry.2) = .ok () := by
        refine forM_eq_ok.mpr fun entry hentry => checkParent_eq_ok.mpr ?_
        obtain ⟨-, hr2, hr3, -⟩ := hcol.keyed entry.1 entry.2
          (ExtTreeMap.mem_toList_iff_getElem?_eq_some.mp hentry)
        refine ⟨fun hk => ?_, fun hk => hproj.nonTree entry.2 hr2 hr3 hk⟩
        obtain ⟨p, hp, hact, hparent⟩ := hproj.tree entry.2 hr2 hr3 hk
        exact ⟨p.node, hparent, mem_iff_found.mpr ⟨_, hcol.all p hp hact⟩⟩
      cases hok.symm.trans he
  · rintro e w' (hi | hd)
    · exact .inl (.inl hi)
    · rw [nil_append, hzip] at hd
      exact .inr (.inr fun hproj => hd hproj.distinct)

namespace BlockingSample

def root : NodeHandle := ⟨0, 1⟩

def elder : NodeHandle := ⟨1, 1⟩

def younger : NodeHandle := ⟨2, 1⟩

/-- Two children of a root. -/
def siblings (facts : List FactRecord) : BlockingState where
  revision := 3
  nodeRecords := [⟨root, 0, .root, .active, none, false⟩,
    ⟨elder, 1, .tree, .active, some root, false⟩, ⟨younger, 2, .tree, .active, some root, false⟩]
  activeFactRecords := facts

theorem siblings_parentsOlder (facts : List FactRecord) : (siblings facts).ParentsOlder := by
  have h : (siblings []).ParentsOlder := by
    unfold BlockingState.ParentsOlder
    decide
  exact h

end BlockingSample

end PyHermit
