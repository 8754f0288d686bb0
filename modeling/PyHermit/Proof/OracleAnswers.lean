import Mathlib.Algebra.Order.BigOperators.Group.Finset
import PyHermit.Proof.Taxonomy

/-!
# What the oracle answers

The oracle of the search mode answers from its cache, from the pairs it knows, closed under
transitivity, and puts the rest to the tester. With a truthful tester every answer is that
of the preorder (`Oracle.Sound.wp_evaluate`), unless a limit is exceeded.

No pair is tested twice, so n elements never need more than n² tests, and the tables never
hold more than n² entries. `Roomy` is the condition on the limits that follows.
-/

open Std Prog Cover List ExtTreeSet

namespace PyHermit.Classification

open NativeError

variable {τ : Type}

/-! ## Assumptions -/

/-- A control that never stops the operation (`NeverAbort`). -/
structure NeverAborts (control : OperationControl) : Prop where
  poll : ∀ i, control.poll i = .ok ()
  observeMemory : ∀ i bytes, control.observeMemory i bytes = .ok ()

def Inside (elements : List Nat) (edge : Edge) : Prop :=
  edge.child ∈ elements ∧ edge.parent ∈ elements

/-- The tester answers for `le`, whatever its state. -/
def Truthful (le : Nat → Nat → Prop) [DecidableRel le] (elements : List Nat)
    (tester : Tester τ) : Prop :=
  ∀ (edges : List Edge) (s : Ambient τ), (∀ edge ∈ edges, Inside elements edge) →
    ∃ s', tester edges s = .ok (edges.map fun edge => decide (le edge.child edge.parent)) s'

/-- The steps a complete told relation may take: one for each edge and node in the passes,
and one search of all edges for each edge of the quotient. -/
def stepBound (problem : ClassificationProblem) : Nat :=
  (problem.known.length + 3 * problem.elements.length + 2) ^ 2

/-- The limits leave room for whatever the problem needs. -/
structure Roomy (problem : ClassificationProblem) : Prop where
  elements : problem.elements.length ≤ problem.limits.maxElements.toNat
  seeds : problem.known.length + 3 * problem.elements.length ≤ problem.limits.maxSeedRelations.toNat
  tests : problem.elements.length ^ 2 ≤ problem.limits.maxSemanticTests.toNat
  relations : 28 * problem.elements.length + 32 *
    (problem.known.length + 3 * problem.elements.length) ≤ problem.limits.maxMemoryBytes.toNat
  tables : 56 * problem.elements.length ^ 2 ≤ problem.limits.maxMemoryBytes.toNat
  steps : stepBound problem ≤ u64Max

/-- The one way to fail: a limit that leaves too little room is exceeded. -/
def Exceeded (problem : ClassificationProblem) (e : NativeError) : Prop :=
  ¬ Roomy problem ∧ (e.kind = .resource ∨
    e = invariant "classification graph-step counter overflow")

/-! ## Control -/

section Control

variable {control : OperationControl} {E : NativeError → Ambient τ → Prop} {r : Ambient τ}

theorem wp_consult {answer : Nat → Except NativeError Unit} (h : ∀ i, answer i = .ok ()) :
    wp (Ambient.consult answer) (fun _ r' => r'.tester = r.tester) E r := by
  refine wp_get_then.mpr (wp_bind.mpr (wp_set.mpr ?_))
  exact (wp_ask_ok (by exact h r.consulted)).mpr rfl

theorem wp_pollNow (h : NeverAborts control) :
    wp control.pollNow (fun _ r' => r'.tester = r.tester) E r :=
  wp_consult h.poll

theorem wp_observe (h : NeverAborts control) (bytes : Nat) :
    wp (control.observe bytes) (fun _ r' => r'.tester = r.tester) E r :=
  wp_consult fun i => h.observeMemory i bytes

end Control

theorem wp_checkCount {σ : Type} {Q : Unit → σ → Prop} {E : NativeError → σ → Prop} {s : σ}
    {limit : String} {observed allowed : Nat} (hok : observed ≤ allowed → Q () s)
    (herr : allowed < observed → ∀ e : NativeError, e.kind = .resource → E e s) :
    wp (ask fun _ => checkCount limit observed allowed) Q E s := by
  refine wp_ask ?_ ?_
  · intro _ h
    exact hok (ensure_eq_ok.mp h)
  · intro e h
    unfold checkCount ensure at h
    split at h
    · cases h
    · rename_i hover
      cases h
      exact herr (Nat.lt_of_not_le hover) _ rfl

/-! ## Sizes -/

theorem card_inside (elements : List Nat) (edges : List Edge) (hnodup : edges.Nodup)
    (hinside : ∀ edge ∈ edges, Inside elements edge) : edges.length ≤ elements.length ^ 2 := by
  have hmap : (edges.map fun edge => (edge.child, edge.parent)).Nodup := by
    refine List.Nodup.map_on ?_ hnodup
    rintro ⟨c, p⟩ _ ⟨c', p'⟩ _ heq
    cases heq
    rfl
  have hsub : (edges.map fun edge => (edge.child, edge.parent)) ⊆ elements ×ˢ elements := by
    intro pair hpair
    obtain ⟨edge, hedge, rfl⟩ := mem_map.mp hpair
    exact mem_product.mpr (hinside edge hedge)
  have hle := (hmap.subperm hsub).length_le
  rw [length_map, length_product] at hle
  rw [Nat.pow_two]
  exact hle

theorem size_inside {elements : List Nat} {edges : ExtTreeSet Edge}
    (hinside : ∀ edge ∈ edges, Inside elements edge) : edges.size ≤ elements.length ^ 2 := by
  rw [← length_toList]
  refine card_inside elements _ (nodup_of_ascending ordered_toList) ?_
  intro edge hedge
  exact hinside edge (mem_toList.mp hedge)

theorem keys_inside {elements : List Nat} {cache : ExtTreeMap Edge Bool}
    (hinside : ∀ edge ∈ cache, Inside elements edge) : cache.size ≤ elements.length ^ 2 := by
  rw [← ExtTreeMap.length_keys]
  refine card_inside elements _ ?_ ?_
  · exact nodup_of_ascending ExtTreeMap.ordered_keys
  · intro edge hedge
    exact hinside edge (ExtTreeMap.mem_keys.mp hedge)

/-! ## Known pairs -/

namespace Oracle

/-- What the oracle holds agrees with the preorder. -/
structure Sound (le : Nat → Nat → Prop) (problem : ClassificationProblem)
    (oracle : Oracle) : Prop where
  limits : oracle.limits = problem.limits
  known : ∀ edge ∈ oracle.known, Inside problem.elements edge
  possible : ∀ edge ∈ oracle.possible, Inside problem.elements edge
  listed : ∀ child ∈ problem.elements, child ∈ oracle.successors
  successors : ∀ (child : Nat) (parents : ExtTreeSet Nat), oracle.successors[child]? =
    some parents → ∀ parent ∈ parents, parent ∈ problem.elements ∧ le child parent
  cache : ∀ (edge : Edge) (answer : Bool), oracle.cache[edge]? = some answer →
    Inside problem.elements edge ∧ (answer = true ↔ le edge.child edge.parent)

/-- Every test and every batch of tests has left something in the cache. -/
structure Counted (oracle : Oracle) : Prop where
  tests : oracle.semanticTests ≤ oracle.cache.size
  batches : oracle.batches ≤ oracle.semanticTests

def Leads (oracle : Oracle) : Nat → Nat → Prop :=
  Relation.ReflTransGen fun child parent =>
    ∃ parents, oracle.successors[child]? = some parents ∧ parent ∈ parents

variable {le : Nat → Nat → Prop} {problem : ClassificationProblem} {control : OperationControl}
  {oracle : Oracle} {r : Ambient τ} {E : NativeError → Oracle × Ambient τ → Prop} {edge : Edge}
  {answer : Bool} {relations missing : List Edge} {tester : Tester τ}

theorem mem_insert_iff {cache : ExtTreeMap Edge Bool} {other : Edge} :
    other ∈ cache.insert edge answer ↔ other = edge ∨ other ∈ cache := by
  rw [ExtTreeMap.mem_insert, Std.compare_eq_iff_eq, eq_comm]

/-- The relations a batch has to test: distinct, and answered neither by the cache nor by
the known pairs. -/
structure Missing (problem : ClassificationProblem) (oracle : Oracle)
    (missing : List Edge) : Prop where
  nodup : missing.Nodup
  inside : ∀ edge ∈ missing, Inside problem.elements edge
  uncached : ∀ edge ∈ missing, edge ∉ oracle.cache
  unknown : ∀ edge ∈ missing, ¬ oracle.Leads edge.child edge.parent

section
variable (h : Sound le problem oracle)
include h

theorem Sound.le_of_leads [IsTrans Nat le] [Std.Refl le] {a b : Nat}
    (hleads : oracle.Leads a b) : le a b := by
  refine le_of_path ?_ hleads
  rintro x y ⟨parents, hparents, hy⟩
  exact (h.successors x parents hparents y hy).2

theorem Sound.cached : ∀ edge ∈ oracle.cache, Inside problem.elements edge := by
  intro edge hedge
  obtain ⟨answer, hanswer⟩ := mem_iff_found.mp hedge
  exact (h.cache edge answer hanswer).1

/-- The budget of `isKnown` covers all known pairs. -/
theorem Sound.sum_successors : ∑ x ∈ problem.elements.toFinset, (oracle.successors.getD x ∅).size ≤
      (oracle.successors.toList.map (·.2.size)).sum := by
  have hnodup : (oracle.successors.toList.map (·.1)).Nodup := by
    rw [ExtTreeMap.map_fst_toList_eq_keys]
    exact nodup_of_ascending ExtTreeMap.ordered_keys
  have hsum :
    ((oracle.successors.toList.map (·.1)).map fun x => (oracle.successors.getD x ∅).size) =
      oracle.successors.toList.map (·.2.size) := by
    rw [map_map]
    refine map_congr_left ?_
    rintro ⟨child, parents⟩ hmem
    rw [ExtTreeMap.mem_toList_iff_getElem?_eq_some] at hmem
    simp only [Function.comp]
    rw [ExtTreeMap.getD_eq_getD_getElem?, hmem]
    rfl
  rw [← hsum, ← sum_toFinset _ hnodup]
  refine Finset.sum_le_sum_of_subset ?_
  intro child hchild
  rw [mem_toFinset, ExtTreeMap.map_fst_toList_eq_keys, ExtTreeMap.mem_keys]
  exact h.listed child (mem_toFinset.mp hchild)

theorem Sound.wp_isKnown (hcontrol : NeverAborts control) (hchild : edge.child ∈ problem.elements) :
    wp (isKnown control edge) (fun found s' => s'.1 = oracle ∧
      (found = true ↔ oracle.Leads edge.child edge.parent)) E (oracle, r) := by
  refine wp_get_then.mpr ?_
  refine wp_imp (wp_search
    (fun child parent => ∃ parents, oracle.successors[child]? = some parents ∧ parent ∈ parents)
    problem.elements.toFinset (fun x => (oracle.successors.getD x ∅).size)
    (J := fun _ s' => s'.1 = oracle) (k := 0) paced_pure ?_ ?_ ?_ ?_ ?_ rfl) ?_
  · rintro k ⟨o, r'⟩ current visited hcurrent (rfl : o = oracle)
    have hlisted := h.listed current (mem_toFinset.mp hcurrent)
    obtain ⟨parents, hparents⟩ := mem_iff_found.mp hlisted
    obtain ⟨hlength, hsound, hcomplete⟩ := unseen_spec parents visited
    rw [hparents]
    have hexpand : ∀ r'' : Ambient τ,
      wp (pure (parents.toList.filter (· ∉ visited)) : OracleM τ (List Nat))
        (fun next s' => s'.1 = o ∧ next.length ≤ (o.successors.getD current ∅).size ∧
          (∀ y ∈ next, ∃ list, some parents = some list ∧ y ∈ list) ∧
          ∀ y, (∃ list, some parents = some list ∧ y ∈ list) → y ∈ next ∨ y ∈ visited)
        E (o, r'') := by
      intro r''
      refine wp_pure.mpr ⟨rfl, ?_, ?_, ?_⟩
      · rw [ExtTreeMap.getD_eq_getD_getElem?, hparents]
        exact hlength
      · exact fun y hy => ⟨parents, rfl, hsound y hy⟩
      · rintro y ⟨list, hlist, hy⟩
        cases hlist
        exact hcomplete y hy
    refine wp_ite (fun _ => ?_) fun _ => hexpand r'
    refine wp_bind.mpr (wp_outside.mpr (wp_imp (wp_pollNow hcontrol) ?_))
    intro _ r'' _
    exact hexpand r''
  · rintro x _ y ⟨parents, hparents, hy⟩
    exact mem_toFinset.mpr (h.successors x parents hparents y hy).1
  · intro x hx
    rw [mem_singleton.mp hx]
    exact mem_toFinset.mpr hchild
  · intro x hx
    exact absurd hx not_mem_empty
  · have hsum := h.sum_successors
    rw [searchMeasure_empty, length_singleton]
    omega
  · rintro found s' ⟨hs', hfound⟩
    refine ⟨hs', hfound.trans ?_⟩
    simp only [mem_singleton, exists_eq_left]
    rfl

/-! ## Tests -/

theorem Sound.insert_cache (answer : Bool) (hits : Nat)
    (hinside : Inside problem.elements edge) (hanswer : answer = true ↔ le edge.child edge.parent) :
    Sound le problem { oracle with
      cache := oracle.cache.insert edge answer, cacheHits := hits } := by
  refine ⟨h.limits, h.known, h.possible, h.listed, h.successors, ?_⟩
  intro other answer' hget
  rcases getElem?_insert_cases hget with ⟨rfl, rfl⟩ | ⟨-, hget⟩
  · exact ⟨hinside, hanswer⟩
  · exact h.cache other answer' hget

end

/-- The relations have been looked up: each is in the cache or has joined the missing ones. -/
structure Sifted (le : Nat → Nat → Prop) (problem : ClassificationProblem)
    (relations missing : List Edge)
    (oracle : Oracle) (missing' : List Edge) (oracle' : Oracle) : Prop where
  sound : Sound le problem oracle'
  counted : Counted oracle'
  untested : Missing problem oracle' missing'
  joined : missing ⊆ missing'
  grows : ∀ edge ∈ oracle.cache, edge ∈ oracle'.cache
  all : ∀ edge ∈ relations, edge ∈ oracle'.cache ∨ edge ∈ missing'

theorem Sifted.cons {missing₁ missing' : List Edge} {relation : Edge} {oracle₁ oracle' : Oracle}
    (h : Sifted le problem relations missing₁ oracle₁ missing' oracle')
    (hjoined : missing ⊆ missing₁) (hgrows : ∀ edge ∈ oracle.cache, edge ∈ oracle₁.cache)
    (hfirst : relation ∈ oracle₁.cache ∨ relation ∈ missing₁) :
    Sifted le problem (relation :: relations) missing oracle missing' oracle' :=
  ⟨h.sound, h.counted, h.untested, fun _ hedge => h.joined (hjoined hedge),
    fun edge hedge => h.grows edge (hgrows edge hedge),
    forall_mem_cons.mpr ⟨hfirst.imp (h.grows _) (h.joined ·), h.all⟩⟩

theorem wp_findMissing [IsTrans Nat le] [Std.Refl le] (hcontrol : NeverAborts control) :
    ∀ (relations missing : List Edge) (oracle : Oracle) (r : Ambient τ),
      Sound le problem oracle → Counted oracle → Missing problem oracle missing →
      (∀ edge ∈ relations, Inside problem.elements edge) →
      wp (findMissing control missing relations)
        (fun missing' s' => Sifted le problem relations missing oracle missing' s'.1) E
        (oracle, r) := by
  intro relations
  induction relations with
  | nil =>
    intro missing oracle r hs hc hm _
    exact wp_pure.mpr ⟨hs, hc, hm, fun _ h => h, fun _ h => h, nofun⟩
  | cons relation relations ih =>
    intro missing oracle r hs hc hm hin
    have hrelation := hin relation mem_cons_self
    have hrest := fun edge hedge => hin edge (mem_cons_of_mem relation hedge)
    refine wp_get_then.mpr ?_
    refine wp_ite (fun hcached => ?_) fun huncached => ?_
    · -- answered by the cache
      have hc' : Counted { oracle with cacheHits := oracle.cacheHits + 1 } := ⟨hc.tests, hc.batches⟩
      refine wp_bind.mpr (wp_zoom.mpr (wp_modify.mpr ?_))
      exact wp_imp (ih missing { oracle with cacheHits := oracle.cacheHits + 1 } r
        ⟨hs.limits, hs.known, hs.possible, hs.listed, hs.successors, hs.cache⟩ hc'
        ⟨hm.nodup, hm.inside, hm.uncached, hm.unknown⟩ hrest)
        fun _ _ h => h.cons (fun _ h => h) (fun _ h => h) (.inl hcached)
    · refine wp_seq (hs.wp_isKnown hcontrol hrelation.1) ?_
      rintro found ⟨o, r'⟩ ⟨rfl, hfound⟩
      refine wp_ite (fun hknown => ?_) fun hunknown => ?_
      · -- answered by the known pairs
        have hleads := hfound.mp hknown
        have hs' := hs.insert_cache true (o.cacheHits + 1) hrelation
          ⟨fun _ => hs.le_of_leads hleads, fun _ => rfl⟩
        have hc' : Counted
          { o with cache := o.cache.insert relation true, cacheHits := o.cacheHits + 1 } :=
          ⟨Nat.le_trans hc.tests ExtTreeMap.size_le_size_insert, hc.batches⟩
        have hm' : Missing problem { o with
          cache := o.cache.insert relation true, cacheHits := o.cacheHits + 1 }
            missing := by
          refine ⟨hm.nodup, hm.inside, ?_, hm.unknown⟩
          intro edge hedge hmem
          rcases mem_insert_iff.mp hmem with rfl | hmem
          · exact hm.unknown edge hedge hleads
          · exact hm.uncached edge hedge hmem
        refine wp_bind.mpr (wp_zoom.mpr (wp_modify.mpr ?_))
        exact wp_imp (ih missing _ r' hs' hc' hm' hrest) fun _ _ h => h.cons (fun _ h => h)
          (fun _ h => mem_insert_iff.mpr (.inr h)) (.inl (mem_insert_iff.mpr (.inl rfl)))
      · -- to be tested, unless it is on the list already
        refine wp_ite (fun hlisted => ?_) fun hnew => ?_
        · exact wp_imp (ih missing o r' hs hc hm hrest) fun _ _ h =>
            h.cons (fun _ h => h) (fun _ h => h) (.inr hlisted)
        · have hm' : Missing problem o (missing ++ [relation]) := by
            refine ⟨?_, ?_, ?_, ?_⟩
            · exact nodup_append.mpr ⟨hm.nodup, nodup_singleton _,
                fun a ha b hb hab => hnew (mem_singleton.mp hb ▸ hab ▸ ha)⟩
            · exact forall_mem_append.mpr ⟨hm.inside, forall_mem_singleton.mpr hrelation⟩
            · exact forall_mem_append.mpr ⟨hm.uncached, forall_mem_singleton.mpr huncached⟩
            · exact forall_mem_append.mpr ⟨hm.unknown, forall_mem_singleton.mpr fun hleads =>
                hunknown (hfound.mpr hleads)⟩
          exact wp_imp (ih (missing ++ [relation]) o r' hs hc hm' hrest) fun _ _ h =>
            h.cons (subset_append_left _ _) (fun _ h => h) (.inr (mem_append_right _ mem_cons_self))

/-- One answer more in the cache, and nothing else counted. -/
structure Recorded (edge : Edge) (oracle oracle' : Oracle) : Prop where
  cache : ∀ other, other ∈ oracle'.cache ↔ other = edge ∨ other ∈ oracle.cache
  size : edge ∉ oracle.cache → oracle'.cache.size = oracle.cache.size + 1
  tests : oracle'.semanticTests = oracle.semanticTests
  batches : oracle'.batches = oracle.batches

theorem estimateOracleMemory_le {known cache possible n : Nat} (hknown : known ≤ n)
    (hcache : cache ≤ n) (hpossible : possible ≤ n) :
    estimateOracleMemory known cache possible ≤ 56 * n := by
  unfold estimateOracleMemory saturate
  omega

variable (h : Sound le problem oracle)
include h

theorem Sound.wp_record
    (hinside : Inside problem.elements edge) (hanswer : answer = true ↔ le edge.child edge.parent) :
    wp (record edge answer) (fun _ s' => Sound le problem s'.1 ∧ Recorded edge oracle s'.1) E
      (oracle, r) := by
  have hcached := h.insert_cache answer oracle.cacheHits hinside hanswer
  have hsize : edge ∉ oracle.cache → (oracle.cache.insert edge answer).size =
      oracle.cache.size + 1 := by
    intro hnew
    rw [ExtTreeMap.size_insert, if_neg fun hmem => hnew (ExtTreeMap.contains_iff_mem.mp hmem)]
  have hpossible : ∀ other ∈ oracle.possible.erase edge, Inside problem.elements other :=
    fun other hother => h.possible other (mem_of_mem_erase hother)
  refine wp_bind.mpr (wp_zoom.mpr (wp_modify.mpr ?_))
  refine wp_ite (fun hyes => ?_) fun _ => ?_
  · -- a subsumption: the pair is known from now on
    obtain ⟨parents, hparents⟩ := mem_iff_found.mp (h.listed _ hinside.1)
    refine wp_get_then.mpr ?_
    dsimp only [innerLens]
    refine wp_ensure_then (fun _ => ?_) fun hbad => ?_
    · rw [hparents]
      refine wp_zoom.mpr (wp_modify.mpr ⟨⟨h.limits, ?_, ?_, ?_, ?_, ?_⟩, ?_, ?_, rfl, rfl⟩)
      · intro other hother
        rcases mem_insert_eq.mp hother with heq | hother
        · rw [← heq]
          exact hinside
        · exact h.known other hother
      · exact fun other hother => hpossible other (mem_of_mem_erase hother)
      · exact fun child hchild => ExtTreeMap.mem_insert.mpr (.inr (h.listed child hchild))
      · intro child parents' hget parent hparent
        rcases getElem?_insert_cases hget with ⟨rfl, rfl⟩ | ⟨-, hget⟩
        · rcases mem_insert_eq.mp hparent with heq | hparent
          · rw [← heq]
            exact ⟨hinside.2, hanswer.mp hyes⟩
          · exact h.successors _ parents hparents parent hparent
        · exact h.successors child parents' hget parent hparent
      · exact (hcached.insert_cache true oracle.cacheHits hinside
          ⟨fun _ => hanswer.mp hyes, fun _ => rfl⟩).cache
      · intro other
        rw [mem_insert_iff, mem_insert_iff]
        tauto
      · intro hnew
        rw [ExtTreeMap.size_insert, if_pos (ExtTreeMap.contains_iff_mem.mpr
          (mem_insert_iff.mpr (.inl rfl))), hsize hnew]
    · refine absurd ?_ hbad
      rw [ExtTreeMap.getElem?_insert_self, hyes]
      exact fun heq => nomatch heq
  · exact wp_pure.mpr ⟨⟨h.limits, h.known, hpossible, h.listed, h.successors, hcached.cache⟩,
      fun _ => mem_insert_iff, hsize, rfl, rfl⟩

variable [DecidableRel le]

theorem Sound.wp_recordAll
    (hm : missing.Nodup) (hinside : ∀ edge ∈ missing, Inside problem.elements edge)
    (huncached : ∀ edge ∈ missing, edge ∉ oracle.cache)
    (htests : oracle.semanticTests ≤ oracle.cache.size + missing.length)
    (hbatches : oracle.batches ≤ oracle.semanticTests) :
    wp ((missing.zip (missing.map fun edge => decide (le edge.child edge.parent))).forM
        fun (relation, entailed) => record relation entailed)
      (fun _ s' => Sound le problem s'.1 ∧ Counted s'.1 ∧
        (∀ edge ∈ oracle.cache, edge ∈ s'.1.cache) ∧ ∀ edge ∈ missing, edge ∈ s'.1.cache) E
      (oracle, r) := by
  induction missing generalizing oracle r with
  | nil => exact wp_pure.mpr ⟨h, ⟨htests, hbatches⟩, fun _ hedge => hedge, nofun⟩
  | cons edge missing ih =>
    obtain ⟨hnotin, hm⟩ := nodup_cons.mp hm
    refine wp_seq (h.wp_record (hinside edge mem_cons_self) decide_eq_true_iff) ?_
    rintro _ ⟨oracle', r'⟩ ⟨hs', hrec⟩
    have hsize := hrec.size (huncached edge mem_cons_self)
    rw [length_cons] at htests
    refine wp_imp (ih hs' hm (fun other hother => hinside other (mem_cons_of_mem edge hother))
      ?_ ?_ ?_) ?_
    · intro other hother hmem
      rcases (hrec.cache other).mp hmem with rfl | hmem
      · exact hnotin hother
      · exact huncached other (mem_cons_of_mem edge hother) hmem
    · dsimp only at hsize
      rw [hrec.tests, hsize]
      omega
    · rw [hrec.batches, hrec.tests]
      exact hbatches
    · rintro _ s'' ⟨hs'', hc'', hgrows, hall⟩
      refine ⟨hs'', hc'', fun other hother =>
        hgrows other ((hrec.cache other).mpr (.inr hother)), ?_⟩
      exact forall_mem_cons.mpr ⟨hgrows _ ((hrec.cache _).mpr (.inl rfl)), hall⟩

variable (hc : Counted oracle)
include hc

theorem Sound.wp_lookup (hcached : ∀ edge ∈ relations, edge ∈ oracle.cache) :
    wp (ask fun s : Oracle × Ambient τ => relations.mapM fun relation =>
        match s.1.cache[relation]? with
        | none => .error (invariant "classification oracle failed to cache a result")
        | some outcome => .ok outcome)
      (fun answers s' => answers = relations.map (fun edge => decide (le edge.child edge.parent)) ∧
        Sound le problem s'.1 ∧ Counted s'.1) E (oracle, r) := by
  refine (wp_ask_ok (s := (oracle, r)) (mapM_eq_ok.mpr
    (List.forall₂_map_right_iff.mpr (List.forall₂_same.mpr ?_)))).mpr ⟨rfl, h, hc⟩
  intro edge hedge
  obtain ⟨answer, hanswer⟩ := mem_iff_found.mp (hcached edge hedge)
  rw [hanswer]
  have htrue := (h.cache edge answer hanswer).2
  exact congrArg Except.ok (Bool.eq_iff_iff.mpr (htrue.trans decide_eq_true_iff.symm))

variable (hcontrol : NeverAborts control) (htester : Truthful le problem.elements tester)
  (hcount : problem.elements.length ≤ u32Max)
include hcontrol htester hcount

theorem Sound.wp_testMissing (hm : Missing problem oracle missing) (hne : missing ≠ []) :
    wp (testMissing control tester missing) (fun _ s' => Sound le problem s'.1 ∧ Counted s'.1 ∧
      (∀ edge ∈ oracle.cache, edge ∈ s'.1.cache) ∧ ∀ edge ∈ missing, edge ∈ s'.1.cache)
      (fun e _ => Exceeded problem e) (oracle, r) := by
  -- tested and missing pairs are different pairs of elements, so there are at most n² of them
  have hbound : oracle.semanticTests + missing.length ≤ problem.elements.length ^ 2 := by
    have hall := card_inside problem.elements (oracle.cache.keys ++ missing)
      (nodup_append.mpr ⟨nodup_of_ascending ExtTreeMap.ordered_keys, hm.nodup,
        fun a ha b hb hab => hm.uncached b hb (hab ▸ ExtTreeMap.mem_keys.mp ha)⟩)
      (fun edge hedge => (mem_append.mp hedge).elim
        (fun hkey => h.cached edge (ExtTreeMap.mem_keys.mp hkey)) (hm.inside edge))
    have htests := hc.tests
    rw [length_append, ExtTreeMap.length_keys] at hall
    omega
  have hsquare : problem.elements.length ^ 2 ≤ u64Max := by
    have hle := Nat.pow_le_pow_left hcount 2
    exact Nat.le_trans hle (by decide)
  have hpos : 0 < missing.length := length_pos_of_ne_nil hne
  refine wp_get_then.mpr ?_
  refine wp_ensure_known (Nat.le_trans hbound hsquare) ?_
  refine wp_bind.mpr (wp_checkCount (fun _ => ?_) fun hover e he => ?_)
  case refine_2 =>
    refine ⟨fun hroomy => ?_, .inl he⟩
    have htests := hroomy.tests
    rw [h.limits] at hover
    omega
  -- the candidates in hand are noted in one of the two modes only
  refine wp_when (fun s' => ∃ possible, s' = ({ oracle with possible }, r) ∧
    ∀ edge ∈ possible, Inside problem.elements edge) ?_ (fun _ => ⟨_, rfl, h.possible⟩) ?_
  · refine fun _ => wp_zoom.mpr (wp_modify.mpr ⟨_, rfl, fun edge hedge => ?_⟩)
    rcases mem_insertMany_list.mp hedge with hedge | hedge
    · exact h.possible edge hedge
    · exact hm.inside edge (contains_iff_mem.mp hedge)
  rintro _ ⟨possible, rfl, hpossible⟩
  refine wp_bind.mpr (wp_outside.mpr ?_)
  obtain ⟨r', hrun⟩ := htester missing r hm.inside
  unfold wp
  rw [hrun]
  refine wp_ensure_known (length_map _) (wp_bind.mpr (wp_zoom.mpr (wp_modify.mpr ?_)))
  refine wp_ask_then ?_ fun e he => ?_
  case refine_2 =>
    have hbatches := hc.batches
    dsimp only [innerLens] at he
    rw [increment64, if_pos (by omega)] at he
    cases he
  intro batches hbatches
  rw [increment64_ok hbatches]
  refine wp_bind.mpr (wp_zoom.mpr (wp_modify.mpr ?_))
  have hs' : Sound le problem { oracle with
      possible
      semanticTests := oracle.semanticTests + missing.length
      batches := oracle.batches + 1 } :=
    ⟨h.limits, h.known, hpossible, h.listed, h.successors, h.cache⟩
  have htests := hc.tests
  have hbatches := hc.batches
  refine wp_seq (hs'.wp_recordAll hm.nodup hm.inside hm.uncached
    (by dsimp only; omega) (by dsimp only; omega)) ?_
  rintro _ ⟨o, r''⟩ ⟨hso, hco, hgrows, hall⟩
  refine wp_get_then.mpr ?_
  refine wp_bind.mpr (wp_checkCount (fun _ => ?_) fun hover e he => ?_)
  · refine wp_bind.mpr (wp_outside.mpr (wp_imp (wp_observe hcontrol _) ?_))
    intro _ r3 _
    refine wp_outside.mpr (wp_imp (wp_pollNow hcontrol) ?_)
    intro _ r4 _
    exact ⟨hso, hco, hgrows, hall⟩
  · refine ⟨fun hroomy => ?_, .inl he⟩
    have hmemory := estimateOracleMemory_le (size_inside hso.known) (keys_inside hso.cached)
      (size_inside hso.possible)
    have htables := hroomy.tables
    dsimp only at hmemory hover
    rw [hso.limits] at hover
    omega

theorem Sound.wp_evaluate [IsTrans Nat le] [Std.Refl le]
    (hinside : ∀ edge ∈ relations, Inside problem.elements edge) :
    wp (evaluate control tester relations) (fun answers s' =>
      answers = relations.map (fun edge => decide (le edge.child edge.parent)) ∧
      Sound le problem s'.1 ∧ Counted s'.1) (fun e _ => Exceeded problem e) (oracle, r) := by
  refine wp_bind.mpr (wp_outside.mpr (wp_imp (wp_pollNow hcontrol) ?_))
  intro _ r' _
  refine wp_seq (wp_findMissing hcontrol relations [] oracle r' h hc
    ⟨nodup_nil, nofun, nofun, nofun⟩ hinside) ?_
  rintro missing ⟨o, r''⟩ ⟨hs', hc', hm', -, -, hall⟩
  refine wp_ite (fun hnone => ?_) fun hsome => ?_
  · refine hs'.wp_lookup hc' ?_
    intro edge hedge
    refine (hall edge hedge).resolve_right ?_
    rw [hnone]
    exact not_mem_nil
  · refine wp_seq (hs'.wp_testMissing hc' hcontrol htester hcount hm' hsome) ?_
    rintro _ ⟨o', r3⟩ ⟨hs'', hc'', hgrows, htested⟩
    refine hs''.wp_lookup hc'' ?_
    intro edge hedge
    exact (hall edge hedge).elim (hgrows edge) (htested edge)

end Oracle

end PyHermit.Classification
