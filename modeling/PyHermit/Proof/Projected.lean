import PyHermit.Blocking.Manager

/-!
# Projections

What a projection that was taken from a state is like (`BlockingProjection.Lawful`), and
what it means that two of them look alike before a frontier (`BlockingProjection.Alike`).
The first difference the code computes is such a frontier. A parent is older than its child,
so walks up the tree visit fewer nodes than there are, and the counters that guard these
walks never run out.
-/

open Std Prog List

namespace PyHermit

open DirectChecker

namespace BlockingProjection

/-- A projection taken from a state in which parents are older than their children. -/
structure Lawful (P : BlockingProjection) : Prop where
  /-- Order, labels and digest are those of its nodes and facts. -/
  built : ∃ vocabulary found, P = build P.revision vocabulary P.nodes found
  keyed : ∀ (h : NodeHandle) (r : NodeRecord), P.nodes[h]? = some r → r.node = h
  active : ∀ (h : NodeHandle) (r : NodeRecord), P.nodes[h]? = some r → r.lifecycle = .active
  tree : ∀ (h : NodeHandle) (r : NodeRecord), P.nodes[h]? = some r → r.kind = .tree →
    ∃ p rp, r.parent = some p ∧ P.nodes[p]? = some rp ∧ rp.creationId < r.creationId
  nonTree : ∀ (h : NodeHandle) (r : NodeRecord), P.nodes[h]? = some r → r.kind ≠ .tree →
    r.parent = none
  /-- A creation identifier belongs to one node. -/
  creation : ∀ (a b : NodeHandle) (ra rb : NodeRecord), P.nodes[a]? = some ra →
    P.nodes[b]? = some rb → ra.creationId = rb.creationId → a = b

variable {P P' : BlockingProjection} {h : NodeHandle} {r : NodeRecord}

theorem isBefore_iff {e : Nat} :
    P.isBefore e h = true ↔ ∃ r, P.nodes[h]? = some r ∧ r.creationId < e := by
  unfold isBefore
  rw [Option.any_eq_true]
  simp

theorem parentOf_eq_some {p : NodeHandle} :
    P.parentOf h = some p ↔ ∃ r, P.nodes[h]? = some r ∧ r.parent = some p :=
  Option.bind_eq_some_iff

theorem Lawful.parent_older (hP : P.Lawful) {p : NodeHandle}
    (hr : P.nodes[h]? = some r) (hp : r.parent = some p) :
    ∃ rp, P.nodes[p]? = some rp ∧ rp.creationId < r.creationId := by
  by_cases hk : r.kind = .tree
  · obtain ⟨p', rp, hp', hrp, hlt⟩ := hP.tree h r hr hk
    rw [hp] at hp'
    cases hp'
    exact ⟨rp, hrp, hlt⟩
  · rw [hP.nonTree h r hr hk] at hp
    cases hp

/-! ## The order -/

instance : Std.Total fun a b : NodeRecord => creationOrder a b = true where
  total a b := by
    have h : compareLex (compareOn NodeRecord.creationId) (compareOn NodeRecord.node) a b =
        (compareLex (compareOn NodeRecord.creationId) (compareOn NodeRecord.node) b a).swap :=
          OrientedCmp.eq_swap
    change
      ((compareLex (compareOn NodeRecord.creationId) (compareOn NodeRecord.node)) a b).isLE = true ∨
      ((compareLex (compareOn NodeRecord.creationId) (compareOn NodeRecord.node)) b a).isLE = true
    rw [h]
    cases (compareLex (compareOn NodeRecord.creationId) (compareOn NodeRecord.node)) b a <;> simp

instance : IsTrans NodeRecord fun a b => creationOrder a b = true where
  trans _ _ _ h1 h2 :=
    @TransCmp.isLE_trans _ (compareLex (compareOn NodeRecord.creationId)
      (compareOn NodeRecord.node)) _ _ _ _ h1 h2

theorem creationOrder_le {a b : NodeRecord} (h : creationOrder a b = true) :
    a.creationId ≤ b.creationId := by
  unfold creationOrder at h
  by_contra hlt
  have hgt : compare a.creationId b.creationId = .gt := Nat.compare_eq_gt.mpr (by omega)
  rw [hgt] at h
  cases h

def creationAt (P : BlockingProjection) (h : NodeHandle) : Nat :=
  (P.nodes[h]?.map (·.creationId)).getD 0

theorem creationAt_eq (hr : P.nodes[h]? = some r) : P.creationAt h = r.creationId := by
  unfold creationAt
  rw [hr]
  rfl

def orderedRecords (P : BlockingProjection) : List NodeRecord :=
  (P.nodes.toList.map (·.2)).insertionSort fun a b => creationOrder a b

theorem Lawful.orderedNodes_eq (hP : P.Lawful) :
    P.orderedNodes = P.orderedRecords.map (·.node) := by
  obtain ⟨_, _, hb⟩ := hP.built
  rw [hb]
  rfl

theorem mem_orderedRecords : r ∈ P.orderedRecords ↔ ∃ h : NodeHandle, P.nodes[h]? = some r := by
  unfold orderedRecords
  rw [(perm_insertionSort _ _).mem_iff, mem_map]
  constructor
  · rintro ⟨⟨h, r'⟩, hmem, rfl⟩
    exact ⟨h, ExtTreeMap.mem_toList_iff_getElem?_eq_some.mp hmem⟩
  · rintro ⟨h, hr⟩
    exact ⟨(h, r), ExtTreeMap.mem_toList_iff_getElem?_eq_some.mpr hr, rfl⟩

section
variable (hP : P.Lawful)
include hP

theorem Lawful.orderedRecords_pairwise :
    P.orderedRecords.Pairwise fun a b => a.creationId < b.creationId := by
  have hle := pairwise_insertionSort (fun a b => creationOrder a b = true)
    (P.nodes.toList.map (·.2))
  have hkeys : (P.nodes.toList.map (·.2)).Pairwise fun a b => a.node ≠ b.node := by
    refine pairwise_map.mpr ?_
    refine (ExtTreeMap.distinct_keys_toList (t := P.nodes)).imp_of_mem ?_
    intro a b ha hb hne heq
    rw [hP.keyed a.1 a.2 (ExtTreeMap.mem_toList_iff_getElem?_eq_some.mp ha),
      hP.keyed b.1 b.2 (ExtTreeMap.mem_toList_iff_getElem?_eq_some.mp hb)] at heq
    exact hne (Std.compare_eq_iff_eq.mpr heq)
  have hne : P.orderedRecords.Pairwise fun a b => a.node ≠ b.node :=
    (perm_insertionSort (fun a b => creationOrder a b = true) _).symm.pairwise hkeys
      fun h => h.symm
  refine (hle.and hne).imp_of_mem ?_
  rintro a b ha hb ⟨hab, hnode⟩
  obtain ⟨ha', hra⟩ := mem_orderedRecords.mp ha
  obtain ⟨hb', hrb⟩ := mem_orderedRecords.mp hb
  have hcre : a.creationId ≠ b.creationId := by
    intro heq
    have := hP.creation ha' hb' a b hra hrb heq
    rw [this, hrb] at hra
    exact hnode (congrArg NodeRecord.node (Option.some.inj hra)).symm
  have := creationOrder_le hab
  omega

theorem Lawful.ordered : P.orderedNodes.Pairwise fun a b => P.creationAt a < P.creationAt b := by
  rw [hP.orderedNodes_eq]
  refine pairwise_map.mpr (hP.orderedRecords_pairwise.imp_of_mem ?_)
  intro a b ha hb hlt
  obtain ⟨h, hr⟩ := mem_orderedRecords.mp ha
  obtain ⟨h', hr'⟩ := mem_orderedRecords.mp hb
  rw [hP.keyed h a hr, hP.keyed h' b hr', creationAt_eq hr, creationAt_eq hr']
  exact hlt

theorem Lawful.mem_ordered : h ∈ P.orderedNodes ↔ ∃ r, P.nodes[h]? = some r := by
  rw [hP.orderedNodes_eq, mem_map]
  constructor
  · rintro ⟨r, hr, rfl⟩
    obtain ⟨h', hr'⟩ := mem_orderedRecords.mp hr
    exact ⟨r, by rw [hP.keyed h' r hr']; exact hr'⟩
  · rintro ⟨r, hr⟩
    exact ⟨r, mem_orderedRecords.mpr ⟨h, hr⟩, hP.keyed h r hr⟩

theorem Lawful.length_ordered : P.orderedNodes.length = P.nodes.size := by
  rw [hP.orderedNodes_eq, length_map]
  unfold orderedRecords
  rw [length_insertionSort, length_map, ExtTreeMap.length_toList]

theorem Lawful.ordered_nodup : P.orderedNodes.Nodup :=
  hP.ordered.imp fun hlt heq => by rw [heq] at hlt; omega

/-- In an ordered list, what is before the frontier is a front part. -/
theorem Lawful.takeWhile_ordered (e : Nat) {l : List NodeHandle}
    (hl : l.Sublist P.orderedNodes) : l.takeWhile (P.isBefore e) = l.filter (P.isBefore e) := by
  have hpair := hP.ordered.sublist hl
  have hmem : ∀ h ∈ l, ∃ r, P.nodes[h]? = some r := fun h hh => hP.mem_ordered.mp (hl.subset hh)
  clear hl
  induction l with
  | nil => rfl
  | cons a l ih =>
    obtain ⟨ha, hl⟩ := pairwise_cons.mp hpair
    by_cases hb : P.isBefore e a = true
    · rw [takeWhile_cons_of_pos hb, filter_cons_of_pos hb,
        ih hl fun h hh => hmem h (mem_cons_of_mem _ hh)]
    · rw [takeWhile_cons_of_neg hb, filter_cons_of_neg hb]
      refine (filter_eq_nil_iff.mpr fun x hx hxb => hb ?_).symm
      obtain ⟨ra, hra⟩ := hmem a mem_cons_self
      obtain ⟨rx, hrx, hlt⟩ := isBefore_iff.mp hxb
      have := ha x hx
      rw [creationAt_eq hra, creationAt_eq hrx] at this
      exact isBefore_iff.mpr ⟨ra, hra, by omega⟩

theorem Lawful.exists_frontier : ∃ e, ∀ x ∈ P.orderedNodes, P.isBefore e x = true := by
  have hmem : ∀ x ∈ P.orderedNodes, ∃ r, P.nodes[x]? = some r := fun x hx => hP.mem_ordered.mp hx
  generalize P.orderedNodes = l at hmem ⊢
  induction l with
  | nil => exact ⟨0, nofun⟩
  | cons a l ih =>
    obtain ⟨e, he⟩ := ih fun x hx => hmem x (mem_cons_of_mem _ hx)
    obtain ⟨r, hr⟩ := hmem a mem_cons_self
    refine ⟨max e (r.creationId + 1),
      forall_mem_cons.mpr ⟨isBefore_iff.mpr ⟨r, hr, by omega⟩, fun x hx => ?_⟩⟩
    obtain ⟨rx, hrx, hlt⟩ := isBefore_iff.mp (he x hx)
    exact isBefore_iff.mpr ⟨rx, hrx, by omega⟩

end

/-! ## Walks up the tree -/

/-- How many nodes are older. -/
def age (P : BlockingProjection) (h : NodeHandle) : Nat :=
  P.orderedNodes.countP fun x => P.creationAt x < P.creationAt h

theorem countP_lt_countP {α : Type} {p q : α → Bool} {l : List α}
    (hpq : ∀ x ∈ l, p x = true → q x = true)
    {x : α} (hx : x ∈ l) (hp : p x = false) (hq : q x = true) : l.countP p < l.countP q := by
  induction l with
  | nil => cases hx
  | cons a l ih =>
    have hmono := countP_mono_left fun y hy => hpq y (mem_cons_of_mem _ hy)
    rw [countP_cons, countP_cons]
    rcases mem_cons.mp hx with rfl | hx
    · rw [hp, hq]
      simp only [Bool.false_eq_true, if_false, if_true]
      omega
    · have hlt := ih (fun y hy => hpq y (mem_cons_of_mem _ hy)) hx
      have hle : (if p a = true then 1 else 0) ≤ if q a = true then 1 else 0 := by
        split
        · rename_i ha
          rw [if_pos (hpq a mem_cons_self ha)]
        · exact Nat.zero_le _
      omega

theorem Lawful.age_parent (hP : P.Lawful) {p : NodeHandle} (hp : P.parentOf h = some p) :
    P.age p < P.age h := by
  obtain ⟨r, hr, hrp⟩ := parentOf_eq_some.mp hp
  obtain ⟨rp, hrp', hlt⟩ := hP.parent_older hr hrp
  refine countP_lt_countP (x := p) ?_ (hP.mem_ordered.mpr ⟨rp, hrp'⟩) ?_ ?_
  · intro x _ hx
    rw [decide_eq_true_eq, creationAt_eq hrp'] at hx
    rw [decide_eq_true_eq, creationAt_eq hr]
    omega
  · simp
  · rw [decide_eq_true_eq, creationAt_eq hr, creationAt_eq hrp']
    exact hlt

theorem Lawful.age_lt (hP : P.Lawful) (hr : P.nodes[h]? = some r) : P.age h < P.nodes.size := by
  rw [← hP.length_ordered, ← countP_true]
  exact countP_lt_countP (fun _ _ _ => rfl) (hP.mem_ordered.mpr ⟨r, hr⟩) (by simp) rfl

theorem Lawful.isAncestorLoop_congr (hP : P.Lawful) (a : NodeHandle) {n m : Nat}
    (hn : P.age h ≤ n) (hm : P.age h ≤ m) : P.isAncestorLoop a n h = P.isAncestorLoop a m h := by
  induction n generalizing m h with
  | zero =>
    cases m with
    | zero => rfl
    | succ m =>
      unfold isAncestorLoop
      cases hp : P.parentOf h with
      | none => rfl
      | some p => exact absurd (hP.age_parent hp) (by omega)
  | succ n ih =>
    cases m with
    | zero =>
      unfold isAncestorLoop
      cases hp : P.parentOf h with
      | none => rfl
      | some p => exact absurd (hP.age_parent hp) (by omega)
    | succ m =>
      unfold isAncestorLoop
      cases hp : P.parentOf h with
      | none => rfl
      | some p =>
        have := hP.age_parent hp
        simp only [ih (m := m) (h := p) (by omega) (by omega)]

/-- The first candidate and its ancestors. -/
def chain (P : BlockingProjection) : Nat → Option NodeHandle → List NodeHandle
  | _, none => []
  | 0, some _ => []
  | n + 1, some candidate => candidate :: P.chain n (P.parentOf candidate)

theorem length_chain_le (n : Nat) (h : Option NodeHandle) : (P.chain n h).length ≤ n := by
  induction n generalizing h with
  | zero => cases h <;> exact le_rfl
  | succ n ih =>
    cases h with
    | none => exact Nat.zero_le _
    | some candidate => exact Nat.succ_le_succ (ih _)

theorem Lawful.chain_congr (hP : P.Lawful) {n m : Nat} {h : Option NodeHandle}
    (hn : ∀ x, h = some x → P.age x < n) (hm : ∀ x, h = some x → P.age x < m) :
    P.chain n h = P.chain m h := by
  induction n generalizing m h with
  | zero =>
    cases h with
    | none => cases m <;> rfl
    | some x => exact absurd (hn x rfl) (by omega)
  | succ n ih =>
    cases h with
    | none => cases m <;> rfl
    | some x =>
      have h1 := hn x rfl
      have h2 := hm x rfl
      cases m with
      | zero => omega
      | succ m =>
        unfold chain
        rw [ih (m := m) (h := P.parentOf x)]
        · intro p hp
          have := hP.age_parent hp
          omega
        · intro p hp
          have := hP.age_parent hp
          omega

theorem Lawful.chain_older (hP : P.Lawful) {n : Nat} {x : NodeHandle}
    (hr : P.nodes[h]? = some r) (hx : x ∈ P.chain n (P.parentOf h)) :
    ∃ rx, P.nodes[x]? = some rx ∧ rx.creationId < r.creationId := by
  induction n generalizing h r with
  | zero => cases hp : P.parentOf h <;> rw [hp] at hx <;> cases hx
  | succ n ih =>
    cases hp : P.parentOf h with
    | none => rw [hp] at hx; cases hx
    | some p =>
      rw [hp] at hx
      obtain ⟨r', hr', hrp⟩ := parentOf_eq_some.mp hp
      rw [hr] at hr'
      cases hr'
      obtain ⟨rp, hrp', hlt⟩ := hP.parent_older hr hrp
      rcases mem_cons.mp hx with rfl | hx
      · exact ⟨rp, hrp', hlt⟩
      · obtain ⟨rx, hrx, hlt'⟩ := ih hrp' hx
        exact ⟨rx, hrx, by omega⟩

/-! ## Two projections alike before a frontier -/

/-- Before `e`, nodes and labels are the same. -/
structure Alike (e : Nat) (P P' : BlockingProjection) : Prop where
  nodes : ∀ (h : NodeHandle) (r : NodeRecord), P.nodes[h]? = some r → r.creationId < e →
    ∃ r', P'.nodes[h]? = some r' ∧ r'.digested = r.digested
  back : ∀ (h : NodeHandle) (r : NodeRecord), P'.nodes[h]? = some r → r.creationId < e →
    ∃ r', P.nodes[h]? = some r' ∧ r'.digested = r.digested
  concepts : ∀ (h : NodeHandle) (core : Bool), P.isBefore e h = true →
    P.conceptLabel h core = P'.conceptLabel h core
  roles : ∀ (a b : NodeHandle) (core : Bool), P.isBefore e a = true → P.isBefore e b = true →
    P.roleLabel a b core = P'.roleLabel a b core

theorem le_of_min? {l : List Nat} {e x : Nat} (h : ∀ d, l.min? = some d → e ≤ d)
    (hx : x ∈ l) : e ≤ x := by
  cases hm : l.min? with
  | none =>
    rw [min?_eq_none_iff] at hm
    rw [hm] at hx
    cases hx
  | some d => exact Nat.le_trans (h d hm) ((min?_eq_some_iff.mp hm).2 x hx)

section Difference

variable {e : Nat} (hdiff : ∀ d, earliestDifference P P' = some d → e ≤ d)

include hdiff

theorem le_of_nodeDifference {x : Nat} (hmem : h ∈ P.nodes ∨ h ∈ P'.nodes)
    (hx : x ∈ nodeDifferences P P' h) : e ≤ x := by
  refine le_of_min? hdiff (mem_append_left _ (mem_flatMap.mpr ⟨h, ?_, hx⟩))
  rw [mem_append, ExtTreeMap.mem_keys, ExtTreeMap.mem_keys]
  exact hmem

theorem le_of_edgeDifference {edge : NodePair} {x : Nat} (hmem : edge ∈ P.roles ∨ edge ∈ P'.roles)
    (hx : x ∈ edgeDifferences P P' edge) : e ≤ x := by
  refine le_of_min? hdiff (mem_append_right _ (mem_flatMap.mpr ⟨edge, ?_, hx⟩))
  rw [mem_append, ExtTreeMap.mem_keys, ExtTreeMap.mem_keys]
  exact hmem

/-- A node created before the first difference is the same in both. -/
theorem sameBlockingNode_of_before
    (hr : P.nodes[h]? = some r ∨ P'.nodes[h]? = some r) (hlt : r.creationId < e) :
    sameBlockingNode P.nodes[h]? P'.nodes[h]? = true := by
  by_contra hne
  have hmem : h ∈ P.nodes ∨ h ∈ P'.nodes :=
    hr.imp (fun hr => mem_iff_found.mpr ⟨_, hr⟩)
      (fun hr => mem_iff_found.mpr ⟨_, hr⟩)
  have hx : r.creationId ∈ nodeDifferences P P' h := by
    refine mem_append_left _ ?_
    rw [if_neg hne, mem_append]
    exact hr.imp (fun hr => by rw [hr]; exact mem_singleton.mpr rfl)
      (fun hr => by rw [hr]; exact mem_singleton.mpr rfl)
  exact absurd (le_of_nodeDifference hdiff hmem hx) (by omega)

theorem concepts_of_before (hr : P.nodes[h]? = some r) (hlt : r.creationId < e) :
    P.concepts[h]? = P'.concepts[h]? ∧ P.coreConcepts[h]? = P'.coreConcepts[h]? := by
  by_contra hne
  have hx : r.creationId ∈ nodeDifferences P P' h := by
    refine mem_append_right _ ?_
    rw [if_neg hne, hr]
    exact mem_singleton.mpr rfl
  refine absurd (le_of_nodeDifference hdiff (.inl ?_) hx) (by omega)
  exact mem_iff_found.mpr ⟨_, hr⟩

theorem roles_of_before {a b : NodeHandle} (hr : P.nodes[a]? = some r) (hlt : r.creationId < e)
    (hmem : (⟨a, b⟩ : NodePair) ∈ P.roles ∨ (⟨a, b⟩ : NodePair) ∈ P'.roles) :
    P.roles[(⟨a, b⟩ : NodePair)]? = P'.roles[(⟨a, b⟩ : NodePair)]? ∧
      P.coreRoles[(⟨a, b⟩ : NodePair)]? = P'.coreRoles[(⟨a, b⟩ : NodePair)]? := by
  by_contra hne
  have hx : r.creationId ∈ edgeDifferences P P' ⟨a, b⟩ := by
    unfold edgeDifferences
    rw [if_neg hne]
    refine mem_flatMap.mpr ⟨a, mem_cons_self, ?_⟩
    rw [hr]
    exact mem_singleton.mpr rfl
  exact absurd (le_of_edgeDifference hdiff hmem hx) (by omega)

end Difference

/-! ### Labels -/

theorem conceptLabel_congr (hc : P.concepts[h]? = P'.concepts[h]?)
    (hcore : P.coreConcepts[h]? = P'.coreConcepts[h]?) (core : Bool) :
    P.conceptLabel h core = P'.conceptLabel h core := by
  unfold conceptLabel
  cases core <;> simp only [Bool.false_eq_true, if_false, if_true,
    ExtTreeMap.getD_eq_getD_getElem?, hc, hcore]

theorem roleLabel_congr {a b : NodeHandle}
    (hr : P.roles[(⟨a, b⟩ : NodePair)]? = P'.roles[(⟨a, b⟩ : NodePair)]?)
    (hcore : P.coreRoles[(⟨a, b⟩ : NodePair)]? = P'.coreRoles[(⟨a, b⟩ : NodePair)]?) (core : Bool) :
    P.roleLabel a b core = P'.roleLabel a b core := by
  unfold roleLabel
  cases core <;> simp only [Bool.false_eq_true, if_false, if_true,
    ExtTreeMap.getD_eq_getD_getElem?, hr, hcore]

theorem sameBlockingNode_iff {left right : Option NodeRecord} : sameBlockingNode left right = true ↔
    left.map (·.digested) = right.map (·.digested) ∧ left.map (·.lifecycle) = right.map
    (·.lifecycle) := by
  cases left <;> cases right <;> simp [sameBlockingNode]

section
variable (hP : P.Lawful)
include hP

theorem Lawful.concepts_eq :
    P.concepts = .collect (·.node) (·.predicateId) P.stateDigest.facts := by
  obtain ⟨_, _, hb⟩ := hP.built
  rw [hb]
  rfl

theorem Lawful.coreConcepts_eq :
    P.coreConcepts = .collect (·.node) (·.predicateId) (P.stateDigest.facts.filter (·.core)) := by
  obtain ⟨_, _, hb⟩ := hP.built
  rw [hb]
  rfl

theorem Lawful.roles_eq : P.roles = .collect (·.edge) (·.predicateId) P.stateDigest.facts := by
  obtain ⟨_, _, hb⟩ := hP.built
  rw [hb]
  rfl

theorem Lawful.coreRoles_eq :
    P.coreRoles = .collect (·.edge) (·.predicateId) (P.stateDigest.facts.filter (·.core)) := by
  obtain ⟨_, _, hb⟩ := hP.built
  rw [hb]
  rfl

theorem Lawful.digest_nodes : P.stateDigest.nodes = P.orderedRecords.map (·.digested) := by
  obtain ⟨_, _, hb⟩ := hP.built
  rw [hb]
  rfl

theorem Lawful.coreRoles_subset {edge : NodePair} (h : edge ∈ P.coreRoles) : edge ∈ P.roles := by
  rw [hP.coreRoles_eq] at h
  rw [hP.roles_eq]
  obtain ⟨bucket, hbucket⟩ := mem_iff_found.mp h
  have hcore := Index.exact_collect RelevantFact.edge RelevantFact.predicateId
    (P.stateDigest.facts.filter (·.core))
  obtain ⟨i, hi⟩ := hcore.nonempty edge bucket hbucket
  obtain ⟨fact, hfact, hedge, hvalue⟩ := (hcore.holds edge i).mp ⟨bucket, hbucket, hi⟩
  obtain ⟨_, hb, -⟩ := ((Index.exact_collect RelevantFact.edge RelevantFact.predicateId
    P.stateDigest.facts).holds edge i).mpr
      ⟨fact, mem_of_mem_filter hfact, hedge, hvalue⟩
  exact mem_iff_found.mpr ⟨_, hb⟩

variable (hP' : P'.Lawful)
include hP'

/-- What is created before the first difference looks alike. -/
theorem Alike.of_difference {e : Nat} (hdiff : ∀ d, earliestDifference P P' = some d → e ≤ d) :
    Alike e P P' where
  nodes h r hr hlt := by
    have hsame := (sameBlockingNode_iff.mp (sameBlockingNode_of_before hdiff (.inl hr) hlt)).1
    rw [hr, Option.map_some] at hsame
    exact Option.map_eq_some_iff.mp hsame.symm
  back h r hr hlt := by
    have hsame := (sameBlockingNode_iff.mp (sameBlockingNode_of_before hdiff (.inr hr) hlt)).1
    rw [hr, Option.map_some] at hsame
    exact Option.map_eq_some_iff.mp hsame
  concepts h core hb := by
    obtain ⟨r, hr, hlt⟩ := isBefore_iff.mp hb
    obtain ⟨hc, hcore⟩ := concepts_of_before hdiff hr hlt
    exact conceptLabel_congr hc hcore core
  roles a b core ha _ := by
    obtain ⟨r, hr, hlt⟩ := isBefore_iff.mp ha
    by_cases hmem : (⟨a, b⟩ : NodePair) ∈ P.roles ∨ (⟨a, b⟩ : NodePair) ∈ P'.roles
    · obtain ⟨h1, h2⟩ := roles_of_before hdiff hr hlt hmem
      exact roleLabel_congr h1 h2 core
    · rw [not_or] at hmem
      have hnone : ∀ {index : Index NodePair Nat}, (⟨a, b⟩ : NodePair) ∉ index →
          index[(⟨a, b⟩ : NodePair)]? = none := fun h => ExtTreeMap.getElem?_eq_none h
      refine roleLabel_congr ?_ ?_ core
      · rw [hnone hmem.1, hnone hmem.2]
      · rw [hnone fun h => hmem.1 (hP.coreRoles_subset h), hnone fun h =>
          hmem.2 (hP'.coreRoles_subset h)]

/-! ### The same digest -/

variable (heq : P.stateDigest = P'.stateDigest)
include heq

/-- Equal digests mean equal nodes, up to what is pending. -/
theorem Lawful.nodes_of_digest (hr : P.nodes[h]? = some r) :
    ∃ r', P'.nodes[h]? = some r' ∧ r'.digested = r.digested := by
  have hmem : r.digested ∈ P.stateDigest.nodes := by
    rw [hP.digest_nodes]
    exact mem_map_of_mem (mem_orderedRecords.mpr ⟨h, hr⟩)
  rw [heq, hP'.digest_nodes, mem_map] at hmem
  obtain ⟨r', hr', hd⟩ := hmem
  obtain ⟨h', hn'⟩ := mem_orderedRecords.mp hr'
  have hnode : r'.node = r.node := (congrArg DigestedNode.node hd :)
  rw [hP.keyed h r hr, hP'.keyed h' r' hn'] at hnode
  rw [hnode] at hn'
  exact ⟨r', hn', hd⟩

theorem Lawful.alike_of_digest (e : Nat) : Alike e P P' where
  nodes _ _ hr _ := hP.nodes_of_digest hP' heq hr
  back _ _ hr _ := hP'.nodes_of_digest hP heq.symm hr
  concepts h core _ := conceptLabel_congr (by rw [hP.concepts_eq, hP'.concepts_eq, heq])
    (by rw [hP.coreConcepts_eq, hP'.coreConcepts_eq, heq]) core
  roles a b core _ _ := roleLabel_congr (by rw [hP.roles_eq, hP'.roles_eq, heq])
    (by rw [hP.coreRoles_eq, hP'.coreRoles_eq, heq]) core

theorem Lawful.ordered_of_digest : P.orderedNodes = P'.orderedNodes := by
  have hnodes : P.orderedRecords.map (·.digested) = P'.orderedRecords.map (·.digested) := by
    rw [← hP.digest_nodes, ← hP'.digest_nodes, heq]
  rw [hP.orderedNodes_eq, hP'.orderedNodes_eq]
  have hmap : ∀ records : List NodeRecord,
      records.map (·.node) = (records.map (·.digested)).map (·.node) := fun records => by
    rw [map_map]
    rfl
  rw [hmap, hmap, hnodes]

end

/-! ### What blocking asks about an old node -/

namespace Alike

variable {e : Nat} {x : NodeHandle}

theorem isBefore (h : Alike e P P') (x : NodeHandle) : P'.isBefore e x = P.isBefore e x := by
  rw [Bool.eq_iff_iff, isBefore_iff, isBefore_iff]
  constructor
  · rintro ⟨r, hr, hlt⟩
    obtain ⟨r', hr', hd⟩ := h.back x r hr hlt
    have : r'.creationId = r.creationId := (congrArg DigestedNode.creationId hd :)
    exact ⟨r', hr', by omega⟩
  · rintro ⟨r, hr, hlt⟩
    obtain ⟨r', hr', hd⟩ := h.nodes x r hr hlt
    have : r'.creationId = r.creationId := (congrArg DigestedNode.creationId hd :)
    exact ⟨r', hr', by omega⟩

theorem parentOf (h : Alike e P P') (hx : P.isBefore e x = true) :
    P'.parentOf x = P.parentOf x := by
  obtain ⟨r, hr, hlt⟩ := isBefore_iff.mp hx
  obtain ⟨r', hr', hd⟩ := h.nodes x r hr hlt
  have hp : r'.parent = r.parent := (congrArg DigestedNode.parent hd :)
  unfold BlockingProjection.parentOf
  rw [hr, hr']
  exact hp

end Alike

theorem Lawful.parent_before (hP : P.Lawful) {e : Nat} {x p : NodeHandle}
    (hx : P.isBefore e x = true) (hp : P.parentOf x = some p) : P.isBefore e p = true := by
  obtain ⟨r, hr, hlt⟩ := isBefore_iff.mp hx
  obtain ⟨r', hr', hrp⟩ := parentOf_eq_some.mp hp
  rw [hr] at hr'
  cases hr'
  obtain ⟨rp, hrp', hlt'⟩ := hP.parent_older hr hrp
  exact isBefore_iff.mpr ⟨rp, hrp', by omega⟩

/-- The record of a node is that of an active tree node. -/
def isTree (P : BlockingProjection) (h : NodeHandle) : Bool := P.nodes[h]?.any (·.isActiveTree)

theorem eligible_eq (checker : DirectChecker) (x : NodeHandle) : checker.eligible P x =
    (P.isTree x && (!checker.needsTreeParent || (P.parentOf x).any P.isTree)) := by
  unfold eligible isTree parentOf
  cases P.nodes[x]? with
  | none => rfl
  | some r => cases hp : r.parent <;> simp [hp]

theorem Lawful.isTree_iff (hP : P.Lawful) :
    P.isTree h = true ↔ ∃ r, P.nodes[h]? = some r ∧ r.kind = .tree := by
  unfold isTree NodeRecord.isActiveTree
  rw [Option.any_eq_true]
  constructor
  · rintro ⟨r, hr, ht⟩
    exact ⟨r, hr, by simpa using (Bool.and_eq_true_iff.mp ht).2⟩
  · rintro ⟨r, hr, hk⟩
    exact ⟨r, hr, by simp [hP.active h r hr, hk]⟩

namespace Alike

variable {e : Nat} {x : NodeHandle}

section
variable (hA : Alike e P P') (hP : P.Lawful) (hP' : P'.Lawful)
include hA hP

section
variable (hx : P.isBefore e x = true)
include hx

section
include hP'

theorem isTree : P'.isTree x = P.isTree x := by
  obtain ⟨r, hr, hlt⟩ := isBefore_iff.mp hx
  obtain ⟨r', hr', hd⟩ := hA.nodes x r hr hlt
  have hk : r'.kind = r.kind := (congrArg DigestedNode.kind hd :)
  unfold BlockingProjection.isTree NodeRecord.isActiveTree
  rw [hr, hr', Option.any_some, Option.any_some, hk, hP.active x r hr, hP'.active x r' hr']

theorem eligible (checker : DirectChecker) : checker.eligible P' x = checker.eligible P x := by
  rw [eligible_eq, eligible_eq, hA.isTree hP hP' hx, hA.parentOf hx]
  cases hp : P.parentOf x with
  | none => rfl
  | some p => rw [Option.any_some, Option.any_some, hA.isTree hP hP' (hP.parent_before hx hp)]

theorem signature (checker : DirectChecker) : checker.signature P' x = checker.signature P x := by
  unfold DirectChecker.signature canBeBlocked parent
  rw [hA.eligible hP hP' hx checker,
    hA.parentOf hx, ← hA.concepts x false hx, ← hA.concepts x true hx]
  cases hp : P.parentOf x with
  | none => cases checker.kind <;> rfl
  | some p =>
    have hpb := hP.parent_before hx hp
    cases checker.kind <;>
      simp only [bind, Except.bind, hA.concepts p false hpb, hA.concepts p true hpb,
        hA.roles p x false hpb hx, hA.roles x p false hx hpb]

end

theorem isAncestorLoop (a : NodeHandle) {n : Nat} :
    P'.isAncestorLoop a n x = P.isAncestorLoop a n x := by
  induction n generalizing x with
  | zero => rfl
  | succ n ih =>
    unfold BlockingProjection.isAncestorLoop
    rw [hA.parentOf hx]
    cases hp : P.parentOf x with
    | none => rfl
    | some p => simp only [ih (hP.parent_before hx hp)]

include hP' in
theorem isAncestor (a : NodeHandle) : P'.isAncestor a x = P.isAncestor a x := by
  obtain ⟨r, hr, -⟩ := isBefore_iff.mp hx
  obtain ⟨r', hr', -⟩ := isBefore_iff.mp ((hA.isBefore x).trans hx)
  have h1 := hP.age_lt hr
  have h2 := hP'.age_lt hr'
  unfold BlockingProjection.isAncestor
  -- both counters suffice, so both walks may take the longer one
  rw [hP'.isAncestorLoop_congr a (m := max P.nodes.size P'.nodes.size) (by omega) (by omega),
    hP.isAncestorLoop_congr a (m := max P.nodes.size P'.nodes.size) (by omega) (by omega)]
  exact hA.isAncestorLoop hP hx a

theorem chain_parentOf {n : Nat} : P'.chain n (P'.parentOf x) = P.chain n (P.parentOf x) := by
  induction n generalizing x with
  | zero => rw [hA.parentOf hx]; cases P.parentOf x <;> rfl
  | succ n ih =>
    rw [hA.parentOf hx]
    cases hp : P.parentOf x with
    | none => rfl
    | some p =>
      unfold BlockingProjection.chain
      rw [ih (hP.parent_before hx hp)]

end

include hP' in
theorem front : P'.orderedNodes.takeWhile (P'.isBefore e) =
      P.orderedNodes.takeWhile (P.isBefore e) := by
  rw [hP.takeWhile_ordered e (List.Sublist.refl _), hP'.takeWhile_ordered e (List.Sublist.refl _)]
  have hcre : ∀ y, P.isBefore e y = true → P'.creationAt y = P.creationAt y := by
    intro y hy
    obtain ⟨r, hr, hlt⟩ := isBefore_iff.mp hy
    obtain ⟨r', hr', hd⟩ := hA.nodes y r hr hlt
    rw [creationAt_eq hr, creationAt_eq hr']
    exact (congrArg DigestedNode.creationId hd :)
  have hmem : ∀ y, y ∈ P'.orderedNodes.filter (P'.isBefore e) ↔
      y ∈ P.orderedNodes.filter (P.isBefore e) := by
    intro y
    rw [mem_filter, mem_filter, hP.mem_ordered, hP'.mem_ordered, hA.isBefore y]
    refine ⟨fun ⟨_, hb⟩ => ⟨?_, hb⟩, fun ⟨_, hb⟩ => ⟨?_, hb⟩⟩
    · obtain ⟨r, hr, -⟩ := isBefore_iff.mp hb
      exact ⟨r, hr⟩
    · obtain ⟨r, hr, -⟩ := isBefore_iff.mp ((hA.isBefore y).trans hb)
      exact ⟨r, hr⟩
  have hpair : (P.orderedNodes.filter (P.isBefore e)).Pairwise fun a b =>
    P'.creationAt a < P'.creationAt b :=
    (hP.ordered.filter _).imp_of_mem fun {a b} ha hb hlt => by
      rw [hcre a (mem_filter.mp ha).2, hcre b (mem_filter.mp hb).2]
      exact hlt
  refine List.Perm.eq_of_pairwise (fun a b _ _ hab hba => ?_) (hP'.ordered.filter _) hpair
    ((perm_ext_iff_of_nodup (hP'.ordered_nodup.filter _) (hP.ordered_nodup.filter _)).mpr hmem)
  omega

end

end Alike

/-! ## Signatures of eligible nodes -/

theorem toList_ascending (values : ExtTreeSet Nat) : values.toList.Pairwise (· < ·) :=
  (ExtTreeSet.ordered_toList (t := values)).imp fun h => Nat.compare_eq_lt.mp h

theorem conceptLabel_ascending (h : NodeHandle) (core : Bool) :
    (P.conceptLabel h core).Pairwise (· < ·) :=
  toList_ascending _

theorem roleLabel_ascending (a b : NodeHandle) (core : Bool) :
    (P.roleLabel a b core).Pairwise (· < ·) :=
  toList_ascending _

variable {signature : BlockingSignature} {checker : DirectChecker}

/-- A signature of sorted labels is accepted as it is. -/
theorem signature_new (h : ∀ label ∈ signature.labels, label.2.Pairwise (· < ·)) :
    BlockingSignature.new signature = .ok signature := by
  unfold BlockingSignature.new
  rw [bind_eq_ok]
  exact ⟨(), forM_eq_ok.mpr fun label hl => ensure_eq_ok.mpr (h label hl), rfl⟩

/-- An eligible node is an active tree node, and it has a signature. -/
theorem Lawful.signature_of_eligible (hP : P.Lawful) {x : NodeHandle}
    (hx : checker.eligible P x = true) : ∃ signature, checker.signature P x = .ok signature := by
  have htree : P.isTree x = true := by
    rw [eligible_eq] at hx
    exact (Bool.and_eq_true_iff.mp hx).1
  obtain ⟨r, hr, hk⟩ := hP.isTree_iff.mp htree
  obtain ⟨p, _, hp, -, -⟩ := hP.tree x r hr hk
  have hok : parent P x = .ok p := by
    unfold parent
    rw [parentOf_eq_some.mpr ⟨r, hr, hp⟩]
  have hensure : (ensure (checker.canBeBlocked P x = true)
      (.invalid "node is not eligible for the selected direct blocking checker") :
        Except BlockingError Unit) = .ok () := ensure_eq_ok.mpr hx
  unfold DirectChecker.signature
  rw [hensure, hok]
  cases hkind : checker.kind <;>
    exact ⟨_, signature_new (by simp [BlockingSignature.labels, conceptLabel_ascending,
      roleLabel_ascending])⟩

theorem signature_eligible {x : NodeHandle} (h : checker.signature P x = .ok signature) :
    checker.eligible P x = true := by
  obtain ⟨_, hensure, -⟩ := bind_eq_ok.mp h
  exact ensure_eq_ok.mp hensure

end BlockingProjection

end PyHermit
