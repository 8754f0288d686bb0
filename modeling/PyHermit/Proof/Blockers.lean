import PyHermit.Proof.Retained

/-!
# The blocking assignment

`BlockingPass.Assigns` says what the assignment of a projection is, by comparing each node
with every other one. There is exactly one, as a node's own only depends on older nodes.

A recomputation compares a node with its ancestors only, or with what the index holds under
its key. That is enough because in the middle of a pass a bucket holds every visited node
that is unblocked and has the bucket's key (`Exact`).
-/

open Std Prog List ExtTreeMap

namespace PyHermit

namespace BlockingProjection

variable {P : BlockingProjection} {h x y p q : NodeHandle} {r : NodeRecord}

theorem isAncestorLoop_iff {a : NodeHandle} {n : Nat} :
    P.isAncestorLoop a n h = true ↔ a ∈ P.chain n (P.parentOf h) := by
  induction n generalizing h with
  | zero => cases P.parentOf h <;> simp [isAncestorLoop, chain]
  | succ n ih =>
    unfold isAncestorLoop
    cases hp : P.parentOf h with
    | none => simp [chain]
    | some p =>
      by_cases heq : p = a
      · simp [chain, heq]
      · simp [chain, heq, ih, Ne.symm heq]

theorem Lawful.creationAt_chain (hP : P.Lawful) {n : Nat} (hx : x ∈ P.chain n (P.parentOf h)) :
    P.creationAt x < P.creationAt h := by
  cases hr : P.nodes[h]? with
  | none =>
    have hp : P.parentOf h = none := by
      unfold parentOf
      rw [hr]
      rfl
    rw [hp] at hx
    cases n <;> cases hx
  | some r =>
    obtain ⟨rx, hrx, hlt⟩ := hP.chain_older hr hx
    rw [creationAt_eq hr, creationAt_eq hrx]
    exact hlt

theorem Lawful.creationAt_parent (hP : P.Lawful) (hp : P.parentOf h = some p) :
    P.creationAt p < P.creationAt h :=
  hP.creationAt_chain (n := 1) (by rw [hp]; exact mem_cons_self)

theorem Lawful.creationAt_ancestor (hP : P.Lawful) (hx : P.isAncestor x h = true) :
    P.creationAt x < P.creationAt h := hP.creationAt_chain (isAncestorLoop_iff.mp hx)

theorem Lawful.chain_pairwise (hP : P.Lawful) (n : Nat) :
    (P.chain n (P.parentOf h)).Pairwise fun a b => P.creationAt b < P.creationAt a := by
  induction n generalizing h with
  | zero => cases P.parentOf h <;> exact .nil
  | succ n ih =>
    cases P.parentOf h with
    | none => exact .nil
    | some p => exact pairwise_cons.mpr ⟨fun b hb => hP.creationAt_chain hb, ih⟩

/-! ## What is compared -/

/-- What a checker compares of `x` below `p` and `y` below `q`. A validated checker looks at
core concepts only, and leaves the edges to the validation. -/
def SameLabels (P : BlockingProjection) (kind : DirectCheckerKind) (x p y q : NodeHandle) : Prop :=
  match kind with
  | .single => P.conceptLabel x false = P.conceptLabel y false
  | .pairwise =>
    P.conceptLabel x false = P.conceptLabel y false ∧
      P.conceptLabel p false = P.conceptLabel q false ∧
      P.roleLabel p x false = P.roleLabel q y false ∧ P.roleLabel x p false = P.roleLabel y q false
  | .validatedSingle => P.conceptLabel x true = P.conceptLabel y true
  | .validatedPairwise =>
    P.conceptLabel x true = P.conceptLabel y true ∧ P.conceptLabel p true = P.conceptLabel q true

variable {checker : DirectChecker} {s s' : BlockingSignature}

theorem eq_of_new (h : BlockingSignature.new s = .ok s') : s' = s := by
  obtain ⟨_, -, h⟩ := bind_eq_ok.mp h
  cases h
  rfl

theorem blockingKey_eq_iff (hx : checker.signature P x = .ok s)
    (hy : checker.signature P y = .ok s')
    (hp : P.parentOf x = some p) (hq : P.parentOf y = some q) :
    s.blockingKey = s'.blockingKey ↔ P.SameLabels checker.kind x p y q := by
  have hpar : DirectChecker.parent P x = .ok p := by
    unfold DirectChecker.parent
    rw [hp]
  have hpar' : DirectChecker.parent P y = .ok q := by
    unfold DirectChecker.parent
    rw [hq]
  obtain ⟨_, -, hx⟩ := bind_eq_ok.mp hx
  obtain ⟨_, -, hy⟩ := bind_eq_ok.mp hy
  rw [hpar] at hx
  rw [hpar'] at hy
  unfold SameLabels
  cases hkind : checker.kind <;> simp only [hkind] at hx hy <;> rw [eq_of_new hx, eq_of_new hy] <;>
    simp [BlockingSignature.blockingKey]

theorem blocks_iff : s.blocks s' = true ↔ s.blockingKey = s'.blockingKey := by
  simp [BlockingSignature.blocks, BlockingSignature.blockingKey, and_assoc]

end BlockingProjection

open BlockingProjection

namespace BlockingPass

variable (pass : BlockingPass)

/-! ## The assignment by comparing all pairs -/

/-- As a pair, `candidate` may block `node`. -/
structure MayBlock (A : Assignments) (node candidate : NodeHandle) : Prop where
  eligible : pass.checker.eligible pass.projection candidate = true
  older : pass.projection.creationAt candidate < pass.projection.creationAt node
  unblocked : A.isBlocked candidate = false
  allowed : pass.isRejected node candidate = false
  labels : ∃ p q, pass.projection.parentOf node = some p ∧
    pass.projection.parentOf candidate = some q ∧
    pass.projection.SameLabels pass.checker.kind node p candidate q
  ancestor : pass.plan.managerKind = .ancestor → pass.projection.isAncestor candidate node = true

/-- The nearest ancestor that may block, or else the oldest node. Ancestors get older on
the way up, so the nearest is the youngest. -/
structure FirstBlocker (A : Assignments) (node b : NodeHandle) : Prop where
  mayBlock : pass.MayBlock A node b
  first : ∀ c, pass.MayBlock A node c →
    if pass.plan.managerKind = .ancestor
      then pass.projection.creationAt c ≤ pass.projection.creationAt b
    else pass.projection.creationAt b ≤ pass.projection.creationAt c

/-- The assignment of a node, given who is blocked. Only tree nodes have a parent. -/
inductive Expected (A : Assignments) (node : NodeHandle) : BlockingAssignment → Prop
  | root : pass.projection.parentOf node = none → Expected A node (.unblocked node)
  | indirect {p : NodeHandle} : pass.projection.parentOf node = some p → A.isBlocked p = true →
      Expected A node (.indirect node p)
  | direct {p b : NodeHandle} : pass.projection.parentOf node = some p → A.isBlocked p = false →
      pass.checker.eligible pass.projection node = true → pass.FirstBlocker A node b →
      Expected A node (.direct node b)
  | free {p : NodeHandle} : pass.projection.parentOf node = some p → A.isBlocked p = false →
      (pass.checker.eligible pass.projection node = true → ∀ c, ¬ pass.MayBlock A node c) →
      Expected A node (.unblocked node)

/-- Every node has the assignment that is expected of it. -/
def Assigns (A : Assignments) : Prop :=
  (∀ h : NodeHandle, h ∈ A ↔ h ∈ pass.projection.nodes) ∧
    ∀ (h : NodeHandle) (a : BlockingAssignment), A[h]? = some a → pass.Expected A h a

/-! ## There is only one -/

/-- The same nodes are blocked among those older than `node`. -/
def Agree (A A' : Assignments) (node : NodeHandle) : Prop :=
  ∀ x : NodeHandle, pass.projection.creationAt x < pass.projection.creationAt node →
    A.isBlocked x = A'.isBlocked x

variable {pass} {A A' : Assignments} {node b c : NodeHandle} {a a' : BlockingAssignment}

theorem MayBlock.congr (hA : pass.Agree A A' node) (h : pass.MayBlock A node c) :
    pass.MayBlock A' node c :=
  { h with unblocked := by rw [← hA c h.older]; exact h.unblocked }

theorem Agree.symm (hA : pass.Agree A A' node) : pass.Agree A' A node := fun x hx => (hA x hx).symm

theorem FirstBlocker.congr (hA : pass.Agree A A' node) (h : pass.FirstBlocker A node b) :
    pass.FirstBlocker A' node b := ⟨h.mayBlock.congr hA, fun c hc => h.first c (hc.congr hA.symm)⟩

theorem getElem?_eq_none_of_assigns (hA : pass.Assigns A) (hn : node ∉ pass.projection.nodes) :
    A[node]? = none := getElem?_eq_none fun h => hn ((hA.1 node).mp h)

section
variable (hP : pass.projection.Lawful)
include hP

theorem Expected.congr (hA : pass.Agree A A' node)
    (h : pass.Expected A node a) : pass.Expected A' node a := by
  cases h with
  | root hp => exact .root hp
  | indirect hp hb => exact .indirect hp (by rw [← hA _ (hP.creationAt_parent hp)]; exact hb)
  | direct hp hb hel hf =>
    exact .direct hp (by rw [← hA _ (hP.creationAt_parent hp)]; exact hb) hel (hf.congr hA)
  | free hp hb hno =>
    exact .free hp (by rw [← hA _ (hP.creationAt_parent hp)]; exact hb)
      fun hel c hc => hno hel c (hc.congr hA.symm)

theorem eq_of_creationAt (hb : pass.checker.eligible pass.projection b = true)
    (hc : pass.checker.eligible pass.projection c = true)
    (heq : pass.projection.creationAt b = pass.projection.creationAt c) : b = c := by
  obtain ⟨rb, hrb, -⟩ := hP.isTree_iff.mp (eligible_isTree hb)
  obtain ⟨rc, hrc, -⟩ := hP.isTree_iff.mp (eligible_isTree hc)
  rw [creationAt_eq hrb, creationAt_eq hrc] at heq
  exact hP.creation b c rb rc hrb hrc heq

theorem FirstBlocker.unique (hb : pass.FirstBlocker A node b)
    (hc : pass.FirstBlocker A node c) : b = c := by
  refine eq_of_creationAt hP hb.mayBlock.eligible hc.mayBlock.eligible ?_
  have h1 := hb.first c hc.mayBlock
  have h2 := hc.first b hb.mayBlock
  by_cases hk : pass.plan.managerKind = .ancestor
  · rw [if_pos hk] at h1 h2
    omega
  · rw [if_neg hk] at h1 h2
    omega

theorem Expected.unique (h : pass.Expected A node a) (h' : pass.Expected A node a') : a = a' := by
  cases h with
  | root | indirect => cases h' <;> simp_all
  | direct hp hb hel hf =>
    cases h' with
    | root | indirect => simp_all
    | direct _ _ _ hf' => rw [hf.unique hP hf']
    | free _ _ hno => exact absurd hf.mayBlock (hno hel _)
  | free hp hb hno =>
    cases h' with
    | root hp' => rfl
    | indirect hp' hb' => simp_all
    | direct _ _ hel hf' => exact absurd hf'.mayBlock (hno hel _)
    | free _ _ _ => rfl

theorem Assigns.unique (hA : pass.Assigns A) (hA' : pass.Assigns A') : A = A' := by
  have hsame : ∀ (n : Nat) (h : NodeHandle), pass.projection.creationAt h < n → A[h]? = A'[h]? := by
    intro n
    -- by creation: what is expected of a node only depends on older ones
    induction n with
    | zero => exact fun h hlt => absurd hlt (Nat.not_lt_zero _)
    | succ n ih =>
      intro h hlt
      by_cases hmem : h ∈ pass.projection.nodes
      · obtain ⟨a, ha⟩ := mem_iff_found.mp ((hA.1 h).mpr hmem)
        obtain ⟨a', ha'⟩ := mem_iff_found.mp ((hA'.1 h).mpr hmem)
        have hagree : pass.Agree A A' h := fun x hx => by
          unfold Assignments.isBlocked
          rw [ih x (by omega)]
        rw [ha, ha', ((hA.2 h a ha).congr hP hagree).unique hP (hA'.2 h a' ha')]
      · rw [getElem?_eq_none_of_assigns hA hmem, getElem?_eq_none_of_assigns hA' hmem]
  exact ext_getElem? fun h => hsame _ h (Nat.lt_succ_self _)

end

/-! ## A pass in the middle -/

/-- What a pass has found out about the visited nodes is right. -/
structure Exact (pass : BlockingPass) (visited : List NodeHandle) (acc : PassState) : Prop where
  filed : ∀ (key : BlockingKey) (x : NodeHandle), x ∈ acc.index.getD key [] ↔
    x ∈ visited ∧ acc.assignments.isBlocked x = false ∧
      ∃ s, pass.checker.signature pass.projection x = .ok s ∧ s.blockingKey = key
  expected : ∀ (h : NodeHandle) (a : BlockingAssignment), acc.assignments[h]? = some a →
    pass.Expected acc.assignments h a

variable {visited : List NodeHandle} {acc : PassState} {s : BlockingSignature}

/-- Everything older than the node has been visited, and nothing else. -/
def Next (pass : BlockingPass) (visited : List NodeHandle) (node : NodeHandle) : Prop :=
  ∀ x : NodeHandle, x ∈ visited ↔
    x ∈ pass.projection.nodes ∧ pass.projection.creationAt x < pass.projection.creationAt node

theorem any_unblocked_iff :
    A[c]?.any (fun value => !value.blocked) = true ↔ (∃ a, A[c]? = some a) ∧
      A.isBlocked c = false := by
  unfold Assignments.isBlocked
  cases A[c]? <;> simp

theorem mem_nodes_of_eligible (h : pass.checker.eligible pass.projection c = true) :
    c ∈ pass.projection.nodes := by
  obtain ⟨r, hr, -⟩ := (Option.any_eq_true _ _).mp (eligible_isTree h)
  exact mem_iff_found.mpr ⟨_, hr⟩

theorem parentOf_of_eligible (hP : pass.projection.Lawful)
    (h : pass.checker.eligible pass.projection c = true) :
    ∃ q, pass.projection.parentOf c = some q := by
  obtain ⟨r, hr, hk⟩ := hP.isTree_iff.mp (eligible_isTree h)
  obtain ⟨q, _, hq, -, -⟩ := hP.tree c r hr hk
  exact ⟨q, parentOf_eq_some.mpr ⟨r, hr, hq⟩⟩

theorem find?_before {α : Type} {R : α → α → Prop} {l : List α} (hl : l.Pairwise R)
    {f : α → Bool} {b c : α}
    (hb : l.find? f = some b) (hc : c ∈ l) (hfc : f c = true) : c = b ∨ R b c := by
  induction l with
  | nil => cases hc
  | cons x l ih =>
    obtain ⟨hx, hl⟩ := pairwise_cons.mp hl
    by_cases hfx : f x = true
    · rw [find?_cons_of_pos hfx] at hb
      cases hb
      exact (mem_cons.mp hc).imp_right (hx c)
    · rw [find?_cons_of_neg hfx] at hb
      rcases mem_cons.mp hc with rfl | hc
      · exact absurd hfc hfx
      · exact ih hl hb hc

theorem mem_indexed {key : BlockingKey} {x : NodeHandle} : x ∈ (pass.indexed acc node).getD key [] ↔
    x ∈ acc.index.getD key [] ∨ (x = node ∧ (pass.assignment acc node).blocked = false ∧
      ∃ s, pass.checker.signature pass.projection node = .ok s ∧ s.blockingKey = key) := by
  unfold indexed
  split
  · rename_i hb
    simp [hb]
  · rename_i hb
    split
    · rename_i hs
      simp [hs]
    · rename_i s hs
      rw [getD_insert]
      by_cases hkey : s.blockingKey = key
      · subst hkey
        simp [hs, hb]
      · rw [if_neg fun h => hkey (Std.compare_eq_iff_eq.mp h)]
        simp [hs, hkey]

section Step

variable (hP : pass.projection.Lawful) (ht : pass.Tidy visited acc) (he : pass.Exact visited acc)
  (hnext : pass.Next visited node)

include hP ht he hnext

/-- The candidates that are accepted are those that comparing all pairs would find. -/
theorem accepted_iff {p : NodeHandle} (hp : pass.projection.parentOf node = some p)
    (hs : pass.checker.signature pass.projection node = .ok s) :
    c ∈ pass.candidates node s acc ∧ pass.accepts node s acc.assignments c = true ↔
      pass.MayBlock acc.assignments node c := by
  unfold candidates accepts
  rw [Bool.and_eq_true, Bool.and_eq_true, any_unblocked_iff, ht.assigned, Bool.not_eq_true']
  by_cases hk : pass.plan.managerKind = .ancestor
  · rw [if_pos hk, if_pos hk, Bool.and_eq_true]
    constructor
    · rintro ⟨hmem, ⟨⟨-, hun⟩, hel, hblocks⟩, hrej⟩
      obtain ⟨s', hs'⟩ := hP.signature_of_eligible hel
      obtain ⟨q, hq⟩ := parentOf_of_eligible hP hel
      unfold ancestorBlocks at hblocks
      rw [hs'] at hblocks
      refine ⟨hel, hP.creationAt_chain hmem, hun, hrej, ⟨p, q, hp, hq, ?_⟩, fun _ =>
        isAncestorLoop_iff.mpr hmem⟩
      exact (blockingKey_eq_iff hs hs' hp hq).mp (blocks_iff.mp hblocks).symm
    · rintro ⟨hel, hlt, hun, hrej, ⟨p', q, hp', hq, hsame⟩, hanc⟩
      obtain ⟨s', hs'⟩ := hP.signature_of_eligible hel
      rw [hp] at hp'
      cases hp'
      have hblocks : pass.ancestorBlocks s c = true := by
        unfold ancestorBlocks
        rw [hs']
        exact blocks_iff.mpr ((blockingKey_eq_iff hs hs' hp hq).mpr hsame).symm
      exact ⟨isAncestorLoop_iff.mp (hanc hk),
        ⟨⟨(hnext c).mpr ⟨mem_nodes_of_eligible hel, hlt⟩, hun⟩, hel, hblocks⟩, hrej⟩
  · rw [if_neg hk, if_neg hk, he.filed, Bool.not_eq_true']
    constructor
    · rintro ⟨⟨hvis, hun, s', hs', hkey⟩, -, hrej⟩
      have hel := signature_eligible hs'
      obtain ⟨q, hq⟩ := parentOf_of_eligible hP hel
      refine ⟨hel, ((hnext c).mp hvis).2, hun, hrej, ⟨p, q, hp, hq, ?_⟩, fun h => absurd h hk⟩
      exact (blockingKey_eq_iff hs hs' hp hq).mp hkey.symm
    · rintro ⟨hel, hlt, hun, hrej, ⟨p', q, hp', hq, hsame⟩, -⟩
      obtain ⟨s', hs'⟩ := hP.signature_of_eligible hel
      rw [hp] at hp'
      cases hp'
      have hvis := (hnext c).mpr ⟨mem_nodes_of_eligible hel, hlt⟩
      -- an older node is no descendant
      have hanc : pass.projection.isAncestor node c = false := by
        by_contra h
        have := hP.creationAt_ancestor (Bool.not_eq_false _ ▸ h)
        omega
      exact ⟨⟨hvis, hun, s', hs', ((blockingKey_eq_iff hs hs' hp hq).mpr hsame).symm⟩,
        ⟨⟨hvis, hun⟩, hanc⟩, hrej⟩

variable (hsub : visited.Sublist pass.projection.orderedNodes)
include hsub

theorem firstBlocker_of_find {p : NodeHandle} (hp : pass.projection.parentOf node = some p)
    (hs : pass.checker.signature pass.projection node = .ok s)
    (hb : (pass.candidates node s acc).find? (pass.accepts node s acc.assignments) = some b) :
    pass.FirstBlocker acc.assignments node b := by
  refine ⟨(accepted_iff hP ht he hnext hp hs).mp ⟨mem_of_find?_eq_some hb, find?_some hb⟩, ?_⟩
  intro c hc
  obtain ⟨hmem, hacc⟩ := (accepted_iff hP ht he hnext hp hs).mpr hc
  unfold candidates at hb hmem
  by_cases hk : pass.plan.managerKind = .ancestor
  · rw [if_pos hk] at hb hmem ⊢
    rcases find?_before (hP.chain_pairwise _) hb hmem hacc with rfl | hlt
    · exact le_rfl
    · exact Nat.le_of_lt hlt
  · rw [if_neg hk] at hb hmem ⊢
    have hsorted : (acc.index.getD s.blockingKey []).Pairwise fun a b =>
        pass.projection.creationAt a < pass.projection.creationAt b := by
      rw [getD_eq_getD_getElem?]
      cases hbucket : acc.index[s.blockingKey]? with
      | none => exact .nil
      | some bucket => exact hP.ordered.sublist ((ht.filed _ bucket hbucket).2.1.trans hsub)
    rcases find?_before hsorted hb hmem hacc with rfl | hlt
    · exact le_rfl
    · exact Nat.le_of_lt hlt

theorem expected_assignment : pass.Expected acc.assignments node (pass.assignment acc node) := by
  cases hp : pass.projection.parentOf node with
  | none =>
    rw [assignment_root hp]
    exact .root hp
  | some p =>
    by_cases hb : acc.assignments.isBlocked p = true
    · rw [assignment_indirect hp hb]
      exact .indirect hp hb
    · by_cases hel : pass.checker.eligible pass.projection node = true
      · obtain ⟨s, hs⟩ := hP.signature_of_eligible hel
        rw [assignment_direct hp hb hs]
        unfold directAssignment
        cases hf : (pass.candidates node s acc).find? (pass.accepts node s acc.assignments) with
        | none =>
          refine .free hp (Bool.eq_false_iff.mpr hb) fun _ c hc => ?_
          obtain ⟨hmem, hacc⟩ := (accepted_iff hP ht he hnext hp hs).mpr hc
          exact find?_eq_none.mp hf c hmem hacc
        | some b =>
          exact .direct hp (Bool.eq_false_iff.mpr hb) hel
            (firstBlocker_of_find hP ht he hnext hsub hp hs hf)
      · rw [assignment_ineligible hp hb hel]
        exact .free hp (Bool.eq_false_iff.mpr hb) fun h => absurd h hel

theorem Exact.sweepNode : pass.Exact (visited ++ [node]) (pass.sweepNode acc node) := by
  have hfresh : node ∉ visited := fun h => absurd ((hnext node).mp h).2 (Nat.lt_irrefl _)
  have hblocked : ∀ x : NodeHandle, node ≠ x →
      (pass.sweepNode acc node).assignments.isBlocked x = acc.assignments.isBlocked x := by
    intro x hne
    unfold Assignments.isBlocked
    rw [getElem?_sweepNode, if_neg hne]
  have hnode : (pass.sweepNode acc node).assignments.isBlocked node =
      (pass.assignment acc node).blocked := by
    unfold Assignments.isBlocked
    rw [getElem?_sweepNode, if_pos rfl]
    rfl
  -- who is older than a visited node, or than the new one, is not the new one
  have hagree : ∀ h : NodeHandle, h ∈ visited ∨ h = node →
      pass.Agree acc.assignments (pass.sweepNode acc node).assignments h := by
    intro h hh x hx
    refine (hblocked x ?_).symm
    rintro rfl
    rcases hh with hh | rfl
    · have := ((hnext h).mp hh).2
      omega
    · omega
  refine ⟨fun key x => ?_, fun h a ha => ?_⟩
  · have hindex : x ∈ (pass.sweepNode acc node).index.getD key [] ↔ _ := mem_indexed
    rw [hindex, he.filed, mem_append, mem_singleton]
    by_cases heq : x = node
    · subst heq
      simp [hfresh, hnode]
    · rw [hblocked x (Ne.symm heq)]
      simp [heq]
  · rcases sweepNode_cases ha with ⟨rfl, rfl⟩ | ha
    · exact (expected_assignment hP ht he hnext hsub).congr hP (hagree h (.inr rfl))
    · exact (he.expected h a ha).congr hP (hagree h (.inl ((ht.assigned h).mp ⟨a, ha⟩)))

end Step

theorem Exact.foldl (hP : pass.projection.Lawful) {rest : List NodeHandle}
    (ht : pass.Tidy visited acc)
    (he : pass.Exact visited acc) (hall : visited ++ rest = pass.projection.orderedNodes) :
    pass.Exact (visited ++ rest) (rest.foldl pass.sweepNode acc) := by
  induction rest generalizing visited acc with
  | nil => simpa using he
  | cons node rest ih =>
    have hassoc : visited ++ node :: rest = (visited ++ [node]) ++ rest := by simp
    have hsub : visited.Sublist pass.projection.orderedNodes := by
      rw [← hall]
      exact sublist_append_left _ _
    obtain ⟨r, hr⟩ := hP.mem_ordered.mp (by rw [← hall]; exact mem_append_right _ mem_cons_self)
    have hpair := hP.ordered
    rw [← hall, pairwise_append, pairwise_cons] at hpair
    have hnext : pass.Next visited node := by
      intro x
      rw [mem_iff_isSome_getElem?, Option.isSome_iff_exists, ← hP.mem_ordered, ← hall,
        mem_append, mem_cons]
      refine ⟨fun hx => ⟨.inl hx, hpair.2.2 x hx node mem_cons_self⟩, ?_⟩
      rintro ⟨hx | rfl | hx, hlt⟩
      · exact hx
      · omega
      · have := hpair.2.1.1 x hx
        omega
    rw [foldl_cons, hassoc]
    exact ih (ht.sweepNode hP hr fun x hx => ((hnext x).mp hx).2) (he.sweepNode hP ht hnext hsub)
      (by rw [← hassoc]; exact hall)

theorem exact_empty : pass.Exact [] ⟨∅, ∅, none⟩ where
  filed key x := by simp
  expected h a ha := by simp at ha

theorem assigns_sweep (hP : pass.projection.Lawful) :
    pass.Assigns (pass.sweep pass.projection.orderedNodes).assignments := by
  refine ⟨fun h => ?_, (exact_empty.foldl hP tidy_empty rfl).expected⟩
  rw [mem_iff_isSome_getElem?, mem_iff_isSome_getElem?, Option.isSome_iff_exists,
    Option.isSome_iff_exists, ← hP.mem_ordered]
  exact (tidy_sweep hP (List.Sublist.refl _)).assigned h

theorem foldl_cache (acc : PassState) (rest : List NodeHandle)
    (cache : Option BlockingSignatureCache) :
    (rest.foldl pass.sweepNode { acc with cache }).assignments =
      (rest.foldl pass.sweepNode acc).assignments := by
  induction rest generalizing acc with
  | nil => rfl
  | cons node rest ih => exact ih (pass.sweepNode acc node)

/-- A full recomputation without cache returns the one assignment of its projection, unless
it is halted. Whoever blocks is older, so it is not the node itself, nor a descendant. -/
theorem recompute_assigns (hP : pass.projection.Lawful)
    (hkind : pass.checker.kind = pass.plan.directCheckerKind) (acc : PassState)
    (hcache : pass.Uncached acc) (w : BlockingWork) : ∃ A, (∀ A', pass.Assigns A' ↔ A' = A) ∧
      (∀ (h : NodeHandle) (a : BlockingAssignment) (b : NodeHandle), A[h]? = some a →
        a.blocker = some b → pass.projection.creationAt b < pass.projection.creationAt h ∧ b ≠ h ∧
          pass.projection.isAncestor h b = false) ∧
      wp (pass.recompute none acc) (fun result _ => result.1.assignments = A)
        (fun e _ => Halted pass.control e ∧ ((∃ i, pass.control i = .error e) ∨
          pass.limits.maxCandidateChecks < pass.projection.nodes.size *
          pass.projection.nodes.size)) w := by
  have hassigns := assigns_sweep hP
  refine ⟨_, fun A' => ⟨fun h => h.unique hP hassigns, fun h => h ▸ hassigns⟩, ?_, ?_⟩
  · intro h a b ha hb
    have hlt := ((tidy_sweep hP (List.Sublist.refl _)).blocker h a b ha hb).2.2
    refine ⟨hlt, fun heq => ?_, ?_⟩
    · rw [heq] at hlt
      omega
    · by_contra hanc
      have := hP.creationAt_ancestor (Bool.not_eq_false _ ▸ hanc)
      omega
  · refine wp_imp (wp_recompute_full hP hkind hcache w) (fun result _ hfound => ?_)
    rw [hfound]
    exact foldl_cache ⟨∅, ∅, none⟩ _ acc.cache

end BlockingPass

namespace BlockersSample

open BlockingSample

/-- Only one of the children is there by a role. -/
def state : BlockingState := siblings [⟨0, 5, [root, younger], false, true⟩]

def vocabulary : BlockingVocabulary := ⟨∅, .ofList [5]⟩

def pass : BlockingPass where
  projection := state.projection vocabulary
  checker := ⟨.validatedPairwise, vocabulary, false⟩
  plan := ⟨.validatedAnywhere, .validatedPairwise, .simple, false⟩
  rejectedBlocks := ∅
  limits := .default
  control := neverCancel

def fresh : PassState := ⟨∅, ∅, none⟩

theorem pass_lawful : pass.projection.Lawful := by
  have hsome : (returned (fromState state vocabulary .default neverCancel) ⟨0, {}⟩).isSome =
      true := by
    decide +kernel
  obtain ⟨P, hP⟩ := Option.isSome_iff_exists.mp hsome
  obtain ⟨rfl, hlawful⟩ := wp_ok (wp_fromState (siblings_parentsOlder _) ⟨0, {}⟩)
    (eq_ok_of_returned hP)
  exact hlawful

/-- A validated pairwise checker blocks a node whose edges are labelled otherwise than those
of the blocker. -/
theorem edges_not_compared : pass.projection.Lawful ∧ pass.checker.kind = .validatedPairwise ∧
    pass.checker.kind = pass.plan.directCheckerKind ∧ fresh.cache = none ∧
    pass.projection.parentOf younger = some root ∧ pass.projection.parentOf elder = some root ∧
    pass.projection.roleLabel root younger false = [5] ∧
      pass.projection.roleLabel root elder false = [] ∧
    (returned (pass.recompute none fresh) ⟨0, {}⟩).bind (·.1.assignments[younger]?) =
      some (.direct younger elder) := by
  refine ⟨pass_lawful, rfl, rfl, rfl, ?_⟩
  decide +kernel

theorem sample_assigned : pass.projection.Lawful ∧ ∃ A, (∀ A', pass.Assigns A' ↔ A' = A) ∧
    wp (pass.recompute none fresh) (fun result _ => result.1.assignments = A)
      (fun e _ => Halted pass.control e) ⟨0, {}⟩ := by
  obtain ⟨A, hA, -, hwp⟩ := BlockingPass.recompute_assigns pass_lawful rfl fresh (.inr rfl) ⟨0, {}⟩
  exact ⟨pass_lawful, A, hA, wp_fail hwp fun _ _ he => he.1⟩

end BlockersSample

end PyHermit
