import PyHermit.Proof.Projecting

/-!
# One pass of blocking

`BlockingPass.sweepNode` is what visiting a node does once the control and the counters
are left out: it gives the node its assignment and files it as a blocker. Without a
cache a pass computes exactly this (`wp_visitNode`), or it is halted.

`Tidy` holds in the middle of a pass: the visited nodes are assigned, a blocker is an older
tree node, and what is filed as a blocker is unblocked and eligible.
-/

open Std Prog List

namespace PyHermit

open BlockingProjection

namespace BlockingPass

variable (pass : BlockingPass)

/-! ## Without control and counters -/

variable (node : NodeHandle) (signature : BlockingSignature) (acc : PassState)

/-- Where a blocker is looked for, in order. -/
def candidates : List NodeHandle :=
  if pass.plan.managerKind = .ancestor then
    pass.projection.chain pass.projection.nodes.size (pass.projection.parentOf node)
  else acc.index.getD signature.blockingKey []

/-- The ancestor's signature blocks. -/
def ancestorBlocks (candidate : NodeHandle) : Bool :=
  match pass.checker.signature pass.projection candidate with
  | .ok other => other.blocks signature
  | .error _ => false

/-- Whether a candidate is taken as the blocker. -/
def accepts (assignments : Assignments) (candidate : NodeHandle) : Bool :=
  assignments[candidate]?.any (fun value => !value.blocked) &&
    (if pass.plan.managerKind = .ancestor then
      pass.checker.canBeBlocker pass.projection candidate && pass.ancestorBlocks signature candidate
    else !pass.projection.isAncestor node candidate) && !pass.isRejected node candidate

/-- The blocker of an eligible node with an unblocked parent. -/
def directAssignment : BlockingAssignment :=
  ((pass.candidates node signature acc).find? (pass.accepts node signature acc.assignments)).elim
    (.unblocked node) (.direct node)

/-- The assignment of a node, given those of the nodes before it. -/
def assignment (node : NodeHandle) : BlockingAssignment :=
  match pass.projection.parentOf node with
  | none => .unblocked node
  | some parent =>
    if acc.assignments.isBlocked parent then .indirect node parent
    else
      match pass.checker.signature pass.projection node with
      | .error _ => .unblocked node
      | .ok signature => pass.directAssignment node signature acc

/-- The index once the node has its assignment. -/
def indexed (node : NodeHandle) : BlockerIndex :=
  if (pass.assignment acc node).blocked then acc.index
  else
    match pass.checker.signature pass.projection node with
    | .error _ => acc.index
    | .ok signature =>
      acc.index.insert signature.blockingKey (acc.index.getD signature.blockingKey [] ++ [node])

def sweepNode (node : NodeHandle) : PassState where
  assignments := acc.assignments.insert node (pass.assignment acc node)
  index := pass.indexed acc node
  cache := acc.cache

/-- The pass over the given nodes, from nothing. -/
def sweep (nodes : List NodeHandle) : PassState := nodes.foldl pass.sweepNode ⟨∅, ∅, none⟩

section Assignment

variable {pass} {acc : PassState} {node parent : NodeHandle}

theorem assignment_root (hp : pass.projection.parentOf node = none) :
    pass.assignment acc node = .unblocked node := by
  unfold assignment
  rw [hp]

section
variable (hp : pass.projection.parentOf node = some parent)
include hp

theorem assignment_indirect (hb : acc.assignments.isBlocked parent = true) :
    pass.assignment acc node = .indirect node parent := by
  unfold assignment
  simp only [hp, if_pos hb]

theorem assignment_direct (hb : ¬ acc.assignments.isBlocked parent = true)
    {signature : BlockingSignature}
    (hs : pass.checker.signature pass.projection node = .ok signature) :
    pass.assignment acc node = pass.directAssignment node signature acc := by
  unfold assignment
  simp only [hp, if_neg hb, hs]

theorem assignment_ineligible (hb : ¬ acc.assignments.isBlocked parent = true)
    (hs : ¬ pass.checker.eligible pass.projection node = true) :
    pass.assignment acc node = .unblocked node := by
  unfold assignment
  cases hsig : pass.checker.signature pass.projection node with
  | ok signature => exact absurd (signature_eligible hsig) hs
  | error e => simp only [hp, if_neg hb]

end

end Assignment

/-! ## The pass computes this -/

/-- The pass stopped because the control said so, or because it had made more checks than
allowed; it had made at most `bound`. -/
def Stops (bound : Nat) (e : BlockingError) (w : BlockingWork) : Prop :=
  Halted pass.control e ∧ w.stats.candidateChecks ≤ bound ∧
    ((∃ i, pass.control i = .error e) ∨ pass.limits.maxCandidateChecks < w.stats.candidateChecks)

variable {pass} {α : Type} {w : BlockingWork} {bound bound' : Nat}
  {E : BlockingError → BlockingWork → Prop} {h node : NodeHandle} {signature : BlockingSignature}
  {assignments : Assignments} {r : NodeRecord} {acc : PassState} {a : BlockingAssignment}

theorem Stops.mono {e : BlockingError} (h : pass.Stops bound e w) (hb : bound ≤ bound') :
    pass.Stops bound' e w := ⟨h.1, Nat.le_trans h.2.1 hb, h.2.2⟩

/-- The program returns the value, or is stopped; it leaves at most `bound` checks made. -/
def Finds (pass : BlockingPass) (m : BlockingM α) (value : α) (bound : Nat)
    (w : BlockingWork) : Prop :=
  wp m (fun found w' => found = value ∧ w'.stats.candidateChecks ≤ bound) (pass.Stops bound) w

theorem Finds.mono {m : BlockingM α} {value : α} (h : pass.Finds m value bound w)
    (hb : bound ≤ bound') : pass.Finds m value bound' w :=
  wp_mono h (fun _ _ hf => ⟨hf.1, Nat.le_trans hf.2 hb⟩) fun _ _ hs => hs.mono hb

theorem stops_of_control {e : BlockingError} (hi : ∃ i, pass.control i = .error e)
    (hb : w.stats.candidateChecks ≤ bound) : pass.Stops bound e w := ⟨.inl hi, hb, .inl hi⟩

theorem wp_candidateStep {Q : Unit → BlockingWork → Prop}
    (hok : ∀ w', w'.stats.candidateChecks = w.stats.candidateChecks + 1 → Q () w')
    (herr : ∀ e w', pass.Stops (w.stats.candidateChecks + 1) e w' → E e w') :
    wp pass.candidateStep Q E w := by
  refine wp_modify_then.mpr (wp_get_then.mpr ?_)
  refine wp_ensure_then (fun _ => ?_) fun hgt => herr _ _ ?_
  · refine wp_pollEvery (fun w' hw => hok w' (by rw [hw])) fun e w' hw hi => herr e w' ?_
    exact stops_of_control hi (by rw [hw])
  · rw [Nat.not_le] at hgt
    exact ⟨.inr ⟨_, _, _, _, hgt, rfl⟩, le_rfl, .inr hgt⟩

theorem wp_anywhereBlocker (hkind : pass.plan.managerKind ≠ .ancestor) {bucket : List NodeHandle} :
    pass.Finds (pass.anywhereBlocker node assignments bucket)
      (bucket.find? (pass.accepts node signature assignments))
      (w.stats.candidateChecks + bucket.length) w := by
  induction bucket generalizing w with
  | nil => exact ⟨rfl, le_rfl⟩
  | cons x bucket ih =>
    have hacc : (assignments[x]?.any (fun value => !value.blocked) &&
        !pass.projection.isAncestor node x && !pass.isRejected node x) =
          pass.accepts node signature assignments x := by
      unfold accepts
      rw [if_neg hkind]
    rw [length_cons]
    refine wp_bind.mpr (wp_candidateStep (fun w' hw => ?_) fun e w' hs => hs.mono (by omega))
    rw [hacc]
    refine wp_ite (fun ht => ?_) fun hf => ?_
    · rw [find?_cons_of_pos ht]
      exact ⟨rfl, by omega⟩
    · rw [find?_cons_of_neg hf]
      exact ih.mono (by omega)

/-- No cache is consulted: the plan forbids it, or there is none. -/
def Uncached (pass : BlockingPass) (acc : PassState) : Prop :=
  pass.plan.cacheAllowed = false ∨ acc.cache = none

/-- How many candidates a visit may check. -/
def CandidateBound (pass : BlockingPass) (acc : PassState) (node : NodeHandle)
    (bound : Nat) : Prop :=
  ∀ signature, pass.checker.signature pass.projection node = .ok signature →
    (pass.candidates node signature acc).length ≤ bound

section
variable (hP : pass.projection.Lawful)
include hP

theorem wp_acceptsAncestor (hkind : pass.plan.managerKind = .ancestor)
    {candidate : NodeHandle} {Q : Bool → BlockingWork → Prop}
    (hok : Q (pass.accepts node signature assignments candidate) w) :
    wp (pass.acceptsAncestor node signature assignments candidate) Q E w := by
  have heq : pass.accepts node signature assignments candidate =
      ((assignments[candidate]?.any (fun value => !value.blocked) &&
        pass.checker.canBeBlocker pass.projection candidate) &&
          pass.ancestorBlocks signature candidate && !pass.isRejected node candidate) := by
    unfold accepts
    rw [if_pos hkind, ← Bool.and_assoc]
  rw [heq] at hok
  refine wp_ite (fun hc => ?_) fun hc => ?_
  · obtain ⟨other, hother⟩ := hP.signature_of_eligible (Bool.and_eq_true_iff.mp hc).2
    refine wp_ask_then (fun s hs => ?_) fun e he => by rw [hother] at he; cases he
    have hblocks : pass.ancestorBlocks signature candidate = s.blocks signature := by
      unfold ancestorBlocks
      rw [hs]
    rw [hc, hblocks, Bool.true_and] at hok
    exact hok
  · rw [Bool.eq_false_iff.mpr hc, Bool.false_and, Bool.false_and] at hok
    exact hok

/-- The walk up finds the first ancestor that is accepted. -/
theorem wp_ancestorBlocker (hkind : pass.plan.managerKind = .ancestor)
    {n : Nat} {h : Option NodeHandle} (hn : ∀ x, h = some x → pass.projection.age x < n) :
    pass.Finds (pass.ancestorBlocker node signature assignments n h)
      ((pass.projection.chain n h).find? (pass.accepts node signature assignments))
      (w.stats.candidateChecks + (pass.projection.chain n h).length) w := by
  induction n generalizing h w with
  | zero =>
    cases h with
    | none => exact ⟨rfl, le_rfl⟩
    | some x => exact absurd (hn x rfl) (by omega)
  | succ n ih =>
    cases h with
    | none => exact ⟨rfl, le_rfl⟩
    | some x =>
      have hlen : (pass.projection.chain (n + 1) (some x)).length =
        (pass.projection.chain n (pass.projection.parentOf x)).length + 1 := rfl
      refine wp_bind.mpr (wp_candidateStep (fun w' hw => ?_) fun e w' hs => hs.mono (by omega))
      refine wp_bind.mpr (wp_acceptsAncestor hP hkind ?_)
      unfold BlockingProjection.chain
      by_cases hacc : pass.accepts node signature assignments x = true
      · rw [if_pos hacc, find?_cons_of_pos hacc, length_cons]
        exact ⟨rfl, by omega⟩
      · rw [if_neg hacc, find?_cons_of_neg hacc, length_cons]
        refine (ih ?_).mono (by omega)
        intro p hp
        have := hP.age_parent hp
        have := hn x rfl
        omega

theorem wp_indexNode : wp (pass.indexNode node (pass.assignment acc node) acc.index)
    (fun index w' => index = pass.indexed acc node ∧
      w'.stats.candidateChecks = w.stats.candidateChecks)
    (fun _ _ => False) w := by
  unfold indexed
  refine wp_ite (fun hc => ?_) fun hc => ?_
  · obtain ⟨hb, hcan⟩ := Bool.and_eq_true_iff.mp hc
    obtain ⟨signature, hsig⟩ := hP.signature_of_eligible hcan
    rw [if_neg (by simpa using hb), hsig]
    refine wp_ask_then (fun s hs => ?_) fun e he => by cases he
    cases hs
    exact ⟨rfl, rfl⟩
  · refine wp_pure.mpr ⟨?_, rfl⟩
    by_cases hb : (pass.assignment acc node).blocked = true
    · rw [if_pos hb]
    · rw [if_neg hb]
      cases hsig : pass.checker.signature pass.projection node with
      | error e => rfl
      | ok signature =>
        refine absurd (Bool.and_eq_true_iff.mpr ⟨?_, signature_eligible hsig⟩) hc
        rw [Bool.not_eq_true] at hb
        rw [hb]
        rfl

variable (hr : pass.projection.nodes[node]? = some r)
include hr

theorem wp_findBlocker : pass.Finds (pass.findBlocker node signature acc)
    ((pass.candidates node signature acc).find? (pass.accepts node signature acc.assignments))
    (w.stats.candidateChecks + (pass.candidates node signature acc).length) w := by
  unfold candidates
  refine wp_ite (fun hk => ?_) fun hk => ?_
  · rw [if_pos hk]
    refine wp_ancestorBlocker hP hk fun p hp => ?_
    have := hP.age_parent hp
    have := hP.age_lt hr
    omega
  · rw [if_neg hk]
    exact wp_anywhereBlocker hk

theorem wp_assignDirectly (hcache : pass.Uncached acc)
    (hsig : pass.checker.signature pass.projection node = .ok signature) :
    pass.Finds (pass.assignDirectly node acc) (pass.directAssignment node signature acc, acc.cache)
      (w.stats.candidateChecks + (pass.candidates node signature acc).length) w := by
  have hlookup : cacheLookup pass.plan acc.cache signature = .ok (false, acc.cache) := by
    unfold cacheLookup
    split
    · rename_i hallowed hsome
      rcases hcache with hcache | hcache
      · rw [hallowed] at hcache
        cases hcache
      · rw [hsome] at hcache
        cases hcache
    · rfl
  refine wp_ask_known hsig (wp_modify_then.mpr (wp_ask_known hlookup ?_))
  refine wp_then (wp_findBlocker hP hr) ?_ fun e w' hs => hs
  rintro found w' ⟨rfl, hw⟩
  exact ⟨rfl, hw⟩

theorem wp_assignNode (hcache : pass.Uncached acc) (hbound : pass.CandidateBound acc node bound) :
    pass.Finds (pass.assignNode node r acc) (pass.assignment acc node, acc.cache)
      (w.stats.candidateChecks + bound) w := by
  have hparent : pass.projection.parentOf node = r.parent := by
    unfold BlockingProjection.parentOf
    rw [hr]
    rfl
  refine wp_ite (fun hk => ?_) fun hk => ?_
  · rw [assignment_root (hparent.trans (hP.nonTree node r hr hk))]
    exact ⟨rfl, Nat.le_add_right _ _⟩
  · obtain ⟨p, rp, hp, -, -⟩ := hP.tree node r hr (not_not.mp hk)
    rw [hp] at hparent
    simp only [hp]
    refine wp_ite (fun hb => ?_) fun hb => ?_
    · rw [assignment_indirect hparent hb]
      exact ⟨rfl, Nat.le_add_right _ _⟩
    · refine wp_ite (fun hcan => ?_) fun hcan => ?_
      · obtain ⟨signature, hsig⟩ := hP.signature_of_eligible hcan
        have := hbound signature hsig
        rw [assignment_direct hparent hb hsig]
        exact (wp_assignDirectly hP hr hcache hsig).mono (by omega)
      · rw [assignment_ineligible hparent hb hcan]
        exact ⟨rfl, Nat.le_add_right _ _⟩

/-- Visiting a projected node sweeps it, or is halted. -/
theorem wp_visitNode (hcache : pass.Uncached acc) (hbound : pass.CandidateBound acc node bound) :
    pass.Finds (pass.visitNode acc node) (pass.sweepNode acc node)
    (w.stats.candidateChecks + bound) w := by
  refine wp_modify_then.mpr (wp_get_then.mpr (wp_bind.mpr ?_))
  refine wp_pollEvery (fun w' hw => ?_) fun e w' hw hi => stops_of_control hi (by rw [hw]; simp)
  have hchecks : w'.stats.candidateChecks = w.stats.candidateChecks := by rw [hw]
  rw [hr]
  refine wp_then (wp_assignNode hP hr hcache hbound) ?_ fun e w'' hs => hs.mono (by omega)
  rintro _ w1 ⟨rfl, hw1⟩
  refine wp_then (wp_indexNode hP) ?_ fun _ _ => False.elim
  rintro _ w2 ⟨rfl, hw2⟩
  exact wp_pure.mpr ⟨rfl, by omega⟩

end

/-! ## A pass in the middle -/

/-- An assignment of the node that a pass without cache can make. -/
structure Plain (h : NodeHandle) (a : BlockingAssignment) : Prop where
  node : a.node = h
  uncached : a.fromCache = false
  directly : a.blocker = none → a.directly = false

theorem plain_unblocked (h : NodeHandle) : Plain h (.unblocked h) := ⟨rfl, rfl, fun _ => rfl⟩

theorem Plain.blocked (ha : Plain h a) : a.blocked = a.blocker.isSome := by
  unfold BlockingAssignment.blocked
  rw [ha.uncached, Bool.or_false]

theorem Plain.eq_unblocked (ha : Plain h a) (hun : a.blocked = false) : a = .unblocked h := by
  rw [ha.blocked, Option.isSome_eq_false_iff, Option.isNone_iff_eq_none] at hun
  obtain ⟨node, blocker, directly, fromCache⟩ := a
  obtain ⟨rfl, rfl, hd⟩ := ha
  cases hun
  rw [show directly = false from hd rfl]
  rfl

/-- What holds when the nodes of `visited` have been visited. -/
structure Tidy (pass : BlockingPass) (visited : List NodeHandle) (acc : PassState) : Prop where
  uncached : acc.cache = none
  assigned : ∀ h : NodeHandle, (∃ a, acc.assignments[h]? = some a) ↔ h ∈ visited
  plain : ∀ (h : NodeHandle) (a : BlockingAssignment), acc.assignments[h]? = some a → Plain h a
  /-- Blocker and blocked are tree nodes, and the blocker is the older one. -/
  blocker : ∀ (h : NodeHandle) (a : BlockingAssignment) (b : NodeHandle),
    acc.assignments[h]? = some a →
    a.blocker = some b → pass.projection.isTree h = true ∧ pass.projection.isTree b = true ∧
      pass.projection.creationAt b < pass.projection.creationAt h
  /-- What is filed has been visited, is eligible and not blocked. -/
  filed : ∀ (key : BlockingKey) (bucket : List NodeHandle), acc.index[key]? = some bucket →
    bucket ≠ [] ∧ bucket.Sublist visited ∧ ∀ x ∈ bucket,
    pass.checker.eligible pass.projection x = true ∧
      ∃ a, acc.assignments[x]? = some a ∧ a.blocked = false

theorem tidy_empty : pass.Tidy [] ⟨∅, ∅, none⟩ where
  uncached := rfl
  assigned h := by simp
  plain h a ha := by simp at ha
  blocker h a b ha := by simp at ha
  filed key bucket hb := by simp at hb

theorem assignment_plain (acc : PassState) (node : NodeHandle) :
    Plain node (pass.assignment acc node) := by
  unfold assignment directAssignment
  split
  · exact plain_unblocked node
  · split
    · exact ⟨rfl, rfl, nofun⟩
    · split
      · exact plain_unblocked node
      · rename_i signature _
        cases (pass.candidates node signature acc).find?
          (pass.accepts node signature acc.assignments) with
        | none => exact plain_unblocked node
        | some blocker => exact ⟨rfl, rfl, nofun⟩

theorem isBlocked_iff : assignments.isBlocked h = true ↔ ∃ a, assignments[h]? = some a ∧
      a.blocked = true := by
  unfold Assignments.isBlocked
  rw [Option.any_eq_true]

theorem eligible_isTree {P : BlockingProjection} {checker : DirectChecker} {x : NodeHandle}
    (h : checker.eligible P x = true) : P.isTree x = true := by
  rw [eligible_eq] at h
  exact (Bool.and_eq_true_iff.mp h).1

section Step

variable {visited : List NodeHandle} {acc : PassState} {node : NodeHandle} {r : NodeRecord}

theorem getElem?_sweepNode : (pass.sweepNode acc node).assignments[h]? =
    if node = h then some (pass.assignment acc node) else acc.assignments[h]? :=
  getElem?_insert_eq

theorem sweepNode_cases (ha : (pass.sweepNode acc node).assignments[h]? = some a) :
    (h = node ∧ a = pass.assignment acc node) ∨ acc.assignments[h]? = some a :=
  (getElem?_insert_cases ha).imp_right And.right

/-- A bucket after a visit: an old one, or one with the node at its end. -/
theorem indexed_cases {key : BlockingKey} {bucket : List NodeHandle}
    (hb : (pass.indexed acc node)[key]? = some bucket) : acc.index[key]? = some bucket ∨
      ((pass.assignment acc node).blocked = false ∧
        pass.checker.eligible pass.projection node = true ∧
        bucket = acc.index.getD key [] ++ [node]) := by
  unfold indexed at hb
  split at hb
  · exact .inl hb
  · rename_i hunblocked
    split at hb
    · exact .inl hb
    · rename_i signature hsig
      rcases getElem?_insert_cases hb with ⟨rfl, rfl⟩ | ⟨-, hb⟩
      · exact .inr ⟨by simpa using hunblocked, signature_eligible hsig, rfl⟩
      · exact .inl hb

variable (ht : pass.Tidy visited acc)
include ht

theorem Tidy.accepted {b : NodeHandle} (hmem : b ∈ pass.candidates node signature acc)
    (hacc : pass.accepts node signature acc.assignments b = true) :
    b ∈ visited ∧ pass.projection.isTree b = true := by
  obtain ⟨hacc, -⟩ := Bool.and_eq_true_iff.mp hacc
  obtain ⟨hasg, hkind⟩ := Bool.and_eq_true_iff.mp hacc
  obtain ⟨a, ha, -⟩ := (Option.any_eq_true _ _).mp hasg
  refine ⟨(ht.assigned b).mp ⟨a, ha⟩, ?_⟩
  by_cases hk : pass.plan.managerKind = .ancestor
  · rw [if_pos hk] at hkind
    exact eligible_isTree (Bool.and_eq_true_iff.mp hkind).1
  · unfold candidates at hmem
    rw [if_neg hk, ExtTreeMap.getD_eq_getD_getElem?] at hmem
    cases hb : acc.index[signature.blockingKey]? with
    | none => rw [hb] at hmem; cases hmem
    | some bucket =>
      rw [hb] at hmem
      exact eligible_isTree ((ht.filed _ bucket hb).2.2 b hmem).1

variable (hP : pass.projection.Lawful) (hr : pass.projection.nodes[node]? = some r)
  (holder : ∀ x ∈ visited, pass.projection.creationAt x < pass.projection.creationAt node)
include hP hr holder

theorem Tidy.assignment_blocker {b : NodeHandle}
    (hb : (pass.assignment acc node).blocker = some b) :
    pass.projection.isTree node = true ∧ pass.projection.isTree b = true ∧
      pass.projection.creationAt b < pass.projection.creationAt node := by
  cases hp : pass.projection.parentOf node with
  | none =>
    rw [assignment_root hp] at hb
    cases hb
  | some p =>
    by_cases hbp : acc.assignments.isBlocked p = true
    · -- the blocker of a node below a blocked one is its parent, a tree node since it is blocked
      rw [assignment_indirect hp hbp] at hb
      cases hb
      obtain ⟨r', hr', hrp⟩ := parentOf_eq_some.mp hp
      rw [hr] at hr'
      cases hr'
      obtain ⟨rp, hrp', hlt⟩ := hP.parent_older hr hrp
      obtain ⟨a, ha, hblocked⟩ := isBlocked_iff.mp hbp
      rw [(ht.plain b a ha).blocked] at hblocked
      obtain ⟨b', hb'⟩ := Option.isSome_iff_exists.mp hblocked
      have htree : r.kind = .tree := by
        by_contra hk
        rw [hP.nonTree node r hr hk] at hrp
        cases hrp
      refine ⟨hP.isTree_iff.mpr ⟨r, hr, htree⟩, (ht.blocker b a b' ha hb').1, ?_⟩
      rw [creationAt_eq hr, creationAt_eq hrp']
      exact hlt
    · cases hsig : pass.checker.signature pass.projection node with
      | error e =>
        rw [assignment_ineligible hp hbp fun h => ?_] at hb
        · cases hb
        · obtain ⟨s, hs⟩ := hP.signature_of_eligible h
          rw [hsig] at hs
          cases hs
      | ok signature =>
        rw [assignment_direct hp hbp hsig] at hb
        unfold directAssignment at hb
        cases hf : (pass.candidates node signature acc).find?
            (pass.accepts node signature acc.assignments) with
        | none => rw [hf] at hb; cases hb
        | some b' =>
          rw [hf] at hb
          cases hb
          obtain ⟨hvis, htree⟩ := ht.accepted (mem_of_find?_eq_some hf) (find?_some hf)
          exact ⟨eligible_isTree (signature_eligible hsig), htree, holder b hvis⟩

theorem Tidy.sweepNode : pass.Tidy (visited ++ [node]) (pass.sweepNode acc node) := by
  have hfresh : node ∉ visited := fun h => absurd (holder node h) (by omega)
  have hold : ∀ (x : NodeHandle) (a : BlockingAssignment), x ∈ visited →
      acc.assignments[x]? = some a → (pass.sweepNode acc node).assignments[x]? = some a := by
    intro x a hx ha
    rw [getElem?_sweepNode, if_neg fun heq => hfresh (by rw [heq]; exact hx), ha]
  refine ⟨ht.uncached, ?_, ?_, ?_, ?_⟩
  · intro h
    rw [getElem?_sweepNode, mem_append, mem_singleton, ← ht.assigned h]
    split
    · rename_i heq
      exact ⟨fun _ => .inr heq.symm, fun _ => ⟨_, rfl⟩⟩
    · rename_i hne
      exact ⟨.inl, fun h => h.resolve_right fun heq => hne heq.symm⟩
  · intro h a ha
    rcases sweepNode_cases ha with ⟨rfl, rfl⟩ | ha
    · exact assignment_plain acc h
    · exact ht.plain h a ha
  · intro h a b ha hb
    rcases sweepNode_cases ha with ⟨rfl, rfl⟩ | ha
    · exact ht.assignment_blocker hP hr holder hb
    · exact ht.blocker h a b ha hb
  · intro key bucket hb
    rcases indexed_cases hb with hb | ⟨hun, hel, rfl⟩
    · obtain ⟨h1, h2, h3⟩ := ht.filed key bucket hb
      refine ⟨h1, h2.trans (sublist_append_left _ _), fun x hx => ⟨(h3 x hx).1, ?_⟩⟩
      obtain ⟨a, ha, hab⟩ := (h3 x hx).2
      exact ⟨a, hold x a (h2.subset hx) ha, hab⟩
    · -- the node joins a bucket, which may be a new one
      have hprev : (acc.index.getD key []).Sublist visited ∧ ∀ x ∈ acc.index.getD key [],
          pass.checker.eligible pass.projection x = true ∧
            ∃ a, acc.assignments[x]? = some a ∧ a.blocked = false := by
        rw [ExtTreeMap.getD_eq_getD_getElem?]
        cases hb' : acc.index[key]? with
        | none => exact ⟨nil_sublist _, nofun⟩
        | some bucket => exact (ht.filed key bucket hb').2
      refine ⟨by simp, hprev.1.append (List.Sublist.refl _), fun x hx => ?_⟩
      rcases mem_append.mp hx with hx | hx
      · obtain ⟨h1, a, ha, hab⟩ := hprev.2 x hx
        exact ⟨h1, a, hold x a (hprev.1.subset hx) ha, hab⟩
      · rw [mem_singleton.mp hx]
        exact ⟨hel, _, by rw [getElem?_sweepNode, if_pos rfl], hun⟩

end Step

variable {rest visited : List NodeHandle}

section
variable (hP : pass.projection.Lawful)
include hP

theorem Tidy.foldl
    (ht : pass.Tidy visited acc) (hsub : (visited ++ rest).Sublist pass.projection.orderedNodes) :
    pass.Tidy (visited ++ rest) (rest.foldl pass.sweepNode acc) := by
  induction rest generalizing visited acc with
  | nil => simpa using ht
  | cons node rest ih =>
    have hassoc : visited ++ node :: rest = (visited ++ [node]) ++ rest := by simp
    obtain ⟨r, hr⟩ := hP.mem_ordered.mp (hsub.subset (mem_append_right _ mem_cons_self))
    have holder := pairwise_append.mp (hP.ordered.sublist hsub)
    rw [foldl_cons, hassoc]
    refine ih (ht.sweepNode hP hr fun x hx => ?_) (by rw [← hassoc]; exact hsub)
    exact holder.2.2 x hx node mem_cons_self

theorem tidy_sweep {nodes : List NodeHandle}
    (hsub : nodes.Sublist pass.projection.orderedNodes) : pass.Tidy nodes (pass.sweep nodes) :=
  tidy_empty.foldl hP hsub

/-! ## The whole pass -/

theorem wp_visits (hcache : pass.Uncached acc)
    (hrest : ∀ x ∈ rest, ∃ r, pass.projection.nodes[x]? = some r) (w : BlockingWork) :
    wp (rest.foldlM pass.visitNode acc)
      (fun found _ => found = rest.foldl pass.sweepNode acc)
      (fun e _ => Halted pass.control e) w := by
  induction rest generalizing acc w with
  | nil => rfl
  | cons node rest ih =>
    obtain ⟨r, hr⟩ := hrest node mem_cons_self
    have hbound : ∃ bound, pass.CandidateBound acc node bound := by
      unfold CandidateBound
      cases pass.checker.signature pass.projection node with
      | error e => exact ⟨0, nofun⟩
      | ok signature => exact ⟨_, fun s hs => by cases hs; exact le_rfl⟩
    obtain ⟨bound, hbound⟩ := hbound
    refine wp_then (wp_visitNode hP hr hcache hbound) ?_ fun e w' hs => hs.1
    rintro _ w' ⟨rfl, -⟩
    have hcache' : pass.Uncached (pass.sweepNode acc node) := hcache
    exact ih hcache' (fun x hx => hrest x (mem_cons_of_mem _ hx)) w'

theorem Tidy.candidateBound (ht : pass.Tidy visited acc)
    (hsub : visited.Sublist pass.projection.orderedNodes)
    (node : NodeHandle) : pass.CandidateBound acc node pass.projection.nodes.size := by
  intro signature _
  unfold candidates
  split
  · exact length_chain_le _ _
  · rw [ExtTreeMap.getD_eq_getD_getElem?]
    cases hb : acc.index[signature.blockingKey]? with
    | none => exact Nat.zero_le _
    | some bucket =>
      rw [← hP.length_ordered]
      exact ((ht.filed _ bucket hb).2.1.trans hsub).length_le

/-- From a tidy pass, each visit makes at most as many checks as there are nodes. -/
theorem Tidy.wp_visits (hcache : pass.Uncached acc)
    (ht : pass.Tidy visited { acc with cache := none })
    (hsub : (visited ++ rest).Sublist pass.projection.orderedNodes) (w : BlockingWork) :
    pass.Finds (rest.foldlM pass.visitNode acc) (rest.foldl pass.sweepNode acc)
      (w.stats.candidateChecks + rest.length * pass.projection.nodes.size) w := by
  induction rest generalizing visited acc w with
  | nil => exact ⟨rfl, Nat.le_add_right _ _⟩
  | cons node rest ih =>
    have hassoc : visited ++ node :: rest = (visited ++ [node]) ++ rest := by simp
    have hlen : (node :: rest).length * pass.projection.nodes.size =
        pass.projection.nodes.size + rest.length * pass.projection.nodes.size := by
      rw [length_cons, Nat.succ_mul, Nat.add_comm]
    obtain ⟨r, hr⟩ := hP.mem_ordered.mp (hsub.subset (mem_append_right _ mem_cons_self))
    have holder := pairwise_append.mp (hP.ordered.sublist hsub)
    have hbound := ht.candidateBound hP ((sublist_append_left _ _).trans hsub) node
    refine wp_then (wp_visitNode hP hr hcache hbound) ?_ fun e w' hs => hs.mono (by omega)
    rintro _ w' ⟨rfl, hw'⟩
    have ht' := ht.sweepNode hP hr fun x hx => holder.2.2 x hx node mem_cons_self
    have hcache' : pass.Uncached (pass.sweepNode acc node) := hcache
    exact (ih hcache' ht' (by rw [← hassoc]; exact hsub) w').mono (by omega)

end

end BlockingPass

end PyHermit
