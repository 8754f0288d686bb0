import Mathlib.Data.List.TakeWhile
import PyHermit.Proof.Sweep

/-!
# What two passes have in common

Two passes that see the same before a frontier do the same up to it, and the part of a full
pass before the frontier is exactly what is retained for the next one. So a pass that starts
from what is retained ends where a full pass would (`BlockingPass.sweep_ordered`).
-/

open Std Prog List

namespace PyHermit

open BlockingProjection

theorem find?_congr_mem {α : Type} {p q : α → Bool} {l : List α} (h : ∀ x ∈ l, p x = q x) :
    l.find? p = l.find? q := by
  induction l with
  | nil => rfl
  | cons a l ih =>
    rw [find?_cons, find?_cons, h a mem_cons_self,
      ih fun x hx => h x (mem_cons_of_mem _ hx)]

namespace BlockingPass

/-! ## Two passes alike before a frontier -/

/-- Before `e`, the two passes see the same nodes, labels and rejections. -/
structure Alike (e : Nat) (pass pass' : BlockingPass) : Prop where
  lawful : pass.projection.Lawful
  lawful' : pass'.projection.Lawful
  projection : BlockingProjection.Alike e pass.projection pass'.projection
  checker : pass'.checker = pass.checker
  plan : pass'.plan = pass.plan
  rejected : ∀ node candidate, pass.projection.isBefore e node = true →
    pass'.isRejected node candidate = pass.isRejected node candidate

variable {x : NodeHandle}

namespace Alike

variable {e : Nat} {pass pass' : BlockingPass} {visited : List NodeHandle} {acc : PassState}
  {node : NodeHandle}

section
variable (h : Alike e pass pass') (hnode : pass.projection.isBefore e node = true)
include h hnode

theorem chain_eq : pass'.projection.chain pass'.projection.nodes.size
      (pass'.projection.parentOf node) =
      pass.projection.chain pass.projection.nodes.size (pass.projection.parentOf node) := by
  obtain ⟨r, hr, -⟩ := isBefore_iff.mp hnode
  obtain ⟨r', hr', -⟩ := isBefore_iff.mp ((h.projection.isBefore node).trans hnode)
  have hlt := h.lawful.age_lt hr
  have hlt' := h.lawful'.age_lt hr'
  -- both counters suffice, so both walks may take the longer one
  rw [h.lawful'.chain_congr (m := max pass.projection.nodes.size pass'.projection.nodes.size)
      (fun p hp => by have := h.lawful'.age_parent hp; omega)
      (fun p hp => by have := h.lawful'.age_parent hp; omega),
    h.lawful.chain_congr (m := max pass.projection.nodes.size pass'.projection.nodes.size)
      (fun p hp => by have := h.lawful.age_parent hp; omega)
      (fun p hp => by have := h.lawful.age_parent hp; omega)]
  exact h.projection.chain_parentOf h.lawful hnode

theorem candidates_eq (signature : BlockingSignature) :
    pass'.candidates node signature acc = pass.candidates node signature acc := by
  unfold candidates
  rw [h.plan]
  split
  · exact h.chain_eq hnode
  · rfl

variable {signature : BlockingSignature}

theorem accepts_eq (hx : pass.projection.isBefore e x = true) :
    pass'.accepts node signature acc.assignments x =
      pass.accepts node signature acc.assignments x := by
  have hsig : pass'.ancestorBlocks signature x = pass.ancestorBlocks signature x := by
    unfold ancestorBlocks
    rw [h.checker, h.projection.signature h.lawful h.lawful' hx pass.checker]
  have hcan : pass'.checker.canBeBlocker pass'.projection x =
      pass.checker.canBeBlocker pass.projection x := by
    rw [h.checker]
    exact h.projection.eligible h.lawful h.lawful' hx pass.checker
  unfold accepts
  rw [hsig, hcan, h.plan, h.rejected node x hnode,
    h.projection.isAncestor h.lawful h.lawful' hx node]

section
variable (ht : pass.Tidy visited acc)
  (hvisited : ∀ x ∈ visited, pass.projection.isBefore e x = true)
include ht hvisited

theorem candidate_before (hx : x ∈ pass.candidates node signature acc) :
    pass.projection.isBefore e x = true := by
  unfold candidates at hx
  split at hx
  · obtain ⟨r, hr, hlt⟩ := isBefore_iff.mp hnode
    obtain ⟨rx, hrx, hlt'⟩ := h.lawful.chain_older hr hx
    exact isBefore_iff.mpr ⟨rx, hrx, by omega⟩
  · rw [ExtTreeMap.getD_eq_getD_getElem?] at hx
    cases hb : acc.index[signature.blockingKey]? with
    | none => rw [hb] at hx; cases hx
    | some bucket =>
      rw [hb] at hx
      exact hvisited x ((ht.filed _ bucket hb).2.1.subset hx)

theorem assignment_eq : pass'.assignment acc node = pass.assignment acc node := by
  have hdirect : ∀ signature, pass'.directAssignment node signature acc =
      pass.directAssignment node signature acc := by
    intro signature
    unfold directAssignment
    rw [h.candidates_eq hnode signature]
    rw [find?_congr_mem fun x hx => h.accepts_eq hnode (h.candidate_before hnode ht hvisited hx)]
  unfold assignment
  simp only [h.projection.parentOf hnode, h.checker,
    h.projection.signature h.lawful h.lawful' hnode pass.checker, hdirect]

theorem sweepNode_eq : pass'.sweepNode acc node = pass.sweepNode acc node := by
  unfold sweepNode indexed
  rw [h.assignment_eq hnode ht hvisited, h.checker,
    h.projection.signature h.lawful h.lawful' hnode pass.checker]

end

end

theorem foldl_eq (h : Alike e pass pass') {rest : List NodeHandle} (ht : pass.Tidy visited acc)
    (hbefore : ∀ x ∈ visited ++ rest, pass.projection.isBefore e x = true)
    (hsub : (visited ++ rest).Sublist pass.projection.orderedNodes) :
    rest.foldl pass'.sweepNode acc = rest.foldl pass.sweepNode acc := by
  induction rest generalizing visited acc with
  | nil => rw [foldl_nil, foldl_nil]
  | cons node rest ih =>
    have hassoc : visited ++ node :: rest = (visited ++ [node]) ++ rest := by simp
    obtain ⟨r, hr⟩ := h.lawful.mem_ordered.mp (hsub.subset (mem_append_right _ mem_cons_self))
    have holder := pairwise_append.mp (h.lawful.ordered.sublist hsub)
    have hstep : pass'.sweepNode acc node = pass.sweepNode acc node := h.sweepNode_eq
      (hbefore node (mem_append_right _ mem_cons_self)) ht fun x hx =>
        hbefore x (mem_append_left _ hx)
    have ht' := ht.sweepNode h.lawful hr fun x hx => holder.2.2 x hx node mem_cons_self
    rw [foldl_cons, foldl_cons, hstep]
    rw [hassoc] at hbefore hsub
    exact ih ht' hbefore hsub

end Alike

/-- The nodes created before the frontier, in order. -/
def front (pass : BlockingPass) (e : Nat) : List NodeHandle :=
  pass.projection.orderedNodes.takeWhile (pass.projection.isBefore e)

theorem before_of_mem_front {pass : BlockingPass} {e : Nat} (hx : x ∈ pass.front e) :
    pass.projection.isBefore e x = true := mem_takeWhile_imp hx

theorem front_sublist (pass : BlockingPass) (e : Nat) :
    (pass.front e).Sublist pass.projection.orderedNodes :=
  takeWhile_sublist _

/-- Passes alike before a frontier do the same up to it. -/
theorem Alike.sweep_front {e : Nat} {pass pass' : BlockingPass} (h : Alike e pass pass') :
    pass'.sweep (pass'.front e) = pass.sweep (pass.front e) := by
  have hfront : pass'.front e = pass.front e := h.projection.front h.lawful h.lawful'
  rw [hfront]
  exact h.foldl_eq tidy_empty (fun x hx => before_of_mem_front hx) (front_sublist pass e)

/-! ## What is retained -/

section Retain

variable {pass : BlockingPass} {e : Nat}

theorem passState_ext {a b : PassState}
    (h1 : ∀ h : NodeHandle, a.assignments[h]? = b.assignments[h]?)
    (h2 : ∀ key : BlockingKey, a.index[key]? = b.index[key]?) (h3 : a.cache = b.cache) : a = b := by
  cases a
  cases b
  simp only [PassState.mk.injEq]
  exact ⟨ExtTreeMap.ext_getElem? h1, ExtTreeMap.ext_getElem? h2, h3⟩

theorem retain_assignments (P : BlockingProjection) (e : Nat) (acc : PassState) (h : NodeHandle) :
    (retain P e acc).assignments[h]? = if P.isBefore e h then acc.assignments[h]? else none := by
  change (acc.assignments.filter fun node _ => P.isBefore e node)[h]? = _
  rw [ExtTreeMap.getElem?_filter']
  cases acc.assignments[h]? <;> cases P.isBefore e h <;> rfl

/-- What is left of a bucket. -/
def keptOf (P : BlockingProjection) (e : Nat) (bucket : List NodeHandle) :
    Option (List NodeHandle) :=
  if bucket.filter (P.isBefore e) = [] then none else some (bucket.filter (P.isBefore e))

theorem retain_index (P : BlockingProjection) (e : Nat) (acc : PassState) (key : BlockingKey) :
    (retain P e acc).index[key]? = acc.index[key]?.bind (keptOf P e) := by
  change (acc.index.filterMap fun _ nodes => keptOf P e nodes)[key]? = _
  rw [ExtTreeMap.getElem?_filterMap']

variable {acc : PassState}

/-- Retaining sees nothing of a visit after the frontier. -/
theorem retain_sweepNode {node : NodeHandle} (hnode : pass.projection.isBefore e node = false) :
    retain pass.projection e (pass.sweepNode acc node) = retain pass.projection e acc := by
  refine passState_ext (fun h => ?_) (fun key => ?_) rfl
  · rw [retain_assignments, retain_assignments]
    split
    · rename_i hb
      rw [getElem?_sweepNode, if_neg]
      intro heq
      rw [heq, hb] at hnode
      cases hnode
    · rfl
  · rw [retain_index, retain_index]
    unfold sweepNode indexed
    split
    · rfl
    · split
      · rfl
      · rename_i signature _
        rw [getElem?_insert_eq]
        split
        · rename_i hkey
          rw [← hkey, ExtTreeMap.getD_eq_getD_getElem?, Option.bind_some]
          unfold keptOf
          rw [filter_append, filter_cons_of_neg (by rw [hnode]; simp), filter_nil,
            append_nil]
          cases acc.index[signature.blockingKey]? with
          | none | some => rfl
        · rfl

theorem retain_foldl {rest : List NodeHandle}
    (hrest : ∀ x ∈ rest, pass.projection.isBefore e x = false) :
    retain pass.projection e (rest.foldl pass.sweepNode acc) = retain pass.projection e acc := by
  induction rest generalizing acc with
  | nil => rfl
  | cons node rest ih =>
    rw [foldl_cons, ih fun x hx => hrest x (mem_cons_of_mem _ hx),
      retain_sweepNode (hrest node mem_cons_self)]

theorem Tidy.retain_eq {visited : List NodeHandle} (ht : pass.Tidy visited acc)
    (hvisited : ∀ x ∈ visited, pass.projection.isBefore e x = true) :
    retain pass.projection e acc = acc := by
  refine passState_ext (fun h => ?_) (fun key => ?_) rfl
  · rw [retain_assignments]
    split
    · rfl
    · rename_i hb
      cases ha : acc.assignments[h]? with
      | none => rfl
      | some a => exact absurd (hvisited h ((ht.assigned h).mp ⟨a, ha⟩)) hb
  · rw [retain_index]
    cases hb : acc.index[key]? with
    | none => rfl
    | some bucket =>
      obtain ⟨hne, hsub, -⟩ := ht.filed key bucket hb
      have hall : bucket.filter (pass.projection.isBefore e) = bucket :=
        filter_eq_self.mpr fun x hx => hvisited x (hsub.subset hx)
      rw [Option.bind_some, keptOf, hall, if_neg hne]

theorem rest_not_before (hP : pass.projection.Lawful)
    (hx : x ∈ pass.projection.orderedNodes.dropWhile (pass.projection.isBefore e)) :
    pass.projection.isBefore e x = false := by
  rw [Bool.eq_false_iff]
  intro hb
  have hfront : x ∈ pass.projection.orderedNodes.takeWhile (pass.projection.isBefore e) := by
    rw [hP.takeWhile_ordered e (List.Sublist.refl _)]
    exact mem_filter.mpr ⟨(dropWhile_sublist _).subset hx, hb⟩
  have hnodup := hP.ordered_nodup
  rw [← takeWhile_append_dropWhile (p := pass.projection.isBefore e)
    (l := pass.projection.orderedNodes), nodup_append] at hnodup
  exact hnodup.2.2 x hfront x hx rfl

theorem sweep_ordered (e : Nat) : pass.sweep pass.projection.orderedNodes =
    (pass.projection.orderedNodes.dropWhile (pass.projection.isBefore e)).foldl pass.sweepNode
      (pass.sweep (pass.front e)) := by
  unfold sweep front
  rw [← foldl_append, takeWhile_append_dropWhile]

/-- Of a full pass, the front part is retained. -/
theorem retain_sweep (hP : pass.projection.Lawful) (e : Nat) :
    retain pass.projection e (pass.sweep pass.projection.orderedNodes) = pass.sweep
    (pass.front e) := by
  rw [sweep_ordered e, retain_foldl fun x hx => rest_not_before hP hx]
  exact (tidy_sweep hP (front_sublist pass e)).retain_eq fun x hx => before_of_mem_front hx

end Retain

variable {pass : BlockingPass}

theorem visits_subset (frontier : Option Nat) (hx : x ∈ pass.visits frontier) :
    x ∈ pass.projection.orderedNodes := by
  cases frontier with
  | none => exact hx
  | some e => exact (dropWhile_sublist _).subset hx

variable (hP : pass.projection.Lawful) (hkind : pass.checker.kind = pass.plan.directCheckerKind)
  {acc : PassState}
include hP hkind

/-- A recomputation sweeps the nodes it visits, or is halted. -/
theorem wp_recompute {frontier : Option Nat} (hcache : acc.cache = none) (w : BlockingWork) :
    wp (pass.recompute frontier acc)
      (fun result _ => result.1 =
        (pass.visits frontier).foldl pass.sweepNode (pass.start frontier acc))
      (fun e _ => Halted pass.control e) w := by
  have hstart : pass.Uncached (pass.start frontier acc) := by
    cases frontier <;> exact .inr hcache
  refine wp_ensure_known hkind (wp_modify_then.mpr (wp_bind.mpr ?_))
  refine wp_imp (wp_visits hP hstart (fun x hx => hP.mem_ordered.mp (visits_subset frontier hx)) _)
    ?_
  rintro found w' rfl
  refine wp_bind.mpr (wp_blockingPoll (fun w'' _ => ?_) fun e _ _ hi => .inl hi)
  exact wp_get_then.mpr rfl

/-- A full recomputation is a sweep over all nodes. It makes at most as many checks as
there are pairs of nodes, so with that many allowed only the control can stop it. -/
theorem wp_recompute_full (hcache : pass.Uncached acc) (w : BlockingWork) :
    wp (pass.recompute none acc)
      (fun result _ => result.1 =
        pass.projection.orderedNodes.foldl pass.sweepNode ⟨∅, ∅, acc.cache⟩)
      (fun e _ => Halted pass.control e ∧
        ((∃ i, pass.control i = .error e) ∨
          pass.limits.maxCandidateChecks <
            pass.projection.nodes.size * pass.projection.nodes.size)) w := by
  refine wp_ensure_known hkind (wp_modify_then.mpr (wp_bind.mpr ?_))
  have hstart : pass.Uncached (pass.start none acc) := hcache
  have ht : pass.Tidy [] { pass.start none acc with cache := none } := tidy_empty
  refine wp_mono (ht.wp_visits hP hstart (List.Sublist.refl _) _) ?_ ?_
  · rintro found w' ⟨rfl, -⟩
    refine wp_bind.mpr (wp_blockingPoll (fun w'' _ => ?_) fun e _ _ hi => ⟨.inl hi, .inl hi⟩)
    exact wp_get_then.mpr rfl
  · rintro e w' ⟨hh, hle, hwhy⟩
    refine ⟨hh, hwhy.imp_right fun hlt => ?_⟩
    rw [hP.length_ordered] at hle
    simp only at hle
    omega

end BlockingPass

end PyHermit
