import PyHermit.Proof.MergeMoves

/-!
# Agenda, clashes and reuse move the kernel

The mutators that write neither nodes nor facts: deltas, disjunctions, clashes, queues and
existential reuse. To the store each is a change of `other` kind; `core` marks are the one
exception.
-/

open Std Prog

namespace PyHermit

open TableauKernel

variable {p : Permit} {n : Nat} {k : TableauKernel}

instance : Std.Refl (Moves p n) := ⟨fun _ => Moves.refl⟩

instance : IsTrans TableauKernel (Moves p n) := ⟨fun _ _ _ => Moves.trans⟩

/-- Without restrictions, every change outside nodes and facts is a move. -/
instance : FreeAgendaFrame (Moves .all n) where
  mutation _ _ hle := ⟨rfl, rfl, hle, .refl⟩
  aside _ _ hs _ := Moves.prim (.other hs trivial)
  disjunctions _ _ hs := Moves.prim (.other hs trivial)

theorem enqueueOn_does {field : Lens MutableState StableQueue} (hfield : AgendaField field)
    {value : QueueValue}
    {priority : List Int} (ho : ∀ st added queue, (field.get st).enqueue value priority =
      .ok (added, queue) →
      p.other n st (field.put st queue)) : Does p n (enqueueOn field value priority) := by
  intro k hk
  refine wp_ask_then (fun result hresult => ?_) fun _ _ => Moves.refl
  exact wp_modify_then.mpr (Moves.prim (.other (hfield.store _ _) (ho _ _ _ hresult)))

theorem enqueueNode_does {queue : NodeQueue} {value : NodeHandle} {priority : List Int}
    (ho : ∀ st added q, (queue.lens.get st).enqueue (.node value) priority = .ok (added, q) →
      p.other n st (queue.lens.put st q)) : Does p n (enqueueNode queue value priority) :=
  readState_does.bind fun _ => (enqueueOn_does queue.agenda ho).bind fun _ =>
    .ite recordMutation_does .pure

theorem installClash_does {kind : ClashKind} {dependency : DependencySet} {participants : List Nat}
    {provenanceId : Option Nat} (ho : dependency.Below n → ∀ st,
      p.other n st { st with clash := some { kind, dependency, participants, provenanceId } }) :
    Does p n (installClash kind dependency participants provenanceId) := by
  intro k hk
  refine wp_ensure_then (fun _ => ?_) fun _ => Moves.refl
  refine wp_ask_then (fun _ hvalid => ?_) fun _ _ => Moves.refl
  refine wp_get_then.mpr (wp_ite (fun _ => Moves.refl) fun _ => ?_)
  refine wp_modify_then.mpr ?_
  exact (recordMutation_does.bind fun _ => Does.pure).after hk
    (Moves.prim (.other ⟨rfl, rfl, rfl, rfl, rfl, rfl, le_rfl⟩
      (ho (validateDependency_below hk hvalid) _)))

theorem promoteCoreFact_does (rowId : Nat) : Does p n (promoteCoreFact rowId) := by
  intro k hk
  refine wp_get_then.mpr ?_
  cases hrow : k.state.facts[rowId]? with
  | none => exact Moves.refl
  | some row =>
    refine wp_ensure_then (fun hact => ?_) fun _ => Moves.refl
    refine wp_ite (fun _ => Moves.refl) fun _ => wp_modify_then.mpr ?_
    exact recordMutation_does.after hk (Moves.prim (.promote hrow hact))

end PyHermit
