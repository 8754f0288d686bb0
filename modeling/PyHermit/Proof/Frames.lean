import PyHermit.Store.Run

/-!
# What the mutators write

A mutator is a sequence of a few kinds of writes: a counter goes up, some part of the
store other than the arena changes, the node in a slot is rewritten under its own handle,
or a snapshot is restored. A relation on kernels that allows these writes (`Frame`) allows
every mutator, whether the call returns or fails, except those that open or retire nodes or
touch the branch stack.
-/

open Std Prog

namespace PyHermit

open TableauKernel

structure SameArena (st st' : MutableState) : Prop where
  nodes : st'.nodes = st.nodes
  generations : st'.generations = st.generations
  freeSlots : st'.freeSlots = st.freeSlots

/-- Nodes and facts are the same; the write generation may have advanced. -/
structure SameStore (st st' : MutableState) : Prop where
  nodes : st'.nodes = st.nodes
  generations : st'.generations = st.generations
  freeSlots : st'.freeSlots = st.freeSlots
  nextCreationId : st'.nextCreationId = st.nextCreationId
  facts : st'.facts = st.facts
  indexes : st'.indexes = st.indexes
  writeGeneration : st.writeGeneration ≤ st'.writeGeneration

/-- A rewriting of nodes that keeps their handles and retires none. -/
structure Rewrites (f : Node → Node) : Prop where
  handle : ∀ node, (f node).handle = node.handle
  unretired : ∀ node, node.lifecycle ≠ .retired → (f node).lifecycle ≠ .retired

/-- A relation between kernels that allows the writes the mutators have in common. -/
class Frame (R : TableauKernel → TableauKernel → Prop) : Prop
    extends Std.Refl R, IsTrans TableauKernel R where
  trail : ∀ k n, R k { k with trailLength := n }
  sequence : ∀ k n, R k { k with checkpointSequence := n }
  store : ∀ k st, SameArena k.state st → st.disjunctions = k.state.disjunctions →
    R k { k with state := st }
  node : ∀ k slot f, Rewrites f → R k { k with state := k.state.updateNode slot f }
  undo : ∀ k k', R k k' → R k (rollBack k k')

/-- A frame that leaves the disjunctions free. -/
class FreeFrame (R : TableauKernel → TableauKernel → Prop) : Prop extends Frame R where
  agenda : ∀ k st, SameArena k.state st → R k { k with state := st }

/-- A relation that allows what writes neither nodes nor facts. -/
class AgendaFrame (R : TableauKernel → TableauKernel → Prop) : Prop
    extends Std.Refl R, IsTrans TableauKernel R where
  mutation : ∀ k n, k.trailLength ≤ n → R k { k with trailLength := n }
  aside : ∀ k st, SameStore k.state st → st.disjunctions = k.state.disjunctions →
    R k { k with state := st }

/-- One that leaves the disjunctions free. -/
class FreeAgendaFrame (R : TableauKernel → TableauKernel → Prop) : Prop extends AgendaFrame R where
  disjunctions : ∀ k st, SameStore k.state st → R k { k with state := st }

variable {R : TableauKernel → TableauKernel → Prop}

instance [Frame R] : AgendaFrame R where
  mutation k n _ := Frame.trail k n
  aside k st h := Frame.store k st ⟨h.nodes, h.generations, h.freeSlots⟩

instance [FreeFrame R] : FreeAgendaFrame R where
  disjunctions k st h := FreeFrame.agenda k st ⟨h.nodes, h.generations, h.freeSlots⟩

theorem recordMutation_frame [AgendaFrame R] : Within R recordMutation := by
  intro k
  refine wp_ask_then (fun n hn => ?_) fun _ _ => Std.Refl.refl k
  refine AgendaFrame.mutation k n ?_
  rw [increment64_ok hn]
  exact Nat.le_succ _

section

variable [Frame R]

/-! ## Writes -/

theorem nextCheckpointSequence_frame : Within R nextCheckpointSequence :=
  within_ask.bind fun n => within_modify fun k => Frame.sequence k n

variable {f : MutableState → MutableState} {h : NodeHandle} {combined dependency : DependencySet}
  {provenanceId : Option Nat} {rowId : Nat}

theorem modifyState_frame (hf : ∀ st, SameArena st (f st) := by exact fun _ => ⟨rfl, rfl, rfl⟩)
    (hd : ∀ st, (f st).disjunctions = st.disjunctions := by exact fun _ => rfl) :
    Within R (modifyState f) :=
  within_modify fun k => Frame.store k _ (hf k.state) (hd k.state)

theorem updateNode_frame {slot : Nat} {f : Node → Node} (hf : Rewrites f) :
    Within R (modifyState (·.updateNode slot f)) :=
  within_modify fun k => Frame.node k slot f hf

theorem atomic_frame {α : Type} {m : KernelM α} (hm : Within R m) : Within R (atomic m) :=
  fun k => wp_orUndo.mpr (wp_fail (hm k) fun _ k' h => Frame.undo k k' h)

/-! ## Nodes and facts -/

theorem markExistential_frame {existentialId : Nat} {pending : Bool} :
    Within R (markExistential h existentialId pending) :=
  within_ask.bind fun _ => .ite within_pure
    ((updateNode_frame (by exact ⟨fun _ => rfl, fun _ h => h⟩)).bind fun _ => recordMutation_frame)

theorem bumpBlockingGeneration_frame : Within R (bumpBlockingGeneration h) :=
  within_ask.bind fun _ => within_ask.bind fun _ =>
    updateNode_frame (by exact ⟨fun _ => rfl, fun _ h => h⟩)

/-- The writes of `set_blocked` after its checks. -/
def writeBlock (h : NodeHandle) (blocker : Option NodeHandle) (directly : Bool) : KernelM Unit := do
  modifyState (·.updateNode h.slot fun node =>
    { node with blocker := blocker, directlyBlocked := blocker.isSome && directly })
  bumpBlockingGeneration h
  recordMutation

theorem setBlocked_frame {blocker : Option NodeHandle} {directly : Bool} :
    Within R (setBlocked h blocker directly) := by
  refine within_ask.bind fun _ => ?_
  have hwrite : Within R (writeBlock h blocker directly) :=
    (updateNode_frame (by exact ⟨fun _ => rfl, fun _ h => h⟩)).bind fun _ =>
      bumpBlockingGeneration_frame.bind fun _ => recordMutation_frame
  cases blocker with
  | none => exact hwrite
  | some value => exact within_ask.bind fun _ => hwrite

theorem addFactDetailed_frame {predicateId : Nat} {arguments : List NodeHandle} {core : Bool} :
    Within R (addFactDetailed predicateId arguments dependency core provenanceId) := by
  refine within_ensure.bind fun _ => within_ensure.bind fun _ => within_ask.bind fun _ =>
    within_ask.bind fun resolved => within_get.bind fun k => ?_
  cases k.state.indexes.byKey[(⟨predicateId, resolved.map (·.1)⟩ : FactKey)]? with
  | some rowId =>
    dsimp only
    cases k.state.facts[rowId]? with
    | none => exact within_throw
    | some row =>
      refine (modifyState_frame).bind fun _ => ?_
      exact .ite within_pure (recordMutation_frame.bind fun _ => within_pure)
  | none =>
    exact within_ask.bind fun _ =>
      (modifyState_frame).bind fun _ =>
      recordMutation_frame.bind fun _ => within_pure

theorem unfile_frame {κ : Type} [Ord κ] [TransOrd κ]
    {field : Lens FactIndexes (Index κ Nat)} {key : κ}
    {absent : String} : Within R (unfile field key rowId absent) := by
  refine within_get.bind fun k => ?_
  cases (field.get k.state.indexes).remove key rowId with
  | none => exact within_throw
  | some index => exact modifyState_frame

theorem deactivateFact_frame : Within R (deactivateFact rowId) := by
  refine within_ask.bind fun row => .ite within_pure ?_
  refine (modifyState_frame).bind fun _ => ?_
  refine unfile_frame.bind fun _ => (Within.forM (fun _ => unfile_frame) _).bind fun _ => ?_
  refine (Within.forM (fun _ => unfile_frame) _).bind fun _ => ?_
  exact (modifyState_frame).bind fun _ =>
    recordMutation_frame

theorem promoteCoreFact_frame : Within R (promoteCoreFact rowId) := by
  refine within_get.bind fun k => ?_
  cases k.state.facts[rowId]? with
  | none => exact within_throw
  | some row =>
    exact within_ensure.bind fun _ => .ite within_pure
      ((modifyState_frame).bind fun _ =>
        recordMutation_frame)

/-! ## Merging and pruning -/

theorem mergeRow_frame {source target : NodeHandle} :
    Within R (mergeRow source target combined rowId) :=
  within_ask.bind fun _ => .ite within_pure <|
    (Within.forM (fun _ => addFactDetailed_frame.map.map) _).bind fun _ => within_ask.bind fun _ =>
    (Within.forM (fun _ => addFactDetailed_frame.map.map) _).bind fun _ => deactivateFact_frame

theorem mergeInto_frame {source target : NodeHandle} :
    Within R (mergeInto source target combined) :=
  nextCheckpointSequence_frame.bind fun _ => within_get.bind fun _ =>
    (Within.forM (fun _ => setBlocked_frame) _).bind fun _ => within_get.bind fun _ =>
    (Within.forM (fun _ => mergeRow_frame) _).bind fun _ => within_ask.bind fun _ =>
    (updateNode_frame (by exact ⟨fun _ => rfl, fun _ _ => nofun⟩)).bind fun _ =>
      bumpBlockingGeneration_frame.bind fun _ =>
    recordMutation_frame.bind fun _ => within_pure

theorem mergeNodesInner_frame {left right : NodeHandle} :
    Within R (mergeNodesInner left right dependency) :=
  within_ask.bind fun _ => within_ask.bind fun _ => .ite within_pure <| within_ask.bind fun _ =>
    within_ask.bind fun _ => within_ensure.bind fun _ => within_ask.bind fun _ => mergeInto_frame

theorem pruneSubtreeInner_frame {root : NodeHandle} : Within R (pruneSubtreeInner root) := by
  refine nextCheckpointSequence_frame.bind fun _ => within_ask.bind fun _ =>
      within_get.bind fun _ =>
    (Within.forM (fun _ => setBlocked_frame) _).bind fun _ => within_get.bind fun _ =>
    (Within.forM (fun _ => deactivateFact_frame) _).bind fun _ =>
    (Within.forM (fun _ => ?_) _).bind fun _ => within_pure
  exact within_ask.bind fun _ =>
      (updateNode_frame (by exact ⟨fun _ => rfl, fun _ _ => nofun⟩)).bind fun _ =>
    bumpBlockingGeneration_frame.bind fun _ => recordMutation_frame

end

/-! ## Agenda, clashes and reuse -/

section

variable [AgendaFrame R] {f : MutableState → MutableState} {field : Lens MutableState StableQueue}
  {dependency : DependencySet} {fillerPredicateId : Nat} {priority : List Int}

theorem modifyAside_frame
    (hf : ∀ st, SameStore st (f st) := by exact fun _ => ⟨rfl, rfl, rfl, rfl, rfl, rfl, le_rfl⟩)
    (hd : ∀ st, (f st).disjunctions = st.disjunctions := by exact fun _ => rfl) :
    Within R (modifyState f) :=
  within_modify fun k => AgendaFrame.aside k _ (hf k.state) (hd k.state)

theorem prepareNextDelta_frame : Within R prepareNextDelta := by
  refine within_get.bind fun k => .ite ?_ ((modifyAside_frame).bind fun _ => ?_)
  all_goals
    intro k
    refine wp_ask_then (fun next hnext => ?_) fun _ _ => Std.Refl.refl k
    have hle : k.state.writeGeneration ≤ next := by
      rw [(increment32_ok hnext).1]
      exact Nat.le_succ _
    have haside : R k { k with state := { k.state with writeGeneration := next } } :=
      AgendaFrame.aside k _ ⟨rfl, rfl, rfl, rfl, rfl, rfl, hle⟩ rfl
    exact wp_modify_then.mpr (wp_mono (recordMutation_frame _)
      (fun _ _ h => IsTrans.trans _ _ _ haside h) fun _ _ h => IsTrans.trans _ _ _ haside h)

/-- Writing one of the queues leaves nodes, facts and disjunctions alone. -/
structure AgendaField (field : Lens MutableState StableQueue) : Prop where
  store : ∀ st q, SameStore st (field.put st q)
  disjunctions : ∀ st q, (field.put st q).disjunctions = st.disjunctions

theorem TableauKernel.IntegerQueue.agenda (queue : IntegerQueue) : AgendaField queue.lens := by
  cases queue <;> exact ⟨fun _ _ => ⟨rfl, rfl, rfl, rfl, rfl, rfl, le_rfl⟩, fun _ _ => rfl⟩

theorem TableauKernel.NodeQueue.agenda (queue : NodeQueue) : AgendaField queue.lens := by
  cases queue <;> exact ⟨fun _ _ => ⟨rfl, rfl, rfl, rfl, rfl, rfl, le_rfl⟩, fun _ _ => rfl⟩

theorem disjunctionQueue_agenda : AgendaField disjunctionQueueLens :=
  ⟨fun _ _ => ⟨rfl, rfl, rfl, rfl, rfl, rfl, le_rfl⟩, fun _ _ => rfl⟩

theorem enqueueOn_frame (hfield : AgendaField field) {value : QueueValue} :
    Within R (enqueueOn field value priority) :=
  within_ask.bind fun _ => (modifyAside_frame (by exact fun st => hfield.store st _)
    (by exact fun st => hfield.disjunctions st _)).bind fun _ => within_pure

theorem popFrom_frame (hfield : AgendaField field) : Within R (popFrom field) := by
  refine within_get.bind fun k => ?_
  cases (field.get k.state).pop with
  | none => exact within_pure
  | some result =>
    exact (modifyAside_frame (by exact fun st => hfield.store st _)
      (by exact fun st => hfield.disjunctions st _)).bind fun _ => within_pure

theorem installClash_frame {kind : ClashKind} {participants : List Nat}
    {provenanceId : Option Nat} :
    Within R (installClash kind dependency participants provenanceId) := by
  refine within_ensure.bind fun _ => within_ask.bind fun _ => within_get.bind fun _ =>
    .ite within_pure ?_
  exact (modifyAside_frame).bind fun _ => recordMutation_frame.bind fun _ => within_pure

variable {queue : IntegerQueue} {node : NodeHandle}

theorem enqueueInteger_frame {value : Nat} : Within R (enqueueInteger queue value priority) :=
  (enqueueOn_frame queue.agenda).bind fun _ => .ite recordMutation_frame within_pure

theorem takeInteger_frame : Within R (takeInteger queue) := by
  refine (popFrom_frame queue.agenda).bind fun popped => ?_
  cases popped with
  | none => exact within_pure
  | some value =>
    refine recordMutation_frame.bind fun _ => ?_
    cases value with
    | integer _ => exact within_pure
    | node _ => exact within_throw

theorem enqueueNode_frame {queue : NodeQueue} {value : NodeHandle} :
    Within R (enqueueNode queue value priority) :=
  within_ask.bind fun _ => (enqueueOn_frame queue.agenda).bind fun _ =>
    .ite recordMutation_frame within_pure

theorem takeExistentialCandidate_frame : Within R takeExistentialCandidate := by
  refine (popFrom_frame (NodeQueue.agenda .existentialCandidates)).bind fun popped => ?_
  cases popped with
  | none => exact within_pure
  | some value =>
    refine recordMutation_frame.bind fun _ => ?_
    cases value with
    | node _ => exact within_pure
    | integer _ => exact within_throw

theorem rescheduleExistentials_frame : Within R (rescheduleExistentials node) :=
  within_ask.bind fun _ => .ite within_pure (within_ask.bind fun _ => enqueueNode_frame)

theorem setExistentialReuseNode_frame :
    Within R (setExistentialReuseNode fillerPredicateId node) := by
  refine within_ask.bind fun _ => within_get.bind fun _ => ?_
  exact (modifyAside_frame).bind fun _ => .ite within_pure recordMutation_frame

theorem removeExistentialReuseNode_frame :
    Within R (removeExistentialReuseNode fillerPredicateId) := by
  refine within_get.bind fun _ => ?_
  exact (modifyAside_frame).bind fun _ => .ite recordMutation_frame within_pure

theorem setExistentialReuseDisabled_frame {predicateId : Nat} {disabled : Bool} :
    Within R (setExistentialReuseDisabled predicateId disabled) := by
  refine within_get.bind fun _ => ?_
  exact (modifyAside_frame).bind fun _ => .ite within_pure recordMutation_frame

theorem removeExistentialReuseBranch_frame {level : Nat} :
    Within R (removeExistentialReuseBranch level) := by
  refine within_get.bind fun _ => ?_
  exact (modifyAside_frame).bind fun _ => .ite recordMutation_frame within_pure

theorem takeDisjunctionLoop_frame (hmark : ∀ id, Within R (modifyState fun st => { st with
    disjunctions := st.disjunctions.modify id fun record => { record with processed := true } }))
    (fuel : Nat) : Within R (takeDisjunctionLoop fuel) := by
  induction fuel with
  | zero => exact within_pure
  | succ fuel ih =>
    refine (popFrom_frame disjunctionQueue_agenda).bind fun popped => ?_
    cases popped with
    | none => exact within_pure
    | some value =>
      refine recordMutation_frame.bind fun _ => ?_
      cases value with
      | node _ => exact within_throw
      | integer disjunctionId =>
        refine within_get.bind fun k => ?_
        cases k.state.disjunctions[disjunctionId]? with
        | none => exact within_throw
        | some record =>
          exact .ite ih ((hmark _).bind fun _ => recordMutation_frame.bind fun _ => within_pure)

end

/-! ## Disjunctions -/

section

variable [FreeAgendaFrame R]

theorem modifyAside_freeFrame {f : MutableState → MutableState}
    (hf : ∀ st, SameStore st (f st) := by exact fun _ => ⟨rfl, rfl, rfl, rfl, rfl, rfl, le_rfl⟩) :
    Within R (modifyState f) :=
  within_modify fun k => FreeAgendaFrame.disjunctions k _ (hf k.state)

theorem addDisjunction_frame {disjunctIds : List Nat} {dependency : DependencySet} :
    Within R (addDisjunction disjunctIds dependency) :=
  within_ensure.bind fun _ => within_ask.bind fun _ => within_ask.bind fun _ =>
    within_get.bind fun _ =>
    (modifyAside_freeFrame).bind fun _ =>
    recordMutation_frame.bind fun _ => (enqueueOn_frame disjunctionQueue_agenda).bind fun _ =>
    recordMutation_frame.bind fun _ => within_pure

theorem takeDisjunction_frame : Within R takeDisjunction :=
  within_get.bind fun _ => takeDisjunctionLoop_frame (fun _ => modifyAside_freeFrame) _

end

/-! ## Every mutator -/

/-- The mutators that work on the branch stack. -/
def KernelOp.onStack : KernelOp → Bool
  | beginOperation | pushBranch .. | backtrackTo .. | advanceBranch .. | resetToOperationRoot
  | strengthenDisjunction .. | pushExistentialReuseBranch .. => true
  | _ => false

/-- The mutators that write neither nodes nor facts nor branches. -/
def KernelOp.onAgenda : KernelOp → Bool
  | prepareNextDelta | addDisjunction .. | takeDisjunction | installClash .. | enqueueInteger ..
  | takeInteger .. | enqueueNode .. | takeExistentialCandidate | setExistentialReuseNode ..
  | removeExistentialReuseNode .. | setExistentialReuseDisabled .. | removeExistentialReuseBranch ..
  | rescheduleExistentials .. => true
  | _ => false

theorem KernelOp.agendaFramed [FreeAgendaFrame R] (o : KernelOp) (h : o.onAgenda = true) :
    Within R o.run := by
  cases o with
  | prepareNextDelta => exact prepareNextDelta_frame
  | addDisjunction => exact addDisjunction_frame.map
  | takeDisjunction => exact takeDisjunction_frame.map
  | installClash => exact installClash_frame.map
  | enqueueInteger => exact enqueueInteger_frame
  | takeInteger => exact takeInteger_frame.map
  | enqueueNode => exact enqueueNode_frame
  | takeExistentialCandidate => exact takeExistentialCandidate_frame.map
  | setExistentialReuseNode => exact setExistentialReuseNode_frame
  | removeExistentialReuseNode => exact removeExistentialReuseNode_frame
  | setExistentialReuseDisabled => exact setExistentialReuseDisabled_frame
  | removeExistentialReuseBranch => exact removeExistentialReuseBranch_frame
  | rescheduleExistentials => exact rescheduleExistentials_frame
  | _ => cases h

/-- A relation allows opening and retiring nodes. -/
structure AllowsNodes (R : TableauKernel → TableauKernel → Prop) : Prop where
  create : ∀ {kind : NodeKind} {parent : Option NodeHandle} {named : Bool}
    {individual level tag : Option Nat},
      Within R (createNode kind parent named individual level tag)
  retire : ∀ {handle : NodeHandle}, Within R (retireNode handle)

theorem KernelOp.freeFramed [FreeFrame R] (hnodes : AllowsNodes R) (o : KernelOp)
    (h : o.onStack = false) : Within R o.run := by
  cases o with
  | beginOperation | pushBranch | backtrackTo | advanceBranch | resetToOperationRoot
  | strengthenDisjunction | pushExistentialReuseBranch => cases h
  | createNode => exact hnodes.create.map
  | retireNode => exact hnodes.retire
  | markExistential => exact markExistential_frame
  | setBlocked => exact setBlocked_frame
  | addFact => exact addFactDetailed_frame.map
  | mergeNodes => exact (within_ask.bind fun _ => atomic_frame mergeNodesInner_frame).map
  | mergeNodesInTransaction => exact (within_ask.bind fun _ => mergeNodesInner_frame).map
  | pruneSubtree => exact (within_ask.bind fun _ => atomic_frame pruneSubtreeInner_frame).map
  | pruneSubtreeInTransaction => exact (within_ask.bind fun _ => pruneSubtreeInner_frame).map
  | promoteCoreFact => exact promoteCoreFact_frame
  | _ => exact KernelOp.agendaFramed _ rfl

end PyHermit
