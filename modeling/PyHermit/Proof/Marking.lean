import PyHermit.Proof.Lineage
import PyHermit.Proof.Computed

/-!
# Writing block marks

The two loops that bring the kernel up to date with a computation: one writes the mark of
every node whose assignment changed, the other queues the nodes that came unblocked with
existentials pending. They fail only on a node or a blocker that is not an active object
node, a rank that is taken, a counter at its end, or a halt.
-/

open Std Prog List

namespace PyHermit

open TableauKernel Arena

/-! ## One mark -/

def Node.marked (blocker : Option NodeHandle) (directly : Bool) (x : Node) : Node :=
  { x with
    blocker := blocker
    directlyBlocked := blocker.isSome && directly
    blockingGeneration := x.blockingGeneration + 1 }

/-- An active node that can carry a block. -/
def Arena.ActiveObject (arena : Arena) (h : NodeHandle) : Prop :=
  ∃ x, arena.requireActive h = .ok x ∧ x.sort = .object

instance (arena : Arena) (h : NodeHandle) : Decidable (arena.ActiveObject h) :=
  match hx : arena.requireActive h with
  | .ok x => decidable_of_iff (x.sort = .object)
      ⟨fun hs => ⟨x, hx, hs⟩, fun ⟨y, hy, hs⟩ => by rw [hx] at hy; cases hy; exact hs⟩
  | .error e => isFalse fun ⟨y, hy, _⟩ => by rw [hx] at hy; cases hy

/-- The node can be marked as blocked by `blocker`. -/
structure Markable (st : MutableState) (h : NodeHandle) (blocker : Option NodeHandle) : Prop where
  node : st.nodes.ActiveObject h
  generation : ∀ x, st.nodes.requireActive h = .ok x → x.blockingGeneration < u32Max
  blocker : ∀ b, blocker = some b → st.nodes.ActiveObject b

theorem requireObject_error {arena : Arena} {h : NodeHandle} {message : String} {e : NativeError}
    (herr : requireObject arena h message = .error e) : ¬ arena.ActiveObject h := by
  rintro ⟨x, hx, hsort⟩
  have hok : requireObject arena h message = .ok () :=
    bind_eq_ok.mpr ⟨x, hx, ensure_eq_ok.mpr (by rw [hsort]; exact nofun)⟩
  rw [hok] at herr
  cases herr

theorem MutableState.updateNode_congr {st : MutableState} {slot : Nat} {x : Node}
    {f g : Node → Node} (hx : st.nodes[slot]? = some (some x)) (hfg : f x = g x) :
    st.updateNode slot f = st.updateNode slot g := by
  unfold MutableState.updateNode
  have heq : st.nodes.modify slot (Option.map f) = st.nodes.modify slot (Option.map g) := by
    refine ext_getElem? fun i => ?_
    rw [Arena.getElem?_modify, Arena.getElem?_modify]
    split
    · rename_i heq
      subst heq
      rw [hx]
      simp only [Option.map_some, hfg]
    · rfl
  rw [heq]

/-- **`set_blocked` marks the node**, or one of the two nodes cannot be marked, or a
counter is at its end. -/
theorem wp_setBlocked_marked {h : NodeHandle} {blocker : Option NodeHandle} {directly : Bool}
    {k : TableauKernel} {Q : Unit → TableauKernel → Prop} {E : NativeError → TableauKernel → Prop}
    (hok : k.state.nodes.ActiveObject h → (∀ b, blocker = some b → k.state.nodes.ActiveObject b) →
      Q () { k with
        state := k.state.updateNode h.slot (Node.marked blocker directly)
        trailLength := k.trailLength + 1 })
    (herr : ∀ e k', ¬ (Markable k.state h blocker ∧ k.trailLength < u64Max) → E e k') :
    wp (setBlocked h blocker directly) Q E k := by
  refine wp_ask_then (fun _ hobj => ?_) fun e he => herr e k fun hm =>
    requireObject_error he hm.1.node
  obtain ⟨x, hx, hsort⟩ := requireObject_ok hobj
  have hxn := (requireActive_eq_ok.mp hx).1
  have hxs := (requireNode_eq_ok.mp hxn).1
  have hwrite : (∀ b, blocker = some b → k.state.nodes.ActiveObject b) →
      wp (writeBlock h blocker directly) Q E k := by
    intro hb
    -- the node that is read back is the one just written
    have hself := requireNode_modify_self (f := fun node =>
      { node with blocker := blocker, directlyBlocked := blocker.isSome && directly }) hxn rfl
      (requireNode_eq_ok.mp hxn).2.2
    refine wp_modify_then.mpr (wp_bind.mpr (wp_ask_known hself ?_))
    refine wp_ask_then (fun generation hgen => ?_) fun e he =>
      herr e _ fun hm => bounded_error he (hm.1.generation x hx)
    refine wp_modify.mpr (wp_ask_then (fun length hlength => ?_) fun e he =>
      herr e _ fun hm => bounded_error he hm.2)
    rw [increment64_ok hlength, (increment32_ok hgen).1]
    refine wp_modify.mpr ?_
    -- the mark and the generation are two writes of the source, and one of the model's `marked`
    have hstate : (k.state.updateNode h.slot fun node =>
        { node with blocker := blocker, directlyBlocked := blocker.isSome && directly }).updateNode
          h.slot (fun node => { node with blockingGeneration := x.blockingGeneration + 1 }) =
        k.state.updateNode h.slot (Node.marked blocker directly) := by
      rw [updateNode_updateNode]
      exact MutableState.updateNode_congr hxs rfl
    have hQ := hok ⟨x, hx, hsort⟩ hb
    rw [← hstate] at hQ
    exact hQ
  cases blocker with
  | none => exact hwrite nofun
  | some value =>
    refine wp_ask_then (fun _ hvalue => ?_) fun e he => herr e k fun hm =>
      requireObject_error he (hm.1.blocker value rfl)
    exact hwrite fun b hb => by cases hb; exact requireObject_ok hvalue

/-! ## All marks -/

def AssignmentChange.mark (change : AssignmentChange) : Option NodeHandle × Bool :=
  match change.after with
  | none => (none, false)
  | some assignment => if assignment.fromCache then (none, false) else (assignment.blocker,
    assignment.directly)

def MutableState.mark (st : MutableState) (change : AssignmentChange) : MutableState :=
  st.updateNode change.node.slot (Node.marked change.mark.1 change.mark.2)

section Mark

variable {st : MutableState} {change : AssignmentChange} {h : NodeHandle} {x : Node}

theorem requireActive_mark_self (hx : st.nodes.requireActive change.node = .ok x) :
    (st.mark change).nodes.requireActive change.node =
      .ok (x.marked change.mark.1 change.mark.2) := by
  obtain ⟨hn, hact⟩ := requireActive_eq_ok.mp hx
  refine requireActive_eq_ok.mpr ⟨requireNode_modify_self hn rfl ?_, hact⟩
  exact (requireNode_eq_ok.mp hn).2.2

theorem requireActive_mark_ne (hc : st.nodes.ActiveObject change.node) (hne : h ≠ change.node)
    (hx : st.nodes.requireActive h = .ok x) : (st.mark change).nodes.requireActive h = .ok x := by
  obtain ⟨y, hy, -⟩ := hc
  obtain ⟨hn, hact⟩ := requireActive_eq_ok.mp hx
  exact requireActive_eq_ok.mpr
    ⟨requireNode_rewritten (requireActive_eq_ok.mp hy).1 hne hn, hact⟩

theorem activeObject_mark (hc : st.nodes.ActiveObject change.node) (hh : st.nodes.ActiveObject h) :
    (st.mark change).nodes.ActiveObject h := by
  obtain ⟨x, hx, hsort⟩ := hh
  by_cases heq : h = change.node
  · subst heq
    exact ⟨_, requireActive_mark_self hx, hsort⟩
  · exact ⟨x, requireActive_mark_ne hc heq hx, hsort⟩

theorem origin_mark (hx : (st.mark change).nodes.requireActive h = .ok x) :
    ∃ old, st.nodes.requireActive h = .ok old ∧ old.SameBirth x := by
  rw [requireActive_eq_ok, requireNode_eq_ok] at hx
  obtain ⟨⟨hy, hgen, hret⟩, hact⟩ := hx
  obtain ⟨old, hold, rfl⟩ := modify_some hy
  split at hgen
  all_goals
    rename_i hslot
    simp only [hslot, if_true, if_false] at hact hret ⊢
    refine ⟨old, requireActive_eq_ok.mpr ⟨requireNode_eq_ok.mpr ⟨hold, hgen, hret⟩, hact⟩, ?_⟩
    exact ⟨rfl, rfl, rfl, rfl, rfl, rfl, rfl⟩

theorem Markable.mark {blocker : Option NodeHandle} (hm : Markable st h blocker)
    (hc : st.nodes.ActiveObject change.node) (hne : h ≠ change.node) :
    Markable (st.mark change) h blocker where
  node := activeObject_mark hc hm.node
  generation x hx := by
    obtain ⟨y, hy, -⟩ := hm.node
    rw [requireActive_mark_ne hc hne hy] at hx
    cases hx
    exact hm.generation x hy
  blocker b hb := activeObject_mark hc (hm.blocker b hb)

end Mark

/-- What the first loop leaves of a state. -/
def MutableState.marks (st : MutableState) (changes : List AssignmentChange) : MutableState :=
  changes.foldl MutableState.mark st

section Marks

variable {st : MutableState} {changes : List AssignmentChange} {h : NodeHandle} {x : Node}

theorem origin_marks (hx : (st.marks changes).nodes.requireActive h = .ok x) :
    ∃ old, st.nodes.requireActive h = .ok old ∧ old.SameBirth x := by
  induction changes generalizing st with
  | nil => exact ⟨x, hx, .refl x⟩
  | cons c changes ih =>
    obtain ⟨y, hy, hyx⟩ := ih hx
    obtain ⟨z, hz, hzy⟩ := origin_mark hy
    exact ⟨z, hz, hzy.trans hyx⟩

theorem marks_queue : (st.marks changes).existentialCandidates = st.existentialCandidates := by
  induction changes generalizing st with
  | nil => rfl
  | cons c changes ih => exact ih

theorem marks_facts : (st.marks changes).facts = st.facts := by
  induction changes generalizing st with
  | nil => rfl
  | cons c changes ih => exact ih

/-- A mark is nothing that blocking reads. -/
theorem marks_records : (st.marks changes).nodes.liveNodes.map (·.blockingRecord) =
    st.nodes.liveNodes.map (·.blockingRecord) := by
  induction changes generalizing st with
  | nil => rfl
  | cons c changes ih => exact ih.trans (map_liveNodes_modify fun _ => rfl)

theorem slotted_marks (hs : st.nodes.Slotted) : (st.marks changes).nodes.Slotted := by
  induction changes generalizing st with
  | nil => exact hs
  | cons c changes ih =>
    refine ih fun i x hx => ?_
    obtain ⟨old, hold, rfl⟩ := modify_some hx
    split <;> exact hs i old hold

variable (hc : ∀ c ∈ changes, st.nodes.ActiveObject c.node)
include hc

theorem requireActive_marks_ne
    (hne : ∀ c ∈ changes, h ≠ c.node) (hx : st.nodes.requireActive h = .ok x) :
    (st.marks changes).nodes.requireActive h = .ok x := by
  induction changes generalizing st with
  | nil => exact hx
  | cons c changes ih =>
    have hself := hc c mem_cons_self
    exact ih (fun d hd => activeObject_mark hself (hc d (mem_cons_of_mem _ hd)))
      (fun d hd => hne d (mem_cons_of_mem _ hd))
      (requireActive_mark_ne hself (hne c mem_cons_self) hx)

theorem requireActive_marks (hnodup : (changes.map (·.node)).Nodup) {c : AssignmentChange}
    (hmem : c ∈ changes) (hx : st.nodes.requireActive c.node = .ok x) :
    (st.marks changes).nodes.requireActive c.node = .ok (x.marked c.mark.1 c.mark.2) := by
  induction changes generalizing st with
  | nil => cases hmem
  | cons d changes ih =>
    rw [map_cons, nodup_cons] at hnodup
    have hself := hc d mem_cons_self
    have hrest : ∀ c ∈ changes, (st.mark d).nodes.ActiveObject c.node := fun c hin =>
      activeObject_mark hself (hc c (mem_cons_of_mem _ hin))
    have hne : ∀ c ∈ changes, d.node ≠ c.node := fun c hin heq =>
      hnodup.1 (mem_map.mpr ⟨c, hin, heq.symm⟩)
    rcases mem_cons.mp hmem with rfl | hin
    · change ((st.mark c).marks changes).nodes.requireActive c.node = _
      exact requireActive_marks_ne hrest hne (requireActive_mark_self hx)
    · exact ih hrest hnodup.2 hin (requireActive_mark_ne hself (fun heq => hne c hin heq.symm) hx)

theorem active_marks (hh : st.nodes.Active h) :
    (st.marks changes).nodes.Active h := by
  induction changes generalizing st with
  | nil => exact hh
  | cons c changes ih =>
    have hself := hc c mem_cons_self
    refine ih (fun d hd => activeObject_mark hself (hc d (mem_cons_of_mem _ hd))) ?_
    obtain ⟨y, hy⟩ := hh
    by_cases heq : h = c.node
    · subst heq
      exact ⟨_, requireActive_mark_self hy⟩
    · exact ⟨y, requireActive_mark_ne hself heq hy⟩

end Marks

/-! ## The loops -/

section Loops

variable {control : BlockingControl} {b : Blocking} {Q : Unit → Blocking → Prop}
  {E : BlockingError → Blocking → Prop}

theorem wp_applyToKernel {m : KernelM Unit}
    (h : wp m (fun _ k => Q () { b with kernel := k }) (fun e k =>
      E (blockingError e) { b with kernel := k }) b.kernel) : wp (applyToKernel m) Q E b := by
  unfold wp at h ⊢
  unfold applyToKernel
  cases hm : m b.kernel with
  | ok | error =>
    rw [hm] at h
    exact h

theorem wp_pollBlocking (hok : ∀ w, Q () { b with work := w })
    (herr : ∀ e w, (∃ i, control i = .error e) → E e { b with work := w }) :
    wp (pollBlocking control) Q E b :=
  wp_zoom.mpr (wp_blockingPoll (fun w _ => hok w) fun e w _ hi => herr e w hi)

/-- The kernel can take all the marks. -/
structure AllMarkable (k : TableauKernel) (changes : List AssignmentChange) : Prop where
  each : ∀ c ∈ changes, Markable k.state c.node c.mark.1
  room : k.trailLength + changes.length ≤ u64Max

/-- **The first loop writes every change**, or it is halted, or a change cannot be
written. -/
theorem wp_applyChanges {changes : List AssignmentChange} (hnodup : (changes.map (·.node)).Nodup) :
    wp (applyEach control applyAssignmentChange changes)
      (fun _ b' => (∀ c ∈ changes, b.kernel.state.nodes.ActiveObject c.node) ∧
        b'.kernel = { b.kernel with
          state := b.kernel.state.marks changes
          trailLength := b.kernel.trailLength + changes.length })
      (fun e _ => Halted control e ∨ ¬ AllMarkable b.kernel changes) b := by
  induction changes generalizing b with
  | nil => exact ⟨fun c hc => absurd hc not_mem_nil, rfl⟩
  | cons c changes ih =>
    rw [map_cons, nodup_cons] at hnodup
    have hne : ∀ d ∈ changes, d.node ≠ c.node := fun d hd heq =>
      hnodup.1 (mem_map.mpr ⟨d, hd, heq⟩)
    refine wp_bind.mpr (wp_bind.mpr ?_)
    refine wp_applyToKernel (wp_setBlocked_marked (fun hnode _ => ?_) fun e k' hbad => ?_)
    · refine wp_pollBlocking (fun w => ?_) fun e w hi => .inl (.inl hi)
      refine wp_mono (ih hnodup.2) ?_ ?_
      · rintro _ b' ⟨hactive, hkernel⟩
        refine ⟨fun d hd => ?_, ?_⟩
        · rcases mem_cons.mp hd with rfl | hd
          · exact hnode
          · -- marking made nothing an active object node
            obtain ⟨y, hy, hsort⟩ := hactive d hd
            obtain ⟨x, hx, hbirth⟩ := origin_mark hy
            exact ⟨x, hx, hbirth.sort.symm.trans hsort⟩
        · rw [hkernel]
          simp only [length_cons, Nat.add_assoc, Nat.add_comm 1]
          rfl
      · rintro e b' (hh | hbad)
        · exact .inl hh
        · refine .inr fun hm => hbad ⟨fun d hd => ?_, ?_⟩
          · exact (hm.each d (mem_cons_of_mem _ hd)).mark hnode (hne d hd)
          · have hroom := hm.room
            simp only [length_cons] at hroom ⊢
            omega
    · refine .inr fun hm => hbad ⟨hm.each c mem_cons_self, ?_⟩
      have hroom := hm.room
      simp only [length_cons] at hroom
      omega

/-- The node's rank in the queue of existential candidates is not taken by another. -/
def RankFree (st : MutableState) (h : NodeHandle) : Prop :=
  ∀ x, st.nodes.requireActive h = .ok x → .node h ∈ st.existentialCandidates.members ∨
    ([(x.creationId : Int), h.slot, h.generation] : List Int) ∉ st.existentialCandidates.entries

/-- The kernel can queue all the nodes. -/
structure AllQueueable (k : TableauKernel) (nodes : List NodeHandle) : Prop where
  active : ∀ h ∈ nodes, k.state.nodes.Active h
  ranks : ∀ h ∈ nodes, RankFree k.state h
  room : k.trailLength + nodes.length ≤ u64Max

theorem StableQueue.enqueue_error {queue : StableQueue} {item : QueueValue} {rank : List Int}
    {e : NativeError} (he : queue.enqueue item rank = .error e) :
    item ∉ queue.members ∧ rank ∈ queue.entries := by
  unfold StableQueue.enqueue at he
  split at he
  · cases he
  · split at he
    · exact ⟨‹_›, ‹_›⟩
    · cases he

theorem RankFree.enqueue {st : MutableState} {g h : NodeHandle} (hr : RankFree st g) {x : Node}
    {added : Bool} {queue : StableQueue}
    (hq : st.existentialCandidates.enqueue (.node h) [(x.creationId : Int), h.slot, h.generation] =
      .ok (added, queue)) : RankFree { st with existentialCandidates := queue } g := by
  unfold StableQueue.enqueue at hq
  split at hq
  · cases hq
    exact hr
  · split at hq
    · cases hq
    · cases hq
      intro y hy
      rcases hr y hy with hin | hout
      · exact .inl (mem_insert_eq.mpr (.inr hin))
      · by_cases hgh : g = h
        · subst hgh
          exact .inl ExtTreeSet.mem_insert_self
        · refine .inr fun hmem => ?_
          rcases ExtTreeMap.mem_insert.mp hmem with heq | hmem
          · rw [Std.compare_eq_iff_eq] at heq
            simp only [List.cons.injEq, Int.natCast_inj] at heq
            exact hgh (NodeHandle.ext heq.2.1.symm heq.2.2.1.symm)
          · exact hout hmem

/-- What blocking reads of the kernel is the same. -/
structure SameBlocking (k k' : TableauKernel) : Prop where
  nodes : k'.state.nodes = k.state.nodes
  facts : k'.state.facts = k.state.facts

/-- **The second loop moves no node**, or it is halted, or a node cannot be queued. -/
theorem wp_rescheduleEach {nodes : List NodeHandle} :
    wp (applyEach control (fun node => applyToKernel (rescheduleExistentials node)) nodes)
      (fun _ b' => SameBlocking b.kernel b'.kernel)
      (fun e _ => Halted control e ∨ ¬ AllQueueable b.kernel nodes) b := by
  induction nodes generalizing b with
  | nil => exact ⟨rfl, rfl⟩
  | cons h nodes ih =>
    have htail : AllQueueable b.kernel (h :: nodes) → (∀ g ∈ nodes, b.kernel.state.nodes.Active g) ∧
        (∀ g ∈ nodes, RankFree b.kernel.state g) ∧
        b.kernel.trailLength + (nodes.length + 1) ≤ u64Max :=
      fun hall => ⟨fun g hg => hall.active g (mem_cons_of_mem _ hg),
        fun g hg => hall.ranks g (mem_cons_of_mem _ hg), hall.room⟩
    refine wp_bind.mpr (wp_seq (P := fun _ b' => SameBlocking b.kernel b'.kernel ∧
      (AllQueueable b.kernel (h :: nodes) → AllQueueable b'.kernel nodes)) ?_ ?_)
    rotate_left
    · -- after one node, the others are as queueable as they were
      rintro _ b' ⟨hk, hq⟩
      refine wp_pollBlocking (fun w => ?_) fun e w hi => .inl (.inl hi)
      refine wp_mono ih (fun _ b' hb' => ⟨hb'.nodes.trans hk.nodes, hb'.facts.trans hk.facts⟩)
        fun e b' he => he.imp_right fun hbad hall => ?_
      exact hbad (hq hall)
    refine wp_applyToKernel (wp_ask_then (fun x hx => ?_) fun e he => ?_)
    · refine wp_ite (fun _ => ?_) fun _ => ?_
      · refine wp_pure.mpr ⟨⟨rfl, rfl⟩, fun hall => ?_⟩
        obtain ⟨hactive, hranks, hroom⟩ := htail hall
        exact ⟨hactive, hranks, by dsimp only; omega⟩
      · refine wp_ask_known (bind_eq_ok.mpr ⟨x, hx, rfl⟩)
          (wp_ask_known (requireActive_eq_ok.mp hx).1 ?_)
        refine wp_bind.mpr (wp_ask_then (fun result hresult => ?_) fun e he => ?_)
        · obtain ⟨added, queue⟩ := result
          have hqueued : AllQueueable b.kernel (h :: nodes) → ∀ t, t ≤ b.kernel.trailLength + 1 →
              AllQueueable { b.kernel with
                state := { b.kernel.state with existentialCandidates := queue }
                trailLength := t } nodes := by
            intro hall t ht
            obtain ⟨hactive, hranks, hroom⟩ := htail hall
            refine ⟨hactive, fun g hg => (hranks g hg).enqueue hresult, ?_⟩
            change t + nodes.length ≤ u64Max
            omega
          refine wp_modify_then.mpr (wp_pure.mpr (wp_ite (fun _ => ?_) fun _ => ?_))
          · refine wp_ask_then (fun length hlength => ?_) fun e he => ?_
            · rw [increment64_ok hlength]
              exact wp_modify.mpr ⟨⟨rfl, rfl⟩, fun hall => hqueued hall _ le_rfl⟩
            · refine .inr fun hall => bounded_error he ?_
              have hroom := (htail hall).2.2
              change b.kernel.trailLength < u64Max
              omega
          · exact wp_pure.mpr ⟨⟨rfl, rfl⟩, fun hall => hqueued hall _ (Nat.le_succ _)⟩
        · -- the node is not queued, and its rank is taken
          obtain ⟨hout, htaken⟩ := StableQueue.enqueue_error he
          exact .inr fun hall =>
            (hall.ranks h mem_cons_self x hx).elim hout fun hfree => hfree htaken
    · refine .inr fun hall => ?_
      obtain ⟨x, hx⟩ := hall.active h mem_cons_self
      cases hx.symm.trans he

end Loops

end PyHermit
