import PyHermit.Proof.Dispatch

/-!
# The registry of disjunctions

`RuleEngine` remembers under which identifier it entered a disjunction. Identifiers are
positions in a list the kernel cuts back when it backtracks, and the registry is not cut
back with it. As long as no disjunction is registered under an identifier to which an old
key is still bound, a key leads to the record of its own atoms or to none (`KeysSound`).

Two facts carry it. Every state a branch may return to has a prefix of the current records
(`Nested`), so going back makes keys dangle and never changes what one leads to. And atoms
are only ever added to their registry, so the atoms of a record can always be read back.
-/

open Std Prog List

namespace PyHermit

open TableauKernel

/-! ## Nested pasts -/

/-- A stack of lists, each a prefix of those above it and of the current one. -/
structure Nested {α : Type} (past : List (List α)) (current : List α) : Prop where
  ascending : past.Pairwise (· <+: ·)
  below : ∀ l ∈ past, l <+: current

namespace Nested

variable {α : Type} {past : List (List α)} {current : List α} (h : Nested past current)
include h

theorem grow {current' : List α} (hgrow : current <+: current') :
    Nested past current' :=
  ⟨h.ascending, fun l hl => (h.below l hl).trans hgrow⟩

theorem push : Nested (past ++ [current]) current := by
  refine ⟨pairwise_append.mpr ⟨h.ascending, pairwise_singleton _ _, fun l hl l' hl' => ?_⟩,
    fun l hl => ?_⟩
  · rw [mem_singleton.mp hl']
    exact h.below l hl
  · rcases mem_append.mp hl with hl | hl
    · exact h.below l hl
    · exact mem_singleton.mp hl ▸ prefix_rfl

theorem back {i : Nat} {l : List α} (hl : past[i]? = some l) {n : Nat} (hn : n ≤ i + 1) :
    Nested (past.take n) l := by
  refine ⟨h.ascending.sublist (take_sublist _ _), fun l' hl' => ?_⟩
  obtain ⟨j, hj⟩ := mem_iff_getElem?.mp hl'
  rw [getElem?_take] at hj
  split at hj
  · rename_i hjn
    rcases Nat.lt_or_ge j i with hji | hji
    · obtain ⟨hjlen, hj⟩ := List.getElem?_eq_some_iff.mp hj
      obtain ⟨hilen, hi⟩ := List.getElem?_eq_some_iff.mp hl
      rw [← hj, ← hi]
      exact pairwise_iff_getElem.mp h.ascending j i hjlen hilen hji
    · have hji' : j = i := by omega
      rw [hji', hl] at hj
      cases hj
      exact prefix_rfl
  · cases hj

theorem prefix_of_getElem? {i : Nat} {l : List α} (hl : past[i]? = some l) : l <+: current :=
  h.below l (mem_of_getElem? hl)

end Nested

/-! ## Records -/

/-- What a disjunction says, and whether it counts: what never changes about a record. -/
def GroundDisjunction.shape (record : GroundDisjunction) : List Nat × Bool :=
  (record.disjunctIds, record.active)

def MutableState.shapes (st : MutableState) : List (List Nat × Bool) :=
  st.disjunctions.map (·.shape)

/-- The records of the states the kernel may return to, oldest first. -/
def TableauKernel.pastShapes (k : TableauKernel) : List (List (List Nat × Bool)) :=
  k.operationRoot.state.shapes :: k.branches.map (·.snapshot.state.shapes)

structure SameShapes (k k' : TableauKernel) : Prop where
  past : k'.pastShapes = k.pastShapes
  shapes : k'.state.shapes = k.state.shapes

instance : Std.Refl SameShapes := ⟨fun _ => ⟨rfl, rfl⟩⟩

instance : IsTrans TableauKernel SameShapes :=
  ⟨fun _ _ _ h1 h2 => ⟨h2.past.trans h1.past, h2.shapes.trans h1.shapes⟩⟩

/-- From a nested past to a nested past, without new records. -/
def Recedes (k k' : TableauKernel) : Prop :=
  Nested k.pastShapes k.state.shapes →
    Nested k'.pastShapes k'.state.shapes ∧ k'.state.shapes <+: k.state.shapes

instance : Std.Refl Recedes := ⟨fun _ h => ⟨h, prefix_rfl⟩⟩

variable {k : TableauKernel} {dependency : DependencySet} {k' : TableauKernel} {level : Nat}
  {ids : List Nat} {s s' : RuleState}

theorem SameShapes.recedes (h : SameShapes k k') : Recedes k k' := by
  intro hn
  rw [h.past, h.shapes]
  exact ⟨hn, prefix_rfl⟩

theorem StackKept.past (h : StackKept k k') : k'.pastShapes = k.pastShapes := by
  unfold TableauKernel.pastShapes
  rw [h.branches, h.operationRoot]

theorem Keeps.sameShapes (h : Keeps k k') : SameShapes k k' := by
  refine ⟨h.toStackKept.past, ?_⟩
  unfold MutableState.shapes
  rw [h.disjunctions]

theorem shapes_modify {st : MutableState} {i : Nat} {f : GroundDisjunction → GroundDisjunction}
    (hf : ∀ record, (f record).shape = record.shape) :
    { st with disjunctions := st.disjunctions.modify i f }.shapes = st.shapes := by
  unfold MutableState.shapes
  apply ext_getElem?
  intro j
  rw [getElem?_map, getElem?_map, List.getElem?_modify]
  cases st.disjunctions[j]? with
  | none => split <;> rfl
  | some record =>
    split
    · exact congrArg some (hf record)
    · rfl

/-! ### The operations on records and branches -/

instance : AgendaFrame SameShapes where
  mutation _ _ _ := ⟨rfl, rfl⟩
  aside _ _ _ hd := ⟨rfl, congrArg (map GroundDisjunction.shape) hd⟩

theorem takeDisjunction_sameShapes : Within SameShapes takeDisjunction :=
  within_get.bind fun _ => takeDisjunctionLoop_frame
    (fun _ => within_modify fun _ => ⟨rfl, shapes_modify fun _ => rfl⟩) _

theorem strengthenDisjunction_sameShapes {disjunctionId : Nat} :
    Within SameShapes (strengthenDisjunction disjunctionId dependency) := by
  intro k
  refine wp_strengthenDisjunction (fun _ => Std.Refl.refl (r := SameShapes) k)
    (Std.Refl.refl (r := SameShapes) k) fun t record _ _ _ _ _ => ⟨?_, shapes_modify fun _ => rfl⟩
  unfold TableauKernel.pastShapes
  rw [map_map]
  refine congrArg (List.cons _) (map_congr_left fun b _ => ?_)
  rw [Function.comp_apply]
  unfold strengthened
  split <;> rfl

theorem pushBranch_recedes {choiceKind : ChoiceKind} {alternatives : List Nat} {sourceId : Nat}
    {baseDependency : DependencySet} :
    Within Recedes (pushBranch choiceKind alternatives sourceId baseDependency) := by
  intro k
  refine wp_pushBranch (fun _ _ => Std.Refl.refl (r := Recedes) k) fun _ hn => ?_
  refine ⟨?_, prefix_rfl⟩
  have hpast : k.pastShapes ++ [k.state.shapes] = k.operationRoot.state.shapes ::
      (k.branches ++ [k.opened (k.checkpointSequence + 1) choiceKind alternatives sourceId
        baseDependency]).map (·.snapshot.state.shapes) := by
    rw [map_append]
    rfl
  have hpush := hn.push
  rw [hpast] at hpush
  exact hpush

/-- At a branch, with it or without it, and whatever it has come to. -/
theorem recedes_backAt {b : Branch} (hb : k.branches[level]? = some b)
    {branches : List Branch} {n : Nat} (hn : n ≤ level + 1)
    (hbranches : branches.map (·.snapshot.state.shapes) =
      (k.branches.take n).map (·.snapshot.state.shapes)) :
    Recedes k { k.backAt level b with branches := branches } := by
  intro hnested
  have hlevel : k.pastShapes[level + 1]? = some b.snapshot.state.shapes := by
    unfold TableauKernel.pastShapes
    rw [getElem?_cons_succ, getElem?_map, hb]
    rfl
  refine ⟨?_, hnested.prefix_of_getElem? hlevel⟩
  have hback := hnested.back hlevel (n := n + 1) (by omega)
  have htake : k.pastShapes.take (n + 1) =
      { k.backAt level b with branches := branches }.pastShapes := by
    unfold TableauKernel.pastShapes
    rw [take_succ_cons, ← map_take, ← hbranches]
    rfl
  rw [htake] at hback
  exact hback

theorem advanceBranch_recedes {learned : DependencySet} :
    Within Recedes (advanceBranch level learned) := by
  intro k
  have hset : ∀ b, k.branches[level]? = some b →
      ((k.branches.take (level + 1)).set level (advanced b learned)).map (·.snapshot.state.shapes) =
        (k.branches.take (level + 1)).map (·.snapshot.state.shapes) := by
    intro b hb
    have htake : (k.branches.take (level + 1))[level]? = some b := by
      rw [getElem?_take, if_pos (Nat.lt_succ_self _), hb]
    apply ext_getElem?
    intro j
    rw [getElem?_map, getElem?_map, getElem?_set]
    split
    · rename_i hj
      rw [if_pos (lt_of_getElem? htake), ← hj, htake]
      rfl
    · rfl
  refine wp_advanceBranch (fun _ _ => Std.Refl.refl (r := Recedes) k)
    (fun _ b hb _ => ?_) (fun b hb _ => ?_) (fun b _ hb _ => ?_) fun _ b hb _ => ?_
  · exact recedes_backAt hb le_rfl rfl
  · exact recedes_backAt hb (Nat.le_succ _) rfl
  · exact recedes_backAt hb le_rfl (hset b hb)
  · exact recedes_backAt hb le_rfl (hset b hb)

theorem recedes_atRoot : Recedes k k.atRoot := by
  intro hn
  have hroot : k.pastShapes[0]? = some k.operationRoot.state.shapes := rfl
  have hback := hn.back hroot le_rfl
  exact ⟨hback, hn.prefix_of_getElem? hroot⟩

theorem beginOperation_recedes : Within Recedes beginOperation := by
  intro k
  refine wp_beginOperation (fun _ => Std.Refl.refl (r := Recedes) k) fun sequence hnil hn => ?_
  refine ⟨?_, prefix_rfl⟩
  rw [hnil]
  exact ⟨pairwise_singleton _ _, fun l hl => mem_singleton.mp hl ▸ prefix_rfl⟩

/-- A new record is the last one; a failure may leave it there too. -/
theorem wp_addDisjunction {Q : Nat → TableauKernel → Prop} {E : NativeError → TableauKernel → Prop}
    (hfail : ∀ e k', StackKept k k' → k.state.shapes <+: k'.state.shapes →
      k'.state.shapes <+: k.state.shapes ++ [(ids, true)] → E e k')
    (hok : ∀ k', StackKept k k' → k'.state.shapes = k.state.shapes ++ [(ids, true)] →
      Q k.state.disjunctions.length k') :
    wp (addDisjunction ids dependency) Q E k := by
  have hsame : ∀ e, E e k := fun e => hfail e k (Std.Refl.refl (r := StackKept) k) prefix_rfl
    (prefix_append _ _)
  refine wp_ensure_then (fun _ => ?_) fun _ => hsame _
  refine wp_ask_then (fun _ _ => ?_) fun _ _ => hsame _
  refine wp_ask_then (fun id hid => ?_) fun _ _ => hsame _
  rw [toU32_ok hid]
  refine wp_get_then.mpr (wp_modify_then.mpr ?_)
  -- from here on the record is there
  generalize hk1 : ({ k with state := _ } : TableauKernel) = k1
  have hkept : StackKept k k1 := by rw [← hk1]; exact ⟨rfl, rfl, fun h => h⟩
  have hshapes : k1.state.shapes = k.state.shapes ++ [(ids, true)] := by
    rw [← hk1]
    unfold MutableState.shapes
    rw [map_append]
    rfl
  have hadded : ∀ e k', Keeps k1 k' → E e k' := fun e k' h => by
    have h' : k'.state.shapes = k.state.shapes ++ [(ids, true)] := h.sameShapes.shapes.trans hshapes
    exact hfail e k' (hkept.trans h.toStackKept) (h' ▸ prefix_append _ _) (h' ▸ prefix_rfl)
  have henqueue : Within Keeps
    (enqueueOn disjunctionQueueLens (.integer k.state.disjunctions.length)
      [(k.state.disjunctions.length : Int)]) := enqueueOn_frame disjunctionQueue_agenda
  refine wp_then (recordMutation_frame k1) (fun _ k2 h2 => ?_) hadded
  refine wp_then (henqueue k2) (fun _ k3 h3 => ?_)
    fun e k' h => hadded e k' (IsTrans.trans _ _ _ h2 h)
  have h3 : Keeps k1 k3 := IsTrans.trans _ _ _ h2 h3
  refine wp_then (recordMutation_frame k3) (fun _ k4 h4 => ?_)
    fun e k' h => hadded e k' (IsTrans.trans _ _ _ h3 h)
  have h4 : Keeps k1 k4 := IsTrans.trans _ _ _ h3 h4
  exact hok k4 (hkept.trans h4.toStackKept) (h4.sameShapes.shapes.trans hshapes)

/-! ## The invariant -/

/-- No key is bound yet to the identifier of the disjunction to be registered. -/
def Registration.Unaliased (r : Registration) : Prop :=
  ∀ entry ∈ r.keys.toList, entry.2 ≠ r.disjunctionId

instance (r : Registration) : Decidable r.Unaliased :=
  inferInstanceAs (Decidable (∀ entry ∈ r.keys.toList, entry.2 ≠ r.disjunctionId))

theorem Registration.Unaliased.ne {r : Registration} (h : r.Unaliased)
    {key : List GroundAtom} {id : Nat} (hkey : r.keys[key]? = some id) : id ≠ r.disjunctionId :=
  h (key, id) (ExtTreeMap.mem_toList_iff_getElem?_eq_some.mpr hkey)

/-- The identifiers stand for the atoms. -/
def RuleState.Names (s : RuleState) (ids : List Nat) (atoms : List GroundAtom) : Prop :=
  ids.map (s.atoms[·]?) = atoms.map some

theorem RuleState.Names.grow (hatoms : s.atoms <+: s'.atoms)
    {atoms : List GroundAtom} (h : s.Names ids atoms) : s'.Names ids atoms := by
  unfold RuleState.Names at h ⊢
  rw [← h]
  refine map_congr_left fun id hid => ?_
  have hsome : s.atoms[id]? ∈ atoms.map some := by
    rw [← h]
    exact mem_map_of_mem hid
  obtain ⟨atom, _, hatom⟩ := mem_map.mp hsome
  rw [← hatom]
  exact RuleEngine.prefix_getElem? hatoms hatom.symm

/-- A key leads to the record of its own atoms, or to none. -/
def RuleState.KeysSound (s : RuleState) : Prop :=
  ∀ (atoms : List GroundAtom) (id : Nat) (shape : List Nat × Bool),
    s.disjunctionKeys[atoms]? = some id →
    s.kernel.state.shapes[id]? = some shape → s.Names shape.1 atoms

structure RegistryInv (s : RuleState) : Prop where
  interned : s.Interned
  nested : Nested s.kernel.pastShapes s.kernel.state.shapes
  sound : (∀ r ∈ s.registrations, r.Unaliased) → s.KeysSound

/-- The step keeps the invariant. -/
def Maintains (s s' : RuleState) : Prop := RegistryInv s → RegistryInv s'

instance : Std.Refl Maintains := ⟨fun _ h => h⟩

instance : IsTrans RuleState Maintains := ⟨fun _ _ _ h1 h2 h => h2 (h1 h)⟩

theorem RuleState.KeysSound.recede (h : s.KeysSound)
    (hkeys : ∀ (atoms : List GroundAtom) (id : Nat), s'.disjunctionKeys[atoms]? = some id →
      s.disjunctionKeys[atoms]? = some id)
    (hatoms : s.atoms <+: s'.atoms) (hshapes : s'.kernel.state.shapes <+: s.kernel.state.shapes) :
    s'.KeysSound :=
  fun atoms id shape hkey hshape =>
    (h atoms id shape (hkeys atoms id hkey) (RuleEngine.prefix_getElem? hshapes hshape)).grow hatoms

theorem Dispatched.maintains (h : Dispatched s s') : Maintains s s' := by
  intro hs
  have hsame := h.kernel.sameShapes
  refine ⟨h.interned hs.interned, (hsame.recedes hs.nested).1, fun hr => ?_⟩
  rw [h.registrations] at hr
  exact (hs.sound hr).recede (fun _ _ hkey => by rwa [h.keys] at hkey) h.atoms
    (hsame.recedes hs.nested).2

namespace RuleEngine

variable {engine : RuleEngine} {cancellation : Cancellation} {α : Type} {s : RuleState}

theorem maintains_of_dispatched {m : RuleM α} (h : Within Dispatched m) : Within Maintains m :=
  h.mono fun _ _ hd => hd.maintains

theorem poll_maintains : Within Maintains (poll cancellation) :=
  maintains_of_dispatched poll_dispatched

theorem observe_maintains {f : MutableState → Except NativeError α} :
    Within Maintains (observe f) := maintains_of_dispatched observe_dispatched

theorem hasClash_maintains : Within Maintains hasClash :=
  maintains_of_dispatched hasClash_dispatched

theorem maintains_kernel (h : Recedes s.kernel k) :
    Maintains s ((polledLens.comp kernelLens).put s k) := fun hs =>
  ⟨hs.interned, (h hs.nested).1, fun hr =>
    (hs.sound hr).recede (fun _ _ hkey => hkey) prefix_rfl (h hs.nested).2⟩

theorem onKernel_maintains {m : KernelM α} (hm : Within Recedes m) :
    Within Maintains (onKernel m) :=
  fun s => wp_zoom.mpr (wp_mono (hm s.kernel) (fun _ _ h => maintains_kernel h) fun _ _ h =>
    maintains_kernel h)

theorem onKernel_maintains_keeps {m : KernelM α} (hm : Within Keeps m) :
    Within Maintains (onKernel m) := onKernel_maintains (hm.mono fun _ _ h => h.sameShapes.recedes)

/-- A failed operation is back at the operation root, with its registries as they were when
it failed. -/
theorem recoverTo_maintains {what : String} {m : RuleM α} (hm : Within Maintains m) :
    Within Maintains (recoverTo (polledLens.comp kernelLens) what m) :=
  fun s => wp_recoverTo (wp_fail (hm s) fun _ _ h _ hs =>
    maintains_kernel recedes_atRoot (h hs))

/-! ### Heads -/

theorem strengthenKnown_maintains {disjunctionId : Nat} :
    Within Maintains (engine.strengthenKnown disjunctionId dependency) := by
  refine (onKernel_maintains ?_).bind fun _ =>
    .ite (within_get.bind fun _ => Within.forM (fun _ => ?_) _) within_pure
  · exact strengthenDisjunction_sameShapes.mono fun _ _ h => h.recedes
  · exact (maintains_of_dispatched dispatchAtom_dispatched).bind fun _ => within_pure

theorem wp_atomIds (atoms : List GroundAtom) (s : RuleState) :
    wp (atoms.mapM engine.atomId)
    (fun ids s' => Dispatched s s' ∧ (s.Interned → s'.Names ids atoms))
      (fun _ s' => Dispatched s s') s := by
  induction atoms generalizing s with
  | nil => exact ⟨Std.Refl.refl (r := Dispatched) s, fun _ => rfl⟩
  | cons atom rest ih =>
    rw [mapM_cons]
    refine wp_seq wp_atomId (fun id s1 h1 => ?_)
    refine wp_then (ih s1) (fun ids s2 h2 => ?_)
      fun _ _ h => IsTrans.trans (r := Dispatched) _ _ _ h1.1 h
    refine ⟨IsTrans.trans (r := Dispatched) _ _ _ h1.1 h2.1, fun hs => ?_⟩
    have hrest : s2.Names ids rest := h2.2 (h1.1.interned hs)
    have hatom : s2.atoms[id]? = some atom := prefix_getElem? h2.1.atoms (h1.2 hs)
    exact congrArg₂ List.cons hatom hrest

theorem keysSound_append {new : List Nat × Bool} (h : s.KeysSound)
    (hfree : ∀ (atoms : List GroundAtom) (id : Nat), s.disjunctionKeys[atoms]? = some id →
      id ≠ s.kernel.state.disjunctions.length)
    (hshapes : k.state.shapes <+: s.kernel.state.shapes ++ [new]) :
    ((polledLens.comp kernelLens).put s k).KeysSound := by
  intro atoms id shape hkey hshape
  have hshape := prefix_getElem? hshapes hshape
  have hlength : s.kernel.state.shapes.length = s.kernel.state.disjunctions.length := length_map _
  have hne := hfree atoms id hkey
  have hlt : id < s.kernel.state.shapes.length := by
    have hbound := lt_of_getElem? hshape
    rw [length_append, length_singleton] at hbound
    omega
  rw [getElem?_append_left hlt] at hshape
  exact h atoms id shape hkey hshape

/-- Registering, and what can be read back afterwards. -/
theorem wp_registerDisjunction {atoms : List GroundAtom} (hs : RegistryInv s) :
    wp (engine.registerDisjunction atoms dependency)
      (fun _ s' => RegistryInv s' ∧ ∃ ids, (ids, true) ∈ s'.kernel.state.shapes ∧
        s'.Names ids atoms)
      (fun _ s' => RegistryInv s') s := by
  refine wp_then (wp_atomIds atoms s) (fun ids s1 h1 => ?_) fun _ _ h => h.maintains hs
  have hs1 := h1.1.maintains hs
  have hnames := h1.2 hs.interned
  refine wp_modify_then.mpr ?_
  -- the new registration is the last one
  have hrest : ∀ {rs : List Registration} {r : Registration}, (∀ r' ∈ rs ++ [r], r'.Unaliased) →
      (∀ r' ∈ rs, r'.Unaliased) ∧ r.Unaliased := fun h =>
    ⟨fun r' hr' => h r' (mem_append_left _ hr'),
      h _ (mem_append_right _ (mem_singleton.mpr rfl))⟩
  refine wp_bind.mpr (wp_zoom.mpr (wp_addDisjunction ?_ ?_))
  · intro e k hkept hle hshapes
    have hkept : StackKept s1.kernel k := hkept
    refine ⟨hs1.interned, ?_, fun hr => ?_⟩
    · have hnested := hs1.nested.grow hle
      rw [← hkept.past] at hnested
      exact hnested
    · obtain ⟨hold, hnew⟩ := hrest hr
      exact keysSound_append (s := { s1 with registrations := _ }) (hs1.sound hold)
        (fun key id hkey => hnew.ne hkey) hshapes
  · intro k hkept hshapes
    have hkept : StackKept s1.kernel k := hkept
    have hshapes : k.state.shapes = s1.kernel.state.shapes ++ [(ids, true)] := hshapes
    refine wp_modify_then.mpr ?_
    have hmem : (ids, true) ∈ k.state.shapes := by
      rw [hshapes]
      exact mem_append_right _ (mem_singleton.mpr rfl)
    refine ⟨⟨hs1.interned, ?_, fun hr => ?_⟩, ids, hmem, hnames⟩
    · have hnested := hs1.nested.grow (prefix_append _ [(ids, true)])
      rw [← hkept.past, ← hshapes] at hnested
      exact hnested
    · obtain ⟨hold, hnew⟩ := hrest hr
      have hsound := keysSound_append (s := { s1 with registrations := _ })
        (hs1.sound hold) (fun key id hkey => hnew.ne hkey) ⟨[], by rw [append_nil, hshapes]⟩
      intro key id shape hkey hshape
      rcases getElem?_insert_cases hkey with ⟨rfl, rfl⟩ | ⟨-, hkey⟩
      · have hlength : s1.kernel.state.disjunctions.length = s1.kernel.state.shapes.length :=
          (length_map _).symm
        have hlast : k.state.shapes[s1.kernel.state.disjunctions.length]? = some (ids, true) := by
          rw [hshapes, hlength, getElem?_concat_length]
        have hshape : k.state.shapes[s1.kernel.state.disjunctions.length]? = some shape := hshape
        rw [hlast] at hshape
        cases hshape
        exact hnames
      · exact hsound key id shape hkey hshape

end RuleEngine

end PyHermit
