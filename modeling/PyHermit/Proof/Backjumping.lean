import PyHermit.Lib.Backjump
import PyHermit.Engine.Branching
import PyHermit.Proof.Stack

/-!
# Backjumping loses no model

The branch stack of the kernel as a stack of choices, and `resolve_clash` as one round of
backjumping over it, for any set `M` of choice functions: if what the branches record and
the clash are sound for `M`, they are so after the round, an advanced branch loses no
function that agrees with the branches below it, and UNSAT means that `M` is empty. The loop
of rounds ends, because a round that does not end it drops a branch.
-/

open Std Prog List

namespace PyHermit

open TableauKernel Backjump DependencySet

/-! ## Branches as choices -/

/-- What identifies a branch from its push on. -/
structure BranchId where
  level : Nat
  choiceKind : ChoiceKind
  checkpoint : CheckpointMeta
  alternatives : List Nat
  sourceId : Nat

def Branch.id (b : Branch) : BranchId :=
  ⟨b.level, b.choiceKind, b.checkpoint, b.alternatives, b.sourceId⟩

def DependencySet.toSet (d : DependencySet) : Set Nat := { level | level ∈ d }

/-- The branch as a choice, resting on its initial base. -/
def Branch.choice (b : Branch) : Choice BranchId Nat where
  id := b.id
  alternatives := b.alternatives
  current := b.nextAlternative
  base := b.initialBaseDependency.toSet
  learned := b.learnedDependency.toSet

def choices (branches : List Branch) : List (Choice BranchId Nat) := branches.map Branch.choice

theorem getElem?_choices {branches : List Branch} {i : Nat} :
    (choices branches)[i]? = branches[i]?.map Branch.choice := getElem?_map

variable {level : Nat}

theorem DependencySet.mem_toSet {d : DependencySet} : level ∈ d.toSet ↔ level ∈ d := Iff.rfl

theorem DependencySet.toSet_union {a b : DependencySet} :
    (union [a, b]).toSet = a.toSet ∪ b.toSet := by
  ext level
  rw [Set.mem_union, mem_toSet, mem_toSet, mem_toSet, mem_union]
  simp only [mem_cons, not_mem_nil, or_false, exists_eq_or_imp, exists_eq_left]

theorem DependencySet.toSet_without {d : DependencySet} :
    (d.without level).toSet = d.toSet \ {level} := by
  ext l
  exact mem_without

variable {b : Branch} {learned : DependencySet}

theorem advanced_choice : (advanced b learned).choice = b.choice.advance learned.toSet := by
  unfold Branch.choice Choice.advance advanced
  simp only [toSet_union]
  rfl

/-! ## What every kernel's branch records satisfy -/

/-- Levels are positions, and a branch was opened without a clash. -/
def RecordsInv (branches : List Branch) : Prop :=
  ∀ (i : Nat) (b : Branch), branches[i]? = some b → b.level = i ∧ b.snapshot.state.clash = none

namespace RecordsInv

variable {branches : List Branch} (h : RecordsInv branches)
include h

theorem take (n : Nat) : RecordsInv (branches.take n) := by
  intro i b hb
  rw [getElem?_take] at hb
  split at hb
  · exact h i b hb
  · cases hb

theorem concat (hlevel : b.level = branches.length) (hclash : b.snapshot.state.clash = none) :
    RecordsInv (branches ++ [b]) := by
  intro i b' hb'
  rw [getElem?_append] at hb'
  split at hb'
  · exact h i b' hb'
  · rw [getElem?_singleton] at hb'
    split at hb'
    · cases hb'
      exact ⟨by omega, hclash⟩
    · cases hb'

theorem advance (hb : branches[level]? = some b) :
    RecordsInv ((branches.take (level + 1)).set level (advanced b learned)) := by
  intro i b' hb'
  rw [getElem?_set] at hb'
  split at hb'
  · rename_i heq
    subst heq
    split at hb'
    · cases hb'
      exact h level b hb
    · cases hb'
  · exact h.take _ i b' hb'

theorem strengthen (disjunctionId : Nat) (dependency : DependencySet) :
    RecordsInv (branches.map (strengthened disjunctionId dependency)) := by
  intro i b' hb'
  rw [getElem?_map] at hb'
  obtain ⟨b, hb, rfl⟩ := Option.map_eq_some_iff.mp hb'
  unfold strengthened
  split <;> exact h i b hb

end RecordsInv

variable {k : TableauKernel}

theorem KernelOp.recordsInv (o : KernelOp) (h : RecordsInv k.branches) :
    RecordsInv (final o.run k).branches := by
  by_cases hstack : o.onStack = true
  · have hstep := o.stackStep hstack k
    generalize final o.run k = k' at hstep ⊢
    cases hstep with
    | refused | beginOperation | recorded | undone => exact h
    | pushBranch _ hclash => exact h.concat rfl hclash
    | backtrackTo | stop | exhaust => exact h.take _
    | advance hb => exact h.advance hb
    | reset => exact fun i b hb => by cases hb
    | strengthen => exact h.strengthen _ _
    | reuse hk' _ hclash =>
      refine h.concat (by rw [hk']; rfl) ?_
      rw [hk']
      exact hclash
  · rw [((o.stackKept (by simpa using hstack)).final k).branches]
    exact h

/-- **Whatever a client does**, transactions and restorations included. -/
theorem recordsInv_run {call : KernelOp → TableauKernel → Prop}
    {undo : TableauKernel → TableauKernel → Prop}
    {k' : TableauKernel} (hrun : Run call undo k k') (h : RecordsInv k.branches) :
    RecordsInv k'.branches :=
  hrun.induct (I := fun k => RecordsInv k.branches) (fun _ o h _ => o.recordsInv h)
    (fun _ _ _ hafter _ => hafter) (fun _ _ hbefore _ => hbefore) h

/-! ## One round -/

/-- Dispatching an atom leaves the branch stack alone. -/
def GroundAtomAccess.Lawful {σ : Type} (access : GroundAtomAccess σ) : Prop :=
  ∀ atomId dependency, Within (fun s s' => ((DisjunctionBrancher.kernel access).get s').branches =
    ((DisjunctionBrancher.kernel access).get s).branches) (access.dispatchAtom atomId dependency)

/-- The kernel back at its operation root. -/
def TableauKernel.atRoot (k : TableauKernel) : TableauKernel :=
  { k.restore k.operationRoot with branches := [] }

/-- A failed operation ends at the operation root. -/
theorem wp_recoverTo {σ α : Type} {kernel : Lens σ TableauKernel} {what : String}
    {m : EStateM NativeError σ α} {Q : α → σ → Prop} {E : NativeError → σ → Prop} {s : σ}
    (hm : wp m Q (fun _ s' => ∀ e, E e (kernel.put s' (kernel.get s').atRoot)) s) :
    wp (recoverTo kernel what m) Q E s := by
  have hreset : ∀ s', wp (zoom kernel resetToOperationRoot)
      (fun _ s'' => s'' = kernel.put s' (kernel.get s').atRoot)
      (fun _ s'' => s'' = kernel.put s' (kernel.get s').atRoot) s' := fun s' =>
    wp_zoom.mpr (wp_modify_then.mpr (wp_ask (fun _ _ => rfl) fun _ _ => rfl))
  unfold wp at hm hreset
  unfold recoverTo wp
  dsimp only
  cases hmr : m s with
  | ok a s' =>
    rw [hmr] at hm
    exact hm
  | error e s' =>
    rw [hmr] at hm
    have hroot := hreset s'
    dsimp only
    cases hr : zoom kernel resetToOperationRoot s' with
    | ok _ s'' | error _ s'' =>
      rw [hr] at hroot
      rw [show s'' = kernel.put s' (kernel.get s').atRoot from hroot]
      exact hm _

theorem wp_installClash {kind : ClashKind} {dependency : DependencySet}
    {participants : List Nat} {provenanceId : Option Nat} :
    wp (installClash kind dependency participants provenanceId)
      (fun _ k' => k'.branches = k.branches ∧ (k.state.clash = none →
        k'.state.clash = some { kind, dependency, participants, provenanceId }))
      (fun _ _ => True) k := by
  refine wp_ensure_then (fun _ => ?_) fun _ => trivial
  refine wp_ask_then (fun _ _ => ?_) fun _ _ => trivial
  refine wp_get_then.mpr (wp_ite (fun hany => ⟨rfl, fun hnone => ?_⟩) fun _ => ?_)
  · rw [hnone] at hany
    cases hany
  · refine wp_modify_then.mpr (wp_bind.mpr (wp_recordMutation (fun _ _ => ?_) fun _ => trivial))
    exact ⟨rfl, fun _ => rfl⟩

theorem branch_eq_ok : k.branch level = .ok b ↔ k.branches[level]? = some b := by
  unfold TableauKernel.branch
  split
  · rename_i b' hb'
    rw [hb']
    exact ⟨fun h => by cases h; rfl, fun h => by cases h; rfl⟩
  · rename_i hnone
    rw [hnone]
    exact ⟨nofun, nofun⟩

/-- Advancing a live branch: it goes, or it is the last one and moves on. -/
theorem wp_advanceBranch_moves (hb : k.branches[level]? = some b) :
    wp (advanceBranch level learned) (fun alternative k' => match alternative with
      | none => b.alternatives.length ≤ b.nextAlternative + 1 ∧
      k'.branches = k.branches.take level ∧
          k'.state.clash = b.snapshot.state.clash
      | some _ => b.nextAlternative + 1 < b.alternatives.length ∧
          k'.branches = (k.branches.take (level + 1)).set level (advanced b learned))
      (fun _ _ => True) k := by
  refine wp_advanceBranch (fun _ _ => trivial) (fun _ _ _ _ => trivial) (fun b' hb' hlast => ?_)
    (fun b' current hb' hnext => ?_) fun _ _ _ _ => trivial
  · rw [hb] at hb'
    cases hb'
    exact ⟨hlast, rfl, rfl⟩
  · rw [hb] at hb'
    cases hb'
    exact ⟨(lt_of_getElem? hnext), rfl⟩

namespace DisjunctionBrancher

variable {σ : Type} {access : GroundAtomAccess σ} {cancellation : Cancellation} {s : σ}
  {E : NativeError → σ → Prop} {learning : Bool}

theorem wp_poll {Q : Unit → σ → Prop}
    (hok : ∀ s', (kernel access).get s' = (kernel access).get s → Q () s') (herr : ∀ e s', E e s') :
    wp (poll access cancellation) Q E s := by
  refine wp_zoom.mpr (wp_get_then.mpr (wp_bind.mpr (wp_set.mpr
    (wp_ask (fun _ _ => hok _ ?_) fun e _ => herr e _))))
  unfold kernel Lens.comp
  dsimp only
  rw [access.polled.get_put]
  rfl

theorem wp_onKernel {α : Type} {m : KernelM α} {Q : α → σ → Prop}
    {P : α → TableauKernel → Prop} (hm : wp m P (fun _ _ => True) ((kernel access).get s))
    (hok : ∀ a s', P a ((kernel access).get s') → Q a s') (herr : ∀ e s', E e s') :
    wp (onKernel access m) Q E s := by
  refine wp_zoom.mpr (wp_mono hm (fun a k hk => hok a _ ?_) fun e _ _ => herr e _)
  rw [(kernel access).get_put]
  exact hk

variable {Q : BranchTransition → σ → Prop} {E : NativeError → σ → Prop}

/-- **What a round of `resolve_clash` does.** Without a clash, or without a branch to go
back to, nothing; otherwise the target branch is moved on, or dropped and its clash
installed in its place. -/
theorem wp_resolveClashInner (hlawful : access.Lawful)
    (hidle : ∀ s', ((kernel access).get s).state.clash = none →
      (kernel access).get s' = (kernel access).get s → Q .noWork s')
    (hunsat : ∀ s' clash, ((kernel access).get s).state.clash = some clash →
      target learning ((kernel access).get s) clash = none →
      (kernel access).get s' = (kernel access).get s → Q .unsat s')
    (hadvanced : ∀ s' clash t b, ((kernel access).get s).state.clash = some clash →
      target learning ((kernel access).get s) clash = some t →
      ((kernel access).get s).branches[t]? = some b →
      b.nextAlternative + 1 < b.alternatives.length →
      ((kernel access).get s').branches = (((kernel access).get s).branches.take (t + 1)).set t
        (advanced b (clash.dependency.without t)) → Q .advanced s')
    (hexhausted : ∀ s' clash t b, ((kernel access).get s).state.clash = some clash →
      target learning ((kernel access).get s) clash = some t →
      ((kernel access).get s).branches[t]? = some b →
      b.alternatives.length ≤ b.nextAlternative + 1 →
      ((kernel access).get s').branches = ((kernel access).get s).branches.take t →
      (b.snapshot.state.clash = none → ∃ installed, ((kernel access).get s').state.clash =
        some installed ∧ installed.dependency = .union [b.initialBaseDependency,
          .union [b.learnedDependency, clash.dependency.without t], clash.dependency.without t]) →
      Q .exhausted s')
    (herr : ∀ e s', E e s') : wp (resolveClashInner access cancellation learning) Q E s := by
  refine wp_bind.mpr (wp_poll (fun s1 h1 => ?_) herr)
  rw [← h1] at hidle hunsat hadvanced hexhausted
  refine wp_bind.mpr (wp_zoom.mpr (wp_get.mpr ?_))
  rw [(kernel access).put_get]
  cases hclash : ((kernel access).get s1).state.clash with
  | none => exact hidle s1 hclash rfl
  | some clash =>
    dsimp only
    cases htarget : target learning ((kernel access).get s1) clash with
    | none => exact hunsat s1 clash hclash htarget rfl
    | some t =>
      refine wp_bind.mpr (wp_zoom.mpr (wp_ask (fun b hb => ?_) fun e _ => herr e _))
      rw [(kernel access).put_get]
      refine wp_bind.mpr (wp_onKernel (wp_advanceBranch_moves (branch_eq_ok.mp hb))
        (fun alternative s2 h2 => ?_) herr)
      refine wp_bind.mpr (wp_poll (fun s3 h3 => ?_) herr)
      rw [← h3] at h2
      cases alternative with
      | none =>
        refine wp_bind.mpr (wp_onKernel wp_installClash (fun _ s4 h4 => ?_) herr)
        refine wp_bind.mpr (wp_poll (fun s5 h5 => ?_) herr)
        rw [← h5] at h4
        refine hexhausted s5 clash t b hclash htarget (branch_eq_ok.mp hb) h2.1
          (h4.1.trans h2.2.1) ?_
        exact fun hfresh => ⟨_, h4.2 (h2.2.2.trans hfresh), rfl⟩
      | some atomId =>
        refine wp_bind.mpr (wp_zoom.mpr (wp_ask (fun current _ => ?_) fun e _ => herr e _))
        rw [(kernel access).put_get]
        refine wp_then (hlawful atomId _ s3) (fun _ s4 h4 => ?_) fun e s4 _ => herr e s4
        refine wp_bind.mpr (wp_poll (fun s5 h5 => ?_) herr)
        refine hadvanced s5 clash t b hclash htarget (branch_eq_ok.mp hb) h2.1 ?_
        rw [h5, h4]
        exact h2.2

theorem wp_resolveClash
    (hm : wp (resolveClashInner access cancellation learning) Q (fun _ _ => True) s)
    (herr : ∀ e s', E e s') :
    wp (resolveClash access cancellation learning) Q E s :=
  wp_recoverTo (wp_fail hm fun _ _ _ e => herr e _)

end DisjunctionBrancher

/-! ## Soundness -/

section Soundness

variable {M : Set (BranchId → Nat)} {k k' : TableauKernel}

/-- The installed clash, if there is one, is refuted. -/
def SoundClash (M : Set (BranchId → Nat)) (k : TableauKernel) : Prop :=
  ∀ clash, k.state.clash = some clash → Refuted M (choices k.branches) clash.dependency.toSet

/-- The branches of `k` below some level survive, the branch there has moved on by one,
and it is now the last. Every function of `M` that agrees with the branches below it takes
an alternative it has not passed. -/
structure LosesNone (M : Set (BranchId → Nat)) (k k' : TableauKernel) (level : Nat)
    (b : Branch) : Prop where
  old : ∃ before, k.branches[level]? = some before ∧ b.id = before.id ∧
    b.nextAlternative = before.nextAlternative + 1
  last : k'.branches = k.branches.take level ++ [b]
  ahead : ∀ f ∈ M, (∀ i < level, AgreesAt (choices k'.branches) f i) →
    ∃ j, b.nextAlternative ≤ j ∧ b.alternatives[j]? = some (f b.id)

/-- What a round of `resolve_clash` may leave. -/
def Outcome (M : Set (BranchId → Nat)) (k k' : TableauKernel) : BranchTransition → Prop
  | .noWork => k.state.clash = none ∧ k' = k
  | .unsat => M = ∅
  | .exhausted => Backjump.Sound M (choices k'.branches) ∧ SoundClash M k' ∧ k'.state.clash ≠ none ∧
      ∃ level < k.branches.length, k'.branches = k.branches.take level
  | .advanced => Backjump.Sound M (choices k'.branches) ∧ ∃ level b, LosesNone M k k' level b
  | .satisfied | .deterministic | .branched => False

variable {t : Nat} {learning : Bool} {clash : Clash}

theorem length_of_highest (hrec : RecordsInv k.branches) (ht : k.highestBranchLevel = some t) :
    k.branches.length = t + 1 := by
  unfold TableauKernel.highestBranchLevel at ht
  rw [getLast?_eq_getElem?] at ht
  obtain ⟨b, hb, hlevel⟩ := Option.map_eq_some_iff.mp ht
  have hlt := lt_of_getElem? hb
  have hrecord := (hrec _ b hb).1
  omega

theorem no_target (hr : Refuted M (choices k.branches) clash.dependency.toSet)
    (ht : DisjunctionBrancher.target learning k clash = none) :
    ∀ level, level ∉ clash.dependency.toSet := by
  intro level hlevel
  cases learning with
  | true =>
    have hnil : clash.dependency = .empty := maximum_eq_none.mp ht
    rw [hnil] at hlevel
    exact not_mem_empty hlevel
  | false =>
    have hlive := hr.live level hlevel
    have hnone : k.branches.getLast? = none := Option.map_eq_none_iff.mp ht
    rw [getLast?_eq_none_iff] at hnone
    rw [hnone] at hlive
    exact absurd hlive (Nat.not_lt_zero level)

theorem choices_take {branches : List Branch} {i : Nat} (hi : i < t) :
    (choices (branches.take t))[i]? = (choices branches)[i]? := by
  rw [getElem?_choices, getElem?_choices, getElem?_take, if_pos hi]

section
variable (hrec : RecordsInv k.branches) (hr : Refuted M (choices k.branches) clash.dependency.toSet)
  (ht : DisjunctionBrancher.target learning k clash = some t)
include hrec hr ht

/-- The clash rests on no branch above the target. -/
theorem le_target : ∀ level ∈ clash.dependency.toSet, level ≤ t := by
  intro level hlevel
  cases learning with
  | true => exact le_maximum ht hlevel
  | false =>
    have hlen := length_of_highest hrec ht
    have hlive := hr.live level hlevel
    unfold choices at hlive
    rw [length_map] at hlive
    omega

variable (hsound : Backjump.Sound M (choices k.branches)) (hb : k.branches[t]? = some b)
include hsound hb

theorem advanced_outcome
    (hk' : k'.branches =
      (k.branches.take (t + 1)).set t (advanced b (clash.dependency.without t))) :
    Outcome M k k' .advanced := by
  have hlt := lt_of_getElem? hb
  have hlast : k'.branches = k.branches.take t ++ [advanced b (clash.dependency.without t)] := by
    rw [hk', take_add_one, hb, Option.toList_some,
      set_append_right _ _ (by rw [length_take]; omega),
      length_take, Nat.min_eq_left (Nat.le_of_lt hlt), Nat.sub_self]
    rfl
  have hlength : (k.branches.take t).length = t := by rw [length_take]; omega
  have hsame : ∀ i : Nat, i < t → (choices k'.branches)[i]? = (choices k.branches)[i]? := by
    intro i hi
    rw [hlast, getElem?_choices, getElem?_choices, getElem?_append_left (by omega), getElem?_take,
      if_pos hi]
  have htop : k'.branches[t]? = some (advanced b (clash.dependency.without t)) := by
    rw [hlast, getElem?_append_right (by omega), hlength, Nat.sub_self]
    rfl
  have hsound' : Backjump.Sound M (choices k'.branches) := by
    refine hsound.advance hr (t := t) (c := b.choice) ?_ (le_target hrec hr ht) ?_ hsame
      fun c' hc' => ?_
    · rw [getElem?_choices, hb]
      rfl
    · unfold choices
      rw [length_map, hlast, length_append, hlength]
      exact le_rfl
    · rw [getElem?_choices, htop] at hc'
      cases hc'
      rw [advanced_choice, toSet_without]
  refine ⟨hsound', t, advanced b (clash.dependency.without t),
    ⟨⟨b, hb, rfl, rfl⟩, hlast, fun f hf hagree => ?_⟩⟩
  exact hsound'.ahead (c := (advanced b (clash.dependency.without t)).choice)
    (by rw [getElem?_choices, htop]; rfl) hf hagree

theorem exhausted_outcome {installed : Clash}
    (hlast : b.alternatives.length ≤ b.nextAlternative + 1) (hk' : k'.branches = k.branches.take t)
    (hclash : k'.state.clash = some installed)
    (hdep : installed.dependency = .union [b.initialBaseDependency,
      .union [b.learnedDependency, clash.dependency.without t], clash.dependency.without t]) :
    Outcome M k k' .exhausted := by
  have hlt := lt_of_getElem? hb
  have hsame : ∀ i : Nat, i < t → (choices k'.branches)[i]? = (choices k.branches)[i]? := by
    intro i hi
    rw [hk', choices_take hi]
  have hlength : (choices k'.branches).length = t := by
    unfold choices
    rw [length_map, hk', length_take]
    omega
  have htop : (choices k.branches)[t]? = some b.choice := by
    rw [getElem?_choices, hb]
    rfl
  have hset : installed.dependency.toSet =
      b.choice.base ∪ b.choice.learned ∪ clash.dependency.toSet \ {t} := by
    ext level
    rw [hdep, ← toSet_without]
    simp only [Set.mem_union, mem_toSet, mem_union, mem_cons,
      not_mem_nil, or_false, exists_eq_or_imp, exists_eq_left, Branch.choice]
    tauto
  refine ⟨?_, fun clash' hclash' => ?_, by rw [hclash]; exact Option.some_ne_none _, t, hlt, hk'⟩
  · refine hsound.of_below (t := t) (by omega) hsame fun c hc => ?_
    rw [getElem?_eq_none (by omega)] at hc
    cases hc
  · rw [hclash] at hclash'
    cases hclash'
    rw [hset]
    exact hsound.exhaust hr htop (le_target hrec hr ht) hlast hlength hsame

end

section Rounds

variable {σ : Type} {access : GroundAtomAccess σ} {cancellation : Cancellation} {learning : Bool}
  {s : σ}

open DisjunctionBrancher

/-- What a later round leaves, seen from the start of an exhausted one. -/
theorem Outcome.of_exhausted {k₁ : TableauKernel} {t : BranchTransition}
    (h : Outcome M k k₁ .exhausted)
    (ht : Outcome M k₁ k' t) (hend : t ≠ .exhausted) : Outcome M k k' t := by
  obtain ⟨-, -, hclash, level, hlevel, htake⟩ := h
  cases t with
  | noWork => exact absurd ht.1 hclash
  | unsat => exact ht
  | advanced =>
    obtain ⟨hsound, t, b, ⟨before, hbefore, hid, hnext⟩, hlast, hahead⟩ := ht
    rw [htake] at hbefore hlast
    rw [getElem?_take] at hbefore
    split at hbefore
    · rename_i hlt
      rw [take_take, Nat.min_eq_left (Nat.le_of_lt hlt)] at hlast
      exact ⟨hsound, t, b, ⟨before, hbefore, hid, hnext⟩, hlast, hahead⟩
    · cases hbefore
  | exhausted => exact absurd rfl hend
  | satisfied | deterministic | branched => exact ht.elim

section
variable (hlawful : access.Lawful)
include hlawful

/-- An exhausted round drops a branch, whatever the branches record. -/
theorem wp_resolveClash_shorter : wp (resolveClash access cancellation learning)
      (fun t s' => t = .exhausted →
        ((kernel access).get s').branches.length < ((kernel access).get s).branches.length)
      (fun _ _ => True) s := by
  refine wp_resolveClash (wp_resolveClashInner hlawful ?_ ?_ ?_ ?_ fun _ _ => trivial)
    fun _ _ => trivial
  · exact fun _ _ _ => nofun
  · exact fun _ _ _ _ _ => nofun
  · exact fun _ _ _ _ _ _ _ _ _ => nofun
  · intro s' clash t b _ _ hb _ hk' _ _
    have hlt := lt_of_getElem? hb
    rw [hk', length_take]
    omega

/-- **The loop of rounds ends**: as many as there are branches, and one more, are enough. -/
theorem resolveRounds_ends (fuel : Nat) (hfuel : ((kernel access).get s).branches.length < fuel) :
    wp (resolveRounds access cancellation learning fuel) (fun t _ => t ≠ none)
    (fun _ _ => True) s := by
  induction fuel generalizing s with
  | zero => exact absurd hfuel (Nat.not_lt_zero _)
  | succ fuel ih =>
    refine wp_seq (wp_resolveClash_shorter hlawful) (fun t s' hshorter => ?_)
    refine wp_ite (fun _ => nofun) fun hexhausted => ih ?_
    have hlt := hshorter (not_not.mp hexhausted)
    omega

variable (hrec : RecordsInv ((kernel access).get s).branches)
  (hsound : Backjump.Sound M (choices ((kernel access).get s).branches))
  (hclash : SoundClash M ((kernel access).get s))
include hrec hsound hclash

/-- **One round is sound.** -/
theorem wp_resolveClash_outcome : wp (resolveClash access cancellation learning)
      (fun t s' => Outcome M ((kernel access).get s) ((kernel access).get s') t ∧
        RecordsInv ((kernel access).get s').branches) (fun _ _ => True) s := by
  refine wp_resolveClash (wp_resolveClashInner hlawful ?_ ?_ ?_ ?_ fun _ _ => trivial)
    fun _ _ => trivial
  · intro s' hnone hk'
    rw [hk']
    exact ⟨⟨hnone, rfl⟩, hrec⟩
  · intro s' clash hsome ht hk'
    rw [hk']
    exact ⟨(hclash clash hsome).eq_empty (no_target (hclash clash hsome) ht), hrec⟩
  · intro s' clash t b hsome ht hb _ hk'
    refine ⟨advanced_outcome hrec (hclash clash hsome) ht hsound hb hk', ?_⟩
    rw [hk']
    exact hrec.advance hb
  · intro s' clash t b hsome ht hb hlast hk' hinstalled
    obtain ⟨installed, hnew, hdep⟩ := hinstalled (hrec t b hb).2
    refine ⟨exhausted_outcome hrec (hclash clash hsome) ht hsound hb hlast hk' hnew hdep, ?_⟩
    rw [hk']
    exact hrec.take t

theorem wp_resolveRounds_outcome (fuel : Nat) : wp (resolveRounds access cancellation learning fuel)
      (fun result s' => ∀ t, result = some t →
        t ≠ .exhausted ∧ Outcome M ((kernel access).get s) ((kernel access).get s') t)
      (fun _ _ => True) s := by
  induction fuel generalizing s with
  | zero => exact fun t ht => by cases ht
  | succ fuel ih =>
    refine wp_seq (wp_resolveClash_outcome hlawful hrec hsound hclash) ?_
    rintro t s1 ⟨hout, hrec1⟩
    refine wp_ite (fun hend t' ht' => ?_) fun hexhausted => ?_
    · cases ht'
      exact ⟨hend, hout⟩
    · rw [not_not.mp hexhausted] at hout
      refine wp_imp (ih hrec1 hout.1 hout.2.1) (fun result s' hrest t' ht' => ?_)
      obtain ⟨hend, hout'⟩ := hrest t' ht'
      exact ⟨hend, hout.of_exhausted hout' hend⟩

theorem wp_resolveUntil_outcome : wp (resolveUntilChoiceOrUnsat access cancellation learning)
      (fun t s' => t ≠ .exhausted ∧ Outcome M ((kernel access).get s) ((kernel access).get s') t)
      (fun _ _ => True) s := by
  refine wp_bind.mpr (wp_zoom.mpr (wp_get.mpr ?_))
  rw [(kernel access).put_get]
  refine wp_seq (wp_resolveRounds_outcome hlawful hrec hsound hclash _) ?_
  intro result s' hresult
  cases result with
  | none => exact trivial
  | some t => exact hresult t rfl

end

end Rounds

end Soundness

namespace BackjumpingSample

open DisjunctionBrancher

/-- An owner with no atoms of its own. -/
def idle : GroundAtomAccess Polled where
  polled := ⟨fun s => s, fun _ s => s, fun _ _ => rfl, fun _ => rfl, fun _ _ _ => rfl⟩
  atomIsSatisfied _ _ := .ok false
  atomRefutationDependency _ _ := .ok none
  dispatchAtom _ _ := pure false

/-- Two branches, and a clash that rests on the first only. -/
def start : Polled :=
  ⟨runCalls .new [.pushBranch .groundDisjunction [1, 2] 0 .empty,
    .pushBranch .groundDisjunction [3, 4] 1 .empty,
    .installClash .emptyHead (.ofLevels [0]) [0] none], 0⟩

/-- The one model: the second alternative of the first branch, the first of the other. -/
def model (id : BranchId) : Nat := if id.level = 0 then 2 else 3

theorem branches_start : ∀ b ∈ start.kernel.branches, model b.id ∈ b.alternatives ∧
      b.nextAlternative = 0 ∧
    b.initialBaseDependency = .empty ∧ b.learnedDependency = .empty := by decide +kernel

theorem sound_start : Backjump.Sound {model} (choices start.kernel.branches) := by
  intro i c hc
  rw [getElem?_choices] at hc
  obtain ⟨b, hb, rfl⟩ := Option.map_eq_some_iff.mp hc
  obtain ⟨hoffers, hnext, hbase, hlearned⟩ := branches_start b (mem_of_getElem? hb)
  refine ⟨fun level hl => ?_, fun level hl => ?_, fun f hf _ => ?_, fun f _ _ j hj => ?_⟩
  · rw [show b.choice.base = b.initialBaseDependency.toSet from rfl, hbase] at hl
    exact absurd hl not_mem_empty
  · rw [show b.choice.learned = b.learnedDependency.toSet from rfl, hlearned] at hl
    exact absurd hl not_mem_empty
  · rw [Set.mem_singleton_iff.mp hf]
    exact hoffers
  · rw [show b.choice.current = b.nextAlternative from rfl, hnext] at hj
    exact absurd hj (Nat.not_lt_zero j)

theorem soundClash_start : SoundClash {model} start.kernel := by
  intro clash hclash
  have hdep : start.kernel.state.clash.map (·.dependency) =
    some (.ofLevels [0]) := by decide +kernel
  rw [hclash, Option.map_some, Option.some.injEq] at hdep
  have hfirst : start.kernel.branches[0]?.map
    (fun b => (b.level, b.alternatives[b.nextAlternative]?)) =
      some (0, some 1) := by decide +kernel
  refine ⟨fun level hl => ?_, fun f hf hagree => ?_⟩
  · rw [hdep] at hl
    have hzero : level = 0 := by simpa [mem_toSet] using hl
    have hlen : (choices start.kernel.branches).length = 2 := by
      decide +kernel
    omega
  · have hmem : 0 ∈ clash.dependency.toSet := by
      rw [hdep]
      simp [mem_toSet]
    obtain ⟨c, hc, hselected⟩ := hagree 0 hmem
    rw [getElem?_choices] at hc
    obtain ⟨b, hb, rfl⟩ := Option.map_eq_some_iff.mp hc
    rw [hb, Option.map_some, Option.some.injEq, Prod.mk.injEq] at hfirst
    rw [Set.mem_singleton_iff.mp hf] at hselected
    change b.alternatives[b.nextAlternative]? = some (model b.id) at hselected
    rw [hfirst.2] at hselected
    simp [model, Branch.id, hfirst.1] at hselected

theorem lawful_idle : idle.Lawful := fun _ _ _ => rfl

theorem run_start : Run (fun _ _ => True) (fun _ _ => True) .new start.kernel :=
  .of_calls (by exact ⟨trivial, trivial, trivial, trivial⟩)

end BackjumpingSample

end PyHermit
