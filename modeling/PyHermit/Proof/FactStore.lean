import PyHermit.Proof.Turns

/-!
# The fact store over every run

In every kernel a client can bring about, rows are where their identifiers say, the four
indexes are the ones a rebuild would give, every active row is well supported, and an
indexed lookup returns what a scan would.

One thing can spoil it. A failed transaction is rolled back in the state but not in the
branch stack, so one that had gone back below branches of its own start leaves supports that
rest on branches no longer there (`stranded_unsound`).
-/

open Std Prog List

namespace PyHermit

open TableauKernel

/-! ## Rebuilding the indexes -/

/-- The indexes of a list of rows, from nothing. -/
def rebuildIndexes (rows : List FactRow) : FactIndexes :=
  rows.foldl
    (fun indexes row => if row.active then indexes.file row.key row.rowId else indexes) .empty

theorem exact_foldl_file (rows : List FactRow) {indexes : FactIndexes} {live : FactKey → Nat → Prop}
    (h : indexes.Exact live) (hfree : ∀ row ∈ rows, row.active = true → ∀ id, ¬ live row.key id)
    (hkeys : rows.Pairwise fun a b => a.active = true → b.active = true → a.key ≠ b.key) :
    (rows.foldl (fun indexes row => if row.active then indexes.file row.key row.rowId else indexes)
      indexes).Exact fun key id => live key id ∨ ∃ row ∈ rows, row.active = true ∧ row.key = key ∧
        row.rowId = id := by
  induction rows generalizing indexes live with
  | nil => exact h.congr fun key id => by simp
  | cons row rows ih =>
    rw [pairwise_cons] at hkeys
    rw [foldl_cons]
    by_cases hact : row.active = true
    · rw [if_pos hact]
      refine (ih (h.file row.rowId (hfree row mem_cons_self hact)) ?_ hkeys.2).congr
        fun key id => ?_
      · rintro other hother hoact id (hlive | ⟨hkey, -⟩)
        · exact hfree other (mem_cons_of_mem _ hother) hoact id hlive
        · exact hkeys.1 other hother hact hoact hkey.symm
      · constructor
        · rintro ((hlive | ⟨rfl, rfl⟩) | ⟨other, hother, hrest⟩)
          · exact .inl hlive
          · exact .inr ⟨row, mem_cons_self, hact, rfl, rfl⟩
          · exact .inr ⟨other, mem_cons_of_mem _ hother, hrest⟩
        · rintro (hlive | ⟨other, hother, hoact, hkey, hid⟩)
          · exact .inl (.inl hlive)
          · rcases mem_cons.mp hother with rfl | hother
            · exact .inl (.inr ⟨hkey.symm, hid.symm⟩)
            · exact .inr ⟨other, hother, hoact, hkey, hid⟩
    · rw [if_neg hact]
      refine (ih h (fun other hother => hfree other (mem_cons_of_mem _ hother)) hkeys.2).congr
        fun key id => ?_
      constructor
      · rintro (hlive | ⟨other, hother, hrest⟩)
        · exact .inl hlive
        · exact .inr ⟨other, mem_cons_of_mem _ hother, hrest⟩
      · rintro (hlive | ⟨other, hother, hoact, hrest⟩)
        · exact .inl hlive
        · rcases mem_cons.mp hother with rfl | hother
          · exact absurd hoact hact
          · exact .inr ⟨other, hother, hoact, hrest⟩

section OneState

variable {n : Nat} {st : MutableState}

theorem StateInv.key_unique (h : StateInv n st) {i j : Nat} {a b : FactRow}
    (hi : st.facts[i]? = some a)
    (hj : st.facts[j]? = some b) (ha : a.active = true) (hb : b.active = true)
    (hkey : a.key = b.key) : i = j :=
  h.indexes.key_unique ⟨a, hi, ha, rfl⟩ ⟨b, hj, hb, hkey.symm⟩

theorem StateInv.indexes_eq (h : StateInv n st) : st.indexes = rebuildIndexes st.facts := by
  have hpair : st.facts.Pairwise fun a b => a.active = true → b.active = true → a.key ≠ b.key := by
    rw [pairwise_iff_getElem]
    intro i j hi hj hij ha hb hkey
    have heq := h.key_unique (getElem?_eq_getElem hi) (getElem?_eq_getElem hj) ha hb hkey
    omega
  refine h.indexes.unique ((exact_foldl_file st.facts FactIndexes.exact_empty
    (fun _ _ _ _ hfalse => hfalse) hpair).congr fun key id => ?_)
  rw [false_or]
  constructor
  · rintro ⟨row, hrow, hact, hkey, rfl⟩
    obtain ⟨i, hi⟩ := mem_iff_getElem?.mp hrow
    rw [h.rowIds i row hi]
    exact ⟨row, hi, hact, hkey⟩
  · rintro ⟨row, hi, hact, hkey⟩
    exact ⟨row, mem_of_getElem? hi, hact, hkey, h.rowIds id row hi⟩

/-! ## Indexed lookup -/

/-- The active rows that fit, by scanning the table. -/
def MutableState.scan (st : MutableState) (predicateId : Nat) (bindings : List (Nat × NodeHandle)) :
    List Nat := (st.facts.filter (·.fits predicateId bindings)).map (·.rowId)

variable {predicateId : Nat} {bindings : List (Nat × NodeHandle)}

theorem fits_iff {row : FactRow} :
    row.fits predicateId bindings = true ↔ row.active = true ∧ row.key.predicateId = predicateId ∧
      ∀ b ∈ bindings, row.key.arguments[b.1]? = some b.2 := by
  unfold FactRow.fits
  rw [Bool.and_eq_true, Bool.and_eq_true, beq_iff_eq, all_eq_true, and_assoc]
  simp only [beq_iff_eq]

/-- A set of row identifiers worth searching: of existing rows, and all that fit. -/
def Covers (st : MutableState) (predicateId : Nat) (bindings : List (Nat × NodeHandle))
    (ids : ExtTreeSet Nat) : Prop :=
  (∀ id ∈ ids, ∃ row, st.facts[id]? = some row) ∧
    ∀ (id : Nat) (row : FactRow), st.facts[id]? = some row →
    row.fits predicateId bindings = true → id ∈ ids

theorem covers_predicate (h : StateInv n st)
    {ids : ExtTreeSet Nat} (hids : st.indexes.byPredicate[predicateId]? = some ids) :
    Covers st predicateId bindings ids := by
  refine ⟨fun id hid => ?_, fun id row hrow hfits => ?_⟩
  · obtain ⟨_, ⟨row, hrow, -⟩, -⟩ := (h.indexes.byPredicate.mem_bucket hids).mp hid
    exact ⟨row, hrow⟩
  · obtain ⟨hact, hpred, -⟩ := fits_iff.mp hfits
    exact (h.indexes.byPredicate.mem_bucket hids).mpr ⟨row.key, ⟨row, hrow, hact, rfl⟩, hpred⟩

/-- A row that fits is filed under each of its bound positions. -/
theorem filed_position {id : Nat} {row : FactRow} (hrow : st.facts[id]? = some row)
    (hfits : row.fits predicateId bindings = true) {b : Nat × NodeHandle} (hb : b ∈ bindings) :
    ∃ key, st.live key id ∧ (⟨predicateId, b.1, b.2⟩ : PositionKey) ∈ key.positionKeys := by
  obtain ⟨hact, hpred, hbound⟩ := fits_iff.mp hfits
  exact ⟨row.key, ⟨row, hrow, hact, rfl⟩, FactKey.mem_positionKeys.mpr ⟨hpred.symm, hbound b hb⟩⟩

/-- The search for the smallest bucket ends with one worth searching, or with the proof
that nothing fits. -/
theorem smallestBucket_covers (h : StateInv n st) (predicateId : Nat)
    (bindings : List (Nat × NodeHandle)) :
    ∀ (rest : List (Nat × NodeHandle)) (smallest : ExtTreeSet Nat), (∀ b ∈ rest, b ∈ bindings) →
      (∀ b ∈ rest, st.nodes.Active b.2) → Covers st predicateId bindings smallest →
      (∃ ids, st.smallestBucket predicateId rest smallest = .ok (some ids) ∧
        Covers st predicateId bindings ids) ∨
      (st.smallestBucket predicateId rest smallest = .ok none ∧
        ∀ (id : Nat) (row : FactRow), st.facts[id]? = some row →
        row.fits predicateId bindings = false)
  | [], smallest, _, _, hcovers => .inl ⟨smallest, rfl, hcovers⟩
  | (position, handle) :: rest, smallest, hsub, hactive, hcovers => by
      obtain ⟨node, hnode⟩ := hactive _ mem_cons_self
      rw [MutableState.smallestBucket, hnode]
      cases hbucket : st.indexes.byPosition[(⟨predicateId, position, handle⟩ : PositionKey)]? with
      | none =>
        refine .inr ⟨rfl, fun id row hrow => ?_⟩
        rw [Bool.eq_false_iff]
        intro hfits
        exact h.indexes.byPosition.not_filed hbucket
          (filed_position hrow hfits (hsub _ mem_cons_self))
      | some rows =>
        refine smallestBucket_covers h predicateId bindings rest _
          (fun b hb => hsub b (mem_cons_of_mem _ hb))
          (fun b hb => hactive b (mem_cons_of_mem _ hb)) ?_
        split
        · refine ⟨fun id hid => ?_, fun id row hrow hfits => ?_⟩
          · obtain ⟨_, ⟨row, hrow, -⟩, -⟩ := (h.indexes.byPosition.mem_bucket hbucket).mp hid
            exact ⟨row, hrow⟩
          · exact (h.indexes.byPosition.mem_bucket hbucket).mpr
              (filed_position hrow hfits (hsub _ mem_cons_self))
        · exact hcovers

theorem fittingRows_eq (predicateId : Nat) (bindings : List (Nat × NodeHandle)) (ids : List Nat)
    (hids : ∀ id ∈ ids, ∃ row, st.facts[id]? = some row) : st.fittingRows predicateId bindings ids =
      .ok (ids.filter fun id => st.facts[id]?.any (·.fits predicateId bindings)) := by
  induction ids with
  | nil => rfl
  | cons id ids ih =>
    obtain ⟨row, hrow⟩ := hids id mem_cons_self
    rw [MutableState.fittingRows, MutableState.fact_eq_ok.mpr hrow,
      ih fun id hid => hids id (mem_cons_of_mem _ hid), filter_cons, hrow]
    cases hfits : row.fits predicateId bindings <;> simp [bind, Except.bind, pure,
      Except.pure, hfits]

/-- The rows found by a scan are in ascending order, and are those that fit. -/
theorem scan_ascending (h : StateInv n st) (predicateId : Nat)
    (bindings : List (Nat × NodeHandle)) : (st.scan predicateId bindings).Pairwise (· < ·) := by
  unfold MutableState.scan
  rw [pairwise_map]
  refine List.Pairwise.filter _ (pairwise_iff_getElem.mpr fun i j hi hj hij => ?_)
  rw [h.rowIds i _ (getElem?_eq_getElem hi), h.rowIds j _ (getElem?_eq_getElem hj)]
  exact hij

theorem mem_scan (h : StateInv n st) {id : Nat} : id ∈ st.scan predicateId bindings ↔
      ∃ row, st.facts[id]? = some row ∧ row.fits predicateId bindings = true := by
  unfold MutableState.scan
  rw [mem_map]
  constructor
  · rintro ⟨row, hrow, rfl⟩
    obtain ⟨hmem, hfits⟩ := mem_filter.mp hrow
    obtain ⟨i, hi⟩ := mem_iff_getElem?.mp hmem
    rw [h.rowIds i row hi]
    exact ⟨row, hi, hfits⟩
  · rintro ⟨row, hrow, hfits⟩
    exact ⟨row, mem_filter.mpr ⟨mem_of_getElem? hrow, hfits⟩, h.rowIds id row hrow⟩

/-- **An indexed lookup over active handles is a scan.** -/
theorem StateInv.candidateFactIds_eq (h : StateInv n st) (predicateId : Nat)
    (bindings : ExtTreeMap Nat NodeHandle) (hactive : ∀ b ∈ bindings.toList, st.nodes.Active b.2) :
    st.candidateFactIds predicateId bindings = .ok (st.scan predicateId bindings.toList) := by
  have hnone : (∀ (id : Nat) (row : FactRow), st.facts[id]? = some row →
      row.fits predicateId bindings.toList = false) → st.scan predicateId bindings.toList = [] := by
    intro hfits
    rw [eq_nil_iff_forall_not_mem]
    intro id hid
    obtain ⟨row, hrow, hfit⟩ := (mem_scan h).mp hid
    rw [hfits id row hrow] at hfit
    cases hfit
  unfold MutableState.candidateFactIds
  cases hbucket : st.indexes.byPredicate[predicateId]? with
  | none =>
    rw [hnone fun id row hrow => ?_]
    rw [Bool.eq_false_iff]
    intro hfits
    obtain ⟨hact, hpred, -⟩ := fits_iff.mp hfits
    exact h.indexes.byPredicate.not_filed hbucket ⟨row.key, ⟨row, hrow, hact, rfl⟩, hpred⟩
  | some ids =>
    rcases smallestBucket_covers h predicateId bindings.toList bindings.toList ids
      (fun _ hb => hb) hactive
      (covers_predicate h hbucket) with ⟨smallest, hsmallest, hrows, hall⟩ | ⟨hempty, hfits⟩
    · dsimp only
      rw [hsmallest]
      refine (fittingRows_eq predicateId bindings.toList smallest.toList fun id hid =>
        hrows id (ExtTreeSet.mem_toList.mp hid)).trans (congrArg _ ?_)
      -- both are ascending lists of the rows that fit
      refine List.Pairwise.eq_of_mem_iff (r := (· < ·)) ?_ (scan_ascending h _ _) fun id => ?_
      · refine List.Pairwise.filter _ ((ExtTreeSet.ordered_toList (t := smallest)).imp ?_)
        exact fun hlt => Std.compare_eq_lt.mp hlt
      · rw [mem_filter, ExtTreeSet.mem_toList, mem_scan h, Option.any_eq_true]
        constructor
        · rintro ⟨-, row, hrow, hfit⟩
          exact ⟨row, hrow, hfit⟩
        · rintro ⟨row, hrow, hfit⟩
          exact ⟨hall id row hrow hfit, row, hrow, hfit⟩
    · dsimp only
      rw [hempty, hnone hfits]
      rfl

end OneState

/-! ## Over runs -/

/-- What a client may rely on about the facts of a kernel. -/
structure FactStoreInv (k : TableauKernel) : Prop where
  /-- Row identifiers are positions. -/
  rowIds : ∀ (id : Nat) (row : FactRow), k.state.facts[id]? = some row → row.rowId = id
  /-- No two active rows share a key. -/
  keys : ∀ (i j : Nat) (a b : FactRow), k.state.facts[i]? = some a → k.state.facts[j]? = some b →
    a.active = true → b.active = true → a.key = b.key → i = j
  /-- All four indexes are those rebuilt from the active rows. -/
  indexes : k.state.indexes = rebuildIndexes k.state.facts
  /-- Active rows mention active nodes only. -/
  arguments : ∀ row ∈ k.state.facts, row.active = true →
    ∀ h ∈ row.key.arguments, k.state.nodes.Active h
  /-- Their supports are an antichain with something in it, in canonical order. -/
  supported : ∀ row ∈ k.state.facts, row.active = true → row.supports ≠ []
  antichain : ∀ row ∈ k.state.facts, row.active = true →
    ∀ d ∈ row.supports, ∀ e ∈ row.supports, d ≠ e → d.isSubsetOf e = false
  sorted : ∀ row ∈ k.state.facts, row.active = true →
    row.supports.Pairwise fun d e => d.bitsCmp e = .lt
  /-- No support rests on a level above the highest live branch. -/
  levels : ∀ row ∈ k.state.facts, row.active = true → ∀ d ∈ row.supports, ∀ level ∈ d.levels,
    ∃ highest, k.highestBranchLevel = some highest ∧ level ≤ highest
  /-- Nothing was derived in a later generation than the one being written. -/
  generation : ∀ row ∈ k.state.facts, row.active = true →
    row.derivationGeneration ≤ k.state.writeGeneration
  /-- An indexed lookup finds what a scan finds. -/
  lookup : ∀ (predicateId : Nat) (bindings : ExtTreeMap Nat NodeHandle),
    (∀ b ∈ bindings.toList, k.state.nodes.Active b.2) →
    k.state.candidateFactIds predicateId bindings = .ok (k.state.scan predicateId bindings.toList)

theorem KernelInv.factStoreInv {k : TableauKernel} (h : KernelInv k) : FactStoreInv k := by
  have hrow : ∀ row ∈ k.state.facts, row.active = true →
      RowInv k.branches.length k.state.nodes k.state.writeGeneration row := by
    intro row hmem hact
    obtain ⟨id, hid⟩ := mem_iff_getElem?.mp hmem
    exact h.sound.state.rows id row hid hact
  refine
    { rowIds := h.sound.state.rowIds
      keys := fun i j a b hi hj ha hb hkey => h.sound.state.key_unique hi hj ha hb hkey
      indexes := h.sound.state.indexes_eq
      arguments := fun row hmem hact => (hrow row hmem hact).arguments
      supported := fun row hmem hact => (hrow row hmem hact).supported
      antichain := fun row hmem hact => (hrow row hmem hact).antichain
      sorted := fun row hmem hact => (hrow row hmem hact).sorted
      levels := fun row hmem hact d hd level hlevel => ?_
      generation := fun row hmem hact => (hrow row hmem hact).generation
      lookup := fun predicateId bindings hactive =>
        h.sound.state.candidateFactIds_eq predicateId bindings hactive }
  have hlt := (hrow row hmem hact).below d hd level hlevel
  have hlast : k.branches[k.branches.length - 1]? = some k.branches[k.branches.length - 1] :=
    getElem?_eq_getElem (by omega)
  refine ⟨k.branches.length - 1, ?_, by omega⟩
  unfold TableauKernel.highestBranchLevel
  rw [getLast?_eq_getElem?, hlast, Option.map_some, h.sound.levels _ _ hlast]

/-- A transaction is rolled back safely if the branches its start rests on are still there. -/
def KeepsBranches (before after : TableauKernel) : Prop :=
  before.state.RestsOn after.branches.length

/-- **Every run keeps the kernel invariant**, as long as no transaction fails after
dropping a branch its start rests on. -/
theorem kernelInv_run {call : KernelOp → TableauKernel → Prop} {k k' : TableauKernel}
    (hrun : Run call KeepsBranches k k') (hk : KernelInv k) : KernelInv k' := by
  refine hrun.induct (I := KernelInv) (fun k o hk _ => ?_) (fun before after hb ha hrests => ?_)
    (fun before after hb _ => ?_) hk
  · exact (o.turns hk o.permitted_all).kernelInv hk
  · have hstate : StateInv after.branches.length before.snapshot.state :=
      hb.sound.state.rebase hrests
    exact ⟨⟨le_rfl, ha.sound.levels, hstate.restore after⟩, ha.snapshots, ha.root⟩
  · have hstate : StateInv before.branches.length before.snapshot.state := hb.sound.state
    exact ⟨⟨le_rfl, hb.sound.levels, hstate.restore after⟩, hb.snapshots, hb.root⟩

/-- **The fact store is in order in every kernel a client can bring about**, as long as no
transaction fails after dropping a branch its start rests on. -/
theorem factStore_reachable {k : TableauKernel}
    (hrun : Run (fun _ _ => True) KeepsBranches .new k) : FactStoreInv k :=
  (kernelInv_run hrun kernelInv_new).factStoreInv

namespace FactStoreSample

def node : NodeHandle := ⟨0, 1⟩

/-- Two branches, and a fact that rests on one of them. -/
def calls (level : Nat) : List KernelOp :=
  [.createNode .root none false none none none, .pushBranch .merge [0, 1] 0 .empty,
    .pushBranch .merge [0, 1] 0 .empty, .addFact 7 [node] (.ofLevels [level]) false none]

def start (level : Nat) : TableauKernel := runCalls .new (calls level)

/-- A transaction that goes back to the first branch and runs out of time there, as the
nominal manager's `resolve_clash` may be after `advance_branch`. -/
def stranded (level : Nat) : TableauKernel :=
  final (abandon (KernelOp.run (.backtrackTo 0)) .timeout) (start level)

theorem run_stranded {p : TableauKernel → TableauKernel → Prop} {level : Nat}
    (hp : p (start level) (final (KernelOp.run (.backtrackTo 0)) (start level))) :
    Run (fun _ _ => True) p .new (stranded level) := by
  unfold stranded
  rw [final_abandon]
  exact .rollBack (.of_calls ⟨trivial, trivial, trivial, trivial, trivial⟩) (.op .refl trivial) hp

/-- This does no harm to a fact that rests on the first branch. -/
theorem factStore_timeout : FactStoreInv (stranded 0) := by
  refine factStore_reachable (run_stranded ⟨?_, ?_⟩)
  · decide +kernel
  · decide +kernel

/-- But it leaves a fact that rests on the second branch without that branch. -/
theorem stranded_unsound : Run (fun _ _ => True) (fun _ _ => True) .new (stranded 1) ∧
    ¬ FactStoreInv (stranded 1) := by
  constructor
  · exact run_stranded trivial
  · intro h
    have hfact : (stranded 1).state.facts.any
        (fun row => row.active && row.supports.any fun d => d.levels.contains 1) = true := by
      decide +kernel
    have hhighest : (stranded 1).highestBranchLevel = some 0 := by decide +kernel
    obtain ⟨row, hmem, hrow⟩ := any_eq_true.mp hfact
    rw [Bool.and_eq_true, any_eq_true] at hrow
    obtain ⟨hact, d, hd, hlevel⟩ := hrow
    obtain ⟨highest, hsome, hle⟩ := h.levels row hmem hact d hd 1 (contains_iff_mem.mp hlevel)
    rw [hhighest] at hsome
    cases hsome
    omega

end FactStoreSample

end PyHermit
