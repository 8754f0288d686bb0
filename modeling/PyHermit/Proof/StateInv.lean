import PyHermit.Proof.FactIndexes

/-!
# The store invariant of one state

`StateInv n st`: what holds of a mutable state reached under `n` live branches. Handles,
free slots, representatives and blockers are in order; row identifiers are positions, the
four indexes are exactly the active rows, and each active row mentions active nodes only and
carries a canonical antichain of supports.

`n` only bounds dependency levels, so the invariant survives more branches
(`StateInv.mono`): a snapshot can be restored under a taller stack.
-/

open Std Prog List

namespace PyHermit

/-! ## Rows -/

/-- What holds of an active row. -/
structure RowInv (n : Nat) (arena : Arena) (writeGeneration : Nat) (row : FactRow) : Prop where
  /-- It mentions active nodes only. -/
  arguments : ∀ h ∈ row.key.arguments, arena.Active h
  /-- Something supports it. -/
  supported : row.supports ≠ []
  /-- No support is contained in another. -/
  antichain : ∀ d ∈ row.supports, ∀ e ∈ row.supports, d ≠ e → d.isSubsetOf e = false
  /-- The supports are sorted, without repetition. -/
  sorted : row.supports.Pairwise fun d e => d.bitsCmp e = .lt
  /-- They rest on live branches. -/
  below : ∀ d ∈ row.supports, d.Below n
  /-- It was derived in this generation or before. -/
  generation : row.derivationGeneration ≤ writeGeneration

theorem RowInv.mono {n n' : Nat} {arena arena' : Arena} {write write' : Nat} {row : FactRow}
    (h : RowInv n arena write row) (hn : n ≤ n')
    (ha : ∀ x ∈ row.key.arguments, arena.Active x → arena'.Active x) (hw : write ≤ write') :
    RowInv n' arena' write' row where
  arguments x hx := ha x hx (h.arguments x hx)
  supported := h.supported
  antichain := h.antichain
  sorted := h.sorted
  below d hd := (h.below d hd).mono hn
  generation := Nat.le_trans h.generation hw

namespace DependencySet

instance : TransCmp bitsCmp :=
  inferInstanceAs (TransCmp (compareOn fun d : DependencySet => d.levels.reverse))

instance : Std.Total fun d e : DependencySet => (bitsCmp d e).isLE = true where
  total d e := by
    cases h : bitsCmp d e with
    | lt | eq => exact .inl rfl
    | gt => exact .inr (by rw [OrientedCmp.lt_of_gt h]; rfl)

instance : IsTrans DependencySet fun d e => (bitsCmp d e).isLE = true where
  trans _ _ _ h1 h2 := TransCmp.isLE_trans h1 h2

variable {values : List DependencySet}

theorem mem_sortDependencies {d : DependencySet} : d ∈ sortDependencies values ↔ d ∈ values :=
  (perm_insertionSort (r := fun d e => (bitsCmp d e).isLE = true) values).mem_iff

theorem sortDependencies_strict (h : values.Nodup) :
    (sortDependencies values).Pairwise fun d e => d.bitsCmp e = .lt := by
  have hperm := perm_insertionSort (r := fun d e => (bitsCmp d e).isLE = true) values
  have hle := pairwise_insertionSort (r := fun d e => (bitsCmp d e).isLE = true) values
  have hne : (sortDependencies values).Pairwise (· ≠ ·) := hperm.nodup_iff.mpr h
  refine (hle.and hne).imp ?_
  rintro d e ⟨hde, hneq⟩
  cases hc : bitsCmp d e with
  | lt => rfl
  | eq => exact absurd (eq_of_bitsCmp hc) hneq
  | gt => rw [hc] at hde; cases hde

theorem sortDependencies_of_strict (h : values.Pairwise fun d e => d.bitsCmp e = .lt) :
    sortDependencies values = values :=
  List.Pairwise.insertionSort_eq (h.imp fun hlt => by rw [hlt]; rfl)

theorem nodup_of_strict (h : values.Pairwise fun d e => d.bitsCmp e = .lt) : values.Nodup :=
  h.imp fun {d e} hlt heq => by
    have hself : bitsCmp e e = .eq := ReflCmp.compare_self
    rw [heq, hself] at hlt
    cases hlt

theorem isSubsetOf_refl (d : DependencySet) : d.isSubsetOf d = true :=
  isSubsetOf_iff.mpr fun _ h => h

end DependencySet

/-- Absorbing a support keeps the row's invariant: dominated supports leave, and a
dominated support is not taken in. -/
theorem RowInv.absorb {n : Nat} {arena : Arena} {write : Nat} {row : FactRow}
    (h : RowInv n arena write row) {support : DependencySet} (hs : support.Below n) (core : Bool)
    (provenanceId : Option Nat) : RowInv n arena write (row.absorb support core provenanceId) := by
  by_cases hdom : row.supports.any (·.isSubsetOf support) = true
  · have hsup : (row.absorb support core provenanceId).supports = row.supports := if_pos hdom
    refine ⟨h.arguments, ?_, ?_, ?_, ?_, h.generation⟩
    · rw [hsup]; exact h.supported
    · rw [hsup]; exact h.antichain
    · rw [hsup]; exact h.sorted
    · rw [hsup]; exact h.below
  · have hsup : (row.absorb support core provenanceId).supports = DependencySet.sortDependencies
        (row.supports.filter (fun value => !support.isSubsetOf value) ++ [support]) := if_neg hdom
    have hnone : ∀ d ∈ row.supports, d.isSubsetOf support = false := by
      intro d hd
      rw [Bool.eq_false_iff]
      intro hsub
      exact hdom (any_eq_true.mpr ⟨d, hd, hsub⟩)
    have hmem : ∀ d, d ∈ (row.absorb support core provenanceId).supports ↔
        (d ∈ row.supports ∧ support.isSubsetOf d = false) ∨ d = support := by
      intro d
      rw [hsup, DependencySet.mem_sortDependencies, mem_append, mem_filter,
        mem_singleton, Bool.not_eq_true']
    refine ⟨h.arguments, ?_, ?_, ?_, ?_, h.generation⟩
    · exact ne_nil_of_mem ((hmem support).mpr (.inr rfl))
    · intro d hd e he hne
      rcases (hmem d).mp hd with ⟨hd1, hd2⟩ | rfl
      · rcases (hmem e).mp he with ⟨he1, -⟩ | rfl
        · exact h.antichain d hd1 e he1 hne
        · exact hnone d hd1
      · rcases (hmem e).mp he with ⟨-, he2⟩ | rfl
        · exact he2
        · exact absurd rfl hne
    · rw [hsup]
      refine DependencySet.sortDependencies_strict ?_
      refine nodup_append.mpr ⟨(DependencySet.nodup_of_strict h.sorted).filter _,
        nodup_singleton _, ?_⟩
      intro d hd e he heq
      rw [mem_singleton] at he
      subst he
      rw [heq, mem_filter, DependencySet.isSubsetOf_refl] at hd
      exact absurd hd.2 (by simp)
    · intro d hd
      rcases (hmem d).mp hd with ⟨hd1, -⟩ | rfl
      · exact h.below d hd1
      · exact hs

/-! ## The state -/

namespace MutableState

variable {st st' : MutableState}

/-- Row `id` is active and holds `key`. -/
def live (st : MutableState) (key : FactKey) (id : Nat) : Prop :=
  ∃ row, st.facts[id]? = some row ∧ row.active = true ∧ row.key = key

/-- No active row mentions the node. -/
def Unmentioned (st : MutableState) (h : NodeHandle) : Prop :=
  ∀ (id : Nat) (row : FactRow), st.facts[id]? = some row → row.active = true → h ∉ row.key.arguments

end MutableState

/-- A node's blocker, if it has one, is an active object node, and the node itself is. -/
def BlockerInv (arena : Arena) (node : Node) : Prop :=
  ∀ b, node.blocker = some b → node.lifecycle = .active ∧ node.sort = .object ∧
    ∃ blocker, arena.requireActive b = .ok blocker ∧ blocker.sort = .object

/-- The store invariant under `n` live branches. -/
structure StateInv (n : Nat) (st : MutableState) : Prop where
  /-- Nodes sit in their slots. -/
  slotted : st.nodes.Slotted
  /-- Slots and generations go together. -/
  lengths : st.nodes.length = st.generations.length
  /-- A free slot is empty. -/
  free : ∀ slot ∈ st.freeSlots, st.nodes[slot]? = some none
  /-- An active node has no representative. -/
  unmerged : ∀ (i : Nat) (node : Node), st.nodes[i]? = some (some node) →
    node.lifecycle = .active → node.representative = none
  /-- Merges rest on live branches. -/
  merges : ∀ (i : Nat) (node : Node), st.nodes[i]? = some (some node) → node.mergeDependency.Below n
  /-- Blockers are active object nodes. -/
  blockers : ∀ (i : Nat) (node : Node), st.nodes[i]? = some (some node) → BlockerInv st.nodes node
  /-- A row's identifier is its position. -/
  rowIds : ∀ (id : Nat) (row : FactRow), st.facts[id]? = some row → row.rowId = id
  /-- The indexes are those of the active rows. -/
  indexes : st.indexes.Exact st.live
  /-- Active rows are in order. -/
  rows : ∀ (id : Nat) (row : FactRow), st.facts[id]? = some row → row.active = true →
    RowInv n st.nodes st.writeGeneration row

/-- The merges and the active rows rest on the first `n` branches. -/
structure MutableState.RestsOn (n : Nat) (st : MutableState) : Prop where
  merges : ∀ node ∈ st.nodes.liveNodes, node.mergeDependency.Below n
  rows : ∀ row ∈ st.facts, row.active = true → ∀ d ∈ row.supports, d.Below n

theorem StateInv.rebase {n n' : Nat} {st : MutableState} (h : StateInv n st)
    (hrests : st.RestsOn n') : StateInv n' st :=
  { h with
    merges := fun i node hi => hrests.merges node (Arena.mem_liveNodes.mpr ⟨i, hi⟩)
    rows := fun id row hid hact =>
      { h.rows id row hid hact with below := hrests.rows row (mem_of_getElem? hid) hact } }

theorem StateInv.restsOn {n : Nat} {st : MutableState} (h : StateInv n st) : st.RestsOn n where
  merges node hnode := by
    obtain ⟨i, hi⟩ := Arena.mem_liveNodes.mp hnode
    exact h.merges i node hi
  rows row hmem hact := by
    obtain ⟨id, hid⟩ := mem_iff_getElem?.mp hmem
    exact (h.rows id row hid hact).below

theorem StateInv.mono {n n' : Nat} {st : MutableState} (h : StateInv n st) (hn : n ≤ n') :
    StateInv n' st :=
  h.rebase ⟨fun node hnode => (h.restsOn.merges node hnode).mono hn,
    fun row hmem hact d hd => (h.restsOn.rows row hmem hact d hd).mono hn⟩

theorem StateInv.canonicalHandle_self {n : Nat} {st : MutableState} {h : NodeHandle}
    (hst : StateInv n st)
    (ha : st.nodes.Active h) : st.nodes.canonicalHandle h = .ok (h, .empty) := by
  obtain ⟨node, hnode⟩ := ha
  obtain ⟨hreq, hact⟩ := Arena.requireActive_eq_ok.mp hnode
  have hself := Arena.representative_self hreq
    (hst.unmerged _ node (Arena.requireNode_eq_ok.mp hreq).1 hact)
  rw [hst.slotted.handle_eq hreq] at hself
  exact Arena.canonicalHandle_eq_ok.mpr ⟨hself, node, hnode⟩

theorem stateInv_new : StateInv 0 .new where
  slotted i node hi := by simp [MutableState.new] at hi
  lengths := rfl
  free slot hs := absurd hs ExtTreeSet.not_mem_empty
  unmerged i node hi := by simp [MutableState.new] at hi
  merges i node hi := by simp [MutableState.new] at hi
  blockers i node hi := by simp [MutableState.new] at hi
  rowIds id row hid := by simp [MutableState.new] at hid
  indexes := FactIndexes.exact_empty.congr fun key id => by simp [MutableState.live,
    MutableState.new]
  rows id row hid := by simp [MutableState.new] at hid

end PyHermit
