import PyHermit.Proof.Arena

/-!
# The four indexes say what the active rows say

`live key id`: row `id` is active and holds `key`. Each of the four indexes is a view of
this relation, so exactness of all four is one statement, `FactIndexes.Exact indexes live`.
It determines the indexes, it is preserved by filing a row under a key nobody holds, and
taking a row out again removes exactly that row: also from the positional buckets of a key
that repeats an argument, and only once from the node buckets.
-/

open Std Prog List

namespace PyHermit

namespace FactKey

variable {key : FactKey}

theorem mem_uniqueArguments {h : NodeHandle} : h ∈ key.uniqueArguments ↔ h ∈ key.arguments := by
  unfold uniqueArguments
  rw [ExtTreeSet.mem_toList, ExtTreeSet.mem_ofList, contains_iff_mem]

theorem nodup_uniqueArguments : key.uniqueArguments.Nodup := by
  refine List.Pairwise.imp ?_ ExtTreeSet.distinct_toList
  intro a b hab heq
  exact hab (by rw [heq]; exact ReflCmp.compare_self)

theorem mem_positionKeys {q : PositionKey} : q ∈ key.positionKeys ↔
    q.predicateId = key.predicateId ∧ key.arguments[q.position]? = some q.argument := by
  unfold positionKeys
  rw [mem_map]
  constructor
  · rintro ⟨⟨argument, position⟩, hmem, rfl⟩
    exact ⟨rfl, mem_zipIdx_iff_getElem?.mp hmem⟩
  · rintro ⟨hp, hq⟩
    refine ⟨(q.argument, q.position), mem_zipIdx_iff_getElem?.mpr hq, ?_⟩
    cases q
    simp_all

theorem nodup_positionKeys : key.positionKeys.Nodup := by
  have hpos : key.positionKeys.map (·.position) = List.range' 0 key.arguments.length := by
    unfold positionKeys
    rw [map_map]
    exact zipIdx_map_snd 0 key.arguments
  refine List.Nodup.of_map (·.position) ?_
  rw [hpos]
  exact nodup_range'

end FactKey

namespace FactIndexes

variable {indexes : FactIndexes} {live : FactKey → Nat → Prop}

/-- The indexes are the ones of the rows `live` describes. -/
structure Exact (indexes : FactIndexes) (live : FactKey → Nat → Prop) : Prop where
  /-- A key leads to the row that holds it. -/
  byKey : ∀ (key : FactKey) (id : Nat), indexes.byKey[key]? = some id ↔ live key id
  /-- A node leads to the rows that mention it. -/
  byNode : indexes.byNode.Exact fun h id => ∃ key, live key id ∧ h ∈ key.arguments
  /-- A predicate leads to its rows. -/
  byPredicate : indexes.byPredicate.Exact fun p id => ∃ key, live key id ∧ key.predicateId = p
  /-- A predicate, a position and a node lead to the rows with that argument there. -/
  byPosition : indexes.byPosition.Exact fun q id => ∃ key, live key id ∧ q ∈ key.positionKeys

theorem exact_empty : Exact .empty (fun _ _ => False) where
  byKey key id := by simp [empty]
  byNode := Index.exact_empty.congr fun _ _ => by simp
  byPredicate := Index.exact_empty.congr fun _ _ => by simp
  byPosition := Index.exact_empty.congr fun _ _ => by simp

theorem Exact.congr (h : indexes.Exact live) {live' : FactKey → Nat → Prop}
    (hl : ∀ key id, live key id ↔ live' key id) : indexes.Exact live' := by
  have heq : live = live' := funext fun key => funext fun id => propext (hl key id)
  rw [← heq]
  exact h

theorem Exact.unique {indexes' : FactIndexes} (h : indexes.Exact live) (h' : indexes'.Exact live) :
    indexes = indexes' := by
  have hkey : indexes.byKey = indexes'.byKey := by
    apply ExtTreeMap.ext_getElem?
    intro key
    apply Option.ext
    intro id
    rw [h.byKey, h'.byKey]
  have hnode := h.byNode.unique h'.byNode
  have hpred := h.byPredicate.unique h'.byPredicate
  have hpos := h.byPosition.unique h'.byPosition
  cases indexes
  cases indexes'
  simp_all

variable {key : FactKey}

theorem Exact.key_unique (h : indexes.Exact live) {i j : Nat} (hi : live key i)
    (hj : live key j) : i = j := by
  have h1 := (h.byKey key i).mpr hi
  rw [(h.byKey key j).mpr hj] at h1
  exact (Option.some.inj h1).symm

theorem filed_iff {R : FactKey → Prop} {id id' : Nat} :
    ((∃ key', live key' id' ∧ R key') ∨ (R key ∧ id' = id)) ↔
      ∃ key', (live key' id' ∨ (key' = key ∧ id' = id)) ∧ R key' := by
  constructor
  · rintro (⟨key', hl, hm⟩ | ⟨hm, rfl⟩)
    · exact ⟨key', .inl hl, hm⟩
    · exact ⟨key, .inr ⟨rfl, rfl⟩, hm⟩
  · rintro ⟨key', hl | ⟨rfl, rfl⟩, hm⟩
    · exact .inl ⟨key', hl, hm⟩
    · exact .inr ⟨hm, rfl⟩

theorem Exact.file (h : indexes.Exact live) (id : Nat) (hfree : ∀ id', ¬ live key id') :
    (indexes.file key id).Exact fun key' id' => live key' id' ∨ (key' = key ∧ id' = id) where
  byKey key' id' := by
    have hins : (indexes.file key id).byKey = indexes.byKey.insert key id := rfl
    rw [hins, getElem?_insert_eq]
    by_cases hk : key = key'
    · subst hk
      rw [if_pos rfl, Option.some.injEq]
      exact ⟨fun heq => .inr ⟨rfl, heq.symm⟩, fun hor => by
        rcases hor with hl | ⟨-, heq⟩
        · exact absurd hl (hfree id')
        · exact heq.symm⟩
    · rw [if_neg hk, h.byKey]
      exact ⟨.inl, fun hor => hor.resolve_right fun heq => hk heq.1.symm⟩
  byNode := (h.byNode.addAll id key.uniqueArguments).congr fun node id' => by
    rw [FactKey.mem_uniqueArguments]
    exact filed_iff (R := fun key => node ∈ key.arguments)
  byPredicate := (h.byPredicate.add key.predicateId id).congr fun p id' => by
    rw [eq_comm (a := p)]
    exact filed_iff (R := fun key => key.predicateId = p)
  byPosition := (h.byPosition.addAll id key.positionKeys).congr fun q id' =>
    filed_iff (R := fun key => q ∈ key.positionKeys)

end FactIndexes

/-! ## Taking a row out -/

theorem MutableState.fact_eq_ok {st : MutableState} {rowId : Nat} {row : FactRow} :
    st.fact rowId = .ok row ↔ st.facts[rowId]? = some row := by
  unfold MutableState.fact
  cases st.facts[rowId]? with
  | none => exact ⟨nofun, nofun⟩
  | some row' => exact ⟨fun h => by cases h; rfl, fun h => by cases h; rfl⟩

section Unfile

open TableauKernel

variable {κ : Type} [Ord κ] [TransOrd κ] [LawfulEqOrd κ]

def withIndexes (k : TableauKernel) (indexes : FactIndexes) : TableauKernel :=
  { k with state := { k.state with indexes } }

variable {field : Lens FactIndexes (Index κ Nat)} {P : κ → Nat → Prop} {k : TableauKernel}
  {rowId : Nat} {absent : String}

/-- Taking a row out of a bucket that has it never fails. -/
theorem wp_unfile {q : κ} (hexact : (field.get k.state.indexes).Exact P)
    (hP : P q rowId) : wp (unfile field q rowId absent)
      (fun _ k' => ∃ index, k' = withIndexes k (field.put k.state.indexes index) ∧
        index.Exact fun q' id => P q' id ∧ ¬ (q' = q ∧ id = rowId))
      (fun _ _ => False) k := by
  obtain ⟨index, hrem, hindex⟩ := hexact.remove hP
  refine wp_get_then.mpr ?_
  rw [hrem]
  exact ⟨index, rfl, hindex⟩

theorem wp_unfile_all {keys : List κ} (hexact : (field.get k.state.indexes).Exact P)
    (hnodup : keys.Nodup) (hP : ∀ q ∈ keys, P q rowId) :
    wp (keys.forM fun q => unfile field q rowId absent)
      (fun _ k' => ∃ index, k' = withIndexes k (field.put k.state.indexes index) ∧
        index.Exact fun q id => P q id ∧ ¬ (q ∈ keys ∧ id = rowId))
      (fun _ _ => False) k := by
  -- the invariant: the keys already done are the ones no longer left
  let I : List κ → TableauKernel → Prop := fun left k' => left.Nodup ∧ (∀ q ∈ left, q ∈ keys) ∧
    ∃ index, k' = withIndexes k (field.put k.state.indexes index) ∧
      index.Exact fun q id => P q id ∧ ¬ (q ∈ keys ∧ q ∉ left ∧ id = rowId)
  have hstart : I keys k := by
    refine ⟨hnodup, fun q hq => hq, field.get k.state.indexes, ?_, ?_⟩
    · unfold withIndexes
      rw [field.put_get]
    · exact hexact.congr fun q id => ⟨fun h => ⟨h, fun h' => h'.2.1 h'.1⟩, fun h => h.1⟩
  refine wp_imp (wp_forM (E := fun _ _ => False) I ?_ keys k hstart) ?_
  · rintro q left k' ⟨hnd, hsub, index, rfl, hindex⟩
    obtain ⟨hq, hleft⟩ := nodup_cons.mp hnd
    have hqkeys : q ∈ keys := hsub q mem_cons_self
    have hfield :
        field.get (withIndexes k (field.put k.state.indexes index)).state.indexes = index :=
      field.get_put _ _
    have hindex' := hfield ▸ hindex
    refine wp_mono (wp_unfile hindex' ⟨hP q hqkeys, fun h => h.2.1 mem_cons_self⟩) ?_
      fun _ _ h => h
    rintro _ k' ⟨index', rfl, hnew⟩
    refine ⟨hleft, fun q' hq' => hsub q' (mem_cons_of_mem _ hq'), index', ?_, ?_⟩
    · change withIndexes k (field.put (field.put k.state.indexes index) index') = _
      rw [field.put_put]
    · refine hnew.congr fun q' id => ?_
      constructor
      · rintro ⟨⟨h1, h2⟩, h3⟩
        refine ⟨h1, fun ⟨h4, h5, h6⟩ => ?_⟩
        by_cases heq : q' = q
        · exact h3 ⟨heq, h6⟩
        · exact h2 ⟨h4, fun hmem => (mem_cons.mp hmem).elim heq h5, h6⟩
      · rintro ⟨h1, h2⟩
        refine ⟨⟨h1, fun ⟨h4, h5, h6⟩ => h2 ⟨h4, fun hm => h5 (mem_cons_of_mem _ hm), h6⟩⟩, ?_⟩
        rintro ⟨rfl, rfl⟩
        exact h2 ⟨hqkeys, hq, rfl⟩
  · rintro _ k' ⟨-, -, index, rfl, hindex⟩
    exact ⟨index, rfl, hindex.congr fun q id => by simp⟩

end Unfile

end PyHermit
