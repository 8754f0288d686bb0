import Std.Data.ExtTreeMap
import Std.Data.ExtTreeSet
import Mathlib.Data.List.Basic

/-!
# Secondary indexes

An index sends each key to the set of row identifiers filed under it. It is updated by hand
on every insertion and removal, so what matters is that it says exactly what the rows say:
`Index.Exact idx P`, with `P` the relation the rows define. Two exact indexes for one
relation are equal (`Index.Exact.unique`), because empty buckets are never kept: `remove`
drops a bucket it empties.
-/

open Std List ExtTreeMap

/-- Identifiers filed under keys, without empty buckets. -/
abbrev Index (κ ι : Type) [Ord κ] [Ord ι] := ExtTreeMap κ (ExtTreeSet ι)

namespace Index

variable {κ ι : Type} [Ord κ] [TransOrd κ] [Ord ι] [TransOrd ι] (idx : Index κ ι)

/-- File `i` under `k`. -/
def add (k : κ) (i : ι) : Index κ ι :=
  idx.insert k ((idx.getD k ∅).insert i)

/-- Take `i` out of the bucket of `k`, which must exist; an emptied bucket goes too. -/
def remove (k : κ) (i : ι) : Option (Index κ ι) :=
  idx[k]?.map fun bucket =>
    if (bucket.erase i).isEmpty then idx.erase k else idx.insert k (bucket.erase i)

/-- File `i` under each of `keys`. -/
def addAll (keys : List κ) (i : ι) : Index κ ι :=
  keys.foldl (fun idx k => idx.add k i) idx

/-- File each element that has a key under it. -/
def collect {α : Type} (key : α → Option κ) (value : α → ι) (l : List α) : Index κ ι :=
  l.foldl (fun idx a => (key a).elim idx fun k => idx.add k (value a)) ∅

/-- `i` is filed under `k`. -/
def Holds (k : κ) (i : ι) : Prop := ∃ bucket, idx[k]? = some bucket ∧ i ∈ bucket

/-- The index files exactly the pairs of `P`, and keeps no empty bucket. -/
structure Exact (idx : Index κ ι) (P : κ → ι → Prop) : Prop where
  /-- What is filed is what `P` says. -/
  holds : ∀ k i, idx.Holds k i ↔ P k i
  /-- Every bucket has something in it. -/
  nonempty : ∀ (k : κ) (bucket : ExtTreeSet ι), idx[k]? = some bucket → ∃ i, i ∈ bucket

theorem exact_empty : Exact (∅ : Index κ ι) (fun _ _ => False) where
  holds k i := by simp [Holds]
  nonempty k bucket h := by simp at h

variable {idx : Index κ ι}

theorem Exact.congr {P P' : κ → ι → Prop} (h : Exact idx P) (hP : ∀ k i, P k i ↔ P' k i) :
    Exact idx P' where
  holds k i := (h.holds k i).trans (hP k i)
  nonempty := h.nonempty

variable {k : κ} {i : ι} {α : Type}

theorem mem_getD_iff : i ∈ idx.getD k ∅ ↔ idx.Holds k i := by
  unfold Holds
  rw [getD_eq_getD_getElem?]
  cases idx[k]? with
  | none | some => simp

variable {P : κ → ι → Prop}

theorem Exact.mem_getD (h : Exact idx P) : i ∈ idx.getD k ∅ ↔ P k i :=
  mem_getD_iff.trans (h.holds k i)

theorem Exact.mem_bucket (h : Exact idx P)
    {bucket : ExtTreeSet ι} (hk : idx[k]? = some bucket) : i ∈ bucket ↔ P k i := by
  rw [← h.mem_getD, getD_eq_getD_getElem?, hk, Option.getD_some]

theorem Exact.not_filed (h : Exact idx P) (hk : idx[k]? = none) : ¬ P k i := by
  rw [← h.mem_getD, getD_eq_getD_getElem?, hk, Option.getD_none]
  exact ExtTreeSet.not_mem_empty

variable [LawfulEqOrd κ] [LawfulEqOrd ι]

/-- An exact index is determined by the relation it files. -/
theorem Exact.unique {idx' : Index κ ι} (h : Exact idx P) (h' : Exact idx' P) : idx = idx' := by
  have key : ∀ {a b : Index κ ι}, Exact a P → Exact b P → ∀ (k : κ) bucket, a[k]? = some bucket →
      b[k]? = some bucket := by
    intro a b ha hb k bucket hk
    obtain ⟨i, hi⟩ := ha.nonempty k bucket hk
    obtain ⟨bucket', hk', -⟩ := (hb.holds k i).mpr ((ha.holds k i).mp ⟨bucket, hk, hi⟩)
    have heq : bucket = bucket' := ExtTreeSet.ext_mem fun _ =>
      (ha.mem_bucket hk).trans (hb.mem_bucket hk').symm
    rw [hk', heq]
  apply ExtTreeMap.ext_getElem?
  intro k
  cases hk : idx[k]? with
  | some bucket => exact (key h h' k bucket hk).symm
  | none =>
    cases hk' : idx'[k]? with
    | none => rfl
    | some bucket => rw [key h' h k bucket hk'] at hk; cases hk

theorem holds_add {k' : κ} {i' : ι} :
    (idx.add k i).Holds k' i' ↔ idx.Holds k' i' ∨ (k' = k ∧ i' = i) := by
  unfold Holds add
  rw [ExtTreeMap.getElem?_insert]
  by_cases hk : k = k'
  · subst hk
    simp only [Std.compare_self, if_true, Option.some.injEq, exists_eq_left', ExtTreeSet.mem_insert,
      Std.compare_eq_iff_eq, mem_getD_iff, true_and]
    rw [or_comm]
    exact or_congr_right eq_comm
  · have : ¬ compare k k' = .eq := by rwa [Std.compare_eq_iff_eq]
    rw [if_neg this]
    constructor
    · exact .inl
    · rintro (h | ⟨rfl, -⟩)
      · exact h
      · exact absurd rfl hk

theorem Exact.add (h : Exact idx P) (k : κ) (i : ι) :
    Exact (idx.add k i) (fun k' i' => P k' i' ∨ (k' = k ∧ i' = i)) where
  holds k' i' := by rw [holds_add, h.holds]
  nonempty k' bucket hb := by
    unfold Index.add at hb
    rw [ExtTreeMap.getElem?_insert] at hb
    split at hb
    · cases hb
      exact ⟨i, ExtTreeSet.mem_insert_self⟩
    · exact h.nonempty k' bucket hb

theorem Exact.addAll (h : Exact idx P) (i : ι) (keys : List κ) :
    Exact (idx.addAll keys i) (fun k' i' => P k' i' ∨ (k' ∈ keys ∧ i' = i)) := by
  induction keys generalizing idx P with
  | nil => exact h.congr fun k' i' => by simp
  | cons k keys ih =>
    refine (ih (h.add k i)).congr fun k' i' => ?_
    rw [mem_cons, or_and_right, or_assoc]

theorem Exact.foldl_add {key : α → Option κ} {value : α → ι} (h : Exact idx P) (l : List α) :
    Exact (l.foldl (fun idx a => (key a).elim idx fun k => idx.add k (value a)) idx)
      (fun k i => P k i ∨ ∃ a ∈ l, key a = some k ∧ value a = i) := by
  induction l generalizing idx P with
  | nil => exact h.congr fun k i => by simp
  | cons a l ih =>
    rw [foldl_cons]
    cases hk : key a with
    | none =>
      refine (ih h).congr fun k i => or_congr_right ?_
      simp [hk]
    | some k' =>
      refine (ih (h.add k' (value a))).congr fun k i => ?_
      simp only [mem_cons, or_and_right, exists_or, exists_eq_left, hk, Option.some.injEq,
        or_assoc, eq_comm (a := k), eq_comm (a := i)]

/-- Collecting files what the elements say. -/
theorem exact_collect (key : α → Option κ) (value : α → ι) (l : List α) :
    Exact (collect key value l) (fun k i => ∃ a ∈ l, key a = some k ∧ value a = i) :=
  (exact_empty.foldl_add l).congr fun k i => by simp

omit [LawfulEqOrd ι] in
/-- One bucket of an exact index is replaced. -/
theorem Exact.update {idx' : Index κ ι} (h : Exact idx P)
    (hother : ∀ k', ¬ compare k k' = .eq → idx'[k']? = idx[k']?)
    (hat : ∀ j, idx'.Holds k j ↔ P k j ∧ j ≠ i)
    (hnonempty : ∀ bucket, idx'[k]? = some bucket → ∃ j, j ∈ bucket) :
    Exact idx' (fun k' i' => P k' i' ∧ ¬ (k' = k ∧ i' = i)) := by
  refine ⟨fun k' i' => ?_, fun k' bucket' hb => ?_⟩
  · by_cases hkk : k = k'
    · rw [← hkk, hat, and_iff_right rfl]
    · unfold Holds
      rw [hother k' (by rwa [Std.compare_eq_iff_eq])]
      exact (h.holds k' i').trans (and_iff_left fun heq => hkk heq.1.symm).symm
  · by_cases hkk : k = k'
    · exact hnonempty bucket' (hkk ▸ hb)
    · rw [hother k' (by rwa [Std.compare_eq_iff_eq])] at hb
      exact h.nonempty k' bucket' hb

/-- Removal from an exact index finds its bucket, and forgets that one pair. -/
theorem Exact.remove (h : Exact idx P) (hP : P k i) : ∃ idx', idx.remove k i = some idx' ∧
      Exact idx' (fun k' i' => P k' i' ∧ ¬ (k' = k ∧ i' = i)) := by
  obtain ⟨bucket, hk, hi⟩ := (h.holds k i).mpr hP
  have herase : ∀ j, j ∈ bucket.erase i ↔ P k j ∧ j ≠ i := by
    intro j
    rw [ExtTreeSet.mem_erase, h.mem_bucket hk, and_comm, ne_eq, ne_eq, Std.compare_eq_iff_eq,
      eq_comm]
  unfold Index.remove
  rw [hk, Option.map_some]
  refine ⟨_, rfl, ?_⟩
  by_cases hempty : (bucket.erase i).isEmpty
  · -- the emptied bucket goes
    rw [if_pos hempty]
    rw [ExtTreeSet.isEmpty_iff, ExtTreeSet.eq_empty_iff_forall_not_mem] at hempty
    refine h.update (fun k' hkk => ?_) (fun j => ?_) fun bucket' hb => ?_
    · rw [getElem?_erase, if_neg hkk]
    · rw [← herase]
      simp [Holds, hempty j]
    · rw [getElem?_erase_self] at hb
      cases hb
  · rw [if_neg hempty]
    rw [ExtTreeSet.isEmpty_iff, ExtTreeSet.eq_empty_iff_forall_not_mem, not_forall_not] at hempty
    refine h.update (fun k' hkk => ?_) (fun j => ?_) fun bucket' hb => ?_
    · rw [ExtTreeMap.getElem?_insert, if_neg hkk]
    · simp [Holds, herase]
    · rw [ExtTreeMap.getElem?_insert_self] at hb
      cases hb
      exact hempty

end Index
