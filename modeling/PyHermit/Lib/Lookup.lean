import Mathlib.Logic.Basic
import Std.Data.ExtTreeMap
import Std.Data.ExtTreeSet

/-!
# Looking things up

Reads of lists, and of tree maps and sets whose comparison decides equality.
-/

open Std

namespace Prog

variable {α β : Type} {a b : α}

theorem lt_of_getElem? {l : List α} {i : Nat} (h : l[i]? = some a) : i < l.length :=
  (List.getElem?_eq_some_iff.mp h).1

theorem getElem?_concat_iff {l : List α} {i : Nat} :
    (l ++ [a])[i]? = some b ↔ l[i]? = some b ∨ (i = l.length ∧ b = a) := by
  rcases Nat.lt_trichotomy i l.length with h | rfl | h
  · simp [List.getElem?_append_left h, Nat.ne_of_lt h]
  · simp [eq_comm]
  · rw [List.getElem?_eq_none (by simp; omega), List.getElem?_eq_none (Nat.le_of_lt h)]
    simp [Nat.ne_of_gt h]

theorem getElem?_modify_iff {l : List α} {i k : Nat} {f : α → α} :
    (l.modify k f)[i]? = some b ↔
      (k = i ∧ ∃ a, l[i]? = some a ∧ b = f a) ∨ (k ≠ i ∧ l[i]? = some b) := by
  rw [List.getElem?_modify]
  by_cases h : k = i
  · simp [h, Option.map_eq_some_iff, eq_comm (b := b)]
  · simp [h]

theorem filter_zip_map (l : List α) (f : α → Bool) :
    ((l.zip (l.map f)).filter (·.2)).map (·.1) = l.filter f := by
  induction l with
  | nil => rfl
  | cons a l ih =>
    rw [List.map_cons, List.zip_cons_cons, List.filter_cons, List.filter_cons]
    cases hf : f a with
    | true | false => simp [ih]

/-- Two components that are compared one after the other. -/
theorem eq_of_compareLex {γ : Type} {f : α → β} {g : α → γ} [Ord β] [LawfulEqOrd β]
    [Ord γ] [LawfulEqOrd γ] (h : compareLex (compareOn f) (compareOn g) a b = .eq) :
    f a = f b ∧ g a = g b := by
  obtain ⟨hf, hg⟩ := Ordering.then_eq_eq.mp h
  exact ⟨compare_eq_iff_eq.mp hf, compare_eq_iff_eq.mp hg⟩

variable [Ord α] [TransOrd α] {m : ExtTreeMap α β} {v : β}

theorem mem_iff_found : a ∈ m ↔ ∃ v, m[a]? = some v :=
  ExtTreeMap.mem_iff_isSome_getElem?.trans Option.isSome_iff_exists

variable [LawfulEqOrd α] {l : List (α × β)} {s : ExtTreeSet α}

theorem mem_insert_eq : b ∈ s.insert a ↔ a = b ∨ b ∈ s := by
  rw [ExtTreeSet.mem_insert, Std.compare_eq_iff_eq]

theorem mem_erase_eq : b ∈ s.erase a ↔ ¬ a = b ∧ b ∈ s := by
  rw [ExtTreeSet.mem_erase, ne_eq, Std.compare_eq_iff_eq]

variable [DecidableEq α]

theorem getElem?_insert_eq : (m.insert a v)[b]? = if a = b then some v else m[b]? := by
  rw [ExtTreeMap.getElem?_insert]
  exact if_congr Std.compare_eq_iff_eq rfl rfl

theorem getElem?_insert_cases {w : β} (h : (m.insert a v)[b]? = some w) :
    (b = a ∧ w = v) ∨ (b ≠ a ∧ m[b]? = some w) := by
  rw [getElem?_insert_eq] at h
  split at h
  · rename_i heq
    exact .inl ⟨heq.symm, (Option.some.inj h).symm⟩
  · rename_i hne
    exact .inr ⟨fun heq => hne heq.symm, h⟩

theorem mem_of_getElem?_insertMany (h : (m.insertMany l)[a]? = some v) :
    (a, v) ∈ l ∨ m[a]? = some v := by
  induction l generalizing m with
  | nil => exact .inr h
  | cons p l ih =>
    rw [ExtTreeMap.insertMany_cons] at h
    rcases ih h with h | h
    · exact .inl (List.mem_cons_of_mem p h)
    · rcases getElem?_insert_cases h with ⟨rfl, rfl⟩ | ⟨-, h⟩
      · exact .inl List.mem_cons_self
      · exact .inr h

theorem mem_of_getElem?_ofList (h : (ExtTreeMap.ofList l)[a]? = some v) : (a, v) ∈ l := by
  rw [ExtTreeMap.ofList_eq_insertMany_empty] at h
  rcases mem_of_getElem?_insertMany h with h | h
  · exact h
  · simp at h

end Prog
