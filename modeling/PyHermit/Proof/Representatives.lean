import PyHermit.Proof.Turns

/-!
# Where merged nodes lead

`Chain arena m h`: from `h`, `m` merge pointers lead to an active node. Such a chain cannot
come back to a node it has passed, because what is left of it is shorter there; so it is no
longer than the arena, and `representative`, which gives up after as many steps as there are
slots, follows it to its end (`Chain.representative`).
-/

open Std Prog List

namespace PyHermit

open TableauKernel Arena

/-! ## Chains -/

/-- From the handle, so many pointers lead to an active node. -/
inductive Chain (arena : Arena) : Nat → NodeHandle → Prop where
  | here {h : NodeHandle} : arena.Active h → Chain arena 0 h
  | step {m : Nat} {h r : NodeHandle} {node : Node} : arena.requireNode h = .ok node →
      node.representative = some r → Chain arena m r → Chain arena (m + 1) h

/-- Active nodes have no representative. -/
def Unmerged (arena : Arena) : Prop :=
  ∀ (i : Nat) (node : Node), arena[i]? = some (some node) → node.lifecycle = .active →
    node.representative = none

namespace Chain

variable {arena arena' : Arena} {h : NodeHandle} {m m' : Nat}

theorem present (hc : Chain arena m h) : arena.Present h := by
  cases hc with
  | here ha => exact ha.present
  | step hn _ _ => exact ⟨_, hn⟩

section
variable (hun : Unmerged arena)
include hun

theorem not_active_of_step {node : Node} {r : NodeHandle}
    (hn : arena.requireNode h = .ok node) (hr : node.representative = some r) :
    ¬ arena.Active h := by
  rintro ⟨node', hnode'⟩
  obtain ⟨hn', hact⟩ := requireActive_eq_ok.mp hnode'
  rw [hn] at hn'
  cases hn'
  rw [hun _ node (requireNode_eq_ok.mp hn).1 hact] at hr
  cases hr

theorem unique (hc : Chain arena m h) (hc' : Chain arena m' h) : m = m' := by
  induction hc generalizing m' with
  | here ha =>
    cases hc' with
    | here => rfl
    | step hn hr _ => exact absurd ha (not_active_of_step hun hn hr)
  | step hn hr _ ih =>
    cases hc' with
    | here ha => exact absurd ha (not_active_of_step hun hn hr)
    | step hn' hr' hc' =>
      rw [hn] at hn'
      cases hn'
      rw [hr] at hr'
      cases hr'
      rw [ih hc']

/-- The handles along a chain are distinct: each is a different distance from the end. -/
theorem path (hc : Chain arena m h) :
    ∃ l : List NodeHandle, l.length = m + 1 ∧ l.Nodup ∧ ∀ x ∈ l, ∃ j, j ≤ m ∧ Chain arena j x := by
  induction hc with
  | @here h ha =>
    exact ⟨[h], rfl, nodup_singleton h, forall_mem_singleton.mpr ⟨0, Nat.le_refl 0, .here ha⟩⟩
  | @step m h r node hn hr hc ih =>
    obtain ⟨l, hlen, hnodup, hall⟩ := ih
    have hself : Chain arena (m + 1) h := .step hn hr hc
    refine ⟨h :: l, by rw [length_cons, hlen], nodup_cons.mpr ⟨fun hmem => ?_, hnodup⟩, ?_⟩
    · obtain ⟨j, hj, hcj⟩ := hall h hmem
      have heq := unique hun hself hcj
      omega
    · refine forall_mem_cons.mpr ⟨⟨m + 1, le_rfl, hself⟩, fun x hx => ?_⟩
      obtain ⟨j, hj, hcj⟩ := hall x hx
      exact ⟨j, Nat.le_succ_of_le hj, hcj⟩

theorem lt_length (hc : Chain arena m h) : m < arena.length := by
  obtain ⟨l, hlen, hnodup, hall⟩ := hc.path hun
  have hslots : (l.map (·.slot)).Nodup := by
    refine List.Nodup.map_on (fun x hx y hy hslot => ?_) hnodup
    obtain ⟨_, -, hcx⟩ := hall x hx
    obtain ⟨_, -, hcy⟩ := hall y hy
    obtain ⟨nodeX, hX⟩ := hcx.present
    obtain ⟨nodeY, hY⟩ := hcy.present
    exact (requireNode_slot_inj hX hY hslot).1
  have hsub : l.map (·.slot) ⊆ List.range arena.length := by
    intro slot hslot
    obtain ⟨x, hx, rfl⟩ := mem_map.mp hslot
    obtain ⟨_, -, hcx⟩ := hall x hx
    obtain ⟨node, hnode⟩ := hcx.present
    exact mem_range.mpr (List.getElem?_eq_some_iff.mp (requireNode_eq_ok.mp hnode).1).1
  have hle := (subperm_of_subset hslots hsub).length_le
  rw [length_map, hlen, length_range] at hle
  omega

/-- Following a chain: what has been passed is farther from the end, so nothing repeats. -/
theorem representativeLoop (hslotted : arena.Slotted) :
    ∀ (m fuel : Nat) (node : Node) (seen : List NodeHandle) (deps : List DependencySet), m < fuel →
      arena.requireNode node.handle = .ok node → Chain arena m node.handle →
      (∀ s ∈ seen, ∃ j, m < j ∧ Chain arena j s) →
      ∃ r, arena.representativeLoop fuel node seen deps = .ok r ∧ arena.Active r.1 := by
  intro m
  induction m with
  | zero =>
    intro fuel node seen deps hfuel hnode hc _
    obtain ⟨fuel, rfl⟩ : ∃ f, fuel = f + 1 := ⟨fuel - 1, by omega⟩
    cases hc with
    | here ha =>
      obtain ⟨node', hnode'⟩ := id ha
      obtain ⟨hn, hact⟩ := requireActive_eq_ok.mp hnode'
      rw [hnode] at hn
      cases hn
      have hrep := hun _ node (requireNode_eq_ok.mp hnode).1 hact
      exact ⟨_, representativeLoop_none hrep, ha⟩
  | succ m ih =>
    intro fuel node seen deps hfuel hnode hc hseen
    obtain ⟨fuel, rfl⟩ : ∃ f, fuel = f + 1 := ⟨fuel - 1, by omega⟩
    have hfresh : node.handle ∉ seen := by
      intro hmem
      obtain ⟨j, hj, hcj⟩ := hseen _ hmem
      have heq := unique hun hc hcj
      omega
    cases id hc with
    | @step _ _ r node' hn hr hrest =>
      rw [hnode] at hn
      cases hn
      obtain ⟨next, hnext⟩ := hrest.present
      have hhandle := hslotted.handle_eq hnext
      obtain ⟨result, hresult, hactive⟩ := ih fuel next (node.handle :: seen)
        (node.mergeDependency :: deps) (by omega) (by rw [hhandle]; exact hnext)
        (by rw [hhandle]; exact hrest) fun s hs => by
          rcases mem_cons.mp hs with rfl | hs
          · exact ⟨m + 1, Nat.lt_succ_self m, hc⟩
          · obtain ⟨j, hj, hcj⟩ := hseen s hs
            exact ⟨j, by omega, hcj⟩
      refine ⟨result, ?_, hactive⟩
      rw [Arena.representativeLoop, hr]
      dsimp only
      rw [if_neg hfresh]
      exact bind_eq_ok.mpr ⟨next, hnext, hresult⟩

/-- **`representative` follows a chain to its active end.** -/
theorem representative (hslotted : arena.Slotted) (hc : Chain arena m h) :
    ∃ r, arena.representative h = .ok r ∧ arena.Active r.1 := by
  obtain ⟨node, hnode⟩ := hc.present
  have hhandle := hslotted.handle_eq hnode
  have hlt := hc.lt_length hun
  obtain ⟨r, hr, hactive⟩ := representativeLoop hun hslotted m (arena.length + 1) node [] []
    (by omega) (by rw [hhandle]; exact hnode) (by rw [hhandle]; exact hc)
    fun s hs => absurd hs not_mem_nil
  exact ⟨r, bind_eq_ok.mpr ⟨node, hnode, hr⟩, hactive⟩

end

/-- Chains in a changed arena. Nothing points to what `X` singles out; elsewhere pointers
stay, and active nodes still lead somewhere. -/
theorem transfer {X : NodeHandle → Prop}
    (hx : ∀ (i : Nat) (node : Node) (r : NodeHandle), arena[i]? = some (some node) →
      node.representative = some r → ¬ X r)
    (hactive : ∀ h, arena.Active h → ¬ X h → ∃ m, Chain arena' m h)
    (hstep : ∀ h node r, arena.requireNode h = .ok node → node.representative = some r → ¬ X h →
      ∃ node', arena'.requireNode h = .ok node' ∧ node'.representative = some r)
    (hc : Chain arena m h) (hh : ¬ X h) : ∃ m, Chain arena' m h := by
  induction hc with
  | here ha => exact hactive _ ha hh
  | step hn hr _ ih =>
    obtain ⟨m, hc⟩ := ih (hx _ _ _ (requireNode_eq_ok.mp hn).1 hr)
    obtain ⟨node', hn', hr'⟩ := hstep _ _ _ hn hr hh
    exact ⟨m + 1, .step hn' hr' hc⟩

end Chain

end PyHermit
