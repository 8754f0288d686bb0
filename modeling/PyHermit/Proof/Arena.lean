import PyHermit.Store.Kernel

/-!
# Reading the node arena

What a successful read of the arena means, and how reads survive the updates the mutators
make. The arena answers a handle only if the node in its slot carries its generation, so two
handles that resolve to the same slot are equal.
-/

open Std Prog List

namespace PyHermit

namespace Arena

variable {arena arena' : Arena} {h : NodeHandle} {node : Node}

theorem requireNode_eq_ok : arena.requireNode h = .ok node ↔
    arena[h.slot]? = some (some node) ∧ node.handle.generation = h.generation ∧
      node.lifecycle ≠ .retired := by
  unfold requireNode
  split
  · rename_i other hother
    rw [hother]
    split
    · rename_i hbad
      refine ⟨nofun, fun ⟨h1, h2, h3⟩ => ?_⟩
      cases h1
      exact absurd hbad (by simp [h2, h3])
    · rename_i hgood
      rw [not_or, not_not] at hgood
      constructor
      · intro heq
        cases heq
        exact ⟨rfl, hgood⟩
      · rintro ⟨h1, -, -⟩
        cases h1
        rfl
  · rename_i hnone
    exact ⟨nofun, fun ⟨h1, _, _⟩ => absurd h1 (hnone node)⟩

theorem requireActive_eq_ok : arena.requireActive h = .ok node ↔
    arena.requireNode h = .ok node ∧ node.lifecycle = .active := by
  unfold requireActive
  rw [bind_eq_ok]
  constructor
  · rintro ⟨n, hn, hrest⟩
    obtain ⟨_, hact, hret⟩ := bind_eq_ok.mp hrest
    rw [pure_eq_ok] at hret
    subst hret
    exact ⟨hn, ensure_eq_ok.mp hact⟩
  · rintro ⟨hn, hact⟩
    exact ⟨node, hn, bind_eq_ok.mpr ⟨(), ensure_eq_ok.mpr hact, rfl⟩⟩

/-- The handle of an active node. -/
def Active (arena : Arena) (h : NodeHandle) : Prop := ∃ node, arena.requireActive h = .ok node

/-- The handle of a node in any lifecycle. -/
def Present (arena : Arena) (h : NodeHandle) : Prop := ∃ node, arena.requireNode h = .ok node

theorem Active.present (ha : arena.Active h) : arena.Present h := by
  obtain ⟨node, hnode⟩ := ha
  exact ⟨node, (requireActive_eq_ok.mp hnode).1⟩

theorem isOk_requireActive : (arena.requireActive h).isOk = true ↔ arena.Active h := by
  unfold Active
  cases hr : arena.requireActive h with
  | ok node => exact ⟨fun _ => ⟨node, rfl⟩, fun _ => rfl⟩
  | error e => exact ⟨nofun, fun ⟨_, hn⟩ => nomatch hn⟩

variable {r : NodeHandle × DependencySet} {i slot : Nat} {f : Node → Node} {old : Node}

theorem canonicalHandle_eq_ok : arena.canonicalHandle h = .ok r ↔
    arena.representative h = .ok r ∧ arena.Active r.1 := by
  unfold canonicalHandle
  rw [bind_eq_ok]
  constructor
  · rintro ⟨r', hr', hrest⟩
    obtain ⟨node, hact, hret⟩ := bind_eq_ok.mp hrest
    rw [pure_eq_ok] at hret
    subst hret
    exact ⟨hr', node, hact⟩
  · rintro ⟨hr, node, hact⟩
    exact ⟨r, hr, bind_eq_ok.mpr ⟨node, hact, rfl⟩⟩

theorem mem_liveNodes : node ∈ arena.liveNodes ↔ ∃ i : Nat, arena[i]? = some (some node) := by
  unfold liveNodes
  rw [mem_filterMap]
  constructor
  · rintro ⟨o, ho, hid⟩
    obtain ⟨i, hi⟩ := mem_iff_getElem?.mp ho
    exact ⟨i, by rw [hi]; exact congrArg some hid⟩
  · rintro ⟨i, hi⟩
    exact ⟨some node, mem_of_getElem? hi, rfl⟩

/-! ## Well-kept handles -/

/-- Every node sits in the slot its handle names, and is not retired. -/
def Slotted (arena : Arena) : Prop :=
  ∀ (i : Nat) (node : Node), arena[i]? = some (some node) →
    node.handle.slot = i ∧ node.lifecycle ≠ .retired

/-- In a slotted arena the node behind a handle carries that very handle. -/
theorem Slotted.handle_eq (hs : arena.Slotted) (hn : arena.requireNode h = .ok node) :
    node.handle = h := by
  obtain ⟨h1, h2, -⟩ := requireNode_eq_ok.mp hn
  have h3 := (hs h.slot node h1).1
  cases h
  cases hh : node.handle
  simp_all

theorem Slotted.requireNode_self (hs : arena.Slotted) (hi : arena[i]? = some (some node)) :
    arena.requireNode node.handle = .ok node := by
  obtain ⟨hslot, hlife⟩ := hs i node hi
  exact requireNode_eq_ok.mpr ⟨by rw [hslot]; exact hi, rfl, hlife⟩

theorem Slotted.mem_liveNodes (hs : arena.Slotted) :
    node ∈ arena.liveNodes ↔ arena.requireNode node.handle = .ok node := by
  rw [Arena.mem_liveNodes]
  exact ⟨fun ⟨_, hi⟩ => hs.requireNode_self hi, fun hn => ⟨_, (requireNode_eq_ok.mp hn).1⟩⟩

/-! ## Updates -/

theorem getElem?_modify : (arena.modify slot (Option.map f))[i]? =
      if slot = i then arena[i]?.map (Option.map f) else arena[i]? := by
  rw [List.getElem?_modify]
  split <;> simp

/-- Rewriting a node does not show in what the rewriting leaves alone. -/
theorem map_liveNodes_modify {β : Type} {g : Node → β} (h : ∀ x, g (f x) = g x) :
    (liveNodes (arena.modify slot (Option.map f))).map g = arena.liveNodes.map g := by
  have hmap : (arena.modify slot (Option.map f)).map (Option.map g) = arena.map (Option.map g) := by
    refine ext_getElem? fun i => ?_
    rw [getElem?_map, getElem?_map, getElem?_modify]
    split
    · cases arena[i]? with
      | none => rfl
      | some o => cases o <;> simp [h]
    · rfl
  have hlive : ∀ a : Arena, a.liveNodes.map g = (a.map (Option.map g)).filterMap id := fun a => by
    simp [liveNodes, map_filterMap, filterMap_map]
  rw [hlive, hlive, hmap]

theorem modify_some (hi : (arena.modify slot (Option.map f))[i]? = some (some node)) :
    ∃ old, arena[i]? = some (some old) ∧ node = if slot = i then f old else old := by
  rw [getElem?_modify] at hi
  by_cases hs : slot = i
  · rw [if_pos hs] at hi
    obtain ⟨o, ho, hmap⟩ := Option.map_eq_some_iff.mp hi
    obtain ⟨old, rfl, rfl⟩ := Option.map_eq_some_iff.mp hmap
    exact ⟨old, ho, by rw [if_pos hs]⟩
  · rw [if_neg hs] at hi
    exact ⟨node, hi, by rw [if_neg hs]⟩

theorem some_modify (hi : arena[i]? = some (some old)) :
    (arena.modify slot (Option.map f))[i]? = some (some (if slot = i then f old else old)) := by
  rw [getElem?_modify, hi]
  split <;> rfl

theorem requireNode_modify_ne (hslot : slot ≠ h.slot) :
    Arena.requireNode (arena.modify slot (Option.map f)) h = arena.requireNode h := by
  unfold requireNode
  rw [getElem?_modify, if_neg hslot]

theorem requireNode_modify_self (hn : arena.requireNode h = .ok old)
    (hf : (f old).handle = old.handle) (hr : (f old).lifecycle ≠ .retired) :
    Arena.requireNode (arena.modify h.slot (Option.map f)) h = .ok (f old) := by
  obtain ⟨h1, h2, -⟩ := requireNode_eq_ok.mp hn
  refine requireNode_eq_ok.mpr ⟨?_, by rw [hf]; exact h2, hr⟩
  rw [some_modify h1, if_pos rfl]

/-- Two handles that resolve in one slot are the same handle. -/
theorem requireNode_slot_inj {h' : NodeHandle} {node' : Node} (hn : arena.requireNode h = .ok node)
    (hn' : arena.requireNode h' = .ok node') (hslot : h.slot = h'.slot) :
    h = h' ∧ node = node' := by
  obtain ⟨h1, h2, -⟩ := requireNode_eq_ok.mp hn
  obtain ⟨h1', h2', -⟩ := requireNode_eq_ok.mp hn'
  rw [hslot, h1'] at h1
  cases h1
  refine ⟨?_, rfl⟩
  cases h
  cases h'
  simp_all

theorem requireNode_set_none (hslot : h.slot ≠ slot) :
    Arena.requireNode (arena.set slot none) h = arena.requireNode h := by
  unfold requireNode
  rw [getElem?_set_ne hslot.symm]

theorem set_none_cases (hi : (arena.set slot none)[i]? = some (some node)) :
    arena[i]? = some (some node) ∧ i ≠ slot := by
  rw [getElem?_set] at hi
  split at hi
  · split at hi <;> cases hi
  · rename_i hne
    exact ⟨hi, fun heq => hne heq.symm⟩

theorem requireNode_left {x : NodeHandle} {gone : Node} (hx : arena.requireNode x = .ok gone)
    (hne : h ≠ x) (hn : arena.requireNode h = .ok node) :
    Arena.requireNode (arena.set x.slot none) h = .ok node := by
  rw [requireNode_set_none fun heq => hne (requireNode_slot_inj hn hx heq).1]
  exact hn

theorem modify_cases (hslot : arena[slot]? = some (some old))
    (hi : (arena.modify slot (Option.map f))[i]? = some (some node)) :
    (i = slot ∧ node = f old) ∨ (i ≠ slot ∧ arena[i]? = some (some node)) := by
  obtain ⟨old', hi', rfl⟩ := modify_some hi
  by_cases heq : slot = i
  · subst heq
    rw [hslot] at hi'
    cases hi'
    exact .inl ⟨rfl, if_pos rfl⟩
  · rw [if_neg heq]
    exact .inr ⟨fun h => heq h.symm, hi'⟩

theorem requireNode_rewritten {x : NodeHandle}
    (hx : arena.requireNode x = .ok old) (hne : h ≠ x) (hn : arena.requireNode h = .ok node) :
    Arena.requireNode (arena.modify x.slot (Option.map f)) h = .ok node := by
  rw [requireNode_modify_ne fun heq => hne (requireNode_slot_inj hn hx heq.symm).1]
  exact hn

theorem requireNode_set_some {new : Node} (hempty : arena[slot]? = some none)
    (hn : arena.requireNode h = .ok node) :
    Arena.requireNode (arena.set slot (some new)) h = .ok node := by
  have hne : slot ≠ h.slot := by
    intro heq
    have h1 := (requireNode_eq_ok.mp hn).1
    rw [← heq, hempty] at h1
    cases h1
  unfold requireNode
  rw [getElem?_set_ne hne]
  exact hn

theorem getElem?_pad {m : Nat} :
    (arena ++ List.replicate m none)[i]? = some (some node) ↔ arena[i]? = some (some node) := by
  rw [getElem?_append]
  split
  · rfl
  · rename_i hlen
    constructor
    · intro h1
      have h2 := mem_of_getElem? h1
      rw [mem_replicate] at h2
      exact absurd h2.2 nofun
    · intro h1
      exact absurd (lt_of_getElem? h1) hlen

theorem requireNode_pad {m : Nat} :
    Arena.requireNode (arena ++ List.replicate m none) h = .ok node ↔
      arena.requireNode h = .ok node := by
  rw [requireNode_eq_ok, requireNode_eq_ok, getElem?_pad]

theorem Active.of_requireNode (ha : arena.Active h)
    (hstep : ∀ node, arena.requireNode h = .ok node → node.lifecycle = .active →
      ∃ node', arena'.requireNode h = .ok node' ∧ node'.lifecycle = .active) : arena'.Active h := by
  obtain ⟨node, hnode⟩ := ha
  obtain ⟨h1, h2⟩ := requireActive_eq_ok.mp hnode
  obtain ⟨node', h3, h4⟩ := hstep node h1 h2
  exact ⟨node', requireActive_eq_ok.mpr ⟨h3, h4⟩⟩

/-! ## The representative chain -/

theorem representativeLoop_none {fuel : Nat} {seen : List NodeHandle} {deps : List DependencySet}
    (hrep : node.representative = none) :
    arena.representativeLoop (fuel + 1) node seen deps = .ok (node.handle, .union deps) := by
  rw [representativeLoop, hrep]

/-- A node nobody merged away is its own representative, along an empty path. -/
theorem representative_self (hn : arena.requireNode h = .ok node)
    (hrep : node.representative = none) : arena.representative h = .ok (node.handle, .empty) := by
  unfold representative
  rw [bind_eq_ok]
  exact ⟨node, hn, representativeLoop_none hrep⟩

variable {n : Nat}
  (hdep : ∀ (i : Nat) (node : Node), arena[i]? = some (some node) → node.mergeDependency.Below n)
include hdep

/-- Whatever holds of every merge dependency in the arena holds along the path. -/
theorem representativeLoop_below :
    ∀ (fuel : Nat) (node : Node) (seen : List NodeHandle) (deps : List DependencySet)
      (r : NodeHandle × DependencySet),
      node.mergeDependency.Below n → (∀ d ∈ deps, d.Below n) →
      arena.representativeLoop fuel node seen deps = .ok r → r.2.Below n := by
  intro fuel
  induction fuel with
  | zero => intro node seen deps r _ _ hr; cases hr
  | succ fuel ih =>
    intro node seen deps r hnode hdeps hr
    rw [representativeLoop] at hr
    split at hr
    · cases hr
      exact DependencySet.below_union hdeps
    · split at hr
      · cases hr
      · obtain ⟨next, hnext, hr⟩ := bind_eq_ok.mp hr
        exact ih next _ _ r (hdep _ next (requireNode_eq_ok.mp hnext).1)
          (forall_mem_cons.mpr ⟨hnode, hdeps⟩) hr

theorem representative_below (hr : arena.representative h = .ok r) : r.2.Below n := by
  obtain ⟨node, hnode, hloop⟩ := bind_eq_ok.mp hr
  exact representativeLoop_below hdep _ node [] [] r (hdep _ node (requireNode_eq_ok.mp hnode).1)
    (fun d hd => absurd hd not_mem_nil) hloop

end Arena

end PyHermit
