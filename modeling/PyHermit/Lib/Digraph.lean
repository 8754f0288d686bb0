import Mathlib.Data.List.Basic
import Mathlib.Logic.Relation

/-!
# Strong components by two searches

The relations behind Kosaraju's algorithm, without its stacks. `Finishing` holds between the
steps of the first search, with the open points (the stack, top first) beside the finished
ones. When nothing is open any more each finished point is `Settled`: some point of its own
component was finished after everything it reaches. So in the second search, from the last
finished point on, what still leads to the next point is exactly its component
(`linked_of_leads`).
-/

namespace Digraph

open Relation List

variable {ι : Type} {step : ι → ι → Prop} {a b c : ι}

/-- Each reaches the other. -/
def Linked (step : ι → ι → Prop) (a b : ι) : Prop := ReflTransGen step a b ∧ ReflTransGen step b a

theorem Linked.refl (a : ι) : Linked step a a := ⟨.refl, .refl⟩

theorem Linked.symm (h : Linked step a b) : Linked step b a := ⟨h.2, h.1⟩

theorem Linked.trans (h : Linked step a b) (h' : Linked step b c) : Linked step a c :=
  ⟨h.1.trans h'.1, h'.2.trans h.2⟩

/-- What is closed under steps holds everything it reaches. -/
theorem holds_of_reaches (found : ι → Prop) (hclosed : ∀ x y, found x → step x y → found y)
    (ha : found a) (h : ReflTransGen step a b) : found b := by
  induction h with
  | refl => exact ha
  | tail _ hstep ih => exact hclosed _ _ ih hstep

/-! ## The first search -/

/-- A point of the component of `x` was finished after all that `x` reaches. -/
def Settled (step : ι → ι → Prop) (finished : List ι) (x : ι) : Prop :=
  ∃ before z after, finished = before ++ z :: after ∧ Linked step x z ∧
    ∀ y, ReflTransGen step x y → y ∈ before ∨ y = z

theorem Settled.append {finished : List ι} {x : ι} (h : Settled step finished x) (more : List ι) :
    Settled step (finished ++ more) x := by
  obtain ⟨before, z, after, rfl, hz, hlast⟩ := h
  exact ⟨before, z, after ++ more, by simp, hz, hlast⟩

theorem Settled.linked {finished : List ι} {x y : ι} (h : Settled step finished x)
    (hxy : Linked step x y) : Settled step finished y := by
  obtain ⟨before, z, after, hfinished, hz, hlast⟩ := h
  exact ⟨before, z, after, hfinished, hxy.symm.trans hz, fun w hw => hlast w (hxy.1.trans hw)⟩

/-- Between the steps of the first search: `opened` is the stack, top first. -/
structure Finishing (step : ι → ι → Prop) (opened finished : List ι) : Prop where
  nodup : (opened ++ finished).Nodup
  /-- A finished point leads to visited points only. -/
  visited : ∀ x ∈ finished, ∀ y, step x y → y ∈ opened ∨ y ∈ finished
  /-- The stack is a path. -/
  path : opened.Pairwise fun upper lower => ReflTransGen step lower upper
  /-- A finished point is settled or belongs to the component of an open one. -/
  settled : ∀ x ∈ finished, Settled step finished x ∨ ∃ y ∈ opened, Linked step x y

namespace Finishing

variable {opened finished : List ι}

theorem nil : Finishing step [] [] :=
  ⟨nodup_nil, nofun, .nil, nofun⟩

/-- Opening a point not visited before, from the top of the stack or with an empty stack. -/
theorem push (h : Finishing step opened finished) (hopened : a ∉ opened) (hfinished : a ∉ finished)
    (htop : ∀ b, opened.head? = some b → step b a) : Finishing step (a :: opened) finished := by
  refine ⟨?_, ?_, ?_, ?_⟩
  · rw [cons_append, nodup_cons, mem_append]
    exact ⟨fun hmem => hmem.elim hopened hfinished, h.nodup⟩
  · intro x hx y hxy
    exact (h.visited x hx y hxy).imp_left (mem_cons_of_mem a)
  · refine pairwise_cons.mpr ⟨?_, h.path⟩
    intro lower hlower
    cases hop : opened with
    | nil =>
      rw [hop] at hlower
      exact absurd hlower not_mem_nil
    | cons b rest =>
      have hstep : step b a := htop b (by rw [hop]; rfl)
      rw [hop] at hlower
      rcases mem_cons.mp hlower with rfl | hlower
      · exact .single hstep
      · have hpath := h.path
        rw [hop] at hpath
        exact ((pairwise_cons.mp hpath).1 lower hlower).tail hstep
  · intro x hx
    rcases h.settled x hx with hx | ⟨y, hy, hxy⟩
    · exact .inl hx
    · exact .inr ⟨y, mem_cons_of_mem a hy, hxy⟩

/-- Finishing the top of the stack once all its steps lead to visited points. -/
theorem pop (h : Finishing step (a :: opened) finished)
    (hvisited : ∀ y, step a y → y ∈ a :: opened ∨ y ∈ finished) :
    Finishing step opened (finished ++ [a]) := by
  have hstays : ∀ y, y ∈ a :: opened ∨ y ∈ finished → y ∈ opened ∨ y ∈ finished ++ [a] := by
    intro y hy
    rcases hy with hy | hy
    · rcases mem_cons.mp hy with rfl | hy
      · exact .inr (mem_append_right _ mem_cons_self)
      · exact .inl hy
    · exact .inr (mem_append_left _ hy)
  have hsteps : ∀ x ∈ finished ++ [a], ∀ y, step x y → y ∈ opened ∨ y ∈ finished ++ [a] := by
    intro x hx y hxy
    rcases mem_append.mp hx with hx | hx
    · exact hstays y (h.visited x hx y hxy)
    · rw [mem_singleton] at hx
      rw [hx] at hxy
      exact hstays y (hvisited y hxy)
  -- either `a` still reaches an open point, which then is of its component, or it is settled
  have htop : Settled step (finished ++ [a]) a ∨ ∃ y ∈ opened, Linked step a y := by
    by_cases hreach : ∃ y ∈ opened, ReflTransGen step a y
    · obtain ⟨y, hy, hay⟩ := hreach
      exact .inr ⟨y, hy, hay, (pairwise_cons.mp h.path).1 y hy⟩
    · refine .inl ⟨finished, a, [], rfl, Linked.refl a, ?_⟩
      intro y hay
      have hmem : ReflTransGen step a y ∧ y ∈ finished ++ [a] := by
        refine holds_of_reaches (fun x => ReflTransGen step a x ∧ x ∈ finished ++ [a]) ?_
          ⟨.refl, mem_append_right _ mem_cons_self⟩ hay
        intro x z hx hxz
        refine ⟨hx.1.tail hxz, ?_⟩
        rcases hsteps x hx.2 z hxz with hz | hz
        · exact absurd ⟨z, hz, hx.1.tail hxz⟩ hreach
        · exact hz
      rcases mem_append.mp hmem.2 with hy | hy
      · exact .inl hy
      · exact .inr (mem_singleton.mp hy)
  refine ⟨?_, hsteps, (pairwise_cons.mp h.path).2, ?_⟩
  · have hperm : (opened ++ (finished ++ [a])).Perm (a :: opened ++ finished) := by
      rw [← append_assoc]
      exact perm_append_singleton a (opened ++ finished)
    exact hperm.nodup_iff.mpr h.nodup
  · intro x hx
    rcases mem_append.mp hx with hx | hx
    · rcases h.settled x hx with hx | ⟨y, hy, hxy⟩
      · exact .inl (hx.append [a])
      · rcases mem_cons.mp hy with rfl | hy
        · rcases htop with htop | ⟨z, hz, hyz⟩
          · exact .inl (htop.linked hxy.symm)
          · exact .inr ⟨z, hz, hxy.trans hyz⟩
        · exact .inr ⟨y, hy, hxy⟩
    · rw [mem_singleton] at hx
      rw [hx]
      exact htop

/-- With nothing open, every finished point is settled. -/
theorem all_settled (h : Finishing step [] finished) : ∀ x ∈ finished, Settled step finished x := by
  intro x hx
  rcases h.settled x hx with hx | ⟨y, hy, -⟩
  · exact hx
  · exact absurd hy not_mem_nil

end Finishing

/-! ## The second search -/

/-- Going through the finished points from the last one on: a point outside the components
`assigned` so far that leads to the next point `a` is of the component of `a`. -/
theorem linked_of_leads {todo done : List ι} {assigned : ι → Prop}
    (hnodup : (todo ++ a :: done).Nodup) (hsettled : Settled step (todo ++ a :: done) b)
    (hdone : ∀ x ∈ done, assigned x) (hassigned : ∀ x y, assigned x → Linked step x y → assigned y)
    (hb : ¬ assigned b) (hleads : ReflTransGen step b a) : Linked step b a := by
  obtain ⟨before, z, after, hsplit, hz, hlast⟩ := hsettled
  rcases hlast a hleads with hbefore | rfl
  · -- the point finished last would have been assigned already, and `b` with it
    obtain ⟨left, right, hparts⟩ := append_of_mem hbefore
    rw [hparts, append_assoc, cons_append] at hsplit
    rw [hsplit] at hnodup
    have hleft : a ∉ left ∧ a ∉ right ++ z :: after := by
      have hfront : (a :: (left ++ (right ++ z :: after))).Nodup := perm_middle.nodup_iff.mp hnodup
      rw [nodup_cons, mem_append, not_or] at hfront
      exact hfront.1
    have hsame := (append_cons_inj_of_notMem hleft.1 hleft.2).mp hsplit.symm
    have hzdone : z ∈ done := by
      rw [← hsame.2.2]
      exact mem_append_right _ mem_cons_self
    exact absurd (hassigned z b (hdone z hzdone) hz.symm) hb
  · exact hz

end Digraph
