import Mathlib.Data.List.Chain
import Mathlib.Data.List.Nodup

namespace Syslib.LinkedPaths

variable {Node : Type*} {next prev newNext newPrev : Node → Node}

/-- Neighbours on the path point at each other. -/
def Linked (next prev : Node → Node) (path : List Node) : Prop :=
  path.IsChain fun near far => next near = far ∧ prev far = near

instance [DecidableEq Node] (next prev : Node → Node) (path : List Node) : Decidable (Linked next prev path) :=
  inferInstanceAs (Decidable (List.IsChain _ _))

theorem linked_split {front back : List Node} {near far : Node} :
    Linked next prev (front ++ near :: far :: back) ↔
      Linked next prev (front ++ [near]) ∧ (next near = far ∧ prev far = near) ∧
        Linked next prev (far :: back) :=
  List.isChain_append_cons_cons

/-- A path does not depend on the successor of its last node or on the predecessor of its first one. -/
theorem Linked.congr {path : List Node} (linked : Linked next prev path)
    (nexts : ∀ node ∈ path.dropLast, newNext node = next node)
    (prevs : ∀ node ∈ path.tail, newPrev node = prev node) : Linked newNext newPrev path := by
  induction path with
  | nil => exact List.IsChain.nil
  | cons near rest ih =>
      cases rest with
      | nil => exact List.IsChain.singleton near
      | cons far rest =>
          obtain ⟨⟨ahead, behind⟩, later⟩ := List.isChain_cons_cons.mp linked
          refine List.isChain_cons_cons.mpr ⟨⟨?_, ?_⟩, ih later ?_ ?_⟩
          · exact (nexts near List.mem_cons_self).trans ahead
          · exact (prevs far List.mem_cons_self).trans behind
          · intro node inside
            exact nexts node (List.mem_cons_of_mem near inside)
          · intro node inside
            exact prevs node (List.mem_of_mem_tail inside)

section Gap

variable {front back : List Node} {near far node : Node}

/-- The sides of a gap keep their links when only the two nodes at the gap change theirs. -/
theorem Linked.sides (left : Linked next prev (front ++ [near])) (right : Linked next prev (far :: back))
    (nodup : (front ++ near :: far :: back).Nodup)
    (nexts : ∀ other ∈ front ++ near :: far :: back, other ≠ near → newNext other = next other)
    (prevs : ∀ other ∈ front ++ near :: far :: back, other ≠ far → newPrev other = prev other) :
    Linked newNext newPrev (front ++ [near]) ∧ Linked newNext newPrev (far :: back) := by
  obtain ⟨-, rest, apart⟩ := List.nodup_append.mp nodup
  obtain ⟨nearFresh, farRest⟩ := List.nodup_cons.mp rest
  obtain ⟨farFresh, -⟩ := List.nodup_cons.mp farRest
  refine ⟨left.congr ?_ ?_, right.congr ?_ ?_⟩
  · intro other inside
    rw [List.dropLast_concat] at inside
    exact nexts other (by simp [inside]) (apart other inside near List.mem_cons_self)
  · intro other inside
    have place := List.mem_of_mem_tail inside
    rw [List.mem_append, List.mem_singleton] at place
    rcases place with before | rfl
    · exact prevs other (by simp [before]) (apart other before far (by simp))
    · exact prevs other (by simp) fun same => nearFresh (same ▸ List.mem_cons_self)
  · intro other inside
    have place := List.dropLast_subset (far :: back) inside
    refine nexts other (by simp [List.mem_cons.mp place]) ?_
    rintro rfl
    exact nearFresh place
  · intro other inside
    refine prevs other (by simp [show other ∈ back from inside]) ?_
    rintro rfl
    exact farFresh inside

/-- A node that points at both sides of a gap, and at which both sides point, fills it. -/
theorem Linked.insert (linked : Linked next prev (front ++ near :: far :: back))
    (nodup : (front ++ near :: far :: back).Nodup)
    (nexts : ∀ other ∈ front ++ near :: far :: back, other ≠ near → newNext other = next other)
    (prevs : ∀ other ∈ front ++ near :: far :: back, other ≠ far → newPrev other = prev other)
    (enters : newNext near = node ∧ newPrev node = near) (leaves : newNext node = far ∧ newPrev far = node) :
    Linked newNext newPrev (front ++ near :: node :: far :: back) := by
  obtain ⟨left, -, right⟩ := linked_split.mp linked
  obtain ⟨left, right⟩ := left.sides right nodup nexts prevs
  exact linked_split.mpr ⟨left, enters, List.isChain_cons_cons.mpr ⟨leaves, right⟩⟩

/-- The neighbours of a node close the gap that it leaves. -/
theorem Linked.remove (linked : Linked next prev (front ++ near :: node :: far :: back))
    (nodup : (front ++ near :: far :: back).Nodup)
    (nexts : ∀ other ∈ front ++ near :: far :: back, other ≠ near → newNext other = next other)
    (prevs : ∀ other ∈ front ++ near :: far :: back, other ≠ far → newPrev other = prev other)
    (closes : newNext near = far ∧ newPrev far = near) :
    Linked newNext newPrev (front ++ near :: far :: back) := by
  obtain ⟨left, -, rest⟩ := linked_split.mp linked
  obtain ⟨-, right⟩ := List.isChain_cons_cons.mp rest
  obtain ⟨left, right⟩ := left.sides right nodup nexts prevs
  exact linked_split.mpr ⟨left, closes, right⟩

end Gap

end Syslib.LinkedPaths
