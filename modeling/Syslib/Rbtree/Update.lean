import Syslib.Rbtree.Represent

namespace Syslib.Rbtree

open ColoredTree

def Cell.setChild (cell : Cell) (side : Side) (child : Nat) : Cell :=
  { cell with child := Function.update cell.child side child }

namespace RbTree

theorem child_eq (t : RbTree) (side : Side) (node : Nat) :
    t.child side node = if node = 0 then 0 else (t.cell node).child side := rfl

theorem getParent_eq (t : RbTree) (node : Nat) :
    t.getParent node = if node = 0 then 0 else (t.cell node).parent := rfl

theorem isRed_eq (t : RbTree) (node : Nat) :
    t.isRed node = decide (node ≠ 0 ∧ (t.cell node).isblack = 0) := rfl

theorem isBlack_eq (t : RbTree) (node : Nat) : t.isBlack node = !t.isRed node := by
  simp only [isBlack, isRed, Bool.decide_or, Bool.decide_and, Bool.not_and, ← decide_not]
  simp

theorem cell_write (t : RbTree) (pointer : Nat) (node : RbNode) :
    (t.write pointer node).cell = Function.update t.cell pointer node.cell := by
  funext a
  by_cases equal : a = pointer
  · subst equal
    simp [cell, write]
  · simp [cell, write, equal]

theorem cell_setChild (t : RbTree) (side : Side) (node child : Nat) :
    (t.setChild side node child).cell =
      Function.update t.cell node ((t.cell node).setChild side child) := by
  rw [setChild, cell_write]
  congr 1
  cases side <;> simp only [RbNode.setChild, RbNode.cell, cell, Cell.setChild, RbNode.isblack] <;>
    congr 1 <;> funext side <;> cases side <;> simp [RbNode.child]

/-- An aligned parent leaves room for the colour bits. -/
theorem cell_setParent (t : RbTree) (node : Nat) {p : Nat} (aligned : p % 4 = 0) :
    (t.setParent node p).cell = Function.update t.cell node { t.cell node with parent := p } := by
  have word : p ||| (t.heap node).p % 4 = p + (t.heap node).p % 4 := by
    obtain ⟨quarter, rfl⟩ := Nat.dvd_of_mod_eq_zero aligned
    have small : (t.heap node).p % 4 < 2 ^ 2 := Nat.mod_lt _ (by decide)
    exact (Nat.two_pow_add_eq_or_of_lt small quarter).symm
  rw [setParent, cell_write]
  congr 1
  simp only [RbNode.cell, cell, RbNode.isblack, word, Cell.mk.injEq]
  refine ⟨rfl, ?_, ?_⟩ <;> omega

theorem cell_setIsblack (t : RbTree) (node : Nat) {value : Nat} (small : value < 4) :
    (t.write node ((t.heap node).setIsblack value)).cell =
      Function.update t.cell node { t.cell node with isblack := value } := by
  rw [cell_write]
  congr 1
  simp only [RbNode.cell, cell, RbNode.isblack, RbNode.setIsblack, Cell.mk.injEq]
  refine ⟨rfl, ?_, ?_⟩ <;> omega

end RbTree

/-- The updates of the links and colours keep the keys and the tree record. -/
structure Same (t updated : RbTree) : Prop where
  key : ∀ a, (updated.heap a).key = (t.heap a).key
  size : updated.size = t.size
  cfunc : updated.cfunc = t.cfunc

namespace Same

variable {t updated final : RbTree}

theorem refl (t : RbTree) : Same t t := ⟨fun _ => rfl, rfl, rfl⟩

theorem trans (first : Same t updated) (second : Same updated final) : Same t final :=
  ⟨fun a => (second.key a).trans (first.key a), second.size.trans first.size,
    second.cfunc.trans first.cfunc⟩

theorem write (pointer : Nat) {node : RbNode} (same : Same t updated)
    (key : node.key = (updated.heap pointer).key) : Same t (updated.write pointer node) := by
  refine ⟨?_, same.size, same.cfunc⟩
  intro a
  by_cases equal : a = pointer
  · subst equal
    simp [RbTree.write, key, same.key]
  · simp [RbTree.write, equal, same.key]

theorem setChild (same : Same t updated) (side : Side) (node child : Nat) :
    Same t (updated.setChild side node child) :=
  same.write node (by cases side <;> rfl)

theorem setParent (same : Same t updated) (node p : Nat) : Same t (updated.setParent node p) :=
  same.write node rfl

theorem setBlack (same : Same t updated) (node : Nat) : Same t (updated.setBlack node) := by
  unfold RbTree.setBlack
  split
  · exact same
  · exact same.write node rfl

theorem setRed (same : Same t updated) (node : Nat) : Same t (updated.setRed node) := by
  unfold RbTree.setRed
  split
  · exact same
  · exact same.write node rfl

theorem cpColor (same : Same t updated) (target source : Nat) :
    Same t (updated.cpColor target source) := by
  unfold RbTree.cpColor
  split
  · exact same
  · exact same.write target rfl

theorem setRoot (same : Same t updated) (root : Nat) : Same t { updated with root := root } :=
  ⟨same.key, same.size, same.cfunc⟩

theorem setParentIf (same : Same t updated) (node p : Nat) :
    Same t (setParentIf updated node p) := by
  unfold Rbtree.setParentIf
  split
  · exact same
  · exact same.setParent node p

theorem relinkParent (same : Same t updated) (nodeP node child : Nat) :
    Same t (relinkParent updated nodeP node child) := by
  unfold Rbtree.relinkParent
  split
  · exact same
  · split
    · exact same.setChild _ _ _
    · exact same.setChild _ _ _

theorem setRootIf (same : Same t updated) (nodeP root : Nat) :
    Same t (setRootIf updated nodeP root) := by
  unfold Rbtree.setRootIf
  split
  · exact same.setRoot root
  · exact same

theorem rotate (same : Same t updated) (side : Side) (node : Nat) :
    Same t (rotate side updated node) := by
  unfold Rbtree.rotate
  split
  · exact same
  · split
    · exact same
    · apply setRootIf
      apply setChild
      apply setChild
      apply setParentIf
      apply setParent
      apply relinkParent
      exact same.setParent _ _

end Same

theorem cell_setParentIf (t : RbTree) (node : Nat) {p : Nat} (aligned : p % 4 = 0) :
    (setParentIf t node p).cell =
      if node = 0 then t.cell else Function.update t.cell node { t.cell node with parent := p } := by
  unfold setParentIf
  split
  · rfl
  · exact t.cell_setParent node aligned

@[simp] theorem cell_setRootIf (t : RbTree) (nodeP root : Nat) :
    (setRootIf t nodeP root).cell = t.cell := by
  unfold setRootIf
  split <;> rfl

/-- The parent word that holds the node is redirected. -/
theorem cell_relinkParent (t : RbTree) {nodeP node : Nat} (child : Nat) {side : Side}
    (held : nodeP ≠ 0 → (t.cell nodeP).child side = node)
    (apart : nodeP ≠ 0 → (t.cell nodeP).child side.other ≠ node) :
    (relinkParent t nodeP node child).cell =
      if nodeP = 0 then t.cell
      else Function.update t.cell nodeP ((t.cell nodeP).setChild side child) := by
  unfold relinkParent
  split
  · rfl
  · rename_i inner
    rw [t.child_eq, if_neg inner]
    cases side
    · rw [if_pos (held inner).symm, t.cell_setChild]
    · rw [if_neg (fun equal => apart inner equal.symm), t.cell_setChild]

/-- The cells after a rotation differ at the two rotated nodes, the moved subtree and the parent. -/
theorem cell_rotate {t : RbTree} {side hole : Side} {node rc moved top : Nat}
    (inner : node ≠ 0 ∧ rc ≠ 0) (aligned : node % 4 = 0 ∧ rc % 4 = 0 ∧ top % 4 = 0)
    (lift : (t.cell node).child side.other = rc) (above : (t.cell node).parent = top)
    (middle : (t.cell rc).child side = moved)
    (distinct : node ≠ rc ∧ node ≠ top ∧ rc ≠ top)
    (apart : moved ≠ 0 → moved ≠ node ∧ moved ≠ rc ∧ moved ≠ top)
    (held : top ≠ 0 → (t.cell top).child hole = node ∧ (t.cell top).child hole.other ≠ node) :
    (rotate side t node).root = (if top = 0 then rc else t.root) ∧
    (rotate side t node).cell node =
      { (t.cell node).setChild side.other moved with parent := rc } ∧
    (rotate side t node).cell rc = { (t.cell rc).setChild side node with parent := top } ∧
    (moved ≠ 0 → (rotate side t node).cell moved = { t.cell moved with parent := node }) ∧
    (top ≠ 0 → (rotate side t node).cell top = (t.cell top).setChild hole rc) ∧
    ∀ a, a ≠ node → a ≠ rc → a ≠ moved → a ≠ top → (rotate side t node).cell a = t.cell a := by
  have start : rotate side t node = rotateLift side t node rc top := by
    unfold rotate
    rw [t.child_eq, if_neg inner.1, if_neg inner.1, lift, if_neg inner.2, t.getParent_eq,
      if_neg inner.1, above]
  rw [start]
  unfold rotateLift
  extract_lets t1 t2 t3 t4 t5 t6
  have c1 : t1.cell = Function.update t.cell rc { t.cell rc with parent := top } :=
    t.cell_setParent rc aligned.2.2
  have c2 : t2.cell = if top = 0 then t1.cell
      else Function.update t1.cell top ((t1.cell top).setChild hole rc) := by
    apply cell_relinkParent
    · intro real
      rw [c1, Function.update_of_ne distinct.2.2.symm]
      exact (held real).1
    · intro real
      rw [c1, Function.update_of_ne distinct.2.2.symm]
      exact (held real).2
  have c3 : t3.cell = Function.update t2.cell node { t2.cell node with parent := rc } :=
    t2.cell_setParent node aligned.2.1
  have child3 : t3.child side rc = moved := by
    rw [t3.child_eq, if_neg inner.2, c3, Function.update_of_ne distinct.1.symm, c2]
    split <;> simp [c1, distinct.2.2, middle]
  have c4 : t4.cell = if moved = 0 then t3.cell
      else Function.update t3.cell moved { t3.cell moved with parent := node } := by
    rw [← child3]
    exact cell_setParentIf t3 _ aligned.1
  have child4 : t4.child side rc = moved := by
    rw [t4.child_eq, if_neg inner.2, c4]
    rw [t3.child_eq, if_neg inner.2] at child3
    split
    · exact child3
    · rename_i real
      rw [Function.update_of_ne (apart real).2.1.symm]
      exact child3
  have c5 : t5.cell = Function.update t4.cell node ((t4.cell node).setChild side.other moved) := by
    rw [← child4]
    exact t4.cell_setChild _ _ _
  have c6 : t6.cell = Function.update t5.cell rc ((t5.cell rc).setChild side node) :=
    t5.cell_setChild _ _ _
  obtain ⟨nodeRc, nodeTop, rcTop⟩ := distinct
  refine ⟨?_, ?_, ?_, ?_, ?_, ?_⟩
  · have root : t6.root = t.root := by
      simp only [t6, t5, t4, t3, t2, t1, RbTree.setChild, RbTree.setParent, RbTree.write,
        setParentIf, relinkParent]
      split_ifs <;> rfl
    unfold setRootIf
    split
    · rfl
    · exact root
  · rw [cell_setRootIf, c6, Function.update_of_ne nodeRc, c5, Function.update_self]
    have same4 : t4.cell node = t3.cell node := by
      rw [c4]
      split
      · rfl
      · rename_i real
        exact Function.update_of_ne (apart real).1.symm _ _
    have same2 : t2.cell node = t.cell node := by
      rw [c2]
      split <;> simp [c1, nodeRc, nodeTop]
    rw [same4, c3, Function.update_self, same2]
    rfl
  · rw [cell_setRootIf, c6, Function.update_self, c5, Function.update_of_ne nodeRc.symm]
    have same4 : t4.cell rc = t3.cell rc := by
      rw [c4]
      split
      · rfl
      · rename_i real
        exact Function.update_of_ne (apart real).2.1.symm _ _
    have same2 : t2.cell rc = t1.cell rc := by
      rw [c2]
      split <;> simp [rcTop]
    rw [same4, c3, Function.update_of_ne nodeRc.symm, same2, c1, Function.update_self]
    rfl
  · intro real
    obtain ⟨movedNode, movedRc, movedTop⟩ := apart real
    have same2 : t2.cell moved = t.cell moved := by
      rw [c2]
      split <;> simp [c1, movedRc, movedTop]
    rw [cell_setRootIf, c6, Function.update_of_ne movedRc, c5, Function.update_of_ne movedNode, c4,
      if_neg real, Function.update_self, c3, Function.update_of_ne movedNode, same2]
  · intro real
    have same4 : t4.cell top = t3.cell top := by
      rw [c4]
      split
      · rfl
      · rename_i inner
        exact Function.update_of_ne (apart inner).2.2.symm _ _
    rw [cell_setRootIf, c6, Function.update_of_ne rcTop.symm, c5, Function.update_of_ne nodeTop.symm,
      same4, c3, Function.update_of_ne nodeTop.symm, c2, if_neg real, Function.update_self, c1,
      Function.update_of_ne rcTop.symm]
  · intro a notNode notRc notMoved notTop
    have same4 : t4.cell a = t3.cell a := by
      rw [c4]
      split
      · rfl
      · exact Function.update_of_ne notMoved _ _
    have same2 : t2.cell a = t.cell a := by
      rw [c2]
      split <;> simp [c1, notRc, notTop]
    rw [cell_setRootIf, c6, Function.update_of_ne notRc, c5, Function.update_of_ne notNode, same4, c3,
      Function.update_of_ne notNode, same2]

end Syslib.Rbtree
