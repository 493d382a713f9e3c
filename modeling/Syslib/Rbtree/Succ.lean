import Syslib.Rbtree.Remove

namespace Syslib.Rbtree

open ColoredTree

variable {t : RbTree} {path : TreePath Nat} {tree : ColorTree Nat}

/-- The walk upwards stops where it leaves a left subtree. -/
theorem rbSuccUp_linked {fuel : Nat} (linked : Linked t (TreePath.plug path tree)) (inner : tree ≠ .leaf)
    (enough : path.length < fuel) :
    rbSuccUp fuel t (ptr tree) (t.getParent (ptr tree)) = some ((TreePath.after path).head?.getD 0) := by
  induction path generalizing tree fuel with
  | nil =>
      obtain ⟨less, rfl⟩ := Nat.exists_eq_add_one_of_ne_zero (Nat.ne_of_gt enough)
      rw [linked.getParent_ptr inner]
      rfl
  | cons frame rest ih =>
      obtain ⟨less, rfl⟩ := Nat.exists_eq_add_one_of_ne_zero (show fuel ≠ 0 by omega)
      have real : frame.root ≠ 0 :=
        (linked.aligned_path (TreePath.mem_around_cons.mpr (Or.inl rfl))).1
      have turn := linked.child_top inner .right
      have above : Linked t (TreePath.plug rest (frame.fill tree)) := linked
      rw [linked.getParent_ptr inner, TreePath.top, rbSuccUp]
      cases here : frame.side with
      | left =>
          rw [if_neg (by simp [turn, here])]
          simp [TreePath.after, Frame.after, here]
      | right =>
          rw [if_pos ⟨real, turn.mpr here.symm⟩]
          have root : ptr (frame.fill tree) = frame.root := by simp [Frame.fill, here, ColorTree.join, ptr]
          have up := ih above (by simp [Frame.fill, here]) (by simpa using enough)
          rw [root] at up
          simpa [TreePath.after, Frame.after, here] using up

/-- `rb_succ` finds the next node in key order, or null after the last one. -/
theorem rbSucc_linked {x fuel : Nat} {front back : List Nat} (linked : Linked t tree)
    (shape : tree.nodes = front ++ x :: back) (enough : tree.nodes.length < fuel) :
    rbSucc fuel t x = some (back.head?.getD 0) := by
  obtain ⟨path, left, black, right, rfl⟩ := @TreePath.exists_focus _ tree x (by simp [shape])
  have nodup := linked.nodup
  have focus : (TreePath.plug path (.node left x black right)).nodes =
      (TreePath.before path ++ left.nodes) ++ x :: (right.nodes ++ TreePath.after path) := by
    simp [TreePath.nodes_plug]
  have once := (List.nodup_middle.mp (shape ▸ nodup)).notMem
  rw [List.mem_append, not_or] at once
  have single := (List.nodup_middle.mp (focus ▸ nodup)).notMem
  rw [List.mem_append, not_or] at single
  obtain ⟨-, -, rfl⟩ := (List.append_cons_inj_of_notMem once.1 once.2).mp (shape.symm.trans focus)
  have child : t.child .right x = ptr right := @Linked.child_far t path .left _ _ _ _ linked
  have bound := TreePath.length_plug path (.node left x black right)
  simp only [ColorTree.nodes_node, List.length_append, List.length_cons] at bound
  rw [rbSucc, child]
  by_cases inner : right = .leaf
  · subst inner
    have up := rbSuccUp_linked linked (by simp) (by omega : path.length < fuel)
    rw [if_neg (by simp [ptr])]
    simpa [ptr] using up
  · have real : ptr right ≠ 0 := (linked.aligned_focus (by simp [ptr_mem inner])).1
    obtain ⟨low, first, color, last, run, rfl, before⟩ := succ_linked linked inner
      (by omega : right.nodes.length < fuel)
    rw [if_pos real]
    simpa [TreePath.nodes_plug, before] using run

section Record

variable {root : Nat} {size : Int}

theorem succLoop_record (fuel p subroot : Nat) :
    succLoop fuel { t with root, size } p subroot = succLoop fuel t p subroot := by
  induction fuel generalizing p subroot with
  | zero => rfl
  | succ fuel ih =>
      rw [succLoop, succLoop, ih]
      rfl

theorem rbSuccUp_record (fuel x y : Nat) :
    rbSuccUp fuel { t with root, size } x y = rbSuccUp fuel t x y := by
  induction fuel generalizing x y with
  | zero => rfl
  | succ fuel ih =>
      rw [rbSuccUp, rbSuccUp, ih]
      rfl

/-- The walk to the successor reads only the nodes. -/
theorem rbSucc_record (fuel x : Nat) : rbSucc fuel { t with root, size } x = rbSucc fuel t x := by
  rw [rbSucc, rbSucc, succ, succ, succLoop_record, rbSuccUp_record]
  rfl

end Record

/-- A counter that is not positive after a removal drops the root, while the nodes keep their links. -/
theorem rbRemoveNode_wrapped {lt : Nat → Nat → Prop} {x fuel : Nat} (wellFormed : WellFormed lt t tree)
    (member : x ∈ tree.nodes) (enough : tree.nodes.length + 3 ≤ fuel) (wraps : toInt (t.size - 1) ≤ 0) :
    ∃ u front back, rbRemoveNode fuel t x = some u ∧ tree.nodes = front ++ x :: back ∧ u.root = 0 ∧
      ∀ first a last, front ++ back = first ++ a :: last →
        rbSucc fuel u a = some (last.head?.getD 0) := by
  obtain ⟨v, result, front, back, run, shape, detached⟩ := rbRemoveNode_detached wellFormed member enough
  have removed : x ∉ result.nodes := by
    rw [detached.nodes]
    exact (List.nodup_middle.mp (shape ▸ wellFormed.linked.nodup)).notMem
  have cleared : Linked (clearNode (v.setBlack v.root) x) result.blacken :=
    clearNode_linked detached.linked.setBlack_root (by rwa [ColorTree.nodes_blacken])
  have same : Same v (clearNode (v.setBlack v.root) x) := ((Same.refl v).setBlack _).clearNode x
  have empty : toInt ((clearNode (v.setBlack v.root) x).size - 1) ≤ 0 := by
    rw [same.size, detached.same.size]
    exact wraps
  have lost : finishRemove v x = { clearNode (v.setBlack v.root) x with
      root := 0, size := toInt ((clearNode (v.setBlack v.root) x).size - 1) } := by
    unfold finishRemove
    exact if_pos empty
  refine ⟨finishRemove v x, front, back, run, shape, by rw [lost], ?_⟩
  intro first a last split
  have nodes : result.blacken.nodes = first ++ a :: last := by
    rw [ColorTree.nodes_blacken, detached.nodes, split]
  rw [lost, rbSucc_record]
  refine rbSucc_linked cleared nodes ?_
  have length := congrArg List.length shape
  rw [ColorTree.nodes_blacken, detached.nodes]
  simp only [List.length_append, List.length_cons] at length ⊢
  omega

end Syslib.Rbtree
