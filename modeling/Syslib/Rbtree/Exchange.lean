import Syslib.Rbtree.Remove

namespace Syslib.Rbtree

open ColoredTree

variable {t u : RbTree} {tree : ColorTree Nat}

/-- The walk of `_succ` follows left children until there is none. -/
theorem succLoop_leftmost {p r fuel : Nat} (run : succLoop fuel t p (t.child .left p) = some r) :
    ∃ depth, (t.child .left)^[depth] p = r ∧ t.child .left r = 0 := by
  induction fuel generalizing p with
  | zero => exact absurd run (by simp [succLoop])
  | succ fuel ih =>
      rw [succLoop] at run
      split_ifs at run with next
      · obtain ⟨depth, steps, last⟩ := ih run
        exact ⟨depth + 1, steps, last⟩
      · obtain rfl := Option.some.inj run
        exact ⟨0, rfl, not_not.mp next⟩

/-- A node is leftmost below another one when left children lead from there to it and no further. -/
def Leftmost (t : RbTree) (subroot r : Nat) : Prop :=
  ∃ depth, (t.child .left)^[depth] subroot = r ∧ t.child .left r = 0

theorem succ_leftmost {subroot r fuel : Nat} (real : subroot ≠ 0) (run : succ fuel t subroot = some r) :
    Leftmost t subroot r := by
  rw [succ, if_neg real] at run
  cases fuel with
  | zero => exact absurd run (by simp [succLoop])
  | succ fuel =>
      rw [succLoop, if_pos real] at run
      exact succLoop_leftmost run

section Frame

variable {a : Nat}

theorem heap_setParentIf_of_ne (t : RbTree) {node p : Nat} (apart : node ≠ 0 → a ≠ node) :
    (setParentIf t node p).heap a = t.heap a := by
  unfold setParentIf
  split_ifs with missing
  · rfl
  · exact Function.update_of_ne (apart missing) _ _

theorem heap_replaceChild_of_ne (t : RbTree) {parent old new : Nat} (apart : parent ≠ 0 → a ≠ parent) :
    (replaceChild t parent old new).heap a = t.heap a := by
  unfold replaceChild
  split_ifs with missing
  · rfl
  · exact Function.update_of_ne (apart missing) _ _
  · exact Function.update_of_ne (apart missing) _ _
  · rfl

theorem heap_swapWords_of_ne (t : RbTree) {p q : Nat} (notP : a ≠ p) (notQ : a ≠ q) :
    (swapWords t p q).heap a = t.heap a := by
  simp only [swapWords, RbTree.write]
  rw [Function.update_of_ne notQ, Function.update_of_ne notP]

/-- `_swap_node` writes only nodes of the tree. -/
theorem heap_swapNode_of_notMem (linked : Linked t tree) {p q : Nat} (pPlace : p ∈ tree.nodes)
    (qPlace : q ∈ tree.nodes) (outside : a ∉ tree.nodes) : (swapNode t p q).heap a = t.heap a := by
  have notP : a ≠ p := fun equal => outside (equal ▸ pPlace)
  have notQ : a ≠ q := fun equal => outside (equal ▸ qPlace)
  have child : ∀ {b}, b ∈ tree.nodes → ∀ side, t.child side b ≠ 0 → a ≠ t.child side b := by
    rintro b place side real rfl
    rw [t.child_eq, if_neg (linked.aligned b place).1] at real outside
    exact outside (linked.child_parent place side real).1
  have parent : ∀ {b}, b ∈ tree.nodes → t.getParent b ≠ 0 → a ≠ t.getParent b := by
    rintro b place real rfl
    rw [t.getParent_eq, if_neg (linked.aligned b place).1] at real outside
    exact outside (linked.parent_child place real).1
  rw [swapNode, heap_swapWords_of_ne _ notP notQ, heap_replaceChild_of_ne _ (parent qPlace),
    heap_replaceChild_of_ne _ (parent pPlace), heap_setParentIf_of_ne _ (child qPlace .right),
    heap_setParentIf_of_ne _ (child qPlace .left), heap_setParentIf_of_ne _ (child pPlace .right),
    heap_setParentIf_of_ne _ (child pPlace .left)]

end Frame

/-- Two nodes have changed places, and every link to one of them points to the other. -/
structure Exchanged (t u : RbTree) (tree : ColorTree Nat) (x r : Nat) : Prop where
  linked : Linked u (tree.map (Equiv.swap x r))
  cells : ∀ a ∈ tree.nodes, u.cell (Equiv.swap x r a) = (t.cell a).rename (Equiv.swap x r)
  outside : ∀ a, a ∉ tree.nodes → u.heap a = t.heap a
  same : Same t u

/-- The root update and the swap exchange a node with the leftmost node of its right subtree. -/
theorem swapNode_exchanged {x fuel : Nat} (linked : Linked t tree) (member : x ∈ tree.nodes)
    (leftChild : t.child .left x ≠ 0) (rightChild : t.child .right x ≠ 0)
    (enough : tree.nodes.length < fuel) :
    ∃ r, succ fuel t (t.child .right x) = some r ∧ Leftmost t (t.child .right x) r ∧
      r ∈ tree.nodes ∧ r ≠ x ∧
      Exchanged t (swapNode (if x = t.root then { t with root := r } else t) x r) tree x r ∧
      rbRemoveNode fuel t x = unlinkNode fuel
        (swapNode (if x = t.root then { t with root := r } else t) x r) x (t.child .right r)
        (t.isBlack r) := by
  obtain ⟨path, left, black, right, rfl⟩ := TreePath.exists_focus member
  have child : t.child .right x = ptr right := @Linked.child_far t path .left _ _ _ _ linked
  have inner : right ≠ .leaf := ptr_ne (child ▸ rightChild)
  have bound := TreePath.length_plug path (.node left x black right)
  simp only [ColorTree.nodes_node, List.length_append, List.length_cons] at bound
  obtain ⟨low, r, color, last, run, rfl, lowBefore⟩ := succ_linked linked inner
    (by omega : right.nodes.length < fuel)
  rw [← child] at run
  have focus : Linked t (TreePath.plug (low ++ ⟨.right, x, black, left⟩ :: path)
      (.node .leaf r color last)) := by
    rw [TreePath.plug_append]
    exact linked
  have below : r ≠ t.root := by
    cases low with
    | nil => exact ne_root focus (by simp)
    | cons frame rest => exact ne_root focus (by simp)
  have deep : r ∈ (TreePath.plug low (.node .leaf r color last)).nodes :=
    TreePath.mem_plug.mpr (Or.inl (by simp))
  have place : r ∈ (TreePath.plug path (.node left x black
      (TreePath.plug low (.node .leaf r color last)))).nodes :=
    TreePath.mem_plug.mpr (Or.inl (by simp [deep]))
  have apart : x ≠ r := by
    rintro rfl
    exact (@ColorTree.nodup_join _ .left _ _ _ _ |>.mp linked.nodup_focus).2.2.2.1 deep
  have cells : (swapNode (if x = t.root then { t with root := r } else t) x r).cell =
      (swapNode t x r).cell := by
    split_ifs
    · rw [swapNode_setRoot]
      rfl
    · rfl
  have heap : (swapNode (if x = t.root then { t with root := r } else t) x r).heap =
      (swapNode t x r).heap := by
    split_ifs
    · rw [swapNode_setRoot]
    · rfl
  have same : Same t (swapNode (if x = t.root then { t with root := r } else t) x r) := by
    apply Same.swapNode
    split_ifs
    · exact (Same.refl t).setRoot r
    · exact Same.refl t
  have exchanged : Exchanged t (swapNode (if x = t.root then { t with root := r } else t) x r)
      (TreePath.plug path (.node left x black (TreePath.plug low (.node .leaf r color last)))) x r := by
    refine ⟨swapNode_linked linked member place apart (parent_ne linked) below, ?_, ?_, same⟩
    · intro a inside
      rw [cells]
      exact cell_swapNode linked member place apart (parent_ne linked) inside
    · intro a outside
      rw [heap]
      exact heap_swapNode_of_notMem linked member place outside
  refine ⟨r, run, succ_leftmost rightChild run, place, apart.symm, exchanged, ?_⟩
  rw [rbRemoveNode, if_neg (linked.aligned x member).1, if_pos ⟨leftChild, rightChild⟩, run]
  rfl

/-- The root of three nodes changes places with its own right child. -/
theorem swapNode_exchanged_three :
    let heap : Nat → RbNode := fun
      | 4 => ⟨2, 8, 12, 1⟩
      | 8 => ⟨1, 0, 0, 4⟩
      | 12 => ⟨3, 0, 0, 4⟩
      | _ => ⟨0, 0, 0, 0⟩
    let t : RbTree := { heap := heap, root := 4, size := 3, cfunc := none }
    let tree : ColorTree Nat := .node (.node .leaf 8 false .leaf) 4 true (.node .leaf 12 false .leaf)
    ∃ r, succ 4 t (t.child .right 4) = some r ∧ Leftmost t (t.child .right 4) r ∧
      r ∈ tree.nodes ∧ r ≠ 4 ∧
      Exchanged t (swapNode (if 4 = t.root then { t with root := r } else t) 4 r) tree 4 r ∧
      rbRemoveNode 4 t 4 = unlinkNode 4
        (swapNode (if 4 = t.root then { t with root := r } else t) 4 r) 4 (t.child .right r)
        (t.isBlack r) := by
  intro heap t tree
  have linked : Linked t tree := by
    refine ⟨rfl, ?_, by decide, by decide⟩
    simp [tree, t, heap, Represents, ptr, RbTree.cell, RbNode.cell, RbNode.child, RbNode.isblack]
  exact swapNode_exchanged linked (by decide) (by decide) (by decide) (by decide)

end Syslib.Rbtree
