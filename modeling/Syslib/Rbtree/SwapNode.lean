import Mathlib.Logic.Equiv.Basic
import Syslib.Rbtree.Transplant

namespace Syslib.Rbtree

open ColoredTree

variable {t u : RbTree} {tree : ColorTree Nat}

/-- The rename of the pointers in a cell. -/
def Cell.rename (cell : Cell) (rename : Nat → Nat) : Cell :=
  ⟨fun side => rename (cell.child side), rename cell.parent, cell.isblack⟩

theorem ptr_map {rename : Nat → Nat} (null : rename 0 = 0) (tree : ColorTree Nat) :
    ptr (tree.map rename) = rename (ptr tree) := by
  cases tree with
  | leaf => exact null.symm
  | node left root black right => rfl

/-- Renamed cells under renamed addresses represent the renamed tree. -/
theorem Represents.rename {cells updated : Nat → Cell} {rename : Nat → Nat} {parent : Nat}
    (represents : Represents cells parent tree) (null : rename 0 = 0)
    (renamed : ∀ a ∈ tree.nodes, updated (rename a) = (cells a).rename rename) :
    Represents updated (rename parent) (tree.map rename) := by
  induction tree generalizing parent with
  | leaf => trivial
  | node left root black right ihLeft ihRight =>
      obtain ⟨lchild, rchild, up, color, near, far⟩ := represents
      have here := renamed root (by simp)
      refine ⟨?_, ?_, ?_, ?_, ihLeft near ?_, ihRight far ?_⟩
      · rw [here, ptr_map null, ← lchild]
        rfl
      · rw [here, ptr_map null, ← rchild]
        rfl
      · rw [here, ← up]
        rfl
      · rw [here]
        exact color
      · intro a member
        exact renamed a (by simp [member])
      · intro a member
        exact renamed a (by simp [member])

namespace Linked

/-- A child word of a linked node points to a linked node with the right parent. -/
theorem child_parent (linked : Linked t tree) {a : Nat} (member : a ∈ tree.nodes) (side : Side)
    (real : (t.cell a).child side ≠ 0) :
    (t.cell a).child side ∈ tree.nodes ∧ (t.cell ((t.cell a).child side)).parent = a := by
  obtain ⟨path, left, black, right, rfl⟩ := TreePath.exists_focus member
  obtain ⟨lchild, rchild, -, -, near, far⟩ := linked.represents_focus
  cases side
  · rw [lchild] at real ⊢
    refine ⟨TreePath.mem_plug.mpr (Or.inl ?_), near.parent_ptr real⟩
    simp [ptr_mem (ptr_ne real)]
  · rw [rchild] at real ⊢
    refine ⟨TreePath.mem_plug.mpr (Or.inl ?_), far.parent_ptr real⟩
    simp [ptr_mem (ptr_ne real)]

/-- A linked node hangs on a child word of its parent. -/
theorem parent_child (linked : Linked t tree) {a : Nat} (member : a ∈ tree.nodes)
    (real : (t.cell a).parent ≠ 0) :
    (t.cell a).parent ∈ tree.nodes ∧ ∃ side, (t.cell (t.cell a).parent).child side = a := by
  obtain ⟨path, left, black, right, rfl⟩ := TreePath.exists_focus member
  have above : (t.cell a).parent = TreePath.top path := linked.represents_focus.2.2.1
  rw [above] at real ⊢
  cases path with
  | nil => exact absurd rfl real
  | cons frame rest =>
      refine ⟨TreePath.mem_plug.mpr (Or.inr (TreePath.mem_around_cons.mpr (Or.inl rfl))), ?_⟩
      exact ⟨frame.side, linked.represents_path.1⟩

/-- The two child words of a linked node differ unless both are null. -/
theorem child_ne (linked : Linked t tree) {a : Nat} (member : a ∈ tree.nodes) {side : Side}
    (real : (t.cell a).child side ≠ 0) : (t.cell a).child side.other ≠ (t.cell a).child side := by
  obtain ⟨path, left, black, right, rfl⟩ := TreePath.exists_focus member
  obtain ⟨lchild, rchild, -, -, -, -⟩ := linked.represents_focus
  obtain ⟨-, -, -, -, apart⟩ := (@ColorTree.nodup_join _ .left _ _ _ _).mp linked.nodup_focus
  intro equal
  have left_real : ptr left ≠ 0 := by
    cases side <;> simp only [Side.other] at equal <;> grind
  have shared : ptr left = ptr right := by
    cases side <;> simp only [Side.other] at equal <;> grind
  have right_member : ptr left ∈ right.nodes := by
    rw [shared]
    exact ptr_mem (ptr_ne (shared ▸ left_real))
  exact apart _ (ptr_mem (ptr_ne left_real)) right_member

end Linked

theorem cell_setParentIf_apply (t : RbTree) (node : Nat) {p : Nat} (aligned : p % 4 = 0) (a : Nat) :
    (setParentIf t node p).cell a =
      if a ≠ 0 ∧ a = node then { t.cell a with parent := p } else t.cell a := by
  rw [cell_setParentIf t node aligned]
  split_ifs with missing both both
  · exact absurd missing (both.2 ▸ both.1)
  · rfl
  · rw [both.2, Function.update_self]
  · exact Function.update_of_ne (by rintro rfl; exact both ⟨missing, rfl⟩) _ _

/-- The swapped words carry every field but the key to the other node. -/
theorem cell_swapWords (t : RbTree) {p q : Nat} (a : Nat) :
    (swapWords t p q).cell (Equiv.swap p q a) = t.cell a := by
  have key : ∀ (node other : RbNode),
      ({ node with lchild := other.lchild, rchild := other.rchild, p := other.p } : RbNode).cell =
        other.cell := by
    intro node other
    simp only [RbNode.cell, RbNode.isblack, Cell.mk.injEq, and_true]
    funext side
    cases side <;> rfl
  unfold swapWords
  rw [RbTree.cell_write, RbTree.cell_write, key, key]
  by_cases atP : a = p
  · subst atP
    rw [Equiv.swap_apply_left, Function.update_self]
    rfl
  · by_cases atQ : a = q
    · subst atQ
      rw [Equiv.swap_apply_right]
      by_cases equal : p = a
      · exact absurd equal.symm atP
      · rw [Function.update_of_ne equal, Function.update_self]
        rfl
    · rw [Equiv.swap_apply_of_ne_of_ne atP atQ, Function.update_of_ne atQ, Function.update_of_ne atP]

/-- A child word of a linked node that points to `b` is the word that `b` hangs on. -/
theorem Linked.child_eq_iff (linked : Linked t tree) {b hot : Nat} {hole : Side}
    (hot_eq : (t.cell b).parent = hot) (held : hot ≠ 0 → (t.cell hot).child hole = b) {a : Nat}
    (member : a ∈ tree.nodes) (real : b ≠ 0) (side : Side) :
    (t.cell a).child side = b ↔ a = hot ∧ side = hole := by
  have aReal := (linked.aligned a member).1
  constructor
  · rintro rfl
    obtain ⟨-, parent⟩ := linked.child_parent member side real
    obtain rfl : a = hot := parent.symm.trans hot_eq
    refine ⟨rfl, ?_⟩
    by_contra other
    obtain rfl : hole = side.other := by
      cases side <;> cases hole <;> simp_all [Side.other]
    exact linked.child_ne member real (held aReal)
  · rintro ⟨rfl, rfl⟩
    exact held aReal

/-- The children of a linked node are the linked nodes with that parent. -/
theorem Linked.parent_eq_iff (linked : Linked t tree) {b : Nat} (place : b ∈ tree.nodes) {a : Nat}
    (member : a ∈ tree.nodes) :
    (t.cell a).parent = b ↔ a = (t.cell b).child .left ∨ a = (t.cell b).child .right := by
  have aReal := (linked.aligned a member).1
  constructor
  · rintro rfl
    obtain ⟨-, side, held⟩ := linked.parent_child member (linked.aligned _ place).1
    cases side
    · exact Or.inl held.symm
    · exact Or.inr held.symm
  · rintro (left | right)
    · rw [left] at aReal ⊢
      exact (linked.child_parent place .left aReal).2
    · rw [right] at aReal ⊢
      exact (linked.child_parent place .right aReal).2

/-- The parent words after the first half of `_swap_node`. -/
theorem cell_swapParents (linked : Linked t tree) {p q : Nat} (pPlace : p ∈ tree.nodes)
    (qPlace : q ∈ tree.nodes) (apart : p ≠ q) {a : Nat} (member : a ∈ tree.nodes) :
    (setParentIf (setParentIf (setParentIf (setParentIf t (t.child .left p) q) (t.child .right p) q)
      (t.child .left q) p) (t.child .right q) p).cell a =
      { t.cell a with parent := Equiv.swap p q (t.cell a).parent } := by
  obtain ⟨pReal, pAligned⟩ := linked.aligned p pPlace
  obtain ⟨qReal, qAligned⟩ := linked.aligned q qPlace
  have real := (linked.aligned a member).1
  have underP := linked.parent_eq_iff pPlace member
  have underQ := linked.parent_eq_iff qPlace member
  simp only [cell_setParentIf_apply _ _ pAligned, cell_setParentIf_apply _ _ qAligned, t.child_eq,
    if_neg pReal, if_neg qReal, real, ne_eq, not_false_eq_true, true_and]
  by_cases atP : (t.cell a).parent = p
  · have notQ : (t.cell a).parent ≠ q := fun equal => apart (atP.symm.trans equal)
    obtain ⟨notLeft, notRight⟩ := not_or.mp fun held => notQ (underQ.mpr held)
    rw [atP, Equiv.swap_apply_left, if_neg notRight, if_neg notLeft]
    rcases underP.mp atP with left | right
    · rw [if_pos left]
      split_ifs <;> rfl
    · rw [if_pos right]
      split_ifs <;> rfl
  · obtain ⟨notLeft, notRight⟩ := not_or.mp fun held => atP (underP.mpr held)
    rw [if_neg notRight, if_neg notLeft]
    by_cases atQ : (t.cell a).parent = q
    · rw [atQ, Equiv.swap_apply_right]
      rcases underQ.mp atQ with left | right
      · rw [if_pos left]
        split_ifs <;> rfl
      · rw [if_pos right]
        split_ifs <;> rfl
    · obtain ⟨outLeft, outRight⟩ := not_or.mp fun held => atQ (underQ.mpr held)
      rw [if_neg outRight, if_neg outLeft, Equiv.swap_apply_of_ne_of_ne atP atQ]

theorem replaceChild_cell (t : RbTree) {parent old new : Nat} {hole : Side}
    (held : parent ≠ 0 → (t.cell parent).child hole = old)
    (apart : parent ≠ 0 → (t.cell parent).child hole.other ≠ old) (a : Nat) :
    (replaceChild t parent old new).cell a =
      if parent ≠ 0 ∧ a = parent then (t.cell a).setChild hole new else t.cell a := by
  rw [cell_replaceChild t held apart]
  split_ifs with missing both both
  · exact absurd missing both.1
  · rfl
  · rw [both.2, Function.update_self]
  · exact Function.update_of_ne (by rintro rfl; exact both ⟨missing, rfl⟩) _ _

/-- `_swap_node` exchanges the two addresses in every cell of the tree. -/
theorem cell_swapNode (linked : Linked t tree) {p q : Nat} (pPlace : p ∈ tree.nodes)
    (qPlace : q ∈ tree.nodes) (apart : p ≠ q)
    (siblings : (t.cell p).parent ≠ (t.cell q).parent) {a : Nat} (member : a ∈ tree.nodes) :
    (swapNode t p q).cell (Equiv.swap p q a) = (t.cell a).rename (Equiv.swap p q) := by
  have pReal := (linked.aligned p pPlace).1
  have qReal := (linked.aligned q qPlace).1
  have parents := cell_swapParents linked pPlace qPlace apart member
  obtain ⟨pSide, pHeld⟩ : ∃ side, (t.cell p).parent ≠ 0 → (t.cell (t.cell p).parent).child side = p := by
    by_cases top : (t.cell p).parent = 0
    · exact ⟨.left, fun real => absurd top real⟩
    · exact ⟨_, fun _ => (linked.parent_child pPlace top).2.choose_spec⟩
  obtain ⟨qSide, qHeld⟩ : ∃ side, (t.cell q).parent ≠ 0 → (t.cell (t.cell q).parent).child side = q := by
    by_cases top : (t.cell q).parent = 0
    · exact ⟨.left, fun real => absurd top real⟩
    · exact ⟨_, fun _ => (linked.parent_child qPlace top).2.choose_spec⟩
  have pWord := linked.child_eq_iff rfl pHeld member pReal
  have qWord := linked.child_eq_iff rfl qHeld member qReal
  unfold swapNode
  extract_lets plc prc pp qlc qrc qp t1 t2 t3 t4 t5 t6
  rw [cell_swapWords]
  have c4 : ∀ b ∈ tree.nodes, t4.cell b = { t.cell b with parent := Equiv.swap p q (t.cell b).parent } :=
    fun b place => cell_swapParents linked pPlace qPlace apart place
  have ppEq : pp = (t.cell p).parent := by rw [show pp = t.getParent p from rfl, t.getParent_eq, if_neg pReal]
  have qpEq : qp = (t.cell q).parent := by rw [show qp = t.getParent q from rfl, t.getParent_eq, if_neg qReal]
  have c5 : ∀ b, t5.cell b = if pp ≠ 0 ∧ b = pp then (t4.cell b).setChild pSide q else t4.cell b := by
    apply replaceChild_cell
    · intro real
      rw [ppEq] at real ⊢
      rw [c4 _ (linked.parent_child pPlace real).1]
      exact pHeld real
    · intro real
      rw [ppEq] at real ⊢
      have place := (linked.parent_child pPlace real).1
      have other := @Linked.child_ne _ _ linked _ place pSide (by rw [pHeld real]; exact pReal)
      rw [c4 _ place]
      rwa [pHeld real] at other
  have c6 : ∀ b, t6.cell b = if qp ≠ 0 ∧ b = qp then (t5.cell b).setChild qSide p else t5.cell b := by
    have same : ¬ (pp ≠ 0 ∧ qp = pp) := by
      rw [ppEq, qpEq]
      exact fun both => siblings both.2.symm
    apply replaceChild_cell
    · intro real
      rw [c5, if_neg same]
      rw [qpEq] at real ⊢
      rw [c4 _ (linked.parent_child qPlace real).1]
      exact qHeld real
    · intro real
      rw [c5, if_neg same]
      rw [qpEq] at real ⊢
      have place := (linked.parent_child qPlace real).1
      have other := @Linked.child_ne _ _ linked _ place qSide (by rw [qHeld real]; exact qReal)
      rw [c4 _ place]
      rwa [qHeld real] at other
  have real := (linked.aligned a member).1
  have words : (t.cell a).rename (Equiv.swap p q) =
      { (t4.cell a) with child := fun side => Equiv.swap p q ((t.cell a).child side) } := by
    rw [c4 a member]
    rfl
  have apartWords : ∀ side, (t.cell a).child side ≠ p → (t.cell a).child side ≠ q →
      Equiv.swap p q ((t.cell a).child side) = (t.cell a).child side :=
    fun side => Equiv.swap_apply_of_ne_of_ne
  have c4Child : (t4.cell a).child = (t.cell a).child := by rw [c4 a member]
  rw [c6, c5, words, ppEq, qpEq]
  by_cases atQ : a = (t.cell q).parent
  · have notPp : a ≠ (t.cell p).parent := fun equal => siblings (equal.symm.trans atQ)
    rw [if_pos ⟨atQ ▸ real, atQ⟩, if_neg (fun both => notPp both.2)]
    simp only [Cell.setChild, Cell.mk.injEq, and_true, c4Child]
    funext side
    by_cases here : side = qSide
    · subst here
      rw [Function.update_self, (qWord side).mpr ⟨atQ, rfl⟩, Equiv.swap_apply_right]
    · rw [Function.update_of_ne here, apartWords side]
      · exact fun held => notPp ((pWord side).mp held).1
      · exact fun held => here ((qWord side).mp held).2
  · rw [if_neg (fun both => atQ both.2)]
    by_cases atP : a = (t.cell p).parent
    · rw [if_pos ⟨atP ▸ real, atP⟩]
      simp only [Cell.setChild, Cell.mk.injEq, and_true, c4Child]
      funext side
      by_cases here : side = pSide
      · subst here
        rw [Function.update_self, (pWord side).mpr ⟨atP, rfl⟩, Equiv.swap_apply_left]
      · rw [Function.update_of_ne here, apartWords side]
        · exact fun held => here ((pWord side).mp held).2
        · exact fun held => atQ ((qWord side).mp held).1
    · rw [if_neg (fun both => atP both.2)]
      have kept : (fun side => Equiv.swap p q ((t.cell a).child side)) = (t4.cell a).child := by
        rw [c4Child]
        funext side
        rw [apartWords side]
        · exact fun held => atP ((pWord side).mp held).1
        · exact fun held => atQ ((qWord side).mp held).1
      rw [kept]

theorem Same.swapWords (same : Same t u) (p q : Nat) : Same t (swapWords u p q) := by
  refine ⟨?_, same.size, same.cfunc⟩
  intro a
  rw [← same.key a]
  simp only [Rbtree.swapWords, RbTree.write]
  by_cases atQ : a = q
  · rw [atQ, Function.update_self]
  · rw [Function.update_of_ne atQ]
    by_cases atP : a = p
    · rw [atP, Function.update_self]
    · rw [Function.update_of_ne atP]

theorem Same.swapNode (same : Same t u) (p q : Nat) : Same t (swapNode u p q) := by
  apply Same.swapWords
  apply Same.replaceChild
  apply Same.replaceChild
  exact (((same.setParentIf _ _).setParentIf _ _).setParentIf _ _).setParentIf _ _

@[simp] theorem root_replaceChild (t : RbTree) (parent old new : Nat) :
    (replaceChild t parent old new).root = t.root := by
  unfold replaceChild
  split_ifs <;> rfl

theorem root_swapNode (t : RbTree) (p q : Nat) : (swapNode t p q).root = t.root := by
  have words : ∀ u : RbTree, (swapWords u p q).root = u.root := fun _ => rfl
  simp only [swapNode, words, root_replaceChild, root_setParentIf]

/-- The swap reads and writes only the nodes. -/
theorem swapNode_setRoot (t : RbTree) (root p q : Nat) :
    swapNode { t with root := root } p q = { swapNode t p q with root := root } := by
  have parentIf : ∀ (u : RbTree) node p, setParentIf { u with root := root } node p =
      { setParentIf u node p with root := root } := by
    intro u node p
    simp only [setParentIf]
    split_ifs <;> rfl
  have replaced : ∀ (u : RbTree) parent old new, replaceChild { u with root := root } parent old new =
      { replaceChild u parent old new with root := root } := by
    intro u parent old new
    have words : ∀ side, RbTree.child { u with root := root } side parent = u.child side parent :=
      fun _ => rfl
    simp only [replaceChild, words]
    split_ifs <;> rfl
  have reads : ∀ side node, RbTree.child { t with root := root } side node = t.child side node :=
    fun _ _ => rfl
  have parents : ∀ node, RbTree.getParent { t with root := root } node = t.getParent node := fun _ => rfl
  simp only [swapNode, reads, parents, parentIf, replaced]
  rfl

/-- The swap of a node with a node further down renames the tree. -/
theorem swapNode_linked (linked : Linked t tree) {p q : Nat} (pPlace : p ∈ tree.nodes)
    (qPlace : q ∈ tree.nodes) (apart : p ≠ q) (siblings : (t.cell p).parent ≠ (t.cell q).parent)
    (below : q ≠ t.root) :
    Linked (swapNode (if p = t.root then { t with root := q } else t) p q)
      (tree.map (Equiv.swap p q)) := by
  have pReal := (linked.aligned p pPlace).1
  have qReal := (linked.aligned q qPlace).1
  have null : Equiv.swap p q 0 = 0 := Equiv.swap_apply_of_ne_of_ne pReal.symm qReal.symm
  have cells : (swapNode (if p = t.root then { t with root := q } else t) p q).cell =
      (swapNode t p q).cell := by
    split_ifs
    · rw [swapNode_setRoot]
      rfl
    · rfl
  have permuted : ∀ a ∈ tree.nodes, Equiv.swap p q a ∈ tree.nodes := by
    intro a member
    rw [Equiv.swap_apply_def]
    split_ifs
    exacts [qPlace, pPlace, member]
  refine ⟨?_, ?_, ?_, ?_⟩
  · rw [root_swapNode, ptr_map null, ← linked.root]
    split_ifs with top
    · rw [← top, Equiv.swap_apply_left]
    · rw [Equiv.swap_apply_of_ne_of_ne (Ne.symm top) below.symm]
  · rw [cells, ← null]
    apply linked.represents.rename null
    intro a member
    exact cell_swapNode linked pPlace qPlace apart siblings member
  · rw [ColorTree.nodes_map]
    exact linked.nodup.map (Equiv.swap p q).injective
  · intro a member
    rw [ColorTree.nodes_map, List.mem_map] at member
    obtain ⟨b, place, rfl⟩ := member
    exact linked.aligned _ (permuted b place)

end Syslib.Rbtree
