import Syslib.Library.RedBlack
import Syslib.Rbtree.Linked

namespace Syslib.Rbtree

open ColoredTree

variable {t : RbTree} {frame grand : Frame Nat} {rest path : TreePath Nat} {tree : ColorTree Nat}
  {count : Nat}

/-- The rotation of the grandparent lifts a red parent whose red child hangs on the outer side. -/
theorem fixRr_outer (linked : Linked t (TreePath.plug (frame :: grand :: rest) tree))
    (balanced : tree.Balanced count) (outer : TreePath.Balanced (frame :: grand :: rest) count)
    (red : frame.black = false) (uncle : grand.sibling.isRed = false)
    (straight : frame.side = grand.side) :
    ∃ result, Linked (rotate grand.side.other ((t.setBlack frame.root).setRed grand.root) grand.root)
        (TreePath.plug rest result) ∧ frame.root ∈ result.nodes ∧
      result.nodes = (TreePath.plug [frame, grand] tree).nodes ∧ result.Balanced (count + 1) ∧
      TreePath.Balanced rest (count + 1) ∧ result.isRed = false := by
  obtain ⟨lifted, upper⟩ := TreePath.rotate_outer balanced outer red uncle grand.side
  have parent : Linked (t.setBlack frame.root) (TreePath.plug (grand :: rest)
      (.join frame.side tree frame.root true frame.sibling)) := Linked.setBlack linked
  have colored : Linked ((t.setBlack frame.root).setRed grand.root) (TreePath.plug rest
      (.join grand.side (.join frame.side tree frame.root true frame.sibling) grand.root false
        grand.sibling)) := @Linked.setRed _ rest _ _ _ _ _ parent
  rw [straight, ← ColorTree.join_other grand.side, ← ColorTree.join_other grand.side] at colored
  refine ⟨_, colored.rotate, ?_, ?_, ?_, upper, ?_⟩
  · exact ColorTree.mem_nodes_join.mpr (Or.inr (Or.inl rfl))
  · rw [ColorTree.nodes_rotate _ _ _ _ _ _ true true]
    cases here : grand.side <;> simp [Frame.fill, straight, here, ColorTree.join, Side.other]
  · rw [ColorTree.join_other, ColorTree.join_other]
    exact lifted
  · simp

/-- The two rotations lift a red child that hangs on the inner side. -/
theorem fixRr_inner {near far : ColorTree Nat} {root : Nat}
    (linked : Linked t (TreePath.plug (frame :: grand :: rest)
      (.join grand.side near root false far)))
    (balanced : (ColorTree.join grand.side near root false far).Balanced count)
    (outer : TreePath.Balanced (frame :: grand :: rest) count)
    (red : frame.black = false) (uncle : grand.sibling.isRed = false)
    (zigzag : frame.side = grand.side.other) :
    ∃ result, Linked (rotate grand.side.other
        (((rotate grand.side t frame.root).setBlack root).setRed grand.root) grand.root)
        (TreePath.plug rest result) ∧ root ∈ result.nodes ∧
      result.nodes = (TreePath.plug [frame, grand] (.join grand.side near root false far)).nodes ∧
      result.Balanced (count + 1) ∧ TreePath.Balanced rest (count + 1) ∧ result.isRed = false := by
  obtain ⟨lifted, upper⟩ := @TreePath.rotate_inner _ frame grand rest near far root grand.side grand.side count balanced
    outer red uncle
  have turned : Linked t (TreePath.plug (grand :: rest) (.join grand.side frame.sibling frame.root
      frame.black (.join grand.side near root false far))) := by
    rw [← ColorTree.join_other, ← zigzag]
    exact linked
  have parent : Linked ((rotate grand.side t frame.root).setBlack root) _ := turned.rotate.setBlack
  have colored : Linked (((rotate grand.side t frame.root).setBlack root).setRed grand.root)
      (TreePath.plug rest (.join grand.side (.join grand.side
        (.join grand.side frame.sibling frame.root frame.black near) root true far) grand.root false
        grand.sibling)) := @Linked.setRed _ rest _ _ _ _ _ parent
  rw [← ColorTree.join_other grand.side, ← ColorTree.join_other grand.side far] at colored
  refine ⟨_, colored.rotate, ?_, ?_, ?_, upper, ?_⟩
  · exact ColorTree.mem_nodes_join.mpr (Or.inr (Or.inl rfl))
  · rw [ColorTree.nodes_rotate _ _ _ _ _ _ true true]
    cases here : grand.side <;> simp [Frame.fill, zigzag, here, ColorTree.join, Side.other]
  · rw [ColorTree.join_other, ColorTree.join_other, red]
    exact lifted
  · simp

/-- The rotations of `_fix_rr` for a black uncle settle the conflict of two red nodes. -/
theorem fixRrRotate_linked (linked : Linked t (TreePath.plug (frame :: grand :: rest) tree))
    (inner : tree ≠ .leaf) (conflict : tree.isRed = true) (balanced : tree.Balanced count)
    (outer : TreePath.Balanced (frame :: grand :: rest) count) (red : frame.black = false)
    (uncle : grand.sibling.isRed = false) :
    ∃ u node result, fixRrRotate grand.side t (ptr tree) frame.root grand.root = (u, node) ∧
      Linked u (TreePath.plug rest result) ∧ Same t u ∧ node ∈ result.nodes ∧
      result.nodes = (TreePath.plug [frame, grand] tree).nodes ∧ result.Balanced (count + 1) ∧
      TreePath.Balanced rest (count + 1) ∧ result.isRed = false := by
  have hang := linked.child_top inner grand.side.other
  unfold fixRrRotate
  by_cases zigzag : grand.side.other = frame.side
  · rw [if_pos (hang.mpr zigzag)]
    obtain ⟨near, root, black, far, rfl⟩ := ColorTree.eq_join grand.side inner
    obtain rfl : black = false := by simpa using conflict
    obtain ⟨result, final, rest⟩ := fixRr_inner linked balanced outer red uncle zigzag.symm
    rw [ptr_join]
    refine ⟨_, _, result, rfl, final, ?_, rest⟩
    exact ((((Same.refl t).rotate _ _).setBlack _).setRed _).rotate _ _
  · rw [if_neg (fun held => zigzag (hang.mp held))]
    have straight : frame.side = grand.side := by
      cases here : frame.side <;> cases there : grand.side <;> simp_all [Side.other]
    obtain ⟨result, final, rest⟩ := fixRr_outer linked balanced outer red uncle straight
    refine ⟨_, _, result, rfl, final, ?_, rest⟩
    exact (((Same.refl t).setBlack _).setRed _).rotate _ _

/-- A red uncle and the parent turn black, and the grandparent turns red. -/
theorem recolor_uncle_linked (linked : Linked t (TreePath.plug (frame :: grand :: rest) tree)) :
    Linked (((t.setBlack frame.root).setBlack (ptr grand.sibling)).setRed grand.root)
      (TreePath.plug rest (.join grand.side (.join frame.side tree frame.root true frame.sibling)
        grand.root false grand.sibling.blacken)) := by
  have parent : Linked (t.setBlack frame.root) (TreePath.plug (grand :: rest)
      (.join frame.side tree frame.root true frame.sibling)) := Linked.setBlack linked
  rw [TreePath.plug_sibling] at parent
  have uncle := parent.setBlack_ptr
  rw [TreePath.plug_sibling] at uncle
  simp only [Side.other_other] at uncle
  exact @Linked.setRed _ rest _ _ _ _ _ uncle

/-- The first loop of `_fix_rr` ends at a balanced tree; each pass that repeats climbs two levels. -/
theorem fixRrLoop_linked {fuel : Nat} (linked : Linked t (TreePath.plug path tree))
    (inner : tree ≠ .leaf) (conflict : tree.isRed = true) (balanced : tree.Balanced count)
    (outer : TreePath.Balanced path count) (enough : path.length < fuel) :
    ∃ u node result, fixRrLoop fuel t (ptr tree) (TreePath.top path) = some (u, node) ∧
      Linked u result ∧ Same t u ∧ node ∈ result.nodes ∧
      result.nodes = (TreePath.plug path tree).nodes ∧ ∃ total, result.Balanced total := by
  induction fuel generalizing t path tree count with
  | zero => omega
  | succ fuel ih =>
      have member : ptr tree ∈ (TreePath.plug path tree).nodes :=
        TreePath.mem_plug.mpr (Or.inl (ptr_mem inner))
      cases path with
      | nil =>
          refine ⟨t, ptr tree, tree, ?_, linked, Same.refl t, member, rfl, count, balanced⟩
          simp [fixRrLoop, TreePath.top, RbTree.isRed]
      | cons frame rest =>
          have parent : Linked t (TreePath.plug rest (frame.fill tree)) := linked
          have parentColor : t.isRed frame.root = !frame.black := by
            simpa [Frame.fill] using parent.isRed_ptr
          by_cases red : frame.black = false
          · obtain ⟨grand, above, rfl, -⟩ := outer.grand red
            have grandLinked : Linked t (TreePath.plug above (grand.fill (frame.fill tree))) := linked
            have getParent : t.getParent (ptr tree) = frame.root := linked.getParent_ptr inner
            have getGrand : t.getParent frame.root = grand.root := by
              simpa [Frame.fill, TreePath.top] using parent.getParent_ptr (by simp [Frame.fill])
            have grandReal : grand.root ≠ 0 :=
              (linked.aligned_path (by simp [TreePath.mem_around_cons])).1
            have side : (if frame.root = t.child .left grand.root then Side.left else Side.right) =
                grand.side := by
              have hang := parent.child_top (by simp [Frame.fill]) .left
              simp only [Frame.fill, ptr_join] at hang
              cases here : grand.side <;> simp [hang, here]
            have uncle : t.child grand.side.other grand.root = ptr grand.sibling :=
              grandLinked.child_far
            have uncleColor : t.isRed (ptr grand.sibling) = grand.sibling.isRed := by
              rw [TreePath.plug_cons, TreePath.plug_sibling] at linked
              exact linked.isRed_ptr
            have step : fixRrLoop (fuel + 1) t (ptr tree) frame.root =
                if grand.sibling.isRed then
                  let u := ((t.setBlack frame.root).setBlack (ptr grand.sibling)).setRed grand.root
                  fixRrLoop fuel u grand.root (u.getParent grand.root)
                else some (fixRrRotate grand.side t (ptr tree) frame.root grand.root) := by
              simp only [fixRrLoop, parentColor, red, getParent, getGrand, grandReal, side, uncle,
                uncleColor]
              simp
            rw [TreePath.top, step]
            by_cases uncleRed : grand.sibling.isRed = true
            · obtain ⟨raised, upper⟩ := TreePath.recolor_uncle balanced outer red uncleRed
              have colored := recolor_uncle_linked linked
              have next := ih colored (by simp) (by simp) raised upper (by simp at enough; omega)
              have getParent := colored.getParent_ptr (by simp)
              rw [ptr_join] at next getParent
              obtain ⟨u, node, result, run, final, same, inside, nodes, settled⟩ := next
              rw [if_pos uncleRed]
              simp only [getParent]
              refine ⟨u, node, result, run, final, Same.trans ?_ same, inside, ?_, settled⟩
              · exact ((((Same.refl t).setBlack _).setBlack _).setRed _)
              · rw [nodes, TreePath.plug_cons, TreePath.plug_cons, TreePath.nodes_plug,
                  TreePath.nodes_plug]
                congr 2
                cases here : grand.side <;> cases there : frame.side <;>
                  simp [Frame.fill, ColorTree.join, here, there]
            · have uncleBlack : grand.sibling.isRed = false := by simpa using uncleRed
              obtain ⟨u, node, result, run, final, same, inside, nodes, settled, upper, black⟩ :=
                fixRrRotate_linked linked inner conflict balanced outer red uncleBlack
              rw [if_neg uncleRed, run]
              refine ⟨u, node, _, rfl, final, same, TreePath.mem_plug.mpr (Or.inl inside), ?_,
                TreePath.balanced_plug settled upper fun _ _ _ _ => black⟩
              rw [TreePath.nodes_plug, nodes, ← TreePath.nodes_plug, ← TreePath.plug_append]
              rfl
          · have black : frame.black = true := by simpa using red
            refine ⟨t, ptr tree, _, ?_, linked, Same.refl t, member, rfl,
              TreePath.balanced_plug balanced outer ?_⟩
            · simp [fixRrLoop, TreePath.top, parentColor, black]
            · intro top above shape topRed
              rw [← (List.cons.inj shape).1, black] at topRed
              simp at topRed

/-- The second loop of `_fix_rr` finds the root. -/
theorem climb_linked {fuel : Nat} (linked : Linked t (TreePath.plug path tree))
    (inner : tree ≠ .leaf) (enough : path.length < fuel) : climb fuel t (ptr tree) = some t.root := by
  induction path generalizing fuel tree with
  | nil =>
      obtain ⟨less, rfl⟩ := Nat.exists_eq_add_one_of_ne_zero (show fuel ≠ 0 by omega)
      have root := linked.root
      have getParent := linked.getParent_ptr inner
      simp only [TreePath.plug_nil] at root
      simp [climb, getParent, TreePath.top, root]
  | cons frame rest ih =>
      obtain ⟨less, rfl⟩ := Nat.exists_eq_add_one_of_ne_zero (show fuel ≠ 0 by omega)
      have real := (linked.aligned_focus (ptr_mem inner)).1
      have parentReal := (linked.aligned_path (TreePath.mem_around_cons.mpr (Or.inl rfl))).1
      have above : Linked t (TreePath.plug rest (frame.fill tree)) := linked
      have next := ih above (by simp [Frame.fill]) (by simpa using enough : rest.length < less)
      rw [climb, if_neg real, linked.getParent_ptr inner, TreePath.top, if_neg parentReal]
      simpa [Frame.fill] using next

/-- No balanced tree of this many nodes is higher than the bound. -/
def Shallow (bound count : Nat) : Prop :=
  ∀ tree : ColorTree Nat, tree.nodes.length = count → (∃ total, tree.Balanced total) → tree.height ≤ bound

theorem shallow_of_length {bound count : Nat} (enough : count ≤ bound) : Shallow bound count :=
  fun tree length _ => (tree.height_le_length.trans length.le).trans enough

theorem shallow_of_log {bound count : Nat} (enough : 2 * Nat.log 2 (count + 1) + 1 ≤ bound) :
    Shallow bound count := by
  rintro tree length ⟨total, balanced⟩
  have height := balanced.height_le
  have level := Nat.le_log_of_pow_le (by decide) balanced.two_pow_le
  rw [ColorTree.size_eq_length, length] at level
  split_ifs at height <;> omega

/-- A new red node with fitting black heights ends in a red-black tree with the same nodes. -/
theorem fixRr_settles {fuel : Nat} (linked : Linked t (TreePath.plug (frame :: rest) tree))
    (inner : tree ≠ .leaf) (conflict : tree.isRed = true) (balanced : tree.Balanced count)
    (outer : TreePath.Balanced (frame :: rest) count) (short : (frame :: rest).length < fuel)
    (shallow : Shallow fuel (TreePath.plug (frame :: rest) tree).nodes.length) :
    ∃ u result, fixRr fuel t (ptr tree) = some u ∧ Linked u result ∧ Same t u ∧
      result.nodes = (TreePath.plug (frame :: rest) tree).nodes ∧ RedBlack result := by
  have real := (linked.aligned_focus (ptr_mem inner)).1
  have parentReal : frame.root ≠ 0 :=
    (linked.aligned_path (TreePath.mem_around_cons.mpr (Or.inl rfl))).1
  obtain ⟨u, node, result, run, final, same, inside, nodes, total, settled⟩ :=
    fixRrLoop_linked linked inner conflict balanced outer short
  have low := shallow result (by rw [nodes]) ⟨total, settled⟩
  obtain ⟨path, left, black, right, rfl⟩ := TreePath.exists_focus inside
  have bound := TreePath.height_plug path (.node left node black right)
  have climbed : climb fuel u node = some u.root :=
    climb_linked final (by simp) (by rw [ColorTree.height] at bound; omega)
  obtain ⟨grown, blackened, blackRoot⟩ := settled.blacken
  refine ⟨u.setBlack u.root, _, ?_, ?_, same.setBlack _, ?_, grown, blackened, blackRoot⟩
  · rw [TreePath.top] at run
    simp only [fixRr, real, if_false, linked.getParent_ptr inner, TreePath.top, parentReal,
      Option.bind_eq_bind, run, Option.bind_some, climbed]
  · rw [final.root]
    exact @Linked.setBlack_ptr _ [] _ final
  · rw [ColorTree.nodes_blacken, nodes]

end Syslib.Rbtree
