import Syslib.Library.RedBlack
import Syslib.Rbtree.Linked

namespace Syslib.Rbtree

open ColoredTree

variable {t : RbTree} {side : Side} {p w : Nat} {color : Bool} {rest path : TreePath Nat}
  {tree near far : ColorTree Nat} {count fuel : Nat}

/-- The focus moves between a hole and its sibling. -/
theorem linked_sibling {sibling : ColorTree Nat} :
    Linked t (TreePath.plug (⟨side, p, color, sibling⟩ :: rest) tree) ↔
      Linked t (TreePath.plug (⟨side.other, p, color, tree⟩ :: rest) sibling) := by
  rw [TreePath.plug_sibling]

/-- The focus moves to the near child of the sibling. -/
theorem linked_near {black : Bool} :
    Linked t (TreePath.plug (⟨side, p, color, .join side near w black far⟩ :: rest) tree) ↔
      Linked t (TreePath.plug (⟨side, w, black, far⟩ :: ⟨side.other, p, color, tree⟩ :: rest) near) :=
  linked_sibling

/-- The focus moves to the far child of the sibling. -/
theorem linked_far {black : Bool} :
    Linked t (TreePath.plug (⟨side, p, color, .join side near w black far⟩ :: rest) tree) ↔
      Linked t
        (TreePath.plug (⟨side.other, w, black, near⟩ :: ⟨side.other, p, color, tree⟩ :: rest) far) :=
  linked_near.trans linked_sibling

/-- The removed level is settled: the focused subtree keeps its order, and its hole lost one black
level. -/
structure Settled (t u : RbTree) (path settled : TreePath Nat) (tree : ColorTree Nat) (count : Nat) :
    Prop where
  linked : Linked u (TreePath.plug settled tree)
  same : Same t u
  before : TreePath.before settled = TreePath.before path
  after : TreePath.after settled = TreePath.after path
  balanced : TreePath.Balanced settled count
  top : TreePath.TopBlack settled

/-- A loop that goes on in another tree on the same nodes settles the path that it came from. -/
theorem Settled.resumed {t middle u : RbTree} {path turned settled : TreePath Nat} {tree : ColorTree Nat}
    {count : Nat} (final : Settled middle u turned settled tree count) (first : Same t middle)
    (before : TreePath.before turned = TreePath.before path)
    (after : TreePath.after turned = TreePath.after path) : Settled t u path settled tree count :=
  ⟨final.linked, first.trans final.same, final.before.trans before, final.after.trans after,
    final.balanced, final.top⟩

/-- The rest of `_fix_bb_new` after a pass. -/
def resume (fuel : Nat) (pass : RbTree × Nat) : Option RbTree := fixBbNew fuel pass.1 pass.2

/-- The loop of `_fix_bb_new` and its last colouring, one pass at a time. -/
theorem fixBbNew_succ (fuel : Nat) (t : RbTree) (x : Nat) :
    fixBbNew (fuel + 1) t x =
      if x ≠ t.root ∧ t.isBlack x then
        if t.getParent x = 0 then some (t.setBlack x)
        else
          resume fuel (fixBbPass (if x = t.child .left (t.getParent x) then .left else .right) t x
            (t.getParent x))
      else some (t.setBlack x) := by
  simp only [fixBbNew, fixBbNewLoop]
  split_ifs <;> rfl

theorem fixBbNew_root (fuel : Nat) (t : RbTree) :
    fixBbNew (fuel + 1) t t.root = some (t.setBlack t.root) := by
  rw [fixBbNew_succ, if_neg]
  rintro ⟨other, -⟩
  exact other rfl

theorem fixBbNew_red {x : Nat} (red : t.isRed x = true) :
    fixBbNew (fuel + 1) t x = some (t.setBlack x) := by
  rw [fixBbNew_succ, if_neg]
  rintro ⟨-, black⟩
  rw [t.isBlack_eq, red] at black
  exact absurd black (by decide)

/-- The root of the tree lies outside the hole of a path with a frame. -/
theorem ne_root {frame : Frame Nat} (linked : Linked t (TreePath.plug (frame :: rest) tree))
    (inner : tree ≠ .leaf) : ptr tree ≠ t.root := by
  rw [linked.root]
  intro equal
  have outside : ∀ (rest : TreePath Nat) (frame : Frame Nat) (tree : ColorTree Nat),
      ptr (TreePath.plug (frame :: rest) tree) ∈ TreePath.around (frame :: rest) := by
    intro rest
    induction rest with
    | nil => simp [Frame.fill, TreePath.mem_around_cons]
    | cons above rest ih =>
        intro frame tree
        exact TreePath.mem_around_cons.mpr (Or.inr (Or.inr (ih above (frame.fill tree))))
  exact linked.apart (ptr_mem inner) (equal ▸ outside rest frame tree)

/-- A black node below the root takes the pass of its side. -/
theorem fixBbNew_pass {frame : Frame Nat} (linked : Linked t (TreePath.plug (frame :: rest) tree))
    (inner : tree ≠ .leaf) (black : tree.isRed = false) :
    fixBbNew (fuel + 1) t (ptr tree) =
      resume fuel (fixBbPass frame.side t (ptr tree) frame.root) := by
  have parent : t.getParent (ptr tree) = frame.root := linked.getParent_ptr inner
  have real : frame.root ≠ 0 := (linked.aligned_path (TreePath.mem_around_cons.mpr (Or.inl rfl))).1
  have hole : (if ptr tree = t.child .left frame.root then Side.left else .right) = frame.side := by
    have hang := linked.child_top inner .left
    cases here : frame.side <;> simp [hang, here]
  rw [fixBbNew_succ, if_pos ⟨ne_root linked inner, by simp [t.isBlack_eq, linked.isRed_ptr, black]⟩,
    parent, if_neg real, hole]

/-- The colours that a pass reads below the sibling. -/
theorem read_sibling
    (linked : Linked t (TreePath.plug (⟨side, p, color, .join side near w true far⟩ :: rest) tree)) :
    t.child side w = ptr near ∧ t.child side.other w = ptr far ∧
      t.isBlack (ptr near) = !near.isRed ∧ t.isBlack (ptr far) = !far.isRed := by
  have sibling := linked_sibling.mp linked
  refine ⟨sibling.child_near, sibling.child_far, ?_, ?_⟩
  · rw [t.isBlack_eq, (linked_near.mp linked).isRed_ptr]
  · rw [t.isBlack_eq, (linked_far.mp linked).isRed_ptr]

/-- The sibling takes the colour of the parent. -/
theorem cpColor_linked
    (linked : Linked t (TreePath.plug (⟨side, p, color, .join side near w true far⟩ :: rest) tree)) :
    Linked (t.cpColor w p)
      (TreePath.plug (⟨side, p, color, .join side near w color far⟩ :: rest) tree) := by
  have sibling := linked_sibling.mp linked
  have wReal := (sibling.aligned_focus (ColorTree.mem_nodes_join.mpr (Or.inr (Or.inl rfl)))).1
  have pReal := (linked.aligned_path (TreePath.mem_around_cons.mpr (Or.inl rfl))).1
  have word : (t.heap p).isblack = color.toNat := linked.represents_path.2.2.2.1
  rw [RbTree.cpColor, if_neg wReal, if_neg pReal, word]
  exact linked_sibling.mpr (sibling.recolor color)

/-- The last pass rotates the red far child of the sibling up and turns to the root. -/
theorem fixBbBlack_far
    (linked : Linked t (TreePath.plug (⟨side, p, color, .join side near w true far⟩ :: rest) tree))
    (red : far.isRed = true) (x : Nat) :
    fixBbBlack side t x p w = (rotate side (((t.cpColor w p).setBlack p).setBlack (ptr far)) p,
      (rotate side (((t.cpColor w p).setBlack p).setBlack (ptr far)) p).root) := by
  obtain ⟨-, farChild, -, farColor⟩ := read_sibling linked
  have parent : Linked ((t.cpColor w p).setBlack p)
      (TreePath.plug (⟨side, p, true, .join side near w color far⟩ :: rest) tree) :=
    @Linked.setBlack _ rest _ _ _ _ _ (cpColor_linked linked)
  have farRead : ((t.cpColor w p).setBlack p).child side.other w = ptr far :=
    (linked_sibling.mp parent).child_far
  simp only [fixBbBlack, farChild, farColor, red, farRead]
  simp

/-- A red far child of the sibling ends the loop with one rotation. -/
theorem fixBb_far (fuel : Nat)
    (linked : Linked t (TreePath.plug (⟨side, p, color, .join side near w true far⟩ :: rest) tree))
    (outer : TreePath.Balanced (⟨side, p, color, .join side near w true far⟩ :: rest) (count + 1))
    (red : far.isRed = true) (x : Nat) :
    ∃ u settled, resume (fuel + 1) (fixBbBlack side t x p w) = some u ∧
      Settled t u (⟨side, p, color, .join side near w true far⟩ :: rest) settled tree count := by
  have parent : Linked ((t.cpColor w p).setBlack p)
      (TreePath.plug (⟨side, p, true, .join side near w color far⟩ :: rest) tree) :=
    @Linked.setBlack _ rest _ _ _ _ _ (cpColor_linked linked)
  have turned : Linked (((t.cpColor w p).setBlack p).setBlack (ptr far))
      (TreePath.plug rest (.join side tree p true (.join side near w color far.blacken))) :=
    linked_far.mpr (linked_far.mp parent).setBlack_ptr
  have rotated : Linked (rotate side (((t.cpColor w p).setBlack p).setBlack (ptr far)) p)
      (TreePath.plug (⟨side, p, true, near⟩ :: ⟨side, w, color, far.blacken⟩ :: rest) tree) :=
    turned.rotate
  have settled := outer.settle_far red
  have black := TreePath.isRed_plug settled (by simp) tree
  have final := rotated.setBlack_root
  rw [ColorTree.blacken_eq black] at final
  rw [fixBbBlack_far linked red]
  refine ⟨_, _, fixBbNew_root _ _, final, ?_, ?_, ?_, settled, ?_⟩
  · exact ((((Same.refl t).cpColor _ _).setBlack _).setBlack _).rotate _ _ |>.setBlack _
  · cases side <;> simp [TreePath.before, Frame.before, ColorTree.join]
  · cases side <;> simp [TreePath.after, Frame.after, ColorTree.join]
  · rintro frame above shape
    rw [← (List.cons.inj shape).1]

/-- A red near child of the sibling is rotated to its far side, and the pass keeps its node. -/
theorem fixBbBlack_near
    (linked : Linked t (TreePath.plug (⟨side, p, color, .join side near w true far⟩ :: rest) tree))
    (outer : TreePath.Balanced (⟨side, p, color, .join side near w true far⟩ :: rest) (count + 1))
    (red : near.isRed = true) (farBlack : far.isRed = false) (x : Nat) :
    ∃ low n high, near = .join side low n false high ∧
      fixBbBlack side t x p w = (rotate side.other ((t.setBlack n).setRed w) w, x) ∧
      Linked (rotate side.other ((t.setBlack n).setRed w) w) (TreePath.plug
        (⟨side, p, color, .join side low n true (.join side high w false far)⟩ :: rest) tree) ∧
      TreePath.Balanced
        (⟨side, p, color, .join side low n true (.join side high w false far)⟩ :: rest) (count + 1) := by
  obtain ⟨nearChild, farChild, nearColor, farColor⟩ := read_sibling linked
  have nearInner : near ≠ .leaf := by
    rintro rfl
    simp [ColorTree.isRed] at red
  obtain ⟨low, n, nearBlack, high, rfl⟩ := ColorTree.eq_join side nearInner
  obtain rfl : nearBlack = false := by simpa using red
  have blackened : Linked (t.setBlack n) (TreePath.plug
      (⟨side, p, color, .join side (.join side low n true high) w true far⟩ :: rest) tree) :=
    linked_near.mpr (linked_near.mp linked).setBlack
  have reddened : Linked ((t.setBlack n).setRed w) (TreePath.plug
      (⟨side, p, color, .join side (.join side low n true high) w false far⟩ :: rest) tree) :=
    linked_sibling.mpr (linked_sibling.mp blackened).setRed
  have focus := linked_sibling.mp reddened
  rw [← ColorTree.join_other side far, ← ColorTree.join_other side high] at focus
  have rotated := linked_sibling.mpr focus.rotate
  rw [ColorTree.join_other, ColorTree.join_other] at rotated
  refine ⟨low, n, high, rfl, ?_, rotated, outer.turn_near farBlack⟩
  simp only [fixBbBlack, nearChild, farChild, nearColor, farColor, farBlack]
  simp

/-- A red near child of the sibling is rotated to its far side; the next pass ends the loop. -/
theorem fixBb_near (fuel : Nat)
    (linked : Linked t (TreePath.plug (⟨side, p, color, .join side near w true far⟩ :: rest) tree))
    (outer : TreePath.Balanced (⟨side, p, color, .join side near w true far⟩ :: rest) (count + 1))
    (inner : tree ≠ .leaf) (black : tree.isRed = false) (red : near.isRed = true)
    (farBlack : far.isRed = false) :
    ∃ u settled, resume (fuel + 2) (fixBbBlack side t (ptr tree) p w) = some u ∧
      Settled t u (⟨side, p, color, .join side near w true far⟩ :: rest) settled tree count := by
  obtain ⟨low, n, high, rfl, pass, rotated, turned⟩ :=
    fixBbBlack_near linked outer red farBlack (ptr tree)
  have sibling : (rotate side.other ((t.setBlack n).setRed w) w).child side.other p = n :=
    (@Linked.child_far _ rest _ _ _ _ _ rotated).trans (ptr_join _ _ _ _ _)
  have siblingBlack : (rotate side.other ((t.setBlack n).setRed w) w).isRed n = false := by
    have color := (linked_sibling.mp rotated).isRed_ptr
    simpa using color
  have again : fixBbNew (fuel + 2) (rotate side.other ((t.setBlack n).setRed w) w) (ptr tree) =
      resume (fuel + 1)
        (fixBbBlack side (rotate side.other ((t.setBlack n).setRed w) w) (ptr tree) p n) := by
    rw [fixBbNew_pass rotated inner black]
    simp only [fixBbPass, sibling, siblingBlack]
    rfl
  obtain ⟨u, settled, run, final⟩ := fixBb_far fuel rotated turned (by simp) (ptr tree)
  rw [pass, resume, again]
  refine ⟨u, settled, run, final.resumed ((((Same.refl t).setBlack _).setRed _).rotate _ _) ?_ ?_⟩
  · cases side <;> simp [TreePath.before, Frame.before, ColorTree.join]
  · cases side <;> simp [TreePath.after, Frame.after, ColorTree.join]

/-- Below a black sibling with black children the pass reddens the sibling and turns to the parent. -/
theorem fixBb_both
    (linked : Linked t (TreePath.plug (⟨side, p, color, .join side near w true far⟩ :: rest) tree))
    (nearBlack : near.isRed = false) (farBlack : far.isRed = false) (x : Nat) :
    fixBbBlack side t x p w = (t.setRed w, p) ∧
      Linked (t.setRed w) (TreePath.plug rest (.join side tree p color (.join side near w false far))) := by
  obtain ⟨nearChild, farChild, nearColor, farColor⟩ := read_sibling linked
  constructor
  · simp [fixBbBlack, nearChild, farChild, nearColor, farColor, nearBlack, farBlack]
  · exact linked_sibling.mpr (linked_sibling.mp linked).setRed

/-- A red parent or a red child of a black sibling ends the loop. -/
theorem fixBb_ended (fuel : Nat)
    (linked : Linked t (TreePath.plug (⟨side, p, color, .join side near w true far⟩ :: rest) tree))
    (outer : TreePath.Balanced (⟨side, p, color, .join side near w true far⟩ :: rest) (count + 1))
    (inner : tree ≠ .leaf) (black : tree.isRed = false)
    (ends : color = false ∨ near.isRed = true ∨ far.isRed = true) :
    ∃ u settled, resume (fuel + 2) (fixBbBlack side t (ptr tree) p w) = some u ∧
      Settled t u (⟨side, p, color, .join side near w true far⟩ :: rest) settled tree count := by
  by_cases farRed : far.isRed = true
  · exact fixBb_far (fuel + 1) linked outer farRed (ptr tree)
  · have farBlack : far.isRed = false := by simpa using farRed
    by_cases nearRed : near.isRed = true
    · exact fixBb_near fuel linked outer inner black nearRed farBlack
    · have nearBlack : near.isRed = false := by simpa using nearRed
      obtain rfl : color = false := by tauto
      obtain ⟨pass, reddened⟩ := fixBb_both linked nearBlack farBlack (ptr tree)
      have red := reddened.isRed_ptr
      rw [ptr_join, ColorTree.isRed_join] at red
      rw [pass, resume, fixBbNew_red red]
      refine ⟨_, _, rfl, Linked.setBlack reddened, ?_, ?_, ?_,
        outer.settle_red nearBlack farBlack rfl, ?_⟩
      · exact ((Same.refl t).setRed w).setBlack p
      · cases side <;> simp [TreePath.before, Frame.before, ColorTree.join]
      · cases side <;> simp [TreePath.after, Frame.after, ColorTree.join]
      · rintro frame above shape
        rw [← (List.cons.inj shape).1]

/-- A red sibling is rotated over the parent, and the pass goes on with its black near child. -/
theorem fixBbPass_red
    (linked : Linked t (TreePath.plug (⟨side, p, color, .join side near w false far⟩ :: rest) tree))
    (outer : TreePath.Balanced (⟨side, p, color, .join side near w false far⟩ :: rest) (count + 1))
    (x : Nat) :
    ∃ low n high, near = .join side low n true high ∧
      t.child side.other p = w ∧ t.isRed w = true ∧
      (rotate side ((t.setBlack w).setRed p) p).child side.other p = n ∧
      fixBbPass side t x p = fixBbBlack side (rotate side ((t.setBlack w).setRed p) p) x p n ∧
      Linked (rotate side ((t.setBlack w).setRed p) p) (TreePath.plug
        (⟨side, p, false, .join side low n true high⟩ :: ⟨side, w, true, far⟩ :: rest) tree) ∧
      TreePath.Balanced
        (⟨side, p, false, .join side low n true high⟩ :: ⟨side, w, true, far⟩ :: rest) (count + 1) := by
  have sibling : t.child side.other p = w :=
    (@Linked.child_far _ rest _ _ _ _ _ linked).trans (ptr_join _ _ _ _ _)
  have red : t.isRed w = true := by
    have read := (linked_sibling.mp linked).isRed_ptr
    simpa using read
  have blackened : Linked (t.setBlack w) (TreePath.plug
      (⟨side, p, color, .join side near w true far⟩ :: rest) tree) :=
    linked_sibling.mpr (linked_sibling.mp linked).setBlack
  have reddened : Linked ((t.setBlack w).setRed p) (TreePath.plug rest
      (.join side tree p false (.join side near w true far))) := @Linked.setRed _ rest _ _ _ _ _ blackened
  obtain ⟨turned, nearBlack⟩ := outer.turn_red
  obtain ⟨low, n, color', high, rfl⟩ := ColorTree.eq_join side turned.1.inner
  obtain rfl : color' = true := by simpa using nearBlack
  have rotated : Linked (rotate side ((t.setBlack w).setRed p) p) (TreePath.plug
      (⟨side, p, false, .join side low n true high⟩ :: ⟨side, w, true, far⟩ :: rest) tree) :=
    reddened.rotate
  have next : (rotate side ((t.setBlack w).setRed p) p).child side.other p = n :=
    (@Linked.child_far _ (⟨side, w, true, far⟩ :: rest) _ _ _ _ _ rotated).trans (ptr_join _ _ _ _ _)
  refine ⟨low, n, high, rfl, sibling, red, next, ?_, rotated, turned⟩
  simp only [fixBbPass, sibling, red, if_true, next]

/-- A red sibling is rotated over the parent first, and then the red parent ends the loop. -/
theorem fixBb_red (fuel : Nat)
    (linked : Linked t (TreePath.plug (⟨side, p, color, .join side near w false far⟩ :: rest) tree))
    (outer : TreePath.Balanced (⟨side, p, color, .join side near w false far⟩ :: rest) (count + 1))
    (inner : tree ≠ .leaf) (black : tree.isRed = false) :
    ∃ u settled, resume (fuel + 2) (fixBbPass side t (ptr tree) p) = some u ∧
      Settled t u (⟨side, p, color, .join side near w false far⟩ :: rest) settled tree count := by
  obtain ⟨low, n, high, rfl, -, -, -, pass, rotated, turned⟩ := fixBbPass_red linked outer (ptr tree)
  obtain ⟨u, settled, run, final⟩ :=
    fixBb_ended fuel rotated turned inner black (Or.inl rfl)
  rw [pass]
  refine ⟨u, settled, run, final.resumed ((((Same.refl t).setBlack _).setRed _).rotate _ _) ?_ ?_⟩
  · cases side <;> simp [TreePath.before, Frame.before, ColorTree.join]
  · cases side <;> simp [TreePath.after, Frame.after, ColorTree.join]

/-- A black sibling is not rotated first. -/
theorem fixBbPass_black
    (linked : Linked t (TreePath.plug (⟨side, p, color, .join side near w true far⟩ :: rest) tree))
    (x : Nat) : t.child side.other p = w ∧ t.isRed w = false ∧
      fixBbPass side t x p = fixBbBlack side t x p w := by
  have sibling : t.child side.other p = w :=
    (@Linked.child_far _ rest _ _ _ _ _ linked).trans (ptr_join _ _ _ _ _)
  have black : t.isRed w = false := by
    have read := (linked_sibling.mp linked).isRed_ptr
    simpa using read
  exact ⟨sibling, black, by simp [fixBbPass, sibling, black]⟩

/-- The rebalancing takes one black level from the path around a black node. -/
theorem fixBbNew_linked (linked : Linked t (TreePath.plug path tree)) (inner : tree ≠ .leaf)
    (black : tree.isRed = false) (outer : TreePath.Balanced path (count + 1))
    (enough : path.length + 3 ≤ fuel) :
    ∃ u settled, fixBbNew fuel t (ptr tree) = some u ∧ Settled t u path settled tree count := by
  induction path generalizing t tree count fuel with
  | nil =>
      obtain ⟨less, rfl⟩ := Nat.exists_eq_add_one_of_ne_zero (show fuel ≠ 0 by omega)
      have final := linked.setBlack_root
      rw [TreePath.plug_nil, ColorTree.blacken_eq black] at final
      refine ⟨_, [], ?_, final, (Same.refl t).setBlack _, rfl, rfl, trivial, ?_⟩
      · have root := linked.root
        rw [TreePath.plug_nil] at root
        rw [← root, fixBbNew_root]
      · simp [TreePath.TopBlack]
  | cons frame rest ih =>
      obtain ⟨near, w, siblingBlack, far, shape⟩ := outer.sibling
      obtain ⟨side, p, color, sibling⟩ := frame
      simp only at shape
      subst shape
      obtain ⟨less, rfl⟩ := Nat.exists_eq_add_of_le' enough
      have steps : less + ((⟨side, p, color, .join side near w siblingBlack far⟩ :: rest :
          TreePath Nat).length + 3) = (less + rest.length + 3) + 1 := by
        simp only [List.length_cons]
        omega
      rw [steps, fixBbNew_pass linked inner black]
      cases siblingBlack with
      | false => exact fixBb_red (less + rest.length + 1) linked outer inner black
      | true =>
          simp only
          rw [(fixBbPass_black linked (ptr tree)).2.2]
          by_cases ends : color = false ∨ near.isRed = true ∨ far.isRed = true
          · exact fixBb_ended (less + rest.length + 1) linked outer inner black ends
          · simp only [not_or, Bool.not_eq_true, Bool.not_eq_false] at ends
            obtain ⟨rfl, nearBlack, farBlack⟩ := ends
            obtain ⟨next, reddened⟩ := fixBb_both linked nearBlack farBlack (ptr tree)
            obtain ⟨above, lower⟩ := outer.lift_black nearBlack farBlack
            obtain ⟨u, settled, run, final⟩ := ih reddened (by simp) (by simp) above
              (by omega : rest.length + 3 ≤ less + rest.length + 3)
            rw [ptr_join] at run
            rw [next, resume, run]
            refine ⟨u, ⟨side, p, true, .join side near w false far⟩ :: settled, rfl, final.linked,
              ((Same.refl t).setRed w).trans final.same, ?_, ?_, lower _ final.balanced, ?_⟩
            · cases side <;> simp [TreePath.before, Frame.before, ColorTree.join, final.before]
            · cases side <;> simp [TreePath.after, Frame.after, ColorTree.join, final.after]
            · rintro frame above shape
              rw [← (List.cons.inj shape).1]

end Syslib.Rbtree
