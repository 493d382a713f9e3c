import Syslib.Rbtree.Remove

namespace Syslib.Rbtree

open ColoredTree

variable {t u : RbTree} {tree : ColorTree Nat} {x p w : Nat}

/-- The siblings that one pass of `_fix_bb_new` reads; a red one is read again after its rotation. -/
def passSiblings (side : Side) (t : RbTree) (p : Nat) : List Nat :=
  let w := t.child side.other p
  if t.isRed w then
    let turned := rotate side ((t.setBlack w).setRed p) p
    [w, turned.child side.other p]
  else [w]

/-- The siblings that the loop of `_fix_bb_new` reads. -/
def fixBbSiblings : Nat → RbTree → Nat → List Nat
  | 0, _, _ => []
  | fuel + 1, t, x =>
    if x ≠ t.root ∧ t.isBlack x then
      let p := t.getParent x
      if p = 0 then []
      else
        let side := if x = t.child .left p then Side.left else Side.right
        let pass := fixBbPass side t x p
        passSiblings side t p ++ fixBbSiblings fuel pass.1 pass.2
    else []

/-- Between two passes the loop is about to end, or one black level is missing around its node. -/
def Fixing (t : RbTree) (x : Nat) : Prop :=
  x = t.root ∨ t.isRed x = true ∨ ∃ path tree count, x = ptr tree ∧ tree ≠ .leaf ∧ tree.isRed = false ∧
    Linked t (TreePath.plug path tree) ∧ TreePath.Balanced path (count + 1)

section Pass

variable {side : Side} {color : Bool} {rest : TreePath Nat} {near far : ColorTree Nat} {count : Nat}

/-- The pass below a black sibling. -/
theorem fixBbBlack_fixing
    (linked : Linked t (TreePath.plug (⟨side, p, color, .join side near w true far⟩ :: rest) tree))
    (outer : TreePath.Balanced (⟨side, p, color, .join side near w true far⟩ :: rest) (count + 1))
    (inner : tree ≠ .leaf) (black : tree.isRed = false) :
    Fixing (fixBbBlack side t (ptr tree) p w).1 (fixBbBlack side t (ptr tree) p w).2 := by
  cases farColor : far.isRed with
  | true =>
      rw [fixBbBlack_far linked farColor]
      exact Or.inl rfl
  | false =>
      cases nearColor : near.isRed with
      | true =>
          obtain ⟨low, n, high, rfl, pass, rotated, turned⟩ :=
            fixBbBlack_near linked outer nearColor farColor (ptr tree)
          rw [pass]
          exact Or.inr (Or.inr ⟨_, tree, count, rfl, inner, black, rotated, turned⟩)
      | false =>
          obtain ⟨pass, reddened⟩ := fixBb_both linked nearColor farColor (ptr tree)
          rw [pass]
          cases color with
          | false =>
              have read := reddened.isRed_ptr
              rw [ptr_join, ColorTree.isRed_join] at read
              exact Or.inr (Or.inl read)
          | true =>
              obtain ⟨above, -⟩ := outer.lift_black nearColor farColor
              refine Or.inr (Or.inr ⟨rest, _, count + 1, ?_, ?_, ?_, reddened, above⟩)
              · rw [ptr_join]
              · exact ColorTree.join_ne_leaf _ _ _ _ _
              · rw [ColorTree.isRed_join, Bool.not_true]

/-- One pass reads only real siblings and keeps what the next pass needs. -/
theorem fixBbPass_fixing {frame : Frame Nat} (linked : Linked t (TreePath.plug (frame :: rest) tree))
    (outer : TreePath.Balanced (frame :: rest) (count + 1))
    (inner : tree ≠ .leaf) (black : tree.isRed = false) :
    (∀ w ∈ passSiblings frame.side t frame.root, w ≠ 0) ∧
      Fixing (fixBbPass frame.side t (ptr tree) frame.root).1
        (fixBbPass frame.side t (ptr tree) frame.root).2 := by
  obtain ⟨near, w, siblingBlack, far, shape⟩ := outer.sibling
  obtain ⟨side, p, color, sibling⟩ := frame
  simp only at shape ⊢
  subst shape
  have member : w ∈ (ColorTree.join side near w siblingBlack far).nodes :=
    ColorTree.mem_nodes_join.mpr (Or.inr (Or.inl rfl))
  have real : w ≠ 0 := ((linked_sibling.mp linked).aligned_focus member).1
  cases siblingBlack with
  | true =>
      obtain ⟨read, plain, pass⟩ := fixBbPass_black linked (ptr tree)
      rw [pass]
      refine ⟨?_, fixBbBlack_fixing linked outer inner black⟩
      simp only [passSiblings, read, plain, Bool.false_eq_true, if_false, List.mem_singleton]
      rintro _ rfl
      exact real
  | false =>
      obtain ⟨low, n, high, rfl, read, red, next, pass, rotated, turned⟩ :=
        fixBbPass_red linked outer (ptr tree)
      have lowMember : n ∈ (ColorTree.join side low n true high).nodes :=
        ColorTree.mem_nodes_join.mpr (Or.inr (Or.inl rfl))
      have lowReal : n ≠ 0 := ((linked_sibling.mp rotated).aligned_focus lowMember).1
      rw [pass]
      refine ⟨?_, fixBbBlack_fixing rotated turned inner black⟩
      simp only [passSiblings, read, red, if_true, next, List.mem_cons, List.not_mem_nil, or_false]
      rintro _ (rfl | rfl)
      · exact real
      · exact lowReal

end Pass

/-- The loop never reads a null sibling, however many passes it takes. -/
theorem fixBbSiblings_real (fuel : Nat) (fixing : Fixing t x) : ∀ w ∈ fixBbSiblings fuel t x, w ≠ 0 := by
  induction fuel generalizing t x with
  | zero => simp [fixBbSiblings]
  | succ fuel ih =>
      rw [fixBbSiblings]
      split_ifs with running
      swap
      · simp
      rcases fixing with root | red | ⟨path, tree, count, rfl, inner, black, linked, outer⟩
      · exact absurd root running.1
      · have dark := running.2
        rw [t.isBlack_eq, red] at dark
        exact absurd dark (by decide)
      · cases path with
        | nil =>
            have root := linked.root
            exact absurd root.symm running.1
        | cons frame rest =>
            have parent : t.getParent (ptr tree) = frame.root := linked.getParent_ptr inner
            have hole : (if ptr tree = t.child .left frame.root then Side.left else .right) =
                frame.side := by
              have hang := linked.child_top inner .left
              cases here : frame.side <;> simp [hang, here]
            obtain ⟨real, next⟩ := fixBbPass_fixing linked outer inner black
            simp only [parent, hole]
            split_ifs
            · simp
            · intro w member
              rcases List.mem_append.mp member with here | later
              · exact real w here
              · exact ih next w later

/-- The black node `x` has lost its level: the tree is balanced when it is not counted. -/
structure Uncounted (t u : RbTree) (tree result : ColorTree Nat) (x : Nat) : Prop where
  linked : Linked u result
  nodes : result.nodes = tree.nodes
  same : Same t u
  children : ∀ side, u.child side x = t.child side x
  black : result.isRed = false
  noRedRed : result.NoRedRed
  top : x = u.root ↔ x = t.root
  parent : x ≠ u.root → u.getParent x ∈ result.nodes ∧ u.isRed (u.getParent x) = false
  levels : ∃ count, result.BlackHeightBut x count

/-- `_fix_bb_new` settles the level of a black node with at most one child before it is spliced out. -/
theorem fixBbNew_uncounted {fuel : Nat} (linked : Linked t tree) (redBlack : RedBlack tree)
    (member : x ∈ tree.nodes) (dark : t.isBlack x = true)
    (one : t.child .left x = 0 ∨ t.child .right x = 0) (enough : tree.nodes.length + 3 ≤ fuel) :
    ∃ u result, fixBbNew fuel t x = some u ∧ Uncounted t u tree result x ∧
      ∀ steps, ∀ w ∈ fixBbSiblings steps t x, w ≠ 0 := by
  obtain ⟨path, left, black, right, rfl⟩ := TreePath.exists_focus member
  have bound := TreePath.length_plug path (.node left x black right)
  have real := (linked.aligned x member).1
  have color : (ColorTree.node left x black right).isRed = false := by
    have read := linked.isRed_ptr
    rw [t.isBlack_eq] at dark
    rw [← read]
    simpa [ptr] using dark
  obtain rfl : black = true := by simpa [ColorTree.isRed] using color
  obtain ⟨count, balanced, outer, -⟩ := TreePath.redBlack_plug.mp redBlack
  obtain ⟨below, leftLevels, rightLevels, -, total⟩ := (@ColorTree.balanced_join _ .left _ _ _ _ _).mp balanced
  have leftChild : t.child .left x = ptr left := @Linked.child_near t path .left _ _ _ _ linked
  have rightChild : t.child .right x = ptr right := @Linked.child_far t path .left _ _ _ _ linked
  have leaf : ∀ child : ColorTree Nat, (∀ a ∈ child.nodes, a ≠ 0) → ptr child = 0 → child = .leaf := by
    intro child nodes missing
    by_contra inner
    exact nodes _ (ptr_mem inner) missing
  obtain rfl : below = 0 := by
    rcases one with missing | missing
    · obtain rfl := leaf left (fun a inside => (linked.aligned_focus (by simp [inside])).1)
        (leftChild ▸ missing)
      exact ColorTree.balanced_leaf.mp leftLevels
    · obtain rfl := leaf right (fun a inside => (linked.aligned_focus (by simp [inside])).1)
        (rightChild ▸ missing)
      exact ColorTree.balanced_leaf.mp rightLevels
  obtain rfl : count = 0 + 1 := total
  have apart : x ∉ TreePath.around path := linked.apart (by simp)
  have fixing : Fixing t x :=
    Or.inr (Or.inr ⟨path, _, 0, rfl, by simp, color, linked, outer⟩)
  obtain ⟨u, settled, run, final⟩ := fixBbNew_linked linked (by simp) color outer
    (by omega : path.length + 3 ≤ fuel)
  have around : TreePath.around settled = TreePath.around path := by
    rw [TreePath.around, TreePath.around, final.before, final.after]
  have leftFinal : u.child .left x = ptr left := @Linked.child_near u settled .left _ _ _ _ final.linked
  have rightFinal : u.child .right x = ptr right := @Linked.child_far u settled .left _ _ _ _ final.linked
  have outside : ∀ {v : RbTree} {frames : TreePath Nat},
      Linked v (TreePath.plug frames (.node left x true right)) → (x = v.root ↔ frames = []) := by
    intro v frames held
    cases frames with
    | nil => exact ⟨fun _ => rfl, fun _ => held.root.symm⟩
    | cons frame rest => exact ⟨fun root => absurd root (ne_root held (by simp)), by simp⟩
  have empty : settled = [] ↔ path = [] := by
    have lengths : ∀ frames : TreePath Nat, frames = [] ↔ TreePath.around frames = [] := by
      intro frames
      constructor
      · rintro rfl
        rfl
      · intro none
        have short := TreePath.length_le_around frames
        rw [none] at short
        exact List.length_eq_zero_iff.mp (Nat.le_zero.mp short)
    rw [lengths, lengths, around]
  refine ⟨u, TreePath.plug settled (.node left x true right), run, ⟨final.linked, ?_, final.same, ?_, ?_, ?_,
    ?_, ?_, ?_⟩, fun steps => fixBbSiblings_real steps fixing⟩
  · rw [TreePath.nodes_plug, TreePath.nodes_plug, final.before, final.after]
  · rintro (_ | _)
    · rw [leftFinal, leftChild]
    · rw [rightFinal, rightChild]
  · by_cases top : settled = []
    · rw [top]
      rfl
    · exact TreePath.isRed_plug final.balanced top _
  · exact final.balanced.noRedRed balanced.1 rfl
  · rw [outside final.linked, outside linked, empty]
  · intro lower
    cases settled with
    | nil => exact absurd ((outside final.linked).mpr rfl) lower
    | cons frame rest =>
        have parent : u.getParent x = frame.root := @Linked.getParent_ptr u _ _ final.linked (by simp)
        have above : Linked u (TreePath.plug rest (frame.fill (.node left x true right))) := final.linked
        have read := above.isRed_ptr
        rw [Frame.fill, ptr_join, ColorTree.isRed_join, final.top frame rest rfl] at read
        rw [parent]
        exact ⟨TreePath.mem_plug.mpr (Or.inr (TreePath.mem_around_cons.mpr (Or.inl rfl))), by simpa using read⟩
  · apply final.balanced.but _ (around ▸ apart)
    have nodup := (@ColorTree.nodup_join _ .left _ _ _ _).mp linked.nodup_focus
    exact ⟨0, leftLevels.2.but nodup.2.2.1, rightLevels.2.but nodup.2.2.2.1, by simp⟩

/-- The left leaf of three black nodes loses its level. -/
theorem fixBbNew_uncounted_three :
    let heap : Nat → RbNode := fun
      | 4 => ⟨2, 8, 12, 1⟩
      | 8 => ⟨1, 0, 0, 5⟩
      | 12 => ⟨3, 0, 0, 5⟩
      | _ => ⟨0, 0, 0, 0⟩
    let t : RbTree := { heap := heap, root := 4, size := 3, cfunc := none }
    let tree : ColorTree Nat := .node (.node .leaf 8 true .leaf) 4 true (.node .leaf 12 true .leaf)
    ∃ u result, fixBbNew 6 t 8 = some u ∧ Uncounted t u tree result 8 ∧
      ∀ steps, ∀ w ∈ fixBbSiblings steps t 8, w ≠ 0 := by
  intro heap t tree
  have linked : Linked t tree := by
    refine ⟨rfl, ?_, by decide, by decide⟩
    simp [tree, t, heap, Represents, ptr, RbTree.cell, RbNode.cell, RbNode.child, RbNode.isblack]
  have redBlack : RedBlack tree := by
    refine ⟨2, ⟨?_, ?_⟩, rfl⟩
    · simp [tree, ColorTree.NoRedRed]
    · simp [tree, ColorTree.BlackHeight]
  exact fixBbNew_uncounted linked redBlack (by decide) (by decide) (by decide) (by decide)

end Syslib.Rbtree
