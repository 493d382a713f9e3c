import Syslib.Library.ColoredTree

namespace Syslib.ColoredTree

variable {α : Type*}

namespace ColorTree

/-- No red position has a red child. -/
def NoRedRed : ColorTree α → Prop
  | .leaf => True
  | .node left _ black right =>
      (black = false → left.isRed = false ∧ right.isRed = false) ∧ left.NoRedRed ∧ right.NoRedRed

/-- Every path to a missing child passes the same number of black positions. -/
def BlackHeight : ColorTree α → Nat → Prop
  | .leaf, count => count = 0
  | .node left _ black right, count =>
      ∃ below, left.BlackHeight below ∧ right.BlackHeight below ∧ count = below + black.toNat

def Balanced (tree : ColorTree α) (count : Nat) : Prop :=
  tree.NoRedRed ∧ tree.BlackHeight count

@[simp] theorem balanced_leaf {count : Nat} : (leaf : ColorTree α).Balanced count ↔ count = 0 := by
  simp [Balanced, NoRedRed, BlackHeight]

theorem balanced_join {side : Side} {near far : ColorTree α} {root : α} {black : Bool} {count : Nat} :
    (join side near root black far).Balanced count ↔ ∃ below, near.Balanced below ∧
      far.Balanced below ∧ (black = false → near.isRed = false ∧ far.isRed = false) ∧
      count = below + black.toNat := by
  cases side
  · constructor
    · rintro ⟨⟨colors, nearColors, farColors⟩, below, nearHeight, farHeight, total⟩
      exact ⟨below, ⟨nearColors, nearHeight⟩, ⟨farColors, farHeight⟩, colors, total⟩
    · rintro ⟨below, ⟨nearColors, nearHeight⟩, ⟨farColors, farHeight⟩, colors, total⟩
      exact ⟨⟨colors, nearColors, farColors⟩, below, nearHeight, farHeight, total⟩
  · constructor
    · rintro ⟨⟨colors, farColors, nearColors⟩, below, farHeight, nearHeight, total⟩
      exact ⟨below, ⟨nearColors, nearHeight⟩, ⟨farColors, farHeight⟩, fun red => (colors red).symm, total⟩
    · rintro ⟨below, ⟨nearColors, nearHeight⟩, ⟨farColors, farHeight⟩, colors, total⟩
      exact ⟨⟨fun red => (colors red).symm, farColors, nearColors⟩, below, farHeight, nearHeight, total⟩

theorem Balanced.blacken {tree : ColorTree α} {count : Nat} (balanced : tree.Balanced count) :
    ∃ grown, tree.blacken.Balanced grown ∧ tree.blacken.isRed = false := by
  cases tree with
  | leaf => exact ⟨0, by simp [ColorTree.blacken], rfl⟩
  | node left root black right =>
      obtain ⟨below, near, far, _, _⟩ := (@balanced_join _ .left _ _ _ _ _).mp balanced
      exact ⟨below + 1, (@balanced_join _ .left _ _ _ _ _).mpr ⟨below, near, far, by simp, rfl⟩, rfl⟩

/-- A red root over a balanced tree blackens to one more black level. -/
theorem Balanced.blacken_red {tree : ColorTree α} {count : Nat} (balanced : tree.Balanced count)
    (red : tree.isRed = true) : tree.blacken.Balanced (count + 1) ∧ tree.blacken.isRed = false := by
  cases tree with
  | leaf => simp [isRed] at red
  | node left root black right =>
      obtain ⟨below, near, far, _, total⟩ := (@balanced_join _ .left _ _ _ _ _).mp balanced
      have plain : black = false := by simpa [isRed] using red
      subst plain
      exact ⟨(@balanced_join _ .left _ _ _ _ _).mpr ⟨below, near, far, by simp, by simpa using total⟩,
        rfl⟩

/-- A tree with a black level below has an inner root. -/
theorem Balanced.inner {tree : ColorTree α} {count : Nat} (balanced : tree.Balanced (count + 1)) :
    tree ≠ .leaf := by
  rintro rfl
  simp at balanced

/-- Each red level lies below a black one, so the height is at most twice the black height. -/
theorem Balanced.height_le {tree : ColorTree α} {count : Nat} (balanced : tree.Balanced count) :
    tree.height ≤ 2 * count + (if tree.isRed then 1 else 0) := by
  induction tree generalizing count with
  | leaf => simp [height]
  | node left root black right ihLeft ihRight =>
      obtain ⟨below, near, far, colors, total⟩ := (@balanced_join _ .left _ _ _ _ _).mp balanced
      have leftBound := ihLeft near
      have rightBound := ihRight far
      cases black
      · obtain ⟨leftBlack, rightBlack⟩ := colors rfl
        simp only [leftBlack, rightBlack] at leftBound rightBound
        simp only [height, isRed, total]
        simp at leftBound rightBound ⊢
        omega
      · simp only [height, isRed, total]
        split_ifs at leftBound rightBound <;> simp <;> omega

theorem Balanced.two_pow_le {tree : ColorTree α} {count : Nat} (balanced : tree.Balanced count) :
    2 ^ count ≤ tree.size + 1 := by
  induction tree generalizing count with
  | leaf =>
      have zero := balanced_leaf.mp balanced
      simp [zero, size]
  | node left root black right ihLeft ihRight =>
      obtain ⟨below, near, far, _, total⟩ := (@balanced_join _ .left _ _ _ _ _).mp balanced
      have leftBound := ihLeft near
      have rightBound := ihRight far
      have level : 2 ^ count ≤ 2 * 2 ^ below := by
        rw [total, ← pow_succ']
        apply Nat.pow_le_pow_right (by decide)
        cases black <;> simp
      simp only [size]
      omega

end ColorTree

/-- A red-black tree has a black root. -/
def RedBlack (tree : ColorTree α) : Prop := ∃ count, tree.Balanced count ∧ tree.isRed = false

theorem ColorTree.Balanced.redBlack {tree : ColorTree α} {count : Nat}
    (balanced : tree.Balanced count) : RedBlack tree.blacken := balanced.blacken

theorem RedBlack.blacken {tree : ColorTree α} (redBlack : RedBlack tree) : RedBlack tree.blacken := by
  obtain ⟨count, balanced, -⟩ := redBlack
  exact balanced.redBlack

/-- The depth is at most `2 * log2 (size + 1)`. -/
theorem RedBlack.depth {tree : ColorTree α} (redBlack : RedBlack tree) :
    tree.height ≤ 2 * Nat.log 2 (tree.size + 1) := by
  obtain ⟨count, balanced, black⟩ := redBlack
  have height := balanced.height_le
  have level := Nat.le_log_of_pow_le (by decide) balanced.two_pow_le
  rw [black] at height
  simp only [Bool.false_eq_true, if_false] at height
  omega

namespace TreePath

/-- The hole of a path takes no red root at the top of the tree or under a red frame. -/
def needsBlack : TreePath α → Bool
  | [] => true
  | frame :: _ => !frame.black

/-- The path is balanced around a hole of the given black height, and its top frame is black. -/
def Balanced : TreePath α → Nat → Prop
  | [], _ => True
  | frame :: rest, count => frame.sibling.Balanced count ∧
      (frame.black = false → frame.sibling.isRed = false ∧ needsBlack rest = false) ∧
      Balanced rest (count + frame.black.toNat)

/-- A filled path is a red-black tree exactly when the path and the tree fit each other. -/
theorem redBlack_plug {path : TreePath α} {tree : ColorTree α} :
    RedBlack (plug path tree) ↔ ∃ count, tree.Balanced count ∧ Balanced path count ∧
      (needsBlack path = true → tree.isRed = false) := by
  induction path generalizing tree with
  | nil => simp [RedBlack, Balanced, needsBlack]
  | cons frame rest ih =>
      rw [plug_cons, ih]
      constructor
      · rintro ⟨count, filled, outer, fits⟩
        obtain ⟨below, near, far, colors, total⟩ := ColorTree.balanced_join.mp filled
        simp only [Frame.fill, ColorTree.isRed_join, Bool.not_eq_false'] at fits
        refine ⟨below, near, ⟨far, fun red => ⟨(colors red).2, ?_⟩, by rwa [← total]⟩, ?_⟩
        · by_contra needed
          have black := fits (by simpa using needed)
          simp [red] at black
        · intro needed
          exact (colors (by simpa [needsBlack] using needed)).1
      · rintro ⟨count, balanced, ⟨sibling, colors, outer⟩, fits⟩
        refine ⟨count + frame.black.toNat, ColorTree.balanced_join.mpr ⟨count, balanced, sibling,
          fun red => ⟨fits (by simp [needsBlack, red]), (colors red).1⟩, rfl⟩, outer, ?_⟩
        intro needed
        simp only [Frame.fill, ColorTree.isRed_join, Bool.not_eq_false']
        by_contra red
        have allowed := (colors (by simpa using red)).2
        simp [needed] at allowed

/-- A red frame has a black frame above it. -/
theorem Balanced.grand {frame : Frame α} {rest : TreePath α} {count : Nat}
    (balanced : Balanced (frame :: rest) count) (red : frame.black = false) :
    ∃ grand outer, rest = grand :: outer ∧ grand.black = true ∧ frame.sibling.isRed = false ∧
      frame.sibling.Balanced count ∧ grand.sibling.Balanced count ∧ Balanced outer (count + 1) := by
  obtain ⟨sibling, colors, above⟩ := balanced
  obtain ⟨black, allowed⟩ := colors red
  cases rest with
  | nil => simp [needsBlack] at allowed
  | cons grand outer =>
      have grandBlack : grand.black = true := by simpa [needsBlack] using allowed
      obtain ⟨uncle, _, top⟩ := above
      simp only [red, Bool.toNat_false, Nat.add_zero, grandBlack, Bool.toNat_true] at uncle top
      exact ⟨grand, outer, rfl, grandBlack, black, sibling, uncle, top⟩

/-- A tree that fits a path fills it to a balanced tree; at the top any root colour fits. -/
theorem balanced_plug {path : TreePath α} {tree : ColorTree α} {count : Nat}
    (balanced : tree.Balanced count) (outer : Balanced path count)
    (fits : ∀ frame rest, path = frame :: rest → frame.black = false → tree.isRed = false) :
    ∃ total, (plug path tree).Balanced total := by
  cases path with
  | nil => exact ⟨count, balanced⟩
  | cons frame rest =>
      have filled : RedBlack (plug (frame :: rest) tree) := by
        apply redBlack_plug.mpr
        refine ⟨count, balanced, outer, ?_⟩
        intro needed
        exact fits frame rest rfl (by simpa [needsBlack] using needed)
      obtain ⟨total, result, _⟩ := filled
      exact ⟨total, result⟩

/-- A red node under a red parent with a red uncle passes the conflict two levels up. -/
theorem recolor_uncle {frame grand : Frame α} {rest : TreePath α} {tree : ColorTree α} {count : Nat}
    (balanced : tree.Balanced count) (outer : Balanced (frame :: grand :: rest) count)
    (red : frame.black = false) (uncle : grand.sibling.isRed = true) :
    (ColorTree.join grand.side (.join frame.side tree frame.root true frame.sibling) grand.root false
      grand.sibling.blacken).Balanced (count + 1) ∧ Balanced rest (count + 1) := by
  obtain ⟨above, top, shape, -, -, sibling, uncleBalanced, upper⟩ := outer.grand red
  obtain ⟨rfl, rfl⟩ := List.cons.inj shape
  obtain ⟨grown, blackRoot⟩ := uncleBalanced.blacken_red uncle
  refine ⟨?_, upper⟩
  apply ColorTree.balanced_join.mpr
  refine ⟨count + 1, ?_, grown, fun _ => ⟨by simp, blackRoot⟩, rfl⟩
  exact ColorTree.balanced_join.mpr ⟨count, balanced, sibling, by simp, rfl⟩

/-- The rotation of a red parent over a black grandparent settles the conflict of an outer node. -/
theorem rotate_outer {frame grand : Frame α} {rest : TreePath α} {tree : ColorTree α} {count : Nat}
    (balanced : tree.Balanced count) (outer : Balanced (frame :: grand :: rest) count)
    (red : frame.black = false) (uncle : grand.sibling.isRed = false) (side : Side) :
    (ColorTree.join side tree frame.root true
      (.join side frame.sibling grand.root false grand.sibling)).Balanced (count + 1) ∧
      Balanced rest (count + 1) := by
  obtain ⟨above, top, shape, -, siblingBlack, sibling, uncleBalanced, upper⟩ := outer.grand red
  obtain ⟨rfl, rfl⟩ := List.cons.inj shape
  refine ⟨?_, upper⟩
  apply ColorTree.balanced_join.mpr
  refine ⟨count, balanced, ?_, by simp, rfl⟩
  exact ColorTree.balanced_join.mpr ⟨count, sibling, uncleBalanced, fun _ => ⟨siblingBlack, uncle⟩, rfl⟩

/-- The double rotation settles the conflict of an inner node. -/
theorem rotate_inner {frame grand : Frame α} {rest : TreePath α} {near far : ColorTree α} {root : α}
    {side turn : Side} {count : Nat}
    (balanced : (ColorTree.join turn near root false far).Balanced count)
    (outer : Balanced (frame :: grand :: rest) count)
    (red : frame.black = false) (uncle : grand.sibling.isRed = false) :
    (ColorTree.join side (.join side frame.sibling frame.root false near) root true
      (.join side far grand.root false grand.sibling)).Balanced (count + 1) ∧
      Balanced rest (count + 1) := by
  obtain ⟨above, top, shape, -, siblingBlack, sibling, uncleBalanced, upper⟩ := outer.grand red
  obtain ⟨rfl, rfl⟩ := List.cons.inj shape
  obtain ⟨below, nearBalanced, farBalanced, blacks, total⟩ := ColorTree.balanced_join.mp balanced
  obtain ⟨nearBlack, farBlack⟩ := blacks rfl
  obtain rfl : count = below := by simpa using total
  refine ⟨?_, upper⟩
  apply ColorTree.balanced_join.mpr
  refine ⟨count, ?_, ?_, by simp, rfl⟩
  · exact ColorTree.balanced_join.mpr ⟨count, sibling, nearBalanced, fun _ => ⟨siblingBlack, nearBlack⟩, rfl⟩
  · exact ColorTree.balanced_join.mpr
      ⟨count, farBalanced, uncleBalanced, fun _ => ⟨farBlack, uncle⟩, rfl⟩

/-- A balanced path with a frame has a black frame at the top of the tree. -/
theorem isRed_plug {path : TreePath α} {count : Nat} (balanced : Balanced path count)
    (framed : path ≠ []) (tree : ColorTree α) : (plug path tree).isRed = false := by
  induction path generalizing tree count with
  | nil => exact absurd rfl framed
  | cons frame rest ih =>
      obtain ⟨-, colors, outer⟩ := balanced
      cases rest with
      | nil =>
          have black : frame.black = true := by
            by_contra red
            simpa [needsBlack] using (colors (by simpa using red)).2
          simp [Frame.fill, black]
      | cons above top => exact ih outer (by simp) _

/-- The innermost frame of the path is black, so its hole takes a root of any colour. -/
def TopBlack (path : TreePath α) : Prop :=
  ∀ frame rest, path = frame :: rest → frame.black = true

variable {near far : ColorTree α} {root p : α} {rest : TreePath α} {side : Side} {color : Bool}
  {count : Nat}

/-- The sibling of a hole that needs one more black level is an inner tree. -/
theorem Balanced.sibling {frame : Frame α} (outer : Balanced (frame :: rest) (count + 1)) :
    ∃ near root black far, frame.sibling = .join frame.side near root black far :=
  ColorTree.eq_join frame.side outer.1.inner

/-- The subtrees below a black sibling. -/
theorem Balanced.black_sibling
    (outer : Balanced (⟨side, p, color, .join side near root true far⟩ :: rest) (count + 1)) :
    near.Balanced count ∧ far.Balanced count ∧ (color = false → needsBlack rest = false) ∧
      Balanced rest (count + 1 + color.toNat) := by
  obtain ⟨sibling, colors, above⟩ := outer
  obtain ⟨below, nearBalanced, farBalanced, -, total⟩ := ColorTree.balanced_join.mp sibling
  obtain rfl : count = below := by simpa using total
  exact ⟨nearBalanced, farBalanced, fun red => (colors red).2, above⟩

/-- A red sibling is rotated over its black parent, and the new sibling is black. -/
theorem Balanced.turn_red
    (outer : Balanced (⟨side, p, color, .join side near root false far⟩ :: rest) (count + 1)) :
    Balanced (⟨side, p, false, near⟩ :: ⟨side, root, true, far⟩ :: rest) (count + 1) ∧
      near.isRed = false := by
  obtain ⟨sibling, colors, above⟩ := outer
  obtain ⟨below, nearBalanced, farBalanced, blacks, total⟩ := ColorTree.balanced_join.mp sibling
  obtain rfl : count + 1 = below := by simpa using total
  have black : color = true := by
    by_contra red
    simpa using (colors (by simpa using red)).1
  subst black
  refine ⟨⟨nearBalanced, fun _ => ⟨(blacks rfl).1, rfl⟩, farBalanced, ?_, above⟩, (blacks rfl).1⟩
  simp

/-- A black sibling with black children turns red; a red parent then turns black. -/
theorem Balanced.settle_red
    (outer : Balanced (⟨side, p, color, .join side near root true far⟩ :: rest) (count + 1))
    (nearBlack : near.isRed = false) (farBlack : far.isRed = false) (red : color = false) :
    Balanced (⟨side, p, true, .join side near root false far⟩ :: rest) count := by
  obtain ⟨nearBalanced, farBalanced, -, above⟩ := outer.black_sibling
  subst red
  refine ⟨ColorTree.balanced_join.mpr ⟨count, nearBalanced, farBalanced, ?_, rfl⟩, by simp, above⟩
  exact fun _ => ⟨nearBlack, farBlack⟩

/-- Below a black parent the missing black level moves up by one frame. -/
theorem Balanced.lift_black
    (outer : Balanced (⟨side, p, true, .join side near root true far⟩ :: rest) (count + 1))
    (nearBlack : near.isRed = false) (farBlack : far.isRed = false) :
    Balanced rest (count + 1 + 1) ∧ ∀ above, Balanced above (count + 1) →
      Balanced (⟨side, p, true, .join side near root false far⟩ :: above) count := by
  obtain ⟨nearBalanced, farBalanced, -, upper⟩ := outer.black_sibling
  refine ⟨upper, ?_⟩
  intro above balanced
  refine ⟨ColorTree.balanced_join.mpr ⟨count, nearBalanced, farBalanced, ?_, rfl⟩, by simp, balanced⟩
  exact fun _ => ⟨nearBlack, farBlack⟩

/-- A red far child of the sibling settles the missing level by one rotation. -/
theorem Balanced.settle_far
    (outer : Balanced (⟨side, p, color, .join side near root true far⟩ :: rest) (count + 1))
    (red : far.isRed = true) :
    Balanced (⟨side, p, true, near⟩ :: ⟨side, root, color, far.blacken⟩ :: rest) count := by
  obtain ⟨nearBalanced, farBalanced, needs, above⟩ := outer.black_sibling
  obtain ⟨grown, black⟩ := farBalanced.blacken_red red
  exact ⟨nearBalanced, by simp, grown, fun plain => ⟨black, needs plain⟩, above⟩

/-- A red near child of the sibling is turned into a red far child. -/
theorem Balanced.turn_near {inner outside : ColorTree α} {low : α}
    (outer : Balanced
      (⟨side, p, color, .join side (.join side inner low false outside) root true far⟩ :: rest)
      (count + 1))
    (farBlack : far.isRed = false) :
    Balanced
      (⟨side, p, color, .join side inner low true (.join side outside root false far)⟩ :: rest)
      (count + 1) := by
  obtain ⟨nearBalanced, farBalanced, needs, above⟩ := outer.black_sibling
  obtain ⟨below, innerBalanced, outsideBalanced, blacks, total⟩ := ColorTree.balanced_join.mp nearBalanced
  obtain rfl : count = below := by simpa using total
  refine ⟨ColorTree.balanced_join.mpr ⟨count, innerBalanced, ?_, by simp, rfl⟩, ?_, above⟩
  · exact ColorTree.balanced_join.mpr
      ⟨count, outsideBalanced, farBalanced, fun _ => ⟨(blacks rfl).2, farBlack⟩, rfl⟩
  · exact fun plain => ⟨by simp, needs plain⟩

end TreePath

namespace ColorTree

theorem blacken_eq {tree : ColorTree α} (black : tree.isRed = false) : tree.blacken = tree := by
  cases tree with
  | leaf => rfl
  | node left root color right =>
      obtain rfl : color = true := by simpa [isRed] using black
      rfl

/-- A tree without black levels is missing or a single red node. -/
theorem Balanced.single {tree : ColorTree α} (balanced : tree.Balanced 0) :
    tree = .leaf ∨ ∃ root, tree = .node .leaf root false .leaf := by
  cases tree with
  | leaf => exact Or.inl rfl
  | node left root black right =>
      obtain ⟨below, near, far, blacks, total⟩ := (@balanced_join _ .left _ _ _ _ _).mp balanced
      cases black with
      | true => simp at total
      | false =>
          obtain rfl : 0 = below := by simpa using total
          obtain ⟨leftBlack, rightBlack⟩ := blacks rfl
          refine Or.inr ⟨root, ?_⟩
          have missing : ∀ child : ColorTree α, child.Balanced 0 → child.isRed = false →
              child = .leaf := by
            intro child levels black
            cases child with
            | leaf => rfl
            | node low node color high =>
                obtain rfl : color = true := by simpa [isRed] using black
                obtain ⟨_, _, _, _, total⟩ := (@balanced_join _ .left _ _ _ _ _).mp levels
                simp at total
          rw [missing left near leftBlack, missing right far rightBlack]

@[simp] theorem isRed_map {β : Type*} (rename : α → β) (tree : ColorTree α) :
    (tree.map rename).isRed = tree.isRed := by
  cases tree <;> rfl

theorem balanced_map {β : Type*} (rename : α → β) {tree : ColorTree α} {count : Nat} :
    (tree.map rename).Balanced count ↔ tree.Balanced count := by
  induction tree generalizing count with
  | leaf => simp [map]
  | node left root black right ihLeft ihRight =>
      have mapped := @balanced_join β .left (left.map rename) (right.map rename) (rename root) black count
      have plain := @balanced_join α .left left right root black count
      simp only [ihLeft, ihRight, isRed_map] at mapped
      exact mapped.trans plain.symm

end ColorTree

theorem redBlack_map {β : Type*} (rename : α → β) {tree : ColorTree α} :
    RedBlack (tree.map rename) ↔ RedBlack tree := by
  simp [RedBlack, ColorTree.balanced_map]

section Uncounted

variable [DecidableEq α]

namespace ColorTree

/-- Every path to a missing child passes the same number of black positions besides the given one. -/
def BlackHeightBut (skipped : α) : ColorTree α → Nat → Prop
  | .leaf, count => count = 0
  | .node left root black right, count => ∃ below, left.BlackHeightBut skipped below ∧
      right.BlackHeightBut skipped below ∧ count = below + if root = skipped then 0 else black.toNat

variable {skipped root : α} {side : Side} {near far tree : ColorTree α} {black : Bool} {count : Nat}

theorem blackHeightBut_join :
    (join side near root black far).BlackHeightBut skipped count ↔ ∃ below,
      near.BlackHeightBut skipped below ∧ far.BlackHeightBut skipped below ∧
        count = below + if root = skipped then 0 else black.toNat := by
  cases side
  · exact Iff.rfl
  · constructor
    · rintro ⟨below, farLevels, nearLevels, total⟩
      exact ⟨below, nearLevels, farLevels, total⟩
    · rintro ⟨below, nearLevels, farLevels, total⟩
      exact ⟨below, farLevels, nearLevels, total⟩

/-- A position outside of the tree takes nothing from its black height. -/
theorem BlackHeight.but (levels : tree.BlackHeight count) (outside : skipped ∉ tree.nodes) :
    tree.BlackHeightBut skipped count := by
  induction tree generalizing count with
  | leaf => exact levels
  | node left root black right ihLeft ihRight =>
      obtain ⟨below, near, far, total⟩ := levels
      simp only [nodes_node, List.mem_append, List.mem_cons, not_or] at outside
      refine ⟨below, ihLeft near outside.1, ihRight far outside.2.2, ?_⟩
      rw [if_neg (Ne.symm outside.2.1)]
      exact total

end ColorTree

namespace TreePath

/-- A balanced path carries the uncounted black height of its hole up to the root. -/
theorem Balanced.but {path : TreePath α} {tree : ColorTree α} {count : Nat} {skipped : α}
    (balanced : Balanced path count) (levels : tree.BlackHeightBut skipped count)
    (outside : skipped ∉ around path) : ∃ total, (plug path tree).BlackHeightBut skipped total := by
  induction path generalizing tree count with
  | nil => exact ⟨count, levels⟩
  | cons frame rest ih =>
      obtain ⟨sibling, -, above⟩ := balanced
      rw [mem_around_cons, not_or, not_or] at outside
      apply ih above _ outside.2.2
      apply ColorTree.blackHeightBut_join.mpr
      refine ⟨count, levels, sibling.2.but outside.2.1, ?_⟩
      rw [if_neg (Ne.symm outside.1)]

end TreePath

end Uncounted

/-- A path takes a tree with a black root whatever black height it has. -/
theorem TreePath.Balanced.noRedRed {path : TreePath α} {tree : ColorTree α} {count : Nat}
    (balanced : TreePath.Balanced path count) (inside : tree.NoRedRed) (black : tree.isRed = false) :
    (TreePath.plug path tree).NoRedRed := by
  have general : ∀ (path : TreePath α) (tree : ColorTree α) (count : Nat), TreePath.Balanced path count →
      tree.NoRedRed → (tree.isRed = true → TreePath.needsBlack path = false) →
      (TreePath.plug path tree).NoRedRed := by
    intro path
    induction path with
    | nil => exact fun _ _ _ inside _ => inside
    | cons frame rest ih =>
        rintro tree count ⟨sibling, colors, above⟩ inside fits
        apply ih _ _ above
        · cases side : frame.side <;> simp only [Frame.fill, side, ColorTree.join, ColorTree.NoRedRed]
          · refine ⟨fun red => ⟨?_, (colors red).1⟩, inside, sibling.1⟩
            by_contra treeRed
            simpa [needsBlack, red] using fits (by simpa using treeRed)
          · refine ⟨fun red => ⟨(colors red).1, ?_⟩, sibling.1, inside⟩
            by_contra treeRed
            simpa [needsBlack, red] using fits (by simpa using treeRed)
        · intro red
          rw [Frame.fill, ColorTree.isRed_join] at red
          exact (colors (by simpa using red)).2
  apply general path tree count balanced inside
  intro red
  rw [black] at red
  exact absurd red (by decide)

end Syslib.ColoredTree
