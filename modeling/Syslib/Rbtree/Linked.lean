import Syslib.Rbtree.Update

namespace Syslib.Rbtree

open ColoredTree

/-- The tree record and its memory represent a tree of aligned nodes. -/
structure Linked (t : RbTree) (tree : ColorTree Nat) : Prop where
  root : t.root = ptr tree
  represents : Represents t.cell 0 tree
  nodup : tree.nodes.Nodup
  aligned : ∀ a ∈ tree.nodes, a ≠ 0 ∧ a % 4 = 0

namespace Linked

variable {t updated : RbTree} {path : TreePath Nat} {tree filled : ColorTree Nat}

theorem represents_focus (linked : Linked t (TreePath.plug path tree)) :
    Represents t.cell (TreePath.top path) tree :=
  (represents_plug.mp linked.represents).1

theorem represents_path (linked : Linked t (TreePath.plug path tree)) :
    RepresentsPath t.cell path (ptr tree) :=
  (represents_plug.mp linked.represents).2

theorem aligned_focus (linked : Linked t (TreePath.plug path tree)) {a : Nat}
    (member : a ∈ tree.nodes) : a ≠ 0 ∧ a % 4 = 0 :=
  linked.aligned a (TreePath.mem_plug.mpr (Or.inl member))

theorem aligned_path (linked : Linked t (TreePath.plug path tree)) {a : Nat}
    (member : a ∈ TreePath.around path) : a ≠ 0 ∧ a % 4 = 0 :=
  linked.aligned a (TreePath.mem_plug.mpr (Or.inr member))

theorem nodup_focus (linked : Linked t (TreePath.plug path tree)) : tree.nodes.Nodup :=
  (TreePath.nodup_plug.mp linked.nodup).1

theorem apart (linked : Linked t (TreePath.plug path tree)) {a : Nat} (member : a ∈ tree.nodes) :
    a ∉ TreePath.around path :=
  (TreePath.nodup_plug.mp linked.nodup).2.2 a member

theorem top_aligned (linked : Linked t (TreePath.plug path tree)) : TreePath.top path % 4 = 0 := by
  cases path with
  | nil => rfl
  | cons frame rest =>
      exact (linked.aligned_path (TreePath.mem_around_cons.mpr (Or.inl rfl))).2

theorem ne_top (linked : Linked t (TreePath.plug path tree)) {a : Nat} (member : a ∈ tree.nodes) :
    a ≠ TreePath.top path := by
  intro equal
  cases path with
  | nil => exact (linked.aligned_focus member).1 equal
  | cons frame rest =>
      exact linked.apart member (TreePath.mem_around_cons.mpr (Or.inl equal))

/-- The update of a focused tree leaves the rest of the path in place. -/
theorem refocus (linked : Linked t (TreePath.plug path tree))
    (represents : Represents updated.cell (TreePath.top path) filled)
    (nodup : filled.nodes.Nodup)
    (fresh : ∀ a ∈ filled.nodes, (a ≠ 0 ∧ a % 4 = 0) ∧ a ∉ TreePath.around path)
    (same : ∀ a ∈ TreePath.around path, a ≠ TreePath.top path → updated.cell a = t.cell a)
    (top : ∀ frame rest, path = frame :: rest →
      updated.cell frame.root = (t.cell frame.root).setChild frame.side (ptr filled))
    (root : updated.root = if TreePath.top path = 0 then ptr filled else t.root) :
    Linked updated (TreePath.plug path filled) := by
  have unique := TreePath.nodup_plug.mp linked.nodup
  have frames : RepresentsPath updated.cell path (ptr filled) := by
    apply linked.represents_path.refill unique.2.1 same
    intro frame rest shape
    rw [top frame rest shape]
    simp [Cell.setChild, Side.other_ne]
  refine ⟨?_, represents_plug.mpr ⟨represents, frames⟩, ?_, ?_⟩
  · cases path with
    | nil => exact root
    | cons frame rest =>
        have real : frame.root ≠ 0 :=
          (linked.aligned_path (TreePath.mem_around_cons.mpr (Or.inl rfl))).1
        rw [root, TreePath.top, if_neg real, linked.root]
        exact ptr_plug_cons frame rest tree filled
  · exact TreePath.nodup_plug.mpr ⟨nodup, unique.2.1, fun a member => (fresh a member).2⟩
  · intro a member
    rcases TreePath.mem_plug.mp member with inner | outer
    · exact (fresh a inner).1
    · exact linked.aligned_path outer

/-- The word of the parent that holds the focused node. -/
theorem held_top (linked : Linked t (TreePath.plug path tree)) (inner : tree ≠ .leaf) :
    ∃ hole, TreePath.top path ≠ 0 →
      (t.cell (TreePath.top path)).child hole = ptr tree ∧
      (t.cell (TreePath.top path)).child hole.other ≠ ptr tree ∧
      ∀ frame rest, path = frame :: rest → hole = frame.side := by
  cases path with
  | nil => exact ⟨.left, fun real => absurd rfl real⟩
  | cons frame rest =>
      obtain ⟨hole, other, _, _, sibling, _⟩ := linked.represents_path
      refine ⟨frame.side, fun _ => ⟨hole, ?_, ?_⟩⟩
      · intro equal
        rw [TreePath.top, other] at equal
        have shared := ptr_mem inner
        rw [← equal] at shared
        have exists_sibling : frame.sibling ≠ .leaf := by
          intro missing
          rw [missing] at equal
          exact (linked.aligned_focus (ptr_mem inner)).1 equal.symm
        exact linked.apart shared (TreePath.mem_around_cons.mpr (Or.inr (Or.inl (ptr_mem exists_sibling))))
      · intro other rest' shape
        rw [(List.cons.inj shape).1]

/-- The rotation in memory is the rotation of the tree at the focus. -/
theorem rotate {side : Side} {outer middle inner : ColorTree Nat} {node rc : Nat}
    {color lifted : Bool}
    (linked : Linked t (TreePath.plug path
      (.join side outer node color (.join side middle rc lifted inner)))) :
    Linked (rotate side t node) (TreePath.plug path
      (.join side (.join side outer node color middle) rc lifted inner)) := by
  obtain ⟨outerLink, farLink, above, nodeColor, outerCells, liftedCells⟩ :=
    represents_join.mp linked.represents_focus
  obtain ⟨middleLink, innerLink, rcAbove, rcColor, middleCells, innerCells⟩ :=
    represents_join.mp liftedCells
  obtain ⟨outerUnique, liftedUnique, nodeOuter, nodeLifted, outerLifted⟩ :=
    ColorTree.nodup_join.mp linked.nodup_focus
  obtain ⟨middleUnique, innerUnique, rcMiddle, rcInner, middleInner⟩ :=
    ColorTree.nodup_join.mp liftedUnique
  simp only [ColorTree.mem_nodes_join, not_or] at nodeLifted outerLifted
  have nodes : ∀ a, a ∈ (ColorTree.join side outer node color
      (.join side middle rc lifted inner)).nodes ↔
      a ∈ outer.nodes ∨ a = node ∨ a ∈ middle.nodes ∨ a = rc ∨ a ∈ inner.nodes := by
    intro a
    simp only [ColorTree.mem_nodes_join]
  have nodeMember := (nodes node).mpr (Or.inr (Or.inl rfl))
  have rcMember := (nodes rc).mpr (Or.inr (Or.inr (Or.inr (Or.inl rfl))))
  have outerMember := fun a place => (nodes a).mpr (Or.inl place)
  have middleMember := fun a place => (nodes a).mpr (Or.inr (Or.inr (Or.inl place)))
  have innerMember := fun a place => (nodes a).mpr (Or.inr (Or.inr (Or.inr (Or.inr place))))
  have nodeAligned := linked.aligned_focus nodeMember
  have rcAligned := linked.aligned_focus rcMember
  rw [ptr_join] at farLink
  have movedMember : ptr middle ≠ 0 → ptr middle ∈ middle.nodes := fun real => ptr_mem (ptr_ne real)
  obtain ⟨hole, held⟩ := linked.held_top (ColorTree.join_ne_leaf _ _ _ _ _)
  rw [ptr_join] at held
  obtain ⟨root, nodeCell, rcCell, movedCell, topCell, same⟩ := cell_rotate
    ⟨nodeAligned.1, rcAligned.1⟩ ⟨nodeAligned.2, rcAligned.2, linked.top_aligned⟩ farLink above
    middleLink ⟨nodeLifted.2.1, linked.ne_top nodeMember, linked.ne_top rcMember⟩
    (fun real => ⟨fun equal => nodeLifted.1 (equal ▸ movedMember real),
      fun equal => rcMiddle (equal ▸ movedMember real),
      linked.ne_top (middleMember _ (movedMember real))⟩)
    (fun real => ⟨(held real).1, (held real).2.1⟩)
  have notMoved : ∀ a, a ≠ 0 → a ∉ middle.nodes → a ≠ ptr middle := by
    rintro a real outside rfl
    exact outside (movedMember real)
  have outerSame : ∀ a ∈ outer.nodes, (Rbtree.rotate side t node).cell a = t.cell a := by
    intro a place
    obtain ⟨notMiddle, notRc, -⟩ := outerLifted a place
    have real := (linked.aligned_focus (outerMember a place)).1
    exact same a (fun equal => nodeOuter (equal ▸ place)) notRc (notMoved a real notMiddle)
      (linked.ne_top (outerMember a place))
  have middleSame : ∀ a ∈ middle.nodes, a ≠ ptr middle →
      (Rbtree.rotate side t node).cell a = t.cell a := by
    intro a place other
    exact same a (fun equal => nodeLifted.1 (equal ▸ place)) (fun equal => rcMiddle (equal ▸ place))
      other (linked.ne_top (middleMember a place))
  have innerSame : ∀ a ∈ inner.nodes, (Rbtree.rotate side t node).cell a = t.cell a := by
    intro a place
    have real := (linked.aligned_focus (innerMember a place)).1
    exact same a (fun equal => nodeLifted.2.2 (equal ▸ place)) (fun equal => rcInner (equal ▸ place))
      (notMoved a real fun inside => middleInner a inside place) (linked.ne_top (innerMember a place))
  have kept := ColorTree.nodes_rotate side outer middle inner node rc color lifted color lifted
  apply linked.refocus
  · apply represents_join.mpr
    rw [rcCell, ptr_join]
    refine ⟨by simp [Cell.setChild], by simpa [Cell.setChild] using innerLink, rfl, rcColor, ?_,
      innerCells.congr innerSame⟩
    apply represents_join.mpr
    rw [nodeCell]
    refine ⟨by simpa [Cell.setChild] using outerLink, by simp [Cell.setChild], rfl, nodeColor,
      outerCells.congr outerSame, ?_⟩
    apply middleCells.reparent middleUnique middleSame
    intro real
    exact movedCell (linked.aligned_focus (middleMember _ (ptr_mem real))).1
  · rw [kept]
    exact linked.nodup_focus
  · intro a place
    rw [kept] at place
    exact ⟨linked.aligned_focus place, linked.apart place⟩
  · intro a place notTop
    have outside : ∀ b, b ∈ (ColorTree.join side outer node color
        (.join side middle rc lifted inner)).nodes → a ≠ b := by
      rintro b inside rfl
      exact linked.apart inside place
    apply same a (outside node nodeMember) (outside rc rcMember) _ notTop
    apply notMoved a (linked.aligned_path place).1
    intro inside
    exact outside a (middleMember a inside) rfl
  · rintro frame rest rfl
    have real := (linked.aligned_path (TreePath.mem_around_cons.mpr (Or.inl rfl))).1
    rw [← (held real).2.2 frame rest rfl, ptr_join]
    exact topCell real
  · rw [ptr_join]
    exact root

/-- The colour word of the focused node is replaced. -/
theorem recolor {side : Side} {near far : ColorTree Nat} {node : Nat} {color : Bool}
    (linked : Linked t (TreePath.plug path (.join side near node color far))) (value : Bool) :
    Linked (t.write node ((t.heap node).setIsblack value.toNat))
      (TreePath.plug path (.join side near node value far)) := by
  obtain ⟨nearLink, farLink, above, -, nearCells, farCells⟩ :=
    represents_join.mp linked.represents_focus
  obtain ⟨-, -, notNear, notFar, -⟩ := ColorTree.nodup_join.mp linked.nodup_focus
  have nodes : (ColorTree.join side near node value far).nodes =
      (ColorTree.join side near node color far).nodes := by cases side <;> rfl
  have cells := t.cell_setIsblack node (show value.toNat < 4 by cases value <;> decide)
  have same : ∀ a, a ≠ node →
      (t.write node ((t.heap node).setIsblack value.toNat)).cell a = t.cell a := by
    intro a other
    rw [cells, Function.update_of_ne other]
  have member : node ∈ (ColorTree.join side near node color far).nodes :=
    ColorTree.mem_nodes_join.mpr (Or.inr (Or.inl rfl))
  have outside : ∀ a ∈ TreePath.around path, a ≠ node := by
    rintro a place rfl
    exact linked.apart member place
  apply linked.refocus
  · apply represents_join.mpr
    rw [cells, Function.update_self]
    refine ⟨nearLink, farLink, above, rfl, ?_, ?_⟩
    · rw [← cells]
      exact nearCells.congr fun a place => same a fun equal => notNear (equal ▸ place)
    · rw [← cells]
      exact farCells.congr fun a place => same a fun equal => notFar (equal ▸ place)
  · rw [nodes]
    exact linked.nodup_focus
  · intro a place
    rw [nodes] at place
    exact ⟨linked.aligned_focus place, linked.apart place⟩
  · intro a place _
    exact same a (outside a place)
  · rintro frame rest rfl
    have place : frame.root ∈ TreePath.around (frame :: rest) :=
      TreePath.mem_around_cons.mpr (Or.inl rfl)
    have held := linked.represents_path.1
    rw [same frame.root (outside _ place), ptr_join]
    rw [ptr_join] at held
    simp only [Cell.setChild, ← held, Function.update_eq_self]
  · cases path with
    | nil =>
        have old := linked.root
        rw [TreePath.plug_nil, ptr_join] at old
        rw [TreePath.top, if_pos rfl, ptr_join]
        exact old
    | cons frame rest =>
        have real := (linked.aligned_path (TreePath.mem_around_cons.mpr (Or.inl rfl))).1
        rw [TreePath.top, if_neg real]
        rfl

theorem setBlack {side : Side} {near far : ColorTree Nat} {node : Nat} {color : Bool}
    (linked : Linked t (TreePath.plug path (.join side near node color far))) :
    Linked (t.setBlack node) (TreePath.plug path (.join side near node true far)) := by
  have real := (linked.aligned_focus (ColorTree.mem_nodes_join.mpr (Or.inr (Or.inl rfl)))).1
  rw [RbTree.setBlack, if_neg real]
  exact linked.recolor true

theorem setRed {side : Side} {near far : ColorTree Nat} {node : Nat} {color : Bool}
    (linked : Linked t (TreePath.plug path (.join side near node color far))) :
    Linked (t.setRed node) (TreePath.plug path (.join side near node false far)) := by
  have real := (linked.aligned_focus (ColorTree.mem_nodes_join.mpr (Or.inr (Or.inl rfl)))).1
  rw [RbTree.setRed, if_neg real]
  exact linked.recolor false

theorem setBlack_ptr (linked : Linked t (TreePath.plug path tree)) :
    Linked (t.setBlack (ptr tree)) (TreePath.plug path tree.blacken) := by
  cases tree with
  | leaf => exact linked
  | node left root black right => exact @setBlack t path .left left right root black linked

/-- The colouring of the root blackens the tree. -/
theorem setBlack_root (linked : Linked t tree) : Linked (t.setBlack t.root) tree.blacken := by
  rw [linked.root]
  exact @setBlack_ptr t [] tree linked

/-- The colour read at a focus is the colour of the tree. -/
theorem isRed_ptr (linked : Linked t (TreePath.plug path tree)) : t.isRed (ptr tree) = tree.isRed := by
  cases tree with
  | leaf => rfl
  | node left root black right =>
      obtain ⟨-, -, -, color, -, -⟩ := linked.represents_focus
      have real := (linked.aligned_focus (a := root) (by simp)).1
      rw [t.isRed_eq, ptr, color]
      cases black <;> simp [real, ColorTree.isRed]

theorem child_near {side : Side} {near far : ColorTree Nat} {node : Nat} {color : Bool}
    (linked : Linked t (TreePath.plug path (.join side near node color far))) :
    t.child side node = ptr near := by
  have real := (linked.aligned_focus (ColorTree.mem_nodes_join.mpr (Or.inr (Or.inl rfl)))).1
  rw [t.child_eq, if_neg real]
  exact (represents_join.mp linked.represents_focus).1

theorem child_far {side : Side} {near far : ColorTree Nat} {node : Nat} {color : Bool}
    (linked : Linked t (TreePath.plug path (.join side near node color far))) :
    t.child side.other node = ptr far := by
  rw [← ColorTree.join_other] at linked
  exact linked.child_near

theorem getParent_ptr (linked : Linked t (TreePath.plug path tree)) (inner : tree ≠ .leaf) :
    t.getParent (ptr tree) = TreePath.top path := by
  cases tree with
  | leaf => exact absurd rfl inner
  | node left root black right =>
      obtain ⟨-, -, above, -, -, -⟩ := linked.represents_focus
      rw [t.getParent_eq, ptr, if_neg (linked.aligned_focus (a := root) (by simp)).1]
      exact above

/-- The side of the hole is read from the child words of its parent. -/
theorem child_top {frame : Frame Nat} {rest : TreePath Nat} (inner : tree ≠ .leaf)
    (linked : Linked t (TreePath.plug (frame :: rest) tree)) (side : Side) :
    ptr tree = t.child side frame.root ↔ side = frame.side := by
  have near := @child_near t rest frame.side tree frame.sibling frame.root frame.black linked
  have far := @child_far t rest frame.side tree frame.sibling frame.root frame.black linked
  constructor
  · intro held
    by_contra other
    have opposite : side = frame.side.other := by
      cases side <;> cases here : frame.side <;> simp_all [Side.other]
    rw [opposite, far] at held
    have shared := ptr_mem inner
    have real := (linked.aligned_focus shared).1
    rw [held] at real shared
    exact linked.apart (held ▸ ptr_mem inner)
      (TreePath.mem_around_cons.mpr (Or.inr (Or.inl (ptr_mem (ptr_ne real)))))
  · rintro rfl
    exact near.symm

end Linked

end Syslib.Rbtree
