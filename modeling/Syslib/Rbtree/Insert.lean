import Syslib.Rbtree.FixRr
import Syslib.Rbtree.Search

namespace Syslib.Rbtree

open ColoredTree

/-- The record and the memory represent a red-black tree with increasing keys. -/
structure WellFormed (lt : Nat → Nat → Prop) (t : RbTree) (tree : ColorTree Nat) : Prop where
  linked : Linked t tree
  redBlack : RedBlack tree
  sorted : (t.keys tree.nodes).Pairwise lt
  size : t.size = toInt tree.nodes.length

variable {t : RbTree} {lt : Nat → Nat → Prop} {tree : ColorTree Nat} {path : TreePath Nat}

theorem wellFormed_init (heap : Nat → RbNode) (cfunc : Option CompareFunction) :
    WellFormed lt (rbInit heap cfunc) .leaf :=
  ⟨⟨rfl, trivial, List.nodup_nil, by simp⟩, ⟨0, by simp, rfl⟩, List.Pairwise.nil, rfl⟩

/-- The tree depends only on the memory of its nodes. -/
theorem WellFormed.agree {updated : RbTree} (wellFormed : WellFormed lt t tree)
    (root : updated.root = t.root) (size : updated.size = t.size)
    (heap : ∀ a ∈ tree.nodes, updated.heap a = t.heap a) : WellFormed lt updated tree := by
  have linked := wellFormed.linked
  have keys : updated.keys tree.nodes = t.keys tree.nodes :=
    List.map_congr_left fun a member => congrArg RbNode.key (heap a member)
  refine ⟨⟨root.trans linked.root, ?_, linked.nodup, linked.aligned⟩, wellFormed.redBlack,
    keys ▸ wellFormed.sorted, size.trans wellFormed.size⟩
  exact linked.represents.congr fun a member => congrArg RbNode.cell (heap a member)

theorem Same.keys {updated : RbTree} (same : Same t updated) (nodes : List Nat) :
    updated.keys nodes = t.keys nodes :=
  List.map_congr_left fun a _ => same.key a

/-- The writes of `rb_insert` before the rebalancing. -/
def hangNode (t : RbTree) (node hot : Nat) : RbTree :=
  (((t.write node ((t.heap node).setIsblack 0)).setChild .left node 0).setChild .right node 0).setParent
    node hot

theorem cell_hangNode (t : RbTree) (node : Nat) {hot : Nat} (aligned : hot % 4 = 0) :
    (hangNode t node hot).cell = Function.update t.cell node ⟨fun _ => 0, hot, 0⟩ := by
  funext a
  rw [hangNode, RbTree.cell_setParent _ _ aligned, RbTree.cell_setChild, RbTree.cell_setChild,
    RbTree.cell_setIsblack _ _ (by decide)]
  by_cases equal : a = node
  · subst equal
    simp only [Function.update_self, Cell.setChild, Cell.mk.injEq, and_true]
    funext side
    cases side <;> simp
  · simp [equal]

theorem same_hangNode (t : RbTree) (node hot : Nat) : Same t (hangNode t node hot) :=
  ((((Same.refl t).write node (rfl : ((t.heap node).setIsblack 0).key = _)).setChild _ _ _).setChild _ _
    _).setParent _ _

/-- A new red leaf fills the hole that its parent word points to. -/
theorem hang_linked {frame : Frame Nat} {rest : TreePath Nat} {node : Nat}
    (linked : Linked t (TreePath.plug (frame :: rest) .leaf)) (aligned : node ≠ 0 ∧ node % 4 = 0)
    (fresh : node ∉ (TreePath.plug (frame :: rest) .leaf).nodes) :
    Linked (((hangNode t node frame.root).setChild frame.side frame.root node).setParent node frame.root)
      (TreePath.plug (frame :: rest) (.node .leaf node false .leaf)) := by
  have around : ∀ a ∈ TreePath.around (frame :: rest), a ≠ node := by
    rintro a place rfl
    exact fresh (TreePath.mem_plug.mpr (Or.inr place))
  have top : frame.root ∈ TreePath.around (frame :: rest) := TreePath.mem_around_cons.mpr (Or.inl rfl)
  have topAligned := (linked.aligned_path top).2
  have apart := around _ top
  have cells : ∀ a, (((hangNode t node frame.root).setChild frame.side frame.root node).setParent node
      frame.root).cell a = if a = node then ⟨fun _ => 0, frame.root, 0⟩
        else if a = frame.root then (t.cell frame.root).setChild frame.side node else t.cell a := by
    intro a
    rw [RbTree.cell_setParent _ _ topAligned, RbTree.cell_setChild, cell_hangNode _ _ topAligned]
    by_cases atNode : a = node
    · subst atNode
      simp [apart.symm]
    · by_cases atTop : a = frame.root
      · subst atTop
        simp [apart]
      · simp [atNode, atTop]
  apply linked.refocus
  · simp [Represents, cells, ptr, TreePath.top]
  · simp
  · intro a member
    obtain rfl : a = node := by simpa using member
    exact ⟨aligned, fun place => around a place rfl⟩
  · intro a place notTop
    rw [TreePath.top] at notTop
    rw [cells, if_neg (around a place), if_neg notTop]
  · intro other above shape
    obtain ⟨rfl, rfl⟩ := List.cons.inj shape
    rw [cells, if_neg apart, if_pos rfl]
    rfl
  · rw [TreePath.top, if_neg (linked.aligned_path top).1]
    rfl

/-- The first node of a tree is its root. -/
theorem root_linked {node : Nat} (aligned : node ≠ 0 ∧ node % 4 = 0) :
    Linked { hangNode t node 0 with root := node } (.node .leaf node false .leaf) := by
  have cells : (hangNode t node 0).cell = _ := cell_hangNode t node rfl
  have cell : RbTree.cell { hangNode t node 0 with root := node } node = ⟨fun _ => 0, 0, 0⟩ := by
    change (hangNode t node 0).cell node = _
    rw [cells, Function.update_self]
  refine ⟨rfl, by simp [Represents, cell, ptr], by simp, ?_⟩
  intro a member
  obtain rfl : a = node := by simpa using member
  exact aligned

theorem toInt_add (value : Int) (step : Int) : toInt (toInt value + step) = toInt (value + step) := by
  simp [toInt]

/-- The sorted place of a key takes a new node. -/
theorem Place.sorted {node : Nat}
    (place : Place t lt (t.heap node).key path)
    (old : (t.keys (TreePath.before path ++ TreePath.after path)).Pairwise lt) :
    (t.keys (TreePath.before path ++ node :: TreePath.after path)).Pairwise lt := by
  simp only [RbTree.keys, List.map_append, List.pairwise_append, List.map_cons, List.pairwise_cons,
    List.mem_map, List.mem_cons, forall_exists_index, and_imp, forall_apply_eq_imp_iff₂] at old ⊢
  obtain ⟨first, second, cross⟩ := old
  refine ⟨first, ⟨place.2, second⟩, ?_⟩
  rintro a member key (rfl | ⟨b, other, rfl⟩)
  · exact place.1 a member
  · exact cross a member b other

/-- The comparison with the parent of the hole chooses the side of the hole. -/
theorem Place.side_compare {frame : Frame Nat} {rest : TreePath Nat} {key : Nat} {updated : RbTree}
    {nodes : List Nat} (separates : Separates t lt key nodes)
    (member : frame.root ∈ nodes) (place : Place t lt key (frame :: rest)) (same : Same t updated) :
    compareKey updated key frame.root ≠ 0 ∧
      (if compareKey updated key frame.root < 0 then Side.left else Side.right) = frame.side := by
  have below := separates.below updated same frame.root member
  have above := separates.above updated same frame.root member
  cases side : frame.side
  · have lower := place.2 frame.root (by simp [TreePath.after, Frame.after, side])
    have negative := below.mpr lower
    exact ⟨negative.ne, if_pos negative⟩
  · have higher := place.1 frame.root (by simp [TreePath.before, Frame.before, side])
    have positive := above.mpr higher
    exact ⟨positive.ne', if_neg positive.not_gt⟩

/-- A node without a fitting address is refused. -/
theorem rbInsert_invalid {node fuel : Nat} (invalid : node = 0 ∨ node % 4 ≠ 0) :
    rbInsert fuel t node = some (t, -1) := if_pos invalid

/-- The insertion of a present key changes nothing. -/
theorem rbInsert_finds {node fuel a : Nat} (orders : Orders t.cfunc lt)
    (wellFormed : WellFormed lt t tree) (member : a ∈ tree.nodes)
    (present : (t.heap a).key = (t.heap node).key) (enough : tree.height + 1 < fuel) :
    rbInsert fuel t node = some (t, -1) := by
  unfold rbInsert
  split_ifs with invalid
  · rfl
  · rcases rbSearch_places orders.order (orders.separates (t.heap node).key _) wellFormed.linked wellFormed.sorted enough
      with ⟨found, inside, -, run⟩ | ⟨hole, shape, place, -⟩
    · have real := (wellFormed.linked.aligned found inside).1
      simp [run, real]
    · have irreflexive := orders.order.irrefl (t.heap node).key
      rw [shape] at member
      rcases TreePath.mem_plug.mp member with inner | around
      · simp at inner
      · rcases List.mem_append.mp around with before | after
        · exact absurd (present ▸ place.1 a before) irreflexive
        · exact absurd (present ▸ place.2 a after) irreflexive

theorem rbInsert_present {node fuel a : Nat} (orders : Orders t.cfunc lt)
    (wellFormed : WellFormed lt t tree) (member : a ∈ tree.nodes)
    (present : (t.heap a).key = (t.heap node).key) (enough : tree.nodes.length + 1 < fuel) :
    rbInsert fuel t node = some (t, -1) := by
  have shallow := tree.height_le_length
  exact rbInsert_finds orders wellFormed member present (by omega)

/-- The insertion of a new key adds its node at the place of the key. -/
theorem rbInsert_adds {node fuel : Nat} (order : IsStrictTotalOrder Nat lt)
    (separates : Separates t lt (t.heap node).key tree.nodes) (wellFormed : WellFormed lt t tree)
    (aligned : node ≠ 0 ∧ node % 4 = 0)
    (fresh : node ∉ tree.nodes) (absent : (t.heap node).key ∉ t.keys tree.nodes)
    (enough : tree.height + 1 < fuel) (shallow : Shallow fuel (tree.nodes.length + 1)) :
    ∃ u result before after, rbInsert fuel t node = some (u, 0) ∧ WellFormed lt u result ∧
      tree.nodes = before ++ after ∧ result.nodes = before ++ node :: after ∧
      u.cfunc = t.cfunc ∧ ∀ a, (u.heap a).key = (t.heap a).key := by
  rcases rbSearch_places order separates wellFormed.linked wellFormed.sorted enough
    with ⟨found, inside, same, -⟩ | ⟨hole, rfl, place, run⟩
  · exact absurd (List.mem_map.mpr ⟨found, inside, same⟩) absent
  · have nodes : (TreePath.plug hole ColorTree.leaf).nodes =
        TreePath.before hole ++ TreePath.after hole := by simp [TreePath.nodes_plug]
    have sorted := wellFormed.sorted
    rw [nodes] at sorted
    have grown := place.sorted sorted
    have valid : ¬ (node = 0 ∨ node % 4 ≠ 0) := by tauto
    have count : toInt (t.size + 1) =
        toInt (TreePath.before hole ++ node :: TreePath.after hole).length := by
      rw [wellFormed.size, toInt_add, nodes]
      simp only [List.length_append, List.length_cons]
      push_cast
      congr 1
    cases hole with
    | nil =>
        have linked := @Linked.setBlack _ [] .left _ _ _ _ (root_linked (t := t) aligned)
        have same : Same t (RbTree.setBlack { hangNode t node 0 with root := node } node) :=
          ((same_hangNode t node 0).setRoot node).setBlack node
        refine ⟨{ RbTree.setBlack { hangNode t node 0 with root := node } node with
          size := toInt (t.size + 1) }, _, [], [], ?_, ⟨⟨linked.root, linked.represents, linked.nodup,
          linked.aligned⟩, ?_, ?_, count⟩, nodes, rfl, same.cfunc, same.key⟩
        · have size := same.size
          simp only [rbInsert, valid, if_false, run, Option.bind_eq_bind, Option.bind_some,
            TreePath.top]
          simp only [ne_eq, not_true_eq_false, if_false, Option.some.injEq, Prod.mk.injEq, and_true]
          rw [← size]
          rfl
        · exact ⟨1, (@ColorTree.balanced_join _ .left _ _ _ _ _).mpr
            ⟨0, by simp, by simp, by simp, rfl⟩, rfl⟩
        · exact (same.keys _).symm ▸ grown
    | cons frame rest =>
        have hung := hang_linked wellFormed.linked aligned fresh
        have hangSame := same_hangNode t node frame.root
        have side := place.side_compare separates
          (TreePath.mem_plug.mpr (Or.inr (TreePath.mem_around_cons.mpr (Or.inl rfl)))) hangSame
        have topReal := (wellFormed.linked.aligned_path (TreePath.mem_around_cons.mpr (Or.inl rfl))).1
        obtain ⟨below, sibling, outer, -⟩ := TreePath.redBlack_plug.mp wellFormed.redBlack
        obtain rfl : below = 0 := by simpa using sibling
        have leafBalanced : (ColorTree.node .leaf node false .leaf).Balanced 0 :=
          (@ColorTree.balanced_join _ .left _ _ _ _ _).mpr
            ⟨0, by simp, by simp, by simp [ColorTree.isRed], rfl⟩
        have nodesGrown : (TreePath.plug (frame :: rest) (ColorTree.node .leaf node false .leaf)).nodes =
            TreePath.before (frame :: rest) ++ node :: TreePath.after (frame :: rest) := by
          rw [TreePath.nodes_plug]
          simp
        have short : (frame :: rest).length < fuel := by
          have deep := TreePath.height_plug (frame :: rest) (.leaf : ColorTree Nat)
          rw [ColorTree.height] at deep
          omega
        have grownLength : (TreePath.plug (frame :: rest) (ColorTree.leaf : ColorTree Nat)).nodes.length + 1 =
            (TreePath.plug (frame :: rest) (ColorTree.node .leaf node false .leaf)).nodes.length := by
          rw [nodesGrown, nodes]
          simp only [List.length_append, List.length_cons]
          omega
        obtain ⟨u, result, fixed, final, fixSame, kept, redBlack⟩ :=
          fixRr_settles hung (by simp) rfl leafBalanced outer short (grownLength ▸ shallow)
        have same : Same t u := ((hangSame.setChild _ _ _).setParent _ _).trans fixSame
        have black := final.setBlack_root
        have rootReal : u.root ≠ 0 := by
          rw [final.root]
          intro missing
          have inside : node ∈ result.nodes := by
            rw [kept, nodesGrown]
            simp
          cases result with
          | leaf => simp at inside
          | node left root color right => exact (final.aligned root (by simp)).1 missing
        have key : ((hangNode t node frame.root).heap node).key = (t.heap node).key := hangSame.key node
        have blackSame := same.setBlack u.root
        refine ⟨{ u.setBlack u.root with size := toInt (t.size + 1) }, _, _, _, ?_,
          ⟨⟨black.root, black.represents, black.nodup, black.aligned⟩, redBlack.blacken, ?_, ?_⟩, nodes,
          ?_, blackSame.cfunc, blackSame.key⟩
        · have size := blackSame.size
          have start : rbInsert fuel t node =
              (if compareKey (hangNode t node frame.root) ((hangNode t node frame.root).heap node).key
                  frame.root = 0 then some (hangNode t node frame.root, -1)
              else do
                let t := (hangNode t node frame.root).setChild
                  (if compareKey (hangNode t node frame.root)
                    ((hangNode t node frame.root).heap node).key frame.root < 0 then .left else .right)
                  frame.root node
                let t := t.setParent node frame.root
                let t ← fixRr fuel t node
                if t.root = 0 then none
                else
                  let t := t.setBlack t.root
                  some ({ t with size := toInt (t.size + 1) }, 0)) := by
            simp only [rbInsert, valid, if_false, run, Option.bind_eq_bind, Option.bind_some,
              TreePath.top, ne_eq, not_true_eq_false, topReal, not_false_eq_true, if_true]
            rfl
          rw [ptr] at fixed
          rw [start, key, if_neg side.1, side.2]
          simp only [Option.bind_eq_bind, fixed, Option.bind_some, rootReal, if_false, ← size]
        · rw [ColorTree.nodes_blacken, kept, nodesGrown]
          exact (blackSame.keys _).symm ▸ grown
        · rw [ColorTree.nodes_blacken, kept, nodesGrown]
          exact count
        · rw [ColorTree.nodes_blacken, kept, nodesGrown]

theorem rbInsert_absent {node fuel : Nat} (order : IsStrictTotalOrder Nat lt)
    (separates : Separates t lt (t.heap node).key tree.nodes) (wellFormed : WellFormed lt t tree)
    (aligned : node ≠ 0 ∧ node % 4 = 0)
    (fresh : node ∉ tree.nodes) (absent : (t.heap node).key ∉ t.keys tree.nodes)
    (enough : tree.nodes.length + 1 < fuel) :
    ∃ u result before after, rbInsert fuel t node = some (u, 0) ∧ WellFormed lt u result ∧
      tree.nodes = before ++ after ∧ result.nodes = before ++ node :: after ∧
      u.cfunc = t.cfunc ∧ ∀ a, (u.heap a).key = (t.heap a).key := by
  have shallow := tree.height_le_length
  exact rbInsert_adds order separates wellFormed aligned fresh absent (by omega) (shallow_of_length enough.le)

end Syslib.Rbtree
