import Syslib.Rbtree.FixBb
import Syslib.Rbtree.Insert
import Syslib.Rbtree.SwapNode

namespace Syslib.Rbtree

open ColoredTree

variable {t u : RbTree} {path : TreePath Nat} {tree rest : ColorTree Nat} {side : Side}
  {lt : Nat → Nat → Prop}

/-- The walk of `_succ` ends at the leftmost node. -/
theorem succLoop_descends {root p fuel : Nat} {left right : ColorTree Nat} {black : Bool}
    (linked : Linked t (TreePath.plug path (.node left root black right)))
    (enough : left.height + 1 < fuel) :
    ∃ inner first firstBlack last, succLoop fuel t p root = some first ∧
      ColorTree.node left root black right =
        TreePath.plug inner (.node .leaf first firstBlack last) ∧ TreePath.before inner = [] := by
  induction left generalizing path root right black fuel p with
  | leaf =>
      obtain ⟨less, rfl⟩ := Nat.exists_eq_add_of_lt enough
      have real := (linked.aligned_focus (a := root) (by simp)).1
      have missing : t.child .left root = 0 := @Linked.child_near t path .left _ _ _ _ linked
      refine ⟨[], root, black, right, ?_, rfl, rfl⟩
      have steps : (ColorTree.leaf : ColorTree Nat).height + 1 + less + 1 = less + 1 + 1 := by
        simp only [ColorTree.height]
        omega
      rw [steps]
      simp [succLoop, real, missing]
  | node low node color high ihLow _ =>
      obtain ⟨less, rfl⟩ := Nat.exists_eq_add_one_of_ne_zero (show fuel ≠ 0 by omega)
      have real := (linked.aligned_focus (a := root) (by simp)).1
      have next : t.child .left root = node := @Linked.child_near t path .left _ _ _ _ linked
      have below : Linked t (TreePath.plug (⟨.left, root, black, right⟩ :: path)
        (.node low node color high)) := linked
      rw [ColorTree.height] at enough
      obtain ⟨inner, first, firstBlack, last, run, shape, before⟩ := ihLow below (p := root)
        (by omega : low.height + 1 < less)
      refine ⟨inner ++ [⟨.left, root, black, right⟩], first, firstBlack, last, ?_, ?_, ?_⟩
      · simpa [succLoop, real, next] using run
      · rw [shape, TreePath.plug_append]
        rfl
      · rw [TreePath.before_append, before]
        rfl

theorem succLoop_linked {root p fuel : Nat} {left right : ColorTree Nat} {black : Bool}
    (linked : Linked t (TreePath.plug path (.node left root black right)))
    (enough : left.nodes.length + 1 < fuel) :
    ∃ inner first firstBlack last, succLoop fuel t p root = some first ∧
      ColorTree.node left root black right =
        TreePath.plug inner (.node .leaf first firstBlack last) ∧ TreePath.before inner = [] := by
  have shallow := left.height_le_length
  exact succLoop_descends linked (by omega)

/-- The rebalancing and the splice take a node with at most one child out of the tree. -/
theorem rebalance_linked {x fuel : Nat} {black : Bool}
    (linked : Linked t (TreePath.plug path (.join side .leaf x black rest)))
    (redBlack : RedBlack (TreePath.plug path (.join side .leaf x black rest)))
    (enough : path.length + 3 ≤ fuel) :
    ∃ u result, (do
        let t ← if black then fixBbNew fuel t x else some t
        transplant t x (ptr rest)) = some u ∧ Linked u result ∧ Same t u ∧
      result.nodes = TreePath.before path ++ rest.nodes ++ TreePath.after path ∧
      ∃ total, result.Balanced total := by
  obtain ⟨count, balanced, outer, fits⟩ := TreePath.redBlack_plug.mp redBlack
  obtain ⟨below, missing, restBalanced, blacks, total⟩ := ColorTree.balanced_join.mp balanced
  obtain rfl := ColorTree.balanced_leaf.mp missing
  have single : rest = .leaf ∨ ∃ sc color, rest = .node .leaf sc color .leaf := by
    rcases restBalanced.single with shape | ⟨sc, shape⟩
    exacts [Or.inl shape, Or.inr ⟨sc, false, shape⟩]
  cases black with
  | true =>
      obtain rfl : count = 0 + 1 := by simpa using total
      obtain ⟨v, settled, run, final⟩ := fixBbNew_linked linked (by simp) (by simp) outer enough
      obtain ⟨u, spliced, done, same⟩ := transplant_linked final.linked single
      rw [ptr_join] at run
      refine ⟨u, _, ?_, done, final.same.trans same, ?_, ?_⟩
      · simp only [if_true, Option.bind_eq_bind, run, Option.bind_some, spliced]
      · rw [TreePath.nodes_plug, final.before, final.after]
      · apply TreePath.balanced_plug restBalanced final.balanced
        intro frame above shape red
        rw [final.top frame above shape] at red
        simp at red
  | false =>
      obtain rfl : count = 0 := by simpa using total
      obtain ⟨u, spliced, done, same⟩ := transplant_linked linked single
      refine ⟨u, _, ?_, done, same, ?_, ?_⟩
      · simp only [Bool.false_eq_true, if_false, Option.bind_eq_bind, Option.bind_some, spliced]
      · rw [TreePath.nodes_plug]
      · exact TreePath.balanced_plug restBalanced outer fun _ _ _ _ => (blacks rfl).2

theorem toInt_eq {count : Nat} (small : count < 2 ^ 31) : toInt count = count := by
  rw [toInt, Int.bmod_def]
  split_ifs <;> omega

/-- The cleared node lies outside of the tree. -/
theorem clearNode_linked {x : Nat} (linked : Linked t tree) (removed : x ∉ tree.nodes) :
    Linked (clearNode t x) tree := by
  refine ⟨linked.root, linked.represents.congr ?_, linked.nodup, linked.aligned⟩
  intro a member
  rw [cell_clearNode, Function.update_of_ne]
  rintro rfl
  exact removed member

/-- The tree without the removed node is well formed before the root field is written. -/
theorem uncounted_wellFormed {x total root : Nat} (linked : Linked t tree) (balanced : tree.Balanced total)
    (sorted : (t.keys tree.nodes).Pairwise lt) (removed : x ∉ tree.nodes)
    (size : t.size = toInt ((tree.nodes.length + 1 : Nat) : Int)) (held : root = ptr tree.blacken) :
    toInt ((clearNode (t.setBlack t.root) x).size - 1) = toInt tree.nodes.length ∧
      WellFormed lt { clearNode (t.setBlack t.root) x with
        size := toInt ((clearNode (t.setBlack t.root) x).size - 1), root := root } tree.blacken := by
  have cleared : Linked (clearNode (t.setBlack t.root) x) tree.blacken :=
    clearNode_linked linked.setBlack_root (by rwa [ColorTree.nodes_blacken])
  have same : Same t (clearNode (t.setBlack t.root) x) := ((Same.refl t).setBlack _).clearNode x
  have count : toInt ((clearNode (t.setBlack t.root) x).size - 1) = toInt tree.nodes.length := by
    rw [same.size, size, sub_eq_add_neg, toInt_add]
    push_cast
    rw [Int.add_neg_cancel_right]
  refine ⟨count, ⟨held, cleared.represents, cleared.nodup, cleared.aligned⟩, balanced.redBlack, ?_, ?_⟩
  · rw [ColorTree.nodes_blacken]
    exact (same.keys _).symm ▸ sorted
  · rw [ColorTree.nodes_blacken]
    exact count

/-- The tree without the removed node is well formed as long as the counter has not wrapped. -/
theorem finishRemove_linked {x total : Nat} (linked : Linked t tree) (balanced : tree.Balanced total)
    (sorted : (t.keys tree.nodes).Pairwise lt) (removed : x ∉ tree.nodes)
    (size : t.size = toInt ((tree.nodes.length + 1 : Nat) : Int))
    (small : tree.nodes.length < 2 ^ 31) :
    WellFormed lt (finishRemove t x) tree.blacken ∧
      (∀ a, ((finishRemove t x).heap a).key = (t.heap a).key) ∧ (finishRemove t x).cfunc = t.cfunc ∧
      (∀ side, ((finishRemove t x).cell x).child side = 0) ∧ ((finishRemove t x).cell x).parent = 0 := by
  have root : (clearNode (t.setBlack t.root) x).root = ptr tree.blacken :=
    (clearNode_linked linked.setBlack_root (by rwa [ColorTree.nodes_blacken])).root
  have same : Same t (clearNode (t.setBlack t.root) x) := ((Same.refl t).setBlack _).clearNode x
  have written := fun root => @uncounted_wellFormed t tree lt x total root linked balanced sorted removed size
  have count := (written _ rfl).1
  rw [toInt_eq small] at count
  have word : ((clearNode (t.setBlack t.root) x).cell x).child = (fun _ => 0) ∧
      ((clearNode (t.setBlack t.root) x).cell x).parent = 0 := by
    rw [cell_clearNode (t.setBlack t.root) x, Function.update_self]
    exact ⟨rfl, rfl⟩
  unfold finishRemove
  simp only
  split_ifs with empty
  · refine ⟨(written 0 ?_).2, same.key, same.cfunc, fun side => congrFun word.1 side, word.2⟩
    rw [count] at empty
    have missing : tree.blacken = .leaf := by
      cases tree with
      | leaf => rfl
      | node left root black right =>
          simp only [ColorTree.nodes_node, List.length_append, List.length_cons] at empty
          omega
    rw [missing]
    rfl
  · exact ⟨(written _ root).2, same.key, same.cfunc, fun side => congrFun word.1 side, word.2⟩

/-- What a removal leaves behind: the other nodes in order, and a node ready for another insertion. -/
structure Removed (lt : Nat → Nat → Prop) (t u : RbTree) (x : Nat) (others : List Nat)
    (result : ColorTree Nat) : Prop where
  wellFormed : WellFormed lt u result
  nodes : result.nodes = others
  key : ∀ a, (u.heap a).key = (t.heap a).key
  cfunc : u.cfunc = t.cfunc
  child : ∀ side, (u.cell x).child side = 0
  parent : (u.cell x).parent = 0

/-- This is the tree before the counter and the root field are written. -/
structure Detached (t v : RbTree) (others : List Nat) (result : ColorTree Nat) : Prop where
  linked : Linked v result
  balanced : ∃ total, result.Balanced total
  nodes : result.nodes = others
  same : Same t v

/-- The counter and the root field are written last, and the root is lost once the counter has wrapped. -/
theorem Detached.finish {v : RbTree} {x : Nat} {others : List Nat} {result : ColorTree Nat}
    (detached : Detached t v others result) (removed : x ∉ others)
    (sorted : (t.keys others).Pairwise lt) (size : t.size = toInt ((others.length + 1 : Nat) : Int))
    (small : others.length < 2 ^ 31) : Removed lt t (finishRemove v x) x others result.blacken := by
  obtain ⟨linked, ⟨total, balanced⟩, rfl, same⟩ := detached
  obtain ⟨wellFormed, key, cfunc, child, parent⟩ := finishRemove_linked linked balanced
    (same.keys _ ▸ sorted) removed (same.size.trans size) small
  exact ⟨wellFormed, ColorTree.nodes_blacken _, fun a => (key a).trans (same.key a),
    cfunc.trans same.cfunc, child, parent⟩

theorem unlinkNode_linked {x fuel : Nat} {black : Bool} {others : List Nat}
    (linked : Linked t (TreePath.plug path (.join side .leaf x black rest)))
    (redBlack : RedBlack (TreePath.plug path (.join side .leaf x black rest)))
    (kept : TreePath.before path ++ rest.nodes ++ TreePath.after path = others)
    (enough : path.length + 3 ≤ fuel) :
    ∃ v result, unlinkNode fuel t x (ptr rest) black = some (finishRemove v x) ∧
      Detached t v others result := by
  obtain ⟨v, result, run, final, same, nodes, total, balanced⟩ := rebalance_linked linked redBlack enough
  refine ⟨v, result, ?_, final, ⟨total, balanced⟩, nodes.trans kept, same⟩
  have split : unlinkNode fuel t x (ptr rest) black = (do
      let t ← if black then fixBbNew fuel t x else some t
      transplant t x (ptr rest)).bind (fun t => some (finishRemove t x)) := by
    cases black <;> simp [unlinkNode, Option.bind_assoc]
  rw [split, run]
  rfl

/-- The successor of a node with two children lies leftmost in its right subtree. -/
theorem succ_descends {x fuel : Nat} {left right : ColorTree Nat} {black : Bool}
    (linked : Linked t (TreePath.plug path (.node left x black right))) (inner : right ≠ .leaf)
    (enough : right.height < fuel) :
    ∃ low first color last, succ fuel t (ptr right) = some first ∧
      right = TreePath.plug low (.node .leaf first color last) ∧ TreePath.before low = [] := by
  have below : Linked t (TreePath.plug (⟨.right, x, black, left⟩ :: path) right) := linked
  cases right with
  | leaf => exact absurd rfl inner
  | node near n color far =>
      have real := (below.aligned_focus (a := n) (by simp)).1
      rw [ColorTree.height] at enough
      obtain ⟨low, first, color, last, run, shape, before⟩ := succLoop_descends below (p := n)
        (by omega : near.height + 1 < fuel)
      exact ⟨low, first, color, last, by rw [succ, ptr, if_neg real, run], shape, before⟩

theorem succ_linked {x fuel : Nat} {left right : ColorTree Nat} {black : Bool}
    (linked : Linked t (TreePath.plug path (.node left x black right))) (inner : right ≠ .leaf)
    (enough : right.nodes.length < fuel) :
    ∃ low first color last, succ fuel t (ptr right) = some first ∧
      right = TreePath.plug low (.node .leaf first color last) ∧ TreePath.before low = [] := by
  have shallow := right.height_le_length
  exact succ_descends linked inner (by omega)

/-- The parent of a node in the right subtree is not the parent of the subtree's root node. -/
theorem parent_ne {x first : Nat} {left last : ColorTree Nat} {black color : Bool} {low : TreePath Nat}
    (linked : Linked t (TreePath.plug path
      (.node left x black (TreePath.plug low (.node .leaf first color last))))) :
    (t.cell x).parent ≠ (t.cell first).parent := by
  have focus : Linked t (TreePath.plug (low ++ ⟨.right, x, black, left⟩ :: path)
      (.node .leaf first color last)) := by
    rw [TreePath.plug_append]
    exact linked
  have upper : (t.cell x).parent = TreePath.top path := linked.represents_focus.2.2.1
  have lower : (t.cell first).parent = TreePath.top (low ++ ⟨.right, x, black, left⟩ :: path) :=
    focus.represents_focus.2.2.1
  rw [upper, lower]
  apply Ne.symm
  apply linked.ne_top
  cases low with
  | nil => simp [TreePath.top]
  | cons frame rest =>
      have inside : frame.root ∈ TreePath.around (frame :: rest) :=
        TreePath.mem_around_cons.mpr (Or.inl rfl)
      have member := (@TreePath.mem_plug _ (frame :: rest) (.node .leaf first color last) _).mpr
        (Or.inr inside)
      simp only [List.cons_append, TreePath.top, ColorTree.nodes_node, List.mem_append, List.mem_cons]
      exact Or.inr (Or.inr member)

/-- The removal of a node with two children takes its successor's place first. -/
theorem remove_two {x fuel : Nat} {left right : ColorTree Nat} {black : Bool}
    (wellFormed : WellFormed lt t (TreePath.plug path (.node left x black right)))
    (leftInner : left ≠ .leaf) (rightInner : right ≠ .leaf)
    (enough : (TreePath.plug path (.node left x black right)).height + 2 ≤ fuel) :
    ∃ v result, rbRemoveNode fuel t x = some (finishRemove v x) ∧ Detached t v
      (TreePath.before path ++ left.nodes ++ (right.nodes ++ TreePath.after path)) result := by
  have linked := wellFormed.linked
  have bound := TreePath.height_plug path (.node left x black right)
  rw [ColorTree.height] at bound
  obtain ⟨low, r, color, last, run, rfl, lowBefore⟩ := succ_descends linked rightInner
    (by omega : right.height < fuel)
  have focus : Linked t (TreePath.plug (low ++ ⟨.right, x, black, left⟩ :: path)
      (.node .leaf r color last)) := by
    rw [TreePath.plug_append]
    exact linked
  have shape : (TreePath.plug path (.node left x black
      (TreePath.plug low (.node .leaf r color last)))).nodes =
      TreePath.before path ++ left.nodes ++ x :: r :: (last.nodes ++ (TreePath.after low ++
        TreePath.after path)) := by
    simp [TreePath.nodes_plug, lowBefore]
  have nodup := linked.nodup
  rw [shape] at nodup
  have fresh : x ≠ r ∧ ∀ a, a ∈ TreePath.before path ++ left.nodes ∨
      a ∈ last.nodes ∨ a ∈ TreePath.after low ++ TreePath.after path → a ≠ x ∧ a ≠ r := by
    rw [List.nodup_append, List.nodup_cons, List.nodup_cons] at nodup
    obtain ⟨-, ⟨xFresh, rFresh, -⟩, cross⟩ := nodup
    simp only [List.mem_cons, List.mem_append, not_or] at xFresh rFresh cross ⊢
    refine ⟨xFresh.1, ?_⟩
    rintro a (front | back | back)
    · exact ⟨cross a front x (Or.inl rfl), cross a front r (Or.inr (Or.inl rfl))⟩
    · exact ⟨fun equal => xFresh.2.1 (equal ▸ back), fun equal => rFresh.1 (equal ▸ back)⟩
    · constructor
      · rintro rfl
        tauto
      · rintro rfl
        tauto
  have fixed : ∀ a, a ∈ TreePath.before path ++ left.nodes ∨
      a ∈ last.nodes ∨ a ∈ TreePath.after low ++ TreePath.after path → Equiv.swap x r a = a :=
    fun a place => Equiv.swap_apply_of_ne_of_ne (fresh.2 a place).1 (fresh.2 a place).2
  have xPlace : x ∈ (TreePath.plug path (.node left x black
      (TreePath.plug low (.node .leaf r color last)))).nodes := by simp [shape]
  have rPlace : r ∈ (TreePath.plug path (.node left x black
      (TreePath.plug low (.node .leaf r color last)))).nodes := by simp [shape]
  have below : r ≠ t.root := by
    cases low with
    | nil => exact ne_root focus (by simp)
    | cons frame rest => exact ne_root focus (by simp)
  have swapped := swapNode_linked linked xPlace rPlace fresh.1 (parent_ne linked) below
  have mapped : (TreePath.plug path (.node left x black
      (TreePath.plug low (.node .leaf r color last)))).map (Equiv.swap x r) =
      TreePath.plug (TreePath.map (Equiv.swap x r) (low ++ ⟨.right, x, black, left⟩ :: path))
        (.node .leaf x color last) := by
    have refocus : TreePath.plug path (.node left x black
        (TreePath.plug low (.node .leaf r color last))) =
        TreePath.plug (low ++ ⟨.right, x, black, left⟩ :: path) (.node .leaf r color last) := by
      rw [TreePath.plug_append]
      rfl
    rw [refocus, TreePath.map_plug, ColorTree.map, Equiv.swap_apply_right,
      ColorTree.map_eq_self fun a member => fixed a (Or.inr (Or.inl member))]
    rfl
  have redBlack := (redBlack_map (Equiv.swap x r)).mpr wellFormed.redBlack
  rw [mapped] at swapped redBlack
  have unmoved : ∀ nodes : List Nat, (∀ a ∈ nodes, Equiv.swap x r a = a) →
      nodes.map (Equiv.swap x r) = nodes := by
    intro nodes same
    rw [List.map_congr_left same, List.map_id']
  have front := unmoved (TreePath.before path ++ left.nodes) fun a member => fixed a (Or.inl member)
  have back := unmoved (TreePath.after low ++ TreePath.after path)
    fun a member => fixed a (Or.inr (Or.inr member))
  have kept : TreePath.before
        (TreePath.map (Equiv.swap x r) (low ++ ⟨.right, x, black, left⟩ :: path)) ++ last.nodes ++
      TreePath.after (TreePath.map (Equiv.swap x r) (low ++ ⟨.right, x, black, left⟩ :: path)) =
      TreePath.before path ++ left.nodes ++
        ((TreePath.plug low (.node .leaf r color last)).nodes ++ TreePath.after path) := by
    rw [List.map_append] at front back
    rw [TreePath.before_map, TreePath.after_map, TreePath.before_append, TreePath.after_append,
      lowBefore]
    simp only [TreePath.before, TreePath.after, Frame.before, Frame.after, List.map_append, List.map_cons,
      List.map_nil, Equiv.swap_apply_left, List.append_nil, List.nil_append, TreePath.nodes_plug,
      lowBefore, ColorTree.nodes_node, ColorTree.nodes_leaf]
    rw [back]
    simp only [← List.append_assoc]
    rw [front]
    simp
  have swapSame : Same t (swapNode (if x = t.root then { t with root := r } else t) x r) := by
    apply Same.swapNode
    split_ifs
    · exact (Same.refl t).setRoot r
    · exact Same.refl t
  have short : (TreePath.map (Equiv.swap x r) (low ++ ⟨.right, x, black, left⟩ :: path)).length + 3 ≤
      fuel := by
    have lowBound := TreePath.height_plug low (.node .leaf r color last)
    rw [ColorTree.height] at lowBound
    simp only [TreePath.map, List.length_map, List.length_append, List.length_cons]
    omega
  obtain ⟨v, result, unlinked, detached⟩ := @unlinkNode_linked _ _ _ .left _ _ _ _ swapped redBlack
    kept short
  refine ⟨v, result, ?_, detached.linked, detached.balanced, detached.nodes,
    swapSame.trans detached.same⟩
  have xReal := (linked.aligned x xPlace).1
  have leftChild : t.child .left x = ptr left := @Linked.child_near t path .left _ _ _ _ linked
  have rightChild : t.child .right x = ptr (TreePath.plug low (.node .leaf r color last)) :=
    @Linked.child_far t path .left _ _ _ _ linked
  have lastChild : t.child .right r = ptr last := @Linked.child_far t _ .left _ _ _ _ focus
  have twoChildren : t.child .left x ≠ 0 ∧ t.child .right x ≠ 0 := by
    rw [leftChild, rightChild]
    constructor
    · have inside : ptr left ∈ left.nodes := ptr_mem leftInner
      exact (linked.aligned_focus (by simp [inside])).1
    · have inside := ptr_mem rightInner
      exact (linked.aligned_focus (by simp only [ColorTree.nodes_node, List.mem_append, List.mem_cons,
        inside, or_true])).1
  have doubleBlack : t.isBlack r = color := by
    have read := focus.isRed_ptr
    rw [t.isBlack_eq, show r = ptr (.node .leaf r color last) from rfl, read]
    simp [ColorTree.isRed]
  rw [rbRemoveNode, if_neg xReal, if_pos twoChildren, rightChild, run]
  simp only [Option.bind_eq_bind, Option.bind_some, lastChild, doubleBlack]
  exact unlinked

/-- The removal of a node with at most one child splices this child into its place. -/
theorem remove_one {x fuel : Nat} {left right : ColorTree Nat} {black : Bool}
    (wellFormed : WellFormed lt t (TreePath.plug path (.node left x black right)))
    (one : left = .leaf ∨ right = .leaf)
    (enough : (TreePath.plug path (.node left x black right)).height + 2 ≤ fuel) :
    ∃ v result, rbRemoveNode fuel t x = some (finishRemove v x) ∧ Detached t v
      (TreePath.before path ++ left.nodes ++ (right.nodes ++ TreePath.after path)) result := by
  have linked := wellFormed.linked
  have xReal := (linked.aligned_focus (a := x) (by simp)).1
  have leftChild : t.child .left x = ptr left := @Linked.child_near t path .left _ _ _ _ linked
  have rightChild : t.child .right x = ptr right := @Linked.child_far t path .left _ _ _ _ linked
  have color : t.isBlack x = black := by
    have read := linked.isRed_ptr
    rw [t.isBlack_eq, show x = ptr (.node left x black right) from rfl, read]
    simp [ColorTree.isRed]
  have bound := TreePath.height_plug path (.node left x black right)
  rw [ColorTree.height] at bound
  have notTwo : ¬ (t.child .left x ≠ 0 ∧ t.child .right x ≠ 0) := by
    rw [leftChild, rightChild]
    rcases one with rfl | rfl
    · exact fun both => both.1 rfl
    · exact fun both => both.2 rfl
  rw [rbRemoveNode, if_neg xReal, if_neg notTwo, color, leftChild, rightChild]
  by_cases missing : right = .leaf
  · subst missing
    rw [show (if ptr (.leaf : ColorTree Nat) = 0 then ptr left else ptr .leaf) = ptr left from rfl]
    exact @unlinkNode_linked _ _ _ .right _ _ _ _ linked wellFormed.redBlack (by simp) (by omega)
  · obtain rfl : left = .leaf := one.resolve_right missing
    have real : ptr right ≠ 0 := (linked.aligned_focus (by simp [ptr_mem missing])).1
    rw [if_neg real]
    exact @unlinkNode_linked _ _ _ .left _ _ _ _ linked wellFormed.redBlack (by simp) (by omega)

/-- `rb_remove_node` takes a linked node out and keeps the others in order. -/
theorem rbRemoveNode_detaches {x fuel : Nat} (wellFormed : WellFormed lt t tree)
    (member : x ∈ tree.nodes) (enough : tree.height + 2 ≤ fuel) :
    ∃ v result front back, rbRemoveNode fuel t x = some (finishRemove v x) ∧
      tree.nodes = front ++ x :: back ∧ Detached t v (front ++ back) result := by
  obtain ⟨path, left, black, right, rfl⟩ := TreePath.exists_focus member
  have shape : (TreePath.plug path (.node left x black right)).nodes =
      TreePath.before path ++ left.nodes ++ x :: (right.nodes ++ TreePath.after path) := by
    simp [TreePath.nodes_plug]
  by_cases one : left = .leaf ∨ right = .leaf
  · obtain ⟨v, result, run, detached⟩ := remove_one wellFormed one enough
    exact ⟨v, result, _, _, run, shape, detached⟩
  · rw [not_or] at one
    obtain ⟨v, result, run, detached⟩ := remove_two wellFormed one.1 one.2 enough
    exact ⟨v, result, _, _, run, shape, detached⟩

theorem rbRemoveNode_detached {x fuel : Nat} (wellFormed : WellFormed lt t tree)
    (member : x ∈ tree.nodes) (enough : tree.nodes.length + 3 ≤ fuel) :
    ∃ v result front back, rbRemoveNode fuel t x = some (finishRemove v x) ∧
      tree.nodes = front ++ x :: back ∧ Detached t v (front ++ back) result := by
  have shallow := tree.height_le_length
  exact rbRemoveNode_detaches wellFormed member (by omega)

/-- While the counter has not wrapped the other nodes are a well-formed tree again. -/
theorem rbRemoveNode_linked {x fuel : Nat} (wellFormed : WellFormed lt t tree)
    (member : x ∈ tree.nodes) (small : tree.nodes.length ≤ 2 ^ 31)
    (enough : tree.nodes.length + 3 ≤ fuel) :
    ∃ u result front back, rbRemoveNode fuel t x = some u ∧ tree.nodes = front ++ x :: back ∧
      Removed lt t u x (front ++ back) result := by
  obtain ⟨v, result, front, back, run, shape, detached⟩ := rbRemoveNode_detached wellFormed member enough
  have nodup := wellFormed.linked.nodup
  have sorted := wellFormed.sorted
  have size := wellFormed.size
  rw [shape] at nodup sorted size small
  have length : (front ++ x :: back).length = (front ++ back).length + 1 := by
    simp only [List.length_append, List.length_cons]
    omega
  have fewer : (front ++ back).Sublist (front ++ x :: back) := (List.sublist_cons_self x back).append_left _
  have removed : x ∉ front ++ back := (List.nodup_middle.mp nodup).notMem
  exact ⟨_, _, front, back, run, shape, detached.finish removed (sorted.sublist (fewer.map _))
    (by rw [size, length]) (by omega)⟩

end Syslib.Rbtree
