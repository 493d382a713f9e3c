import Syslib.Rbtree.Laws
import Syslib.Rbtree.Succ

namespace Syslib.Rbtree

open ColoredTree

/-- The nodes below a pointer in order, read from the child words. -/
def inOrder : Nat → RbTree → Nat → List Nat
  | 0, _, _ => []
  | fuel + 1, t, node =>
    if node = 0 then []
    else inOrder fuel t (t.child .left node) ++ node :: inOrder fuel t (t.child .right node)

/-- The nodes of the whole tree. -/
def linkedNodes (fuel : Nat) (t : RbTree) : List Nat := inOrder fuel t t.root

/-- A user inserts nodes that are not in the tree, and removes and searches any key. -/
def Unlinked (fuel : Nat) : Call → RbTree → Prop
  | .insert node _, t => node ∉ linkedNodes fuel t
  | .remove _, _ => True
  | .removeNode _, _ => False
  | .search _, _ => True

instance Unlinked.decidable (fuel : Nat) : ∀ (call : Call) (t : RbTree), Decidable (Unlinked fuel call t)
  | .insert node _, t => inferInstanceAs (Decidable (node ∉ linkedNodes fuel t))
  | .remove _, _ => isTrue trivial
  | .removeNode _, _ => isFalse id
  | .search _, _ => isTrue trivial

/-- The tree after a call. -/
def treeStep (fuel : Nat) (call : Call) (t : RbTree) : Option RbTree := (rbCall fuel call t).map Prod.fst

/-- The iteration of `rb_succ` up to the null pointer. -/
def rbWalk (fuel : Nat) : Nat → RbTree → Nat → Option (List Nat)
  | 0, _, _ => none
  | count + 1, t, x =>
    if x = 0 then some []
    else do
      let next ← rbSucc fuel t x
      let rest ← rbWalk fuel count t next
      some (x :: rest)

/-- The node of the least key above the key of `x`, or null when no key is above it. -/
def IsNext (lt : Nat → Nat → Prop) (t : RbTree) (nodes : List Nat) (x next : Nat) : Prop :=
  next ∈ nodes ∧ lt (t.heap x).key (t.heap next).key ∧
      (∀ a ∈ nodes, lt (t.heap x).key (t.heap a).key → a = next ∨ lt (t.heap next).key (t.heap a).key) ∨
    next = 0 ∧ ∀ a ∈ nodes, a = x ∨ lt (t.heap a).key (t.heap x).key

variable {t : RbTree} {lt : Nat → Nat → Prop} {tree : ColorTree Nat} {path : TreePath Nat} {fuel : Nat}

/-- The child words list the nodes of the tree that they represent. -/
theorem inOrder_linked (linked : Linked t (TreePath.plug path tree)) (enough : tree.nodes.length < fuel) :
    inOrder fuel t (ptr tree) = tree.nodes := by
  induction tree generalizing path fuel with
  | leaf =>
      obtain ⟨less, rfl⟩ := Nat.exists_eq_add_one_of_ne_zero (Nat.ne_of_gt enough)
      rfl
  | node left root black right ihLeft ihRight =>
      obtain ⟨less, rfl⟩ := Nat.exists_eq_add_one_of_ne_zero (show fuel ≠ 0 by omega)
      simp only [ColorTree.nodes_node, List.length_append, List.length_cons] at enough
      have real := (linked.aligned_focus (a := root) (by simp)).1
      have near : Linked t (TreePath.plug (⟨.left, root, black, right⟩ :: path) left) := linked
      have far : Linked t (TreePath.plug (⟨.right, root, black, left⟩ :: path) right) := linked
      have leftChild : t.child .left root = ptr left := @Linked.child_near t path .left _ _ _ _ linked
      have rightChild : t.child .right root = ptr right := @Linked.child_far t path .left _ _ _ _ linked
      rw [ptr, inOrder, if_neg real, leftChild, rightChild, ihLeft near (by omega), ihRight far (by omega),
        ColorTree.nodes_node]

theorem linkedNodes_eq (linked : Linked t tree) (enough : tree.nodes.length < fuel) :
    linkedNodes fuel t = tree.nodes := by
  rw [linkedNodes, linked.root]
  exact @inOrder_linked t tree [] fuel linked enough

/-- The walk to the leftmost node starts at the first one. -/
theorem succ_first (linked : Linked t tree) (enough : tree.nodes.length < fuel) :
    succ fuel t t.root = some (tree.nodes.head?.getD 0) := by
  rw [linked.root]
  cases tree with
  | leaf => simp [succ, ptr]
  | node left root black right =>
      have real := (linked.aligned root (by simp)).1
      have start : Linked t (TreePath.plug [] (.node left root black right)) := linked
      simp only [ColorTree.nodes_node, List.length_append, List.length_cons] at enough
      obtain ⟨low, first, color, last, run, shape, before⟩ := succLoop_linked start (p := root)
        (by omega : left.nodes.length + 1 < fuel)
      rw [succ, ptr, if_neg real, run, shape, TreePath.nodes_plug, before]
      rfl

/-- The iteration from any node lists this node and the ones after it. -/
theorem rbWalk_linked {front rest : List Nat} {count : Nat} (linked : Linked t tree)
    (shape : tree.nodes = front ++ rest) (enough : tree.nodes.length < fuel) (turns : rest.length < count) :
    rbWalk fuel count t (rest.head?.getD 0) = some rest := by
  induction rest generalizing front count with
  | nil =>
      obtain ⟨less, rfl⟩ := Nat.exists_eq_add_one_of_ne_zero (Nat.ne_of_gt turns)
      simp [rbWalk]
  | cons x rest ih =>
      obtain ⟨less, rfl⟩ := Nat.exists_eq_add_one_of_ne_zero (show count ≠ 0 by omega)
      have real := (linked.aligned x (by simp [shape])).1
      have next := rbSucc_linked linked shape enough
      have later := @ih (front ++ [x]) less (by simp [shape]) (by simpa using turns)
      simp only [rbWalk, List.head?_cons, Option.getD_some, if_neg real, next, later, Option.bind_eq_bind,
        Option.bind_some]

/-- The successor in the list of nodes has the least greater key. -/
theorem isNext_of_sorted {front back : List Nat} {x : Nat} (order : IsStrictTotalOrder Nat lt)
    (sorted : (t.keys (front ++ x :: back)).Pairwise lt) :
    IsNext lt t (front ++ x :: back) x (back.head?.getD 0) := by
  rw [RbTree.keys, List.pairwise_map, List.pairwise_append, List.pairwise_cons] at sorted
  obtain ⟨-, ⟨above, later⟩, below⟩ := sorted
  have low : ∀ a ∈ front, lt (t.heap a).key (t.heap x).key := fun a member => below a member x (by simp)
  cases back with
  | nil =>
      refine Or.inr ⟨rfl, ?_⟩
      intro a member
      rcases List.mem_append.mp member with early | here
      · exact Or.inr (low a early)
      · exact Or.inl (List.mem_singleton.mp here)
  | cons next back =>
      refine Or.inl ⟨by simp, above next (by simp), ?_⟩
      intro a member greater
      rcases List.mem_append.mp member with early | late
      · exact absurd (order.trans _ _ _ (low a early) greater) (order.irrefl _)
      · rcases List.mem_cons.mp late with rfl | last
        · exact absurd greater (order.irrefl _)
        · rcases List.mem_cons.mp last with rfl | far
          · exact Or.inl rfl
          · exact Or.inr ((List.pairwise_cons.mp later).1 a far)

/-- The removal keeps a search tree, also when the counter has wrapped around. -/
theorem finishRemove_wellFormed {v : RbTree} {x : Nat} {others : List Nat} {result : ColorTree Nat}
    (detached : Detached t v others result) (removed : x ∉ others)
    (sorted : (t.keys others).Pairwise lt) (size : t.size = toInt ((others.length + 1 : Nat) : Int))
    (positive : ¬ t.size ≤ 0) :
    ∃ final, WellFormed lt (finishRemove v x) final ∧ final.nodes.length ≤ others.length ∧
      (finishRemove v x).cfunc = t.cfunc := by
  obtain ⟨linked, ⟨total, balanced⟩, rfl, same⟩ := detached
  have written := fun root held => @uncounted_wellFormed v result lt x total root linked balanced
    (same.keys _ ▸ sorted) removed (same.size.trans size) held
  have kept : Same t (clearNode (v.setBlack v.root) x) := (same.setBlack _).clearNode x
  have root : (clearNode (v.setBlack v.root) x).root = ptr result.blacken :=
    (clearNode_linked linked.setBlack_root (by rwa [ColorTree.nodes_blacken])).root
  have lowest : 0 ≤ toInt ((clearNode (v.setBlack v.root) x).size - 1) := by
    rw [kept.size, size]
    rw [size] at positive
    simp only [toInt, Int.bmod_def] at positive ⊢
    split_ifs at positive ⊢ <;> omega
  unfold finishRemove
  simp only
  split_ifs with empty
  · refine ⟨.leaf, ⟨⟨rfl, trivial, List.nodup_nil, by simp⟩, ⟨0, by simp, rfl⟩, List.Pairwise.nil, ?_⟩, by simp,
      kept.cfunc⟩
    exact le_antisymm empty lowest
  · refine ⟨result.blacken, (written _ root).2, ?_, kept.cfunc⟩
    rw [ColorTree.nodes_blacken]

/-- `rb_remove` keeps a search tree. -/
theorem rbRemove_wellFormed (orders : Orders t.cfunc lt) (wellFormed : WellFormed lt t tree) (key : Nat)
    (enough : tree.nodes.length + 3 ≤ fuel) :
    ∃ u x result, rbRemove fuel t key = some (u, x) ∧ WellFormed lt u result ∧
      result.nodes.length ≤ tree.nodes.length ∧ u.cfunc = t.cfunc := by
  by_cases refused : t.root = 0 ∨ t.size ≤ 0
  · refine ⟨t, 0, tree, ?_, wellFormed, le_refl _, rfl⟩
    rw [rbRemove]
    rcases refused with empty | small
    · rw [if_pos empty]
    · rw [if_pos small]
      split_ifs <;> rfl
  · rw [not_or] at refused
    rcases rbSearch_linked key orders wellFormed.linked wellFormed.sorted (by omega : tree.nodes.length + 1 < fuel)
      with ⟨x, member, -, run⟩ | ⟨hole, shape, -, run⟩
    · have real := (wellFormed.linked.aligned x member).1
      obtain ⟨v, result, front, back, removed, shape, detached⟩ :=
        rbRemoveNode_detached wellFormed member enough
      have nodup := wellFormed.linked.nodup
      have sorted := wellFormed.sorted
      have size := wellFormed.size
      rw [shape] at nodup sorted size
      have length : (front ++ x :: back).length = (front ++ back).length + 1 := by
        simp only [List.length_append, List.length_cons]
        omega
      have fewer : (front ++ back).Sublist (front ++ x :: back) :=
        (List.sublist_cons_self x back).append_left _
      obtain ⟨final, held, shorter, cfunc⟩ := finishRemove_wellFormed detached
        (List.nodup_middle.mp nodup).notMem (sorted.sublist (fewer.map _)) (by rw [size, length]) refused.2
      refine ⟨_, x, final, ?_, held, ?_, cfunc⟩
      · simp only [rbRemove, if_neg refused.1, if_neg refused.2, run, Option.bind_eq_bind, Option.bind_some,
          if_neg real, removed]
      · rw [shape, length]
        omega
    · refine ⟨t, 0, tree, ?_, wellFormed, le_refl _, rfl⟩
      simp only [rbRemove, if_neg refused.1, if_neg refused.2, run, Option.bind_eq_bind, Option.bind_some,
        if_true]

/-- `rb_insert` keeps a search tree and adds at most one node. -/
theorem rbInsert_wellFormed {node : Nat} (orders : Orders t.cfunc lt) (wellFormed : WellFormed lt t tree)
    (fresh : node ∉ tree.nodes) (enough : tree.nodes.length + 1 < fuel) :
    ∃ u code result, rbInsert fuel t node = some (u, code) ∧ WellFormed lt u result ∧
      result.nodes.length ≤ tree.nodes.length + 1 ∧ u.cfunc = t.cfunc := by
  by_cases invalid : node = 0 ∨ node % 4 ≠ 0
  · exact ⟨t, -1, tree, rbInsert_invalid invalid, wellFormed, Nat.le_succ _, rfl⟩
  · rw [not_or, not_not] at invalid
    by_cases present : (t.heap node).key ∈ t.keys tree.nodes
    · obtain ⟨a, member, same⟩ := List.mem_map.mp present
      exact ⟨t, -1, tree, rbInsert_present orders wellFormed member same enough, wellFormed, Nat.le_succ _, rfl⟩
    · obtain ⟨u, result, before, after, run, final, split, grown, cfunc, -⟩ := rbInsert_absent orders.order
        (orders.separates _ _) wellFormed invalid fresh present enough
      refine ⟨u, 0, result, run, final, ?_, cfunc⟩
      rw [grown, split]
      simp only [List.length_append, List.length_cons]
      omega

theorem treeStep_wellFormed {call : Call} (orders : Orders t.cfunc lt) (wellFormed : WellFormed lt t tree)
    (unlinked : Unlinked fuel call t) (enough : tree.nodes.length + 3 ≤ fuel) :
    ∃ u result, treeStep fuel call t = some u ∧ WellFormed lt u result ∧
      result.nodes.length ≤ tree.nodes.length + 1 ∧ u.cfunc = t.cfunc := by
  cases call with
  | insert node key =>
      have fresh : node ∉ tree.nodes := by
        rw [← linkedNodes_eq wellFormed.linked (by omega : tree.nodes.length < fuel)]
        exact unlinked
      obtain ⟨u, code, result, run, final, length, cfunc⟩ := rbInsert_wellFormed (t := setKey t node key)
        orders (wellFormed.setKey fresh key) fresh (by omega : tree.nodes.length + 1 < fuel)
      exact ⟨u, result, by simp [treeStep, rbCall, run], final, length, cfunc⟩
  | remove key =>
      obtain ⟨u, x, result, run, final, length, cfunc⟩ := rbRemove_wellFormed orders wellFormed key enough
      exact ⟨u, result, by simp [treeStep, rbCall, run], final, by omega, cfunc⟩
  | removeNode node => exact absurd unlinked id
  | search key =>
      rcases rbSearch_linked key orders wellFormed.linked wellFormed.sorted
        (by omega : tree.nodes.length + 1 < fuel) with ⟨x, -, -, run⟩ | ⟨hole, -, -, run⟩
      · exact ⟨t, tree, by simp [treeStep, rbCall, run], wellFormed, Nat.le_succ _, rfl⟩
      · exact ⟨t, tree, by simp [treeStep, rbCall, run], wellFormed, Nat.le_succ _, rfl⟩

variable {cfunc : Option CompareFunction}

/-- A run of insertions and removals keeps a search tree, whatever the counter holds. -/
theorem treeRun_wellFormed (left : Nat) (orders : Orders cfunc lt) (heap : Nat → RbNode) (calls : List Call)
    (meets : Runs.Meets (treeStep fuel) (Unlinked fuel) calls (rbInit heap cfunc))
    (enough : calls.length + left + 3 ≤ fuel) :
    ∃ t tree, Runs.exec (treeStep fuel) calls (rbInit heap cfunc) = some t ∧ WellFormed lt t tree ∧
      tree.nodes.length + left + 3 ≤ fuel := by
  have run := @Runs.exec_countdown _ _ (treeStep fuel) (Unlinked fuel)
    (fun remaining t => ∃ tree, WellFormed lt t tree ∧ t.cfunc = cfunc ∧
      tree.nodes.length + remaining + 3 ≤ fuel)
  obtain ⟨t, final, tree, held, -, room⟩ := run (by
    rintro call remaining t ⟨tree, wellFormed, rfl, room⟩ unlinked
    obtain ⟨u, result, called, next, length, same⟩ :=
      treeStep_wellFormed orders wellFormed unlinked (by omega : tree.nodes.length + 3 ≤ fuel)
    exact ⟨u, called, result, next, same, by omega⟩) calls left _
      ⟨.leaf, wellFormed_init heap cfunc, rfl, by simpa using enough⟩ meets
  exact ⟨t, tree, final, held, room⟩

/-- In every tree that a run reaches `rb_succ` steps through the nodes in the order of their keys. -/
theorem rbSucc_calls (orders : Orders cfunc lt) (heap : Nat → RbNode) (calls : List Call)
    (meets : Runs.Meets (treeStep fuel) (Unlinked fuel) calls (rbInit heap cfunc))
    (enough : calls.length + 3 ≤ fuel) :
    ∃ t tree, Runs.exec (treeStep fuel) calls (rbInit heap cfunc) = some t ∧
      Linked t tree ∧ linkedNodes fuel t = tree.nodes ∧
      (∀ x ∈ linkedNodes fuel t, ∃ next, rbSucc fuel t x = some next ∧
        IsNext lt t (linkedNodes fuel t) x next) ∧
      (succ fuel t t.root).bind (rbWalk fuel fuel t) = some (linkedNodes fuel t) ∧
      (linkedNodes fuel t).Nodup ∧ (t.keys (linkedNodes fuel t)).Pairwise lt := by
  obtain ⟨t, tree, run, wellFormed, room⟩ := treeRun_wellFormed 0 orders heap calls meets (by omega)
  have short : tree.nodes.length < fuel := by omega
  have linked := wellFormed.linked
  have nodes := linkedNodes_eq linked short
  refine ⟨t, tree, run, linked, nodes, ?_, ?_, ?_, ?_⟩
  · rw [nodes]
    intro x member
    obtain ⟨front, back, shape⟩ := List.append_of_mem member
    refine ⟨_, rbSucc_linked linked shape short, ?_⟩
    rw [shape]
    exact isNext_of_sorted orders.order (shape ▸ wellFormed.sorted)
  · rw [succ_first linked short, nodes]
    exact @rbWalk_linked t tree fuel [] tree.nodes fuel linked rfl short short
  · exact nodes ▸ linked.nodup
  · exact nodes ▸ wellFormed.sorted

/-- Four insertions and a removal, and the walk over the three nodes that stay. -/
theorem rbSucc_calls_five : ∃ t tree, Runs.exec (treeStep 8)
      [.insert 8 3, .insert 16 1, .insert 24 2, .insert 32 5, .remove 3]
      (rbInit (fun _ => ⟨0, 0, 0, 0⟩) none) = some t ∧
    Linked t tree ∧ linkedNodes 8 t = tree.nodes ∧
    (∀ x ∈ linkedNodes 8 t, ∃ next, rbSucc 8 t x = some next ∧ IsNext (· < ·) t (linkedNodes 8 t) x next) ∧
    (succ 8 t t.root).bind (rbWalk 8 8 t) = some (linkedNodes 8 t) ∧
    (linkedNodes 8 t).Nodup ∧ (t.keys (linkedNodes 8 t)).Pairwise (· < ·) :=
  rbSucc_calls orders_default _ _ (by decide +kernel) (by decide)

end Syslib.Rbtree
