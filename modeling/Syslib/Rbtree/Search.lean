import Syslib.Library.RedBlack
import Syslib.Rbtree.Linked

namespace Syslib.Rbtree

open ColoredTree

/-- The compare function orders the keys by a strict total order. -/
structure Orders (cfunc : Option CompareFunction) (lt : Nat → Nat → Prop) : Prop where
  order : IsStrictTotalOrder Nat lt
  below : ∀ (t : RbTree) key n, t.cfunc = cfunc → (compareKey t key n < 0 ↔ lt key (t.heap n).key)
  above : ∀ (t : RbTree) key n, t.cfunc = cfunc → (0 < compareKey t key n ↔ lt (t.heap n).key key)

/-- The default compare function orders the keys as numbers. -/
theorem orders_default : Orders none (· < ·) := by
  refine ⟨inferInstance, ?_, ?_⟩
  · intro t key n default
    simp only [compareKey, default, defOrderFunc]
    split_ifs <;> simp_all
  · intro t key n default
    simp only [compareKey, default, defOrderFunc]
    split_ifs <;> simp_all
    omega

variable {t : RbTree} {lt : Nat → Nat → Prop} {tree : ColorTree Nat} {path : TreePath Nat}

theorem Orders.equal (orders : Orders t.cfunc lt) {key n : Nat} :
    compareKey t key n = 0 ↔ key = (t.heap n).key := by
  have below := orders.below t key n rfl
  have above := orders.above t key n rfl
  have total := orders.order.trichotomous key (t.heap n).key
  have irreflexive := orders.order.irrefl
  constructor
  · intro zero
    grind
  · intro same
    have notBelow : ¬ compareKey t key n < 0 := by
      rw [below, ← same]
      exact irreflexive key
    have notAbove : ¬ 0 < compareKey t key n := by
      rw [above, ← same]
      exact irreflexive key
    omega

/-- The keys of the given nodes. -/
def RbTree.keys (t : RbTree) (nodes : List Nat) : List Nat := nodes.map fun a => (t.heap a).key

/-- The hole of the path is the place of the key in the order. -/
def Place (t : RbTree) (lt : Nat → Nat → Prop) (key : Nat) (path : TreePath Nat) : Prop :=
  (∀ a ∈ TreePath.before path, lt (t.heap a).key key) ∧
    ∀ a ∈ TreePath.after path, lt key (t.heap a).key

/-- The key is above a first part of the nodes, it matches at most the next one, and it is below the rest. -/
def Guided (t : RbTree) (key : Nat) (nodes : List Nat) : Prop :=
  nodes.Pairwise fun a b => compareKey t key a ≤ 0 → compareKey t key b < 0

/-- The comparisons with the key turn at the hole of the path. -/
def Gap (t : RbTree) (key : Nat) (path : TreePath Nat) : Prop :=
  (∀ a ∈ TreePath.before path, 0 < compareKey t key a) ∧
    ∀ a ∈ TreePath.after path, compareKey t key a < 0

/-- The descent below a key extends the gap by a frame. -/
theorem Gap.left {key root : Nat} {left right : ColorTree Nat} {black : Bool} (gap : Gap t key path)
    (guided : Guided t key (ColorTree.node left root black right).nodes)
    (below : compareKey t key root < 0) : Gap t key (⟨.left, root, black, right⟩ :: path) := by
  refine ⟨by simpa [TreePath.before, Frame.before] using gap.1, ?_⟩
  intro a member
  simp only [TreePath.after, Frame.after, List.cons_append, List.mem_cons, List.mem_append] at member
  rcases member with rfl | inRight | outside
  · exact below
  · simp only [Guided, ColorTree.nodes_node, List.pairwise_append, List.pairwise_cons] at guided
    exact guided.2.1.1 a inRight below.le
  · exact gap.2 a outside

theorem Gap.right {key root : Nat} {left right : ColorTree Nat} {black : Bool} (gap : Gap t key path)
    (guided : Guided t key (ColorTree.node left root black right).nodes)
    (above : 0 < compareKey t key root) : Gap t key (⟨.right, root, black, left⟩ :: path) := by
  refine ⟨?_, by simpa [TreePath.after, Frame.after] using gap.2⟩
  intro a member
  simp only [TreePath.before, Frame.before, List.mem_append, List.mem_singleton] at member
  rcases member with outside | inLeft | rfl
  · exact gap.1 a outside
  · simp only [Guided, ColorTree.nodes_node, List.pairwise_append] at guided
    by_contra notAbove
    have wrong := guided.2.2 a inLeft root (by simp) (not_lt.mp notAbove)
    omega
  · exact above

theorem guided_focus {key : Nat} (guided : Guided t key (TreePath.plug path tree).nodes) :
    Guided t key tree.nodes := by
  rw [Guided, TreePath.nodes_plug] at guided
  exact (List.pairwise_append.mp (List.pairwise_append.mp guided).1).2.1

/-- The descent of `rb_search` finds the match of the key or the gap that belongs to it. -/
theorem rbSearchLoop_guided {key fuel h : Nat} {compRet : Int}
    (linked : Linked t (TreePath.plug path tree))
    (guided : Guided t key (TreePath.plug path tree).nodes) (running : compRet ≠ 0)
    (last : tree = .leaf → h = TreePath.top path) (gap : Gap t key path)
    (enough : tree.height + 1 < fuel) :
    (∃ a ∈ tree.nodes, compareKey t key a = 0 ∧
      rbSearchLoop fuel t key h (ptr tree) compRet = some (a, a)) ∨
    ∃ hole, TreePath.plug path tree = TreePath.plug hole .leaf ∧ Gap t key hole ∧
      rbSearchLoop fuel t key h (ptr tree) compRet = some (0, TreePath.top hole) := by
  induction tree generalizing path fuel h compRet with
  | leaf =>
      obtain ⟨less, rfl⟩ := Nat.exists_eq_add_one_of_ne_zero (show fuel ≠ 0 by omega)
      refine Or.inr ⟨path, rfl, gap, ?_⟩
      simp [rbSearchLoop, ptr, last rfl]
  | node left root black right ihLeft ihRight =>
      obtain ⟨less, rfl⟩ := Nat.exists_eq_add_one_of_ne_zero (show fuel ≠ 0 by omega)
      have real := (linked.aligned_focus (a := root) (by simp)).1
      have leftChild : t.child .left root = ptr left := @Linked.child_near t path .left _ _ _ _ linked
      have rightChild : t.child .right root = ptr right := @Linked.child_far t path .left _ _ _ _ linked
      rw [ColorTree.height] at enough
      have here := guided_focus guided
      simp only [rbSearchLoop, ptr, real, ne_eq, not_false_eq_true, running, and_self, if_true,
        leftChild, rightChild]
      rcases lt_trichotomy (compareKey t key root) 0 with below | same | above
      · simp only [below, if_true]
        have next := @ihLeft (⟨.left, root, black, right⟩ :: path) less root _ linked guided below.ne
          (fun _ => rfl) (gap.left here below) (by omega)
        rcases next with ⟨a, member, found, run⟩ | missing
        · exact Or.inl ⟨a, by simp [member], found, run⟩
        · exact Or.inr missing
      · obtain ⟨last, rfl⟩ := Nat.exists_eq_add_one_of_ne_zero (show less ≠ 0 by omega)
        refine Or.inl ⟨root, by simp, same, ?_⟩
        simp [same, rbSearchLoop]
      · simp only [above.not_gt, above, if_true, if_false]
        have next := @ihRight (⟨.right, root, black, left⟩ :: path) less root _ linked guided above.ne'
          (fun _ => rfl) (gap.right here above) (by omega)
        rcases next with ⟨a, member, found, run⟩ | missing
        · exact Or.inl ⟨a, by simp [member], found, run⟩
        · exact Or.inr missing

/-- The search finds the match of the key or the gap that belongs to the key, one level in each pass. -/
theorem rbSearch_descends {key fuel : Nat} (linked : Linked t tree) (guided : Guided t key tree.nodes)
    (enough : tree.height + 1 < fuel) :
    (∃ a ∈ tree.nodes, compareKey t key a = 0 ∧ rbSearch fuel t key = some (a, a)) ∨
    ∃ hole, tree = TreePath.plug hole .leaf ∧ Gap t key hole ∧
      rbSearch fuel t key = some (0, TreePath.top hole) := by
  have root := linked.root
  cases tree with
  | leaf =>
      refine Or.inr ⟨[], rfl, by simp [Gap, TreePath.before, TreePath.after], ?_⟩
      simp only [ptr] at root
      simp [rbSearch, root, TreePath.top]
  | node left node black right =>
      have real := (linked.aligned node (by simp)).1
      simp only [ptr] at root
      have loop := @rbSearchLoop_guided t _ [] key fuel node 1 linked guided (by decide)
        (by simp) (by simp [Gap, TreePath.before, TreePath.after]) enough
      simpa only [rbSearch, root, real, if_false, TreePath.plug_nil, ptr] using loop

theorem rbSearch_guided {key fuel : Nat} (linked : Linked t tree) (guided : Guided t key tree.nodes)
    (enough : tree.nodes.length + 1 < fuel) :
    (∃ a ∈ tree.nodes, compareKey t key a = 0 ∧ rbSearch fuel t key = some (a, a)) ∨
    ∃ hole, tree = TreePath.plug hole .leaf ∧ Gap t key hole ∧
      rbSearch fuel t key = some (0, TreePath.top hole) := by
  have shallow := tree.height_le_length
  exact rbSearch_descends linked guided (by omega)

/-- The compare function orders the key against these nodes, whatever their links are. -/
structure Separates (t : RbTree) (lt : Nat → Nat → Prop) (key : Nat) (nodes : List Nat) : Prop where
  below : ∀ u, Same t u → ∀ n ∈ nodes, (compareKey u key n < 0 ↔ lt key (t.heap n).key)
  above : ∀ u, Same t u → ∀ n ∈ nodes, (0 < compareKey u key n ↔ lt (t.heap n).key key)

theorem Orders.separates (orders : Orders t.cfunc lt) (key : Nat) (nodes : List Nat) :
    Separates t lt key nodes := by
  constructor
  · intro u same n _
    rw [orders.below u key n same.cfunc, same.key]
  · intro u same n _
    rw [orders.above u key n same.cfunc, same.key]

variable {key : Nat}

theorem Separates.guided (order : IsStrictTotalOrder Nat lt)
    (separates : Separates t lt key tree.nodes) (sorted : (t.keys tree.nodes).Pairwise lt) :
    Guided t key tree.nodes := by
  rw [RbTree.keys, List.pairwise_map] at sorted
  apply List.Pairwise.imp_of_mem _ sorted
  intro a b first second less notAbove
  have total := order.trichotomous key (t.heap a).key
  have above := separates.above t (Same.refl t) a first
  rw [separates.below t (Same.refl t) b second]
  have notLess : ¬ lt (t.heap a).key key := fun lower => by
    have positive := above.mpr lower
    omega
  by_cases lower : lt key (t.heap a).key
  · exact order.trans _ _ _ lower less
  · rw [total lower notLess]
    exact less

theorem Separates.place {hole : TreePath Nat}
    (separates : Separates t lt key (TreePath.plug hole .leaf).nodes) (gap : Gap t key hole) :
    Place t lt key hole := by
  constructor
  · intro a member
    have inside : a ∈ (TreePath.plug hole ColorTree.leaf).nodes := by
      simp [TreePath.nodes_plug, member]
    exact (separates.above t (Same.refl t) a inside).mp (gap.1 a member)
  · intro a member
    have inside : a ∈ (TreePath.plug hole ColorTree.leaf).nodes := by
      simp [TreePath.nodes_plug, member]
    exact (separates.below t (Same.refl t) a inside).mp (gap.2 a member)

/-- The search finds the node of the key or the hole that belongs to the key. -/
theorem rbSearch_places {fuel : Nat} (order : IsStrictTotalOrder Nat lt)
    (separates : Separates t lt key tree.nodes) (linked : Linked t tree)
    (sorted : (t.keys tree.nodes).Pairwise lt) (enough : tree.height + 1 < fuel) :
    (∃ a ∈ tree.nodes, (t.heap a).key = key ∧ rbSearch fuel t key = some (a, a)) ∨
    ∃ hole, tree = TreePath.plug hole .leaf ∧ Place t lt key hole ∧
      rbSearch fuel t key = some (0, TreePath.top hole) := by
  rcases rbSearch_descends linked (separates.guided order sorted) enough with
    ⟨a, member, same, run⟩ | ⟨hole, rfl, gap, run⟩
  · have total := order.trichotomous key (t.heap a).key
    have below := separates.below t (Same.refl t) a member
    have above := separates.above t (Same.refl t) a member
    refine Or.inl ⟨a, member, (total ?_ ?_).symm, run⟩
    · rw [← below]
      omega
    · rw [← above]
      omega
  · exact Or.inr ⟨hole, rfl, separates.place gap, run⟩

theorem rbSearch_separates {fuel : Nat} (order : IsStrictTotalOrder Nat lt)
    (separates : Separates t lt key tree.nodes) (linked : Linked t tree)
    (sorted : (t.keys tree.nodes).Pairwise lt) (enough : tree.nodes.length + 1 < fuel) :
    (∃ a ∈ tree.nodes, (t.heap a).key = key ∧ rbSearch fuel t key = some (a, a)) ∨
    ∃ hole, tree = TreePath.plug hole .leaf ∧ Place t lt key hole ∧
      rbSearch fuel t key = some (0, TreePath.top hole) := by
  have shallow := tree.height_le_length
  exact rbSearch_places order separates linked sorted (by omega)

theorem rbSearch_linked (key : Nat) {fuel : Nat} (orders : Orders t.cfunc lt) (linked : Linked t tree)
    (sorted : (t.keys tree.nodes).Pairwise lt) (enough : tree.nodes.length + 1 < fuel) :
    (∃ a ∈ tree.nodes, (t.heap a).key = key ∧ rbSearch fuel t key = some (a, a)) ∨
    ∃ hole, tree = TreePath.plug hole .leaf ∧ Place t lt key hole ∧
      rbSearch fuel t key = some (0, TreePath.top hole) :=
  rbSearch_separates orders.order (orders.separates key tree.nodes) linked sorted enough

end Syslib.Rbtree
