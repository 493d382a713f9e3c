import Syslib.Rbtree.Model

namespace Syslib.Rbtree

open ColoredTree

/-- The decoded links of one node. -/
structure Cell where
  child : Side → Nat
  parent : Nat
  isblack : Nat

/-- This function decodes the parent and the colour from their shared word. -/
def RbNode.cell (node : RbNode) : Cell :=
  ⟨node.child, node.p - node.p % 4, node.isblack⟩

def RbTree.cell (t : RbTree) (node : Nat) : Cell := (t.heap node).cell

/-- The pointer to a tree is the address of its root node, or null. -/
def ptr : ColorTree Nat → Nat
  | .leaf => 0
  | .node _ root _ _ => root

@[simp] theorem ptr_join (side : Side) (near far : ColorTree Nat) (root : Nat) (black : Bool) :
    ptr (.join side near root black far) = root := by
  cases side <;> rfl

theorem ptr_mem {tree : ColorTree Nat} (inner : tree ≠ .leaf) : ptr tree ∈ tree.nodes := by
  cases tree with
  | leaf => exact absurd rfl inner
  | node left root black right => simp [ptr]

theorem ptr_ne {tree : ColorTree Nat} (real : ptr tree ≠ 0) : tree ≠ .leaf := by
  rintro rfl
  exact real rfl

/-- The root of a tree with a frame does not depend on the tree in the hole. -/
theorem ptr_plug_cons (frame : Frame Nat) (rest : TreePath Nat) (tree filled : ColorTree Nat) :
    ptr (TreePath.plug (frame :: rest) tree) = ptr (TreePath.plug (frame :: rest) filled) := by
  induction rest generalizing frame tree filled with
  | nil => simp [Frame.fill]
  | cons above rest ih => exact ih above (frame.fill tree) (frame.fill filled)

/-- The cells of a tree hold its child pointers, its colours and the parent of each node. -/
def Represents (cells : Nat → Cell) : Nat → ColorTree Nat → Prop
  | _, .leaf => True
  | parent, .node left root black right =>
      (cells root).child .left = ptr left ∧ (cells root).child .right = ptr right ∧
        (cells root).parent = parent ∧ (cells root).isblack = black.toNat ∧
        Represents cells root left ∧ Represents cells root right

theorem represents_join {cells : Nat → Cell} {side : Side} {near far : ColorTree Nat}
    {parent root : Nat} {black : Bool} :
    Represents cells parent (.join side near root black far) ↔
      (cells root).child side = ptr near ∧ (cells root).child side.other = ptr far ∧
        (cells root).parent = parent ∧ (cells root).isblack = black.toNat ∧
        Represents cells root near ∧ Represents cells root far := by
  cases side
  · rfl
  · simp only [ColorTree.join, Represents, Side.other]
    tauto

theorem Represents.parent_ptr {cells : Nat → Cell} {tree : ColorTree Nat} {parent : Nat}
    (represents : Represents cells parent tree) (real : ptr tree ≠ 0) :
    (cells (ptr tree)).parent = parent := by
  cases tree with
  | leaf => exact absurd rfl real
  | node left root black right => exact represents.2.2.1

/-- Equal cells on the nodes of a tree represent it equally. -/
theorem Represents.congr {cells updated : Nat → Cell} {tree : ColorTree Nat} {parent : Nat}
    (represents : Represents cells parent tree)
    (same : ∀ a ∈ tree.nodes, updated a = cells a) : Represents updated parent tree := by
  induction tree generalizing parent with
  | leaf => trivial
  | node left root black right ihLeft ihRight =>
      obtain ⟨lchild, rchild, up, color, near, far⟩ := represents
      have here := same root (by simp)
      refine ⟨by rw [here]; exact lchild, by rw [here]; exact rchild, by rw [here]; exact up,
        by rw [here]; exact color, ihLeft near ?_, ihRight far ?_⟩
      · intro a member
        exact same a (by simp [member])
      · intro a member
        exact same a (by simp [member])

/-- A tree moves below another parent when only the parent of its root changes. -/
theorem Represents.reparent {cells updated : Nat → Cell} {tree : ColorTree Nat} {parent moved : Nat}
    (represents : Represents cells parent tree) (nodup : tree.nodes.Nodup)
    (same : ∀ a ∈ tree.nodes, a ≠ ptr tree → updated a = cells a)
    (root : tree ≠ .leaf → updated (ptr tree) = { cells (ptr tree) with parent := moved }) :
    Represents updated moved tree := by
  cases tree with
  | leaf => trivial
  | node left root black right =>
      obtain ⟨lchild, rchild, _, color, near, far⟩ := represents
      have here := root (by simp)
      have fresh := (@ColorTree.nodup_join _ .left _ _ _ _).mp nodup
      simp only [ptr] at here same
      refine ⟨by rw [here]; exact lchild, by rw [here]; exact rchild, by rw [here],
        by rw [here]; exact color, near.congr ?_, far.congr ?_⟩
      · intro a member
        exact same a (by simp [member]) fun equal => fresh.2.2.1 (equal ▸ member)
      · intro a member
        exact same a (by simp [member]) fun equal => fresh.2.2.2.1 (equal ▸ member)

/-- The parent of the tree in the hole of a path. -/
def TreePath.top : TreePath Nat → Nat
  | [] => 0
  | frame :: _ => frame.root

/-- The cells of a path hold its frames; the hole carries the given pointer. -/
def RepresentsPath (cells : Nat → Cell) : TreePath Nat → Nat → Prop
  | [], _ => True
  | frame :: rest, hole =>
      (cells frame.root).child frame.side = hole ∧
        (cells frame.root).child frame.side.other = ptr frame.sibling ∧
        (cells frame.root).parent = TreePath.top rest ∧
        (cells frame.root).isblack = frame.black.toNat ∧
        Represents cells frame.root frame.sibling ∧ RepresentsPath cells rest frame.root

theorem represents_plug {cells : Nat → Cell} {path : TreePath Nat} {tree : ColorTree Nat} :
    Represents cells 0 (TreePath.plug path tree) ↔
      Represents cells (TreePath.top path) tree ∧ RepresentsPath cells path (ptr tree) := by
  induction path generalizing tree with
  | nil => simp [TreePath.top, RepresentsPath]
  | cons frame rest ih =>
      rw [TreePath.plug_cons, ih, Frame.fill, represents_join]
      simp only [RepresentsPath, TreePath.top, ptr_join]
      tauto

theorem RepresentsPath.congr {cells updated : Nat → Cell} {path : TreePath Nat} {hole : Nat}
    (represents : RepresentsPath cells path hole)
    (same : ∀ a ∈ TreePath.around path, updated a = cells a) : RepresentsPath updated path hole := by
  induction path generalizing hole with
  | nil => trivial
  | cons frame rest ih =>
      obtain ⟨inner, outer, up, color, sibling, above⟩ := represents
      have here := same frame.root (TreePath.mem_around_cons.mpr (Or.inl rfl))
      refine ⟨by rw [here]; exact inner, by rw [here]; exact outer, by rw [here]; exact up,
        by rw [here]; exact color, sibling.congr ?_, ih above ?_⟩
      · intro a member
        exact same a (TreePath.mem_around_cons.mpr (Or.inr (Or.inl member)))
      · intro a member
        exact same a (TreePath.mem_around_cons.mpr (Or.inr (Or.inr member)))

/-- A path takes another tree when only the hole of its top frame changes. -/
theorem RepresentsPath.refill {cells updated : Nat → Cell} {path : TreePath Nat} {hole filled : Nat}
    (represents : RepresentsPath cells path hole) (nodup : (TreePath.around path).Nodup)
    (same : ∀ a ∈ TreePath.around path, a ≠ TreePath.top path → updated a = cells a)
    (top : ∀ frame rest, path = frame :: rest →
      (updated frame.root).child frame.side = filled ∧
      (updated frame.root).child frame.side.other = (cells frame.root).child frame.side.other ∧
      (updated frame.root).parent = (cells frame.root).parent ∧
      (updated frame.root).isblack = (cells frame.root).isblack) :
    RepresentsPath updated path filled := by
  cases path with
  | nil => trivial
  | cons frame rest =>
      obtain ⟨_, outer, up, color, sibling, above⟩ := represents
      obtain ⟨newInner, newOuter, newUp, newColor⟩ := top frame rest rfl
      have apart : ∀ a, a ∈ frame.sibling.nodes ∨ a ∈ TreePath.around rest → a ≠ frame.root := by
        rintro a member rfl
        cases side : frame.side <;>
          simp only [TreePath.around, TreePath.before, TreePath.after, Frame.before, Frame.after, side] at nodup member <;>
          grind
      refine ⟨newInner, newOuter.trans outer, newUp.trans up, newColor.trans color,
        sibling.congr ?_, above.congr ?_⟩
      · intro a member
        exact same a (TreePath.mem_around_cons.mpr (Or.inr (Or.inl member))) (apart a (Or.inl member))
      · intro a member
        exact same a (TreePath.mem_around_cons.mpr (Or.inr (Or.inr member))) (apart a (Or.inr member))

end Syslib.Rbtree
