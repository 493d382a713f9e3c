import Mathlib.Data.List.Basic
import Mathlib.Data.List.Nodup
import Mathlib.Tactic

namespace Syslib.ColoredTree

inductive Side where
  | left
  | right
  deriving DecidableEq, Repr

def Side.other : Side → Side
  | .left => .right
  | .right => .left

@[simp] theorem Side.other_other (side : Side) : side.other.other = side := by
  cases side <;> rfl

@[simp] theorem Side.other_ne (side : Side) : side.other ≠ side := by
  cases side <;> decide

@[simp] theorem Side.ne_other (side : Side) : side ≠ side.other := by
  cases side <;> decide

/-- A tree stores one node identity and one colour in each inner position. -/
inductive ColorTree (α : Type*) where
  | leaf
  | node (left : ColorTree α) (root : α) (black : Bool) (right : ColorTree α)

variable {α β : Type*}

namespace ColorTree

/-- The near subtree hangs on the given side and the far one on the other side. -/
def join (side : Side) (near : ColorTree α) (root : α) (black : Bool) (far : ColorTree α) : ColorTree α :=
  match side with
  | .left => .node near root black far
  | .right => .node far root black near

/-- The nodes are listed in order. -/
def nodes : ColorTree α → List α
  | leaf => []
  | node left root _ right => left.nodes ++ root :: right.nodes

def size : ColorTree α → Nat
  | leaf => 0
  | node left _ _ right => left.size + right.size + 1

def height : ColorTree α → Nat
  | leaf => 0
  | node left _ _ right => max left.height right.height + 1

def map (rename : α → β) : ColorTree α → ColorTree β
  | leaf => .leaf
  | node left root black right => .node (left.map rename) (rename root) black (right.map rename)

/-- The root colour counts a missing node as black. -/
def isRed : ColorTree α → Bool
  | leaf => false
  | node _ _ black _ => !black

def blacken : ColorTree α → ColorTree α
  | leaf => .leaf
  | node left root _ right => .node left root true right

@[simp] theorem nodes_leaf : (leaf : ColorTree α).nodes = [] := rfl

@[simp] theorem nodes_node (left right : ColorTree α) (root : α) (black : Bool) :
    (node left root black right).nodes = left.nodes ++ root :: right.nodes := rfl

theorem size_eq_length (tree : ColorTree α) : tree.size = tree.nodes.length := by
  induction tree with
  | leaf => rfl
  | node left root black right ihLeft ihRight =>
      simp only [size, nodes, ihLeft, ihRight, List.length_append, List.length_cons]
      omega

theorem height_le_length (tree : ColorTree α) : tree.height ≤ tree.nodes.length := by
  induction tree with
  | leaf => rfl
  | node left root black right ihLeft ihRight =>
      simp only [height, nodes_node, List.length_append, List.length_cons]
      omega

@[simp] theorem nodes_map (rename : α → β) (tree : ColorTree α) :
    (tree.map rename).nodes = tree.nodes.map rename := by
  induction tree with
  | leaf => rfl
  | node left root black right ihLeft ihRight => simp [map, ihLeft, ihRight]

@[simp] theorem nodes_blacken (tree : ColorTree α) : tree.blacken.nodes = tree.nodes := by
  cases tree <;> rfl

@[simp] theorem isRed_join (side : Side) (near far : ColorTree α) (root : α) (black : Bool) :
    (join side near root black far).isRed = !black := by
  cases side <;> rfl

@[simp] theorem join_ne_leaf (side : Side) (near far : ColorTree α) (root : α) (black : Bool) :
    join side near root black far ≠ leaf := by
  cases side <;> simp [join]

theorem join_other (side : Side) (near far : ColorTree α) (root : α) (black : Bool) :
    join side.other near root black far = join side far root black near := by
  cases side <;> rfl

theorem mem_nodes_join {side : Side} {near far : ColorTree α} {root a : α} {black : Bool} :
    a ∈ (join side near root black far).nodes ↔ a ∈ near.nodes ∨ a = root ∨ a ∈ far.nodes := by
  cases side
  · simp [join]
  · simp only [join, nodes_node, List.mem_append, List.mem_cons]
    tauto

theorem nodup_join {side : Side} {near far : ColorTree α} {root : α} {black : Bool} :
    (join side near root black far).nodes.Nodup ↔
      near.nodes.Nodup ∧ far.nodes.Nodup ∧ root ∉ near.nodes ∧ root ∉ far.nodes ∧
        ∀ a ∈ near.nodes, a ∉ far.nodes := by
  cases side <;>
    simp only [join, nodes_node, List.nodup_append, List.nodup_cons, List.mem_cons] <;> grind

/-- A rotation keeps the in-order list. -/
theorem nodes_rotate (side : Side) (outer middle inner : ColorTree α) (node lifted : α)
    (color top newColor newTop : Bool) :
    (join side (join side outer node newColor middle) lifted newTop inner).nodes =
      (join side outer node color (join side middle lifted top inner)).nodes := by
  cases side <;> simp [join]

/-- Each inner tree is a join on any side. -/
theorem eq_join (side : Side) {tree : ColorTree α} (inner : tree ≠ .leaf) :
    ∃ near root black far, tree = join side near root black far := by
  cases tree with
  | leaf => exact absurd rfl inner
  | node left root black right =>
      cases side
      · exact ⟨left, root, black, right, rfl⟩
      · exact ⟨right, root, black, left, rfl⟩

end ColorTree

/-- A frame is one inner position with the hole on the given side. -/
structure Frame (α : Type*) where
  side : Side
  root : α
  black : Bool
  sibling : ColorTree α

namespace Frame

def fill (frame : Frame α) (tree : ColorTree α) : ColorTree α :=
  .join frame.side tree frame.root frame.black frame.sibling

/-- The nodes of the frame that stand before the hole. -/
def before (frame : Frame α) : List α :=
  match frame.side with
  | .left => []
  | .right => frame.sibling.nodes ++ [frame.root]

/-- The nodes of the frame that stand after the hole. -/
def after (frame : Frame α) : List α :=
  match frame.side with
  | .left => frame.root :: frame.sibling.nodes
  | .right => []

theorem nodes_fill (frame : Frame α) (tree : ColorTree α) :
    (frame.fill tree).nodes = frame.before ++ tree.nodes ++ frame.after := by
  cases side : frame.side <;> simp [fill, before, after, side, ColorTree.join]

end Frame

/-- A path lists the frames from the hole up to the root. -/
abbrev TreePath (α : Type*) := List (Frame α)

namespace TreePath

def plug : TreePath α → ColorTree α → ColorTree α
  | [], tree => tree
  | frame :: rest, tree => plug rest (frame.fill tree)

def before : TreePath α → List α
  | [] => []
  | frame :: rest => before rest ++ frame.before

def after : TreePath α → List α
  | [] => []
  | frame :: rest => frame.after ++ after rest

@[simp] theorem plug_nil (tree : ColorTree α) : plug [] tree = tree := rfl

@[simp] theorem plug_cons (frame : Frame α) (rest : TreePath α) (tree : ColorTree α) :
    plug (frame :: rest) tree = plug rest (frame.fill tree) := rfl

theorem plug_append (inner outer : TreePath α) (tree : ColorTree α) :
    plug (inner ++ outer) tree = plug outer (plug inner tree) := by
  induction inner generalizing tree with
  | nil => rfl
  | cons frame rest ih => exact ih (frame.fill tree)

theorem nodes_plug (path : TreePath α) (tree : ColorTree α) :
    (plug path tree).nodes = before path ++ tree.nodes ++ after path := by
  induction path generalizing tree with
  | nil => simp [before, after]
  | cons frame rest ih => simp [ih, before, after, Frame.nodes_fill, List.append_assoc]

/-- The nodes of a path are the nodes around its hole. -/
def around (path : TreePath α) : List α := before path ++ after path

theorem mem_around_cons {frame : Frame α} {rest : TreePath α} {a : α} :
    a ∈ around (frame :: rest) ↔ a = frame.root ∨ a ∈ frame.sibling.nodes ∨ a ∈ around rest := by
  cases side : frame.side <;>
    simp only [around, before, after, Frame.before, Frame.after, side, List.mem_append,
      List.mem_cons, List.not_mem_nil] <;>
    tauto

theorem mem_plug {path : TreePath α} {tree : ColorTree α} {a : α} :
    a ∈ (plug path tree).nodes ↔ a ∈ tree.nodes ∨ a ∈ around path := by
  simp only [nodes_plug, around, List.mem_append]
  tauto

theorem nodup_plug {path : TreePath α} {tree : ColorTree α} :
    (plug path tree).nodes.Nodup ↔
      tree.nodes.Nodup ∧ (around path).Nodup ∧ ∀ a ∈ tree.nodes, a ∉ around path := by
  have perm : (plug path tree).nodes.Perm (tree.nodes ++ around path) := by
    rw [nodes_plug, around, ← List.append_assoc]
    exact List.perm_append_comm.append_right _
  rw [perm.nodup_iff, List.nodup_append]
  constructor
  · rintro ⟨inner, outer, apart⟩
    exact ⟨inner, outer, fun a member other => apart a member a other rfl⟩
  · rintro ⟨inner, outer, apart⟩
    refine ⟨inner, outer, ?_⟩
    rintro a member b other rfl
    exact apart a member other

/-- Each node of a tree is the root of a focus. -/
theorem exists_focus {tree : ColorTree α} {a : α} (member : a ∈ tree.nodes) :
    ∃ path left black right, tree = plug path (.node left a black right) := by
  induction tree with
  | leaf => simp at member
  | node left root black right ihLeft ihRight =>
      rw [ColorTree.nodes_node, List.mem_append, List.mem_cons] at member
      rcases member with inLeft | rfl | inRight
      · obtain ⟨path, near, color, far, rfl⟩ := ihLeft inLeft
        exact ⟨path ++ [⟨.left, root, black, right⟩], near, color, far, by rw [plug_append]; rfl⟩
      · exact ⟨[], left, black, right, rfl⟩
      · obtain ⟨path, near, color, far, rfl⟩ := ihRight inRight
        exact ⟨path ++ [⟨.right, root, black, left⟩], near, color, far, by rw [plug_append]; rfl⟩

theorem length_le_around (path : TreePath α) : path.length ≤ (around path).length := by
  induction path with
  | nil => simp
  | cons frame rest ih =>
      cases side : frame.side <;>
        simp [around, before, after, Frame.before, Frame.after, side] at ih ⊢ <;> omega

/-- A path is not longer than the tree has nodes besides the focus. -/
theorem length_plug (path : TreePath α) (tree : ColorTree α) :
    path.length + tree.nodes.length ≤ (plug path tree).nodes.length := by
  have bound := length_le_around path
  simp only [nodes_plug, around, List.length_append] at bound ⊢
  omega

/-- A path and its focus reach at most down to the lowest node. -/
theorem height_plug (path : TreePath α) (tree : ColorTree α) :
    path.length + tree.height ≤ (plug path tree).height := by
  induction path generalizing tree with
  | nil => simp
  | cons frame rest ih =>
      have above := ih (frame.fill tree)
      have lower : tree.height + 1 ≤ (frame.fill tree).height := by
        cases side : frame.side <;> simp [Frame.fill, ColorTree.join, side, ColorTree.height]
      rw [plug_cons, List.length_cons]
      omega

/-- The same tree with the focus moved to the sibling of the hole. -/
theorem plug_sibling (frame : Frame α) (rest : TreePath α) (tree : ColorTree α) :
    plug (frame :: rest) tree =
      plug (⟨frame.side.other, frame.root, frame.black, tree⟩ :: rest) frame.sibling := by
  simp [Frame.fill, ColorTree.join_other]

/-- The rename of a filled path is the renamed path filled with the renamed tree. -/
def map (rename : α → β) (path : TreePath α) : TreePath β :=
  List.map (fun frame => ⟨frame.side, rename frame.root, frame.black, frame.sibling.map rename⟩) path

theorem map_plug (rename : α → β) (path : TreePath α) (tree : ColorTree α) :
    (plug path tree).map rename = plug (map rename path) (tree.map rename) := by
  induction path generalizing tree with
  | nil => rfl
  | cons frame rest ih =>
      have filled : (frame.fill tree).map rename = Frame.fill
          ⟨frame.side, rename frame.root, frame.black, frame.sibling.map rename⟩
          (tree.map rename) := by
        cases side : frame.side <;> simp [Frame.fill, side, ColorTree.join, ColorTree.map]
      rw [plug_cons, ih, filled]
      rfl

theorem map_cons (rename : α → β) (frame : Frame α) (rest : TreePath α) :
    map rename (frame :: rest) =
      ⟨frame.side, rename frame.root, frame.black, frame.sibling.map rename⟩ :: map rename rest := rfl

theorem before_map (rename : α → β) (path : TreePath α) :
    before (map rename path) = (before path).map rename := by
  induction path with
  | nil => rfl
  | cons frame rest ih =>
      rw [map_cons, before, before, ih, List.map_append]
      cases side : frame.side <;> simp [Frame.before, side]

theorem after_map (rename : α → β) (path : TreePath α) :
    after (map rename path) = (after path).map rename := by
  induction path with
  | nil => rfl
  | cons frame rest ih =>
      rw [map_cons, after, after, ih, List.map_append]
      cases side : frame.side <;> simp [Frame.after, side]

theorem before_append (inner outer : TreePath α) :
    before (inner ++ outer) = before outer ++ before inner := by
  induction inner with
  | nil => simp [before]
  | cons frame rest ih => rw [List.cons_append, before, before, ih, List.append_assoc]

theorem after_append (inner outer : TreePath α) :
    after (inner ++ outer) = after inner ++ after outer := by
  induction inner with
  | nil => simp [after]
  | cons frame rest ih => rw [List.cons_append, after, after, ih, List.append_assoc]

end TreePath

namespace ColorTree

/-- A rename that fixes the nodes of a tree fixes the tree. -/
theorem map_eq_self {rename : α → α} {tree : ColorTree α} (fixed : ∀ a ∈ tree.nodes, rename a = a) :
    tree.map rename = tree := by
  induction tree with
  | leaf => rfl
  | node left root black right ihLeft ihRight =>
      rw [map, ihLeft fun a member => fixed a (by simp [member]), fixed root (by simp),
        ihRight fun a member => fixed a (by simp [member])]

end ColorTree

end Syslib.ColoredTree
