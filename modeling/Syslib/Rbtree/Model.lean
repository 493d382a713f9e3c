import Syslib.Library.ColoredTree

namespace Syslib.Rbtree

open ColoredTree

/-- This is `struct rbnode`; the word `p` carries the parent address and the two colour bits. -/
structure RbNode where
  key : Nat
  lchild : Nat
  rchild : Nat
  p : Nat
  deriving DecidableEq, Repr

/-- A compare function gets the key, the node pointer and the node that it points to. -/
abbrev CompareFunction := Nat → Nat → RbNode → Int

/-- This is `struct rbtree` with the memory that its nodes live in. -/
structure RbTree where
  heap : Nat → RbNode
  root : Nat
  size : Int
  cfunc : Option CompareFunction

/-- An `int` counter wraps around. -/
def toInt (value : Int) : Int := value.bmod (2 ^ 32)

def RbNode.child (node : RbNode) : Side → Nat
  | .left => node.lchild
  | .right => node.rchild

def RbNode.setChild (node : RbNode) (child : Nat) : Side → RbNode
  | .left => { node with lchild := child }
  | .right => { node with rchild := child }

/-- The bit field shares the low two bits of the parent word. -/
def RbNode.isblack (node : RbNode) : Nat := node.p % 4

def RbNode.setIsblack (node : RbNode) (value : Nat) : RbNode :=
  { node with p := node.p - node.p % 4 + value }

namespace RbTree

def write (t : RbTree) (pointer : Nat) (node : RbNode) : RbTree :=
  { t with heap := Function.update t.heap pointer node }

/-- The macros `l_child` and `r_child` accept a null node. -/
def child (t : RbTree) (side : Side) (node : Nat) : Nat :=
  if node = 0 then 0 else (t.heap node).child side

def setChild (t : RbTree) (side : Side) (node child : Nat) : RbTree :=
  t.write node ((t.heap node).setChild child side)

def isBlack (t : RbTree) (node : Nat) : Bool := node = 0 ∨ (t.heap node).isblack ≠ 0

def isRed (t : RbTree) (node : Nat) : Bool := node ≠ 0 ∧ (t.heap node).isblack = 0

def setBlack (t : RbTree) (node : Nat) : RbTree :=
  if node = 0 then t else t.write node ((t.heap node).setIsblack 1)

def setRed (t : RbTree) (node : Nat) : RbTree :=
  if node = 0 then t else t.write node ((t.heap node).setIsblack 0)

def cpColor (t : RbTree) (target source : Nat) : RbTree :=
  if target = 0 then t
  else t.write target
    ((t.heap target).setIsblack (if source = 0 then 1 else (t.heap source).isblack))

/-- The new parent word keeps the colour bits of the old one. -/
def setParent (t : RbTree) (node p : Nat) : RbTree :=
  t.write node { t.heap node with p := p ||| (t.heap node).isblack }

def getParent (t : RbTree) (node : Nat) : Nat :=
  if node = 0 then 0 else (t.heap node).p - (t.heap node).p % 4

end RbTree

def defOrderFunc (key : Nat) (node : RbNode) : Int :=
  if key < node.key then -1 else if key > node.key then 1 else 0

def compareKey (t : RbTree) (key n : Nat) : Int :=
  match t.cfunc with
  | none => defOrderFunc key (t.heap n)
  | some cfunc => cfunc key n (t.heap n)

def rbInit (heap : Nat → RbNode) (cf : Option CompareFunction) : RbTree :=
  { heap := heap, root := 0, size := 0, cfunc := cf }

def setParentIf (t : RbTree) (node p : Nat) : RbTree :=
  if node = 0 then t else t.setParent node p

/-- The rotations test only the left child word of the parent. -/
def relinkParent (t : RbTree) (nodeP node child : Nat) : RbTree :=
  if nodeP = 0 then t
  else if node = t.child .left nodeP then t.setChild .left nodeP child
  else t.setChild .right nodeP child

def setRootIf (t : RbTree) (nodeP root : Nat) : RbTree :=
  if nodeP = 0 then { t with root := root } else t

/-- The rotation towards `side` lifts the child `rc` on the other side. -/
def rotateLift (side : Side) (t : RbTree) (node rc nodeP : Nat) : RbTree :=
  let t := t.setParent rc nodeP
  let t := relinkParent t nodeP node rc
  let t := t.setParent node rc
  let t := setParentIf t (t.child side rc) node
  let t := t.setChild side.other node (t.child side rc)
  let t := t.setChild side rc node
  setRootIf t nodeP rc

def rotate (side : Side) (t : RbTree) (node : Nat) : RbTree :=
  if node = 0 then t
  else if t.child side.other node = 0 then t
  else rotateLift side t node (t.child side.other node) (t.getParent node)

def leftRotate (t : RbTree) (node : Nat) : RbTree := rotate .left t node

def rightRotate (t : RbTree) (node : Nat) : RbTree := rotate .right t node

/-- This is the end of `_fix_rr` for a black uncle; the parent `p` hangs on `side` of `g`. -/
def fixRrRotate (side : Side) (t : RbTree) (node p g : Nat) : RbTree × Nat :=
  let (t, node) := if node = t.child side.other p then (rotate side t p, node) else (t, p)
  let t := t.setBlack node
  let t := t.setRed g
  (rotate side.other t g, node)

/-- The first loop of `_fix_rr` runs while the parent is red; a null grandparent faults. -/
def fixRrLoop : Nat → RbTree → Nat → Nat → Option (RbTree × Nat)
  | 0, _, _, _ => none
  | fuel + 1, t, node, p =>
    if !t.isRed p then some (t, node)
    else
      let p := t.getParent node
      let g := t.getParent p
      if g = 0 then none
      else
        let side := if p = t.child .left g then Side.left else Side.right
        let u := t.child side.other g
        if t.isRed u then
          let t := t.setBlack p
          let t := t.setBlack u
          let t := t.setRed g
          fixRrLoop fuel t g (t.getParent g)
        else some (fixRrRotate side t node p g)

/-- The second loop of `_fix_rr` walks up to the root. -/
def climb : Nat → RbTree → Nat → Option Nat
  | 0, _, _ => none
  | fuel + 1, t, node =>
    if node = 0 then some node
    else
      let p := t.getParent node
      if p = 0 then some node else climb fuel t p

def fixRr (fuel : Nat) (t : RbTree) (node : Nat) : Option RbTree :=
  if node = 0 then some t
  else
    let p := t.getParent node
    if p = 0 then some t
    else do
      let (t, node) ← fixRrLoop fuel t node p
      let node ← climb fuel t node
      let t := { t with root := node }
      some (t.setBlack t.root)

/-- The loop of `rb_search` carries the last visited node and the last comparison. -/
def rbSearchLoop : Nat → RbTree → Nat → Nat → Nat → Int → Option (Nat × Nat)
  | 0, _, _, _, _, _ => none
  | fuel + 1, t, key, h, p, compRet =>
    if p ≠ 0 ∧ compRet ≠ 0 then
      let h := p
      let compRet := compareKey t key p
      let p := if compRet < 0 then t.child .left p
        else if compRet > 0 then t.child .right p else p
      rbSearchLoop fuel t key h p compRet
    else some (p, h)

/-- The result pairs the found node with `*hot`. -/
def rbSearch (fuel : Nat) (t : RbTree) (key : Nat) : Option (Nat × Nat) :=
  if t.root = 0 then some (0, 0)
  else rbSearchLoop fuel t key t.root t.root 1

def rbInsert (fuel : Nat) (t : RbTree) (node : Nat) : Option (RbTree × Int) :=
  if node = 0 ∨ node % 4 ≠ 0 then some (t, -1)
  else do
    let (found, hot) ← rbSearch fuel t (t.heap node).key
    if found ≠ 0 then some (t, -1)
    else
      let t := t.write node ((t.heap node).setIsblack 0)
      let t := t.setChild .left node 0
      let t := t.setChild .right node 0
      let t := t.setParent node hot
      if hot ≠ 0 then
        let compRet := compareKey t (t.heap node).key hot
        if compRet = 0 then some (t, -1)
        else do
          let t := t.setChild (if compRet < 0 then .left else .right) hot node
          let t := t.setParent node hot
          let t ← fixRr fuel t node
          if t.root = 0 then none
          else
            let t := t.setBlack t.root
            some ({ t with size := toInt (t.size + 1) }, 0)
      else
        let t := { t with root := node }
        let t := t.setBlack t.root
        some ({ t with size := toInt (t.size + 1) }, 0)

/-- A link to one of its own children is refused. -/
def link (t : RbTree) (p lc rc : Nat) : RbTree :=
  if p = 0 then t
  else if p = lc ∨ p = rc then t
  else
    let t := t.setChild .left p lc
    let t := t.setChild .right p rc
    let t := setParentIf t lc p
    setParentIf t rc p

/-- The swap exchanges the three link words of the two nodes, the colour bits included. -/
def swapWords (t : RbTree) (p q : Nat) : RbTree :=
  let np := t.heap p
  let nq := t.heap q
  let t := t.write p { np with lchild := nq.lchild, rchild := nq.rchild, p := nq.p }
  t.write q { nq with lchild := np.lchild, rchild := np.rchild, p := np.p }

/-- The parent's child word that points to the old node is redirected to the new one. -/
def replaceChild (t : RbTree) (parent old new : Nat) : RbTree :=
  if parent = 0 then t
  else if old = t.child .left parent then t.setChild .left parent new
  else if old = t.child .right parent then t.setChild .right parent new
  else t

def swapNode (t : RbTree) (p q : Nat) : RbTree :=
  let plc := t.child .left p
  let prc := t.child .right p
  let pp := t.getParent p
  let qlc := t.child .left q
  let qrc := t.child .right q
  let qp := t.getParent q
  let t := setParentIf t plc q
  let t := setParentIf t prc q
  let t := setParentIf t qlc p
  let t := setParentIf t qrc p
  let t := replaceChild t pp p q
  let t := replaceChild t qp q p
  swapWords t p q

/-- The child words of the parent are tested one after the other. -/
def spliceChild (t : RbTree) (rm rmP sc : Nat) : RbTree :=
  let t := if rm = t.child .left rmP then link t rmP sc (t.child .right rmP) else t
  if rm = t.child .right rmP then link t rmP (t.child .left rmP) sc else t

/-- The spliced node leaves the child word of its old parent. -/
def unhook (t : RbTree) (sc : Nat) : RbTree :=
  if sc = 0 then t else replaceChild t (t.getParent sc) sc 0

/-- A removed root is replaced by the spliced node. -/
def spliceRoot (t : RbTree) (rm sc : Nat) : RbTree :=
  let t := link t sc (t.child .left rm) (t.child .right rm)
  setParentIf { t with root := sc } sc 0

/-- A removed node below `rmP` is replaced by the spliced node. -/
def spliceBelow (t : RbTree) (rm rmP sc : Nat) : RbTree :=
  let t := spliceChild t rm rmP sc
  link t sc (t.child .left rm) 0

def clearNode (t : RbTree) (node : Nat) : RbTree :=
  ((t.setParent node 0).setChild .left node 0).setChild .right node 0

/-- The splice of `sc` into the place of `rm`; a spliced node without a parent faults. -/
def transplant (t : RbTree) (rm sc : Nat) : Option RbTree :=
  if rm = 0 then some t
  else if sc ≠ 0 ∧ t.getParent sc = 0 then none
  else
    let rmP := t.getParent rm
    let t := unhook t sc
    let t := if rmP = 0 then spliceRoot t rm sc else spliceBelow t rm rmP sc
    some (clearNode t rm)

/-- The leftmost node below `subroot`. -/
def succLoop : Nat → RbTree → Nat → Nat → Option Nat
  | 0, _, _, _ => none
  | fuel + 1, t, p, subroot =>
    if subroot ≠ 0 then succLoop fuel t subroot (t.child .left subroot) else some p

def succ (fuel : Nat) (t : RbTree) (subroot : Nat) : Option Nat :=
  if subroot = 0 then some 0 else succLoop fuel t subroot subroot

/-- The upward walk of `rb_succ`. -/
def rbSuccUp : Nat → RbTree → Nat → Nat → Option Nat
  | 0, _, _, _ => none
  | fuel + 1, t, x, y =>
    if y ≠ 0 ∧ x = t.child .right y then rbSuccUp fuel t y (t.getParent y) else some y

def rbSucc (fuel : Nat) (t : RbTree) (x : Nat) : Option Nat :=
  let r := t.child .right x
  let y := t.getParent x
  if r ≠ 0 then succ fuel t r else rbSuccUp fuel t x y

/-- The pass of `_fix_bb_new` for a black sibling `w`; a repeated pass reads the sibling again. -/
def fixBbBlack (side : Side) (t : RbTree) (x p w : Nat) : RbTree × Nat :=
  if t.isBlack (t.child side w) && t.isBlack (t.child side.other w) then (t.setRed w, p)
  else if t.isBlack (t.child side.other w) then
    let t := t.setBlack (t.child side w)
    let t := t.setRed w
    (rotate side.other t w, x)
  else
    let t := t.cpColor w p
    let t := t.setBlack p
    let t := t.setBlack (t.child side.other w)
    let t := rotate side t p
    (t, t.root)

/-- One pass of the loop of `_fix_bb_new` for a node on `side` of its parent. -/
def fixBbPass (side : Side) (t : RbTree) (x p : Nat) : RbTree × Nat :=
  let w := t.child side.other p
  if t.isRed w then
    let t := t.setBlack w
    let t := t.setRed p
    let t := rotate side t p
    fixBbBlack side t x p (t.child side.other p)
  else fixBbBlack side t x p w

def fixBbNewLoop : Nat → RbTree → Nat → Option (RbTree × Nat)
  | 0, _, _ => none
  | fuel + 1, t, x =>
    if x ≠ t.root ∧ t.isBlack x then
      let p := t.getParent x
      if p = 0 then some (t, x)
      else
        let side := if x = t.child .left p then Side.left else Side.right
        let (t, x) := fixBbPass side t x p
        fixBbNewLoop fuel t x
    else some (t, x)

def fixBbNew (fuel : Nat) (t : RbTree) (x : Nat) : Option RbTree := do
  let (t, x) ← fixBbNewLoop fuel t x
  some (t.setBlack x)

/-- The end of `rb_remove_node` after the splice. -/
def finishRemove (t : RbTree) (x : Nat) : RbTree :=
  let t := t.setBlack t.root
  let t := clearNode t x
  let t := { t with size := toInt (t.size - 1) }
  if t.size ≤ 0 then { t with root := 0 } else t

/-- The rebalancing comes before the splice. -/
def unlinkNode (fuel : Nat) (t : RbTree) (x r : Nat) (doubleBlack : Bool) : Option RbTree := do
  let t ← if doubleBlack then fixBbNew fuel t x else some t
  let t ← transplant t x r
  some (finishRemove t x)

/-- A node with two children first changes places with its successor; a null node faults. -/
def rbRemoveNode (fuel : Nat) (t : RbTree) (x : Nat) : Option RbTree :=
  if x = 0 then none
  else if t.child .left x ≠ 0 ∧ t.child .right x ≠ 0 then do
    let r ← succ fuel t (t.child .right x)
    let rr := t.child .right r
    let doubleBlack := t.isBlack r
    let t := if x = t.root then { t with root := r } else t
    let t := swapNode t x r
    unlinkNode fuel t x rr doubleBlack
  else
    let r := if t.child .right x = 0 then t.child .left x else t.child .right x
    unlinkNode fuel t x r (t.isBlack x)

/-- The result pairs the tree with the removed node. -/
def rbRemove (fuel : Nat) (t : RbTree) (key : Nat) : Option (RbTree × Nat) :=
  if t.root = 0 then some (t, 0)
  else if t.size ≤ 0 then some (t, 0)
  else do
    let (x, _) ← rbSearch fuel t key
    if x = 0 then some (t, 0)
    else do
      let t ← rbRemoveNode fuel t x
      some (t, x)

end Syslib.Rbtree
