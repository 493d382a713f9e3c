import Mathlib.Logic.Relation
import Syslib.Rbtree.Insert

namespace Syslib

open Rbtree ColoredTree

/-- This is `struct ngb_node` without its weight and its links. -/
structure NgbNode where
  address : Nat
  key : BitVec 32
  deriving DecidableEq, Repr

/-- A graph node starts with its table node, so both have one address. -/
structure Graph where
  gnodeTable : RbTree
  ngbList : Nat → List NgbNode

/-- An `int` key becomes a pointer in the table. -/
def keyWord (key : BitVec 32) : Nat := (key.signExtend 64).toNat

/-- The memory of a graph has any compare function, which `graph_new` leaves as it is. -/
def graphNew (heap : Nat → RbNode) (cfunc : Option CompareFunction) : Graph where
  gnodeTable := { heap, root := 0, size := 0, cfunc }
  ngbList := fun _ => []

/-- The search writes `*hot` before anything else. -/
def rbSearchHot (fuel : Nat) (t : RbTree) (key hot : Nat) : Option Nat :=
  if hot = 0 then none else (rbSearch fuel t key).map Prod.fst

def graphAddNode (fuel : Nat) (g : Graph) (node : Nat) (key : BitVec 32) : Option (Graph × Int) :=
  if node = 0 then some (g, 0)
  else do
    let filled := g.gnodeTable.write node ⟨keyWord key, 0, 0, 0⟩
    let ngbList := Function.update g.ngbList node []
    let (gnodeTable, rslt) ← rbInsert fuel filled node
    if rslt = 0 then some (⟨gnodeTable, ngbList⟩, 0) else some (⟨gnodeTable, ngbList⟩, 1)

def graphAddEdge (fuel : Nat) (g : Graph) (ngb1 ngb2 : NgbNode) : Option (Graph × Int) := do
  let rbn1 ← rbSearchHot fuel g.gnodeTable (keyWord ngb1.key) 0
  if rbn1 = 0 then some (g, 0)
  else do
    let rbn2 ← rbSearchHot fuel g.gnodeTable (keyWord ngb2.key) 0
    if rbn2 = 0 then some (g, 0)
    else
      let ngbList := Function.update g.ngbList rbn1 (g.ngbList rbn1 ++ [ngb2])
      let ngbList := Function.update ngbList rbn2 (ngbList rbn2 ++ [ngb1])
      some ({ g with ngbList }, 1)

inductive GraphCall where
  | addNode (node : Nat) (key : BitVec 32)
  | addEdge (ngb1 ngb2 : NgbNode)
  deriving DecidableEq, Repr

def graphCall (fuel : Nat) : GraphCall → Graph → Option (Graph × Int)
  | .addNode node key, g => graphAddNode fuel g node key
  | .addEdge ngb1 ngb2, g => graphAddEdge fuel g ngb1 ngb2

/-- The child links lead from the root to the node. -/
def Graph.Has (g : Graph) (node : Nat) : Prop :=
  node ≠ 0 ∧ Relation.ReflTransGen (fun above below => ∃ side, g.gnodeTable.child side above = below)
    g.gnodeTable.root node

def Graph.HasKey (g : Graph) (key : BitVec 32) (node : Nat) : Prop :=
  g.Has node ∧ (g.gnodeTable.heap node).key = keyWord key

/-- Two graphs have the same nodes under the same keys and the same neighbours. -/
def Graph.Unchanged (g next : Graph) : Prop :=
  ∀ key node, (next.HasKey key node ↔ g.HasKey key node) ∧
    (g.Has node → next.ngbList node = g.ngbList node)

/-- The answer of a call says what the call has done. -/
def GraphCall.Right (g next : Graph) (answer : Int) : GraphCall → Prop
  | .addNode node key =>
      (answer = 1 ↔ (∀ other, ¬ g.HasKey key other) ∧ next.HasKey key node) ∧
        (answer ≠ 1 → answer = 0 ∧ g.Unchanged next)
  | .addEdge ngb1 ngb2 =>
      (answer = 1 ↔ ∃ first second, g.HasKey ngb1.key first ∧ g.HasKey ngb2.key second) ∧
        (answer ≠ 1 → g.Unchanged next)

/-- Each edge has an entry at both of its ends. -/
def Graph.Symmetric (g : Graph) : Prop :=
  ∀ u v first second, g.HasKey u first → g.HasKey v second →
    (g.ngbList first).countP (fun ngb => ngb.key = v) =
      (g.ngbList second).countP (fun ngb => ngb.key = u)

/-- Every call of the sequence returns, its answer is right, and the graph stays symmetric. -/
def Lawful (fuel : Nat) : List GraphCall → Graph → Prop
  | [], g => g.Symmetric
  | call :: rest, g =>
      g.Symmetric ∧ ∃ next answer, graphCall fuel call g = some (next, answer) ∧
        call.Right g next answer ∧ Lawful fuel rest next

/-- The user gives a structure for each new node. -/
def GraphCall.Real : GraphCall → Prop
  | .addNode node _ => node ≠ 0 ∧ node % 8 = 0
  | .addEdge _ _ => True

instance : DecidablePred GraphCall.Real := by
  intro call
  cases call <;> unfold GraphCall.Real <;> infer_instance

/-- Every new edge writes through the null pointer. -/
theorem graphAddEdge_null (fuel : Nat) (g : Graph) (ngb1 ngb2 : NgbNode) :
    graphAddEdge fuel g ngb1 ngb2 = none := rfl

/-- The first node enters the empty graph, and the answer says that it did not. -/
theorem graphAddNode_first (fuel : Nat) (heap : Nat → RbNode) (cfunc : Option CompareFunction)
    {node : Nat} (real : node ≠ 0 ∧ node % 8 = 0) (key : BitVec 32) :
    ∃ next, graphAddNode fuel (graphNew heap cfunc) node key = some (next, 0) ∧
      next.HasKey key node := by
  have aligned : node % 4 = 0 := by omega
  let filled := (graphNew heap cfunc).gnodeTable.write node ⟨keyWord key, 0, 0, 0⟩
  let grown := RbTree.setBlack { hangNode filled node 0 with root := node } node
  have run : rbInsert fuel filled node = some ({ grown with size := toInt 1 }, 0) := by
    simp [rbInsert, aligned, rbSearch, filled, grown, graphNew, RbTree.write, hangNode, RbTree.setBlack,
      real.1, RbTree.setChild, RbTree.setParent]
  refine ⟨⟨{ grown with size := toInt 1 }, Function.update (graphNew heap cfunc).ngbList node []⟩, ?_,
    ?_⟩
  · rw [graphAddNode, if_neg real.1]
    simp only [Option.bind_eq_bind]
    rw [run]
    rfl
  · have keyed := (((same_hangNode filled node 0).setRoot node).setBlack node).key node
    have root : grown.root = node := by simp [grown, RbTree.setBlack, real.1, RbTree.write]
    refine ⟨⟨real.1, ?_⟩, ?_⟩
    · rw [root]
    · refine keyed.trans ?_
      simp [filled, RbTree.write]

/-- In a table with the default order every answer of `graph_add_node` is the wrong one. -/
theorem graphAddNode_inverted {fuel : Nat} {g : Graph} {tree : ColorTree Nat} {node : Nat}
    (wellFormed : WellFormed (· < ·) g.gnodeTable tree) (default : g.gnodeTable.cfunc = none)
    (real : node ≠ 0 ∧ node % 8 = 0) (fresh : node ∉ tree.nodes) (key : BitVec 32)
    (enough : tree.nodes.length + 1 < fuel) :
    ∃ next grown, WellFormed (· < ·) next.gnodeTable grown ∧
      (keyWord key ∉ g.gnodeTable.keys tree.nodes →
        graphAddNode fuel g node key = some (next, 0) ∧ node ∈ grown.nodes) ∧
      (keyWord key ∈ g.gnodeTable.keys tree.nodes →
        graphAddNode fuel g node key = some (next, 1) ∧ grown = tree) := by
  let filled := g.gnodeTable.write node ⟨keyWord key, 0, 0, 0⟩
  have aligned : node ≠ 0 ∧ node % 4 = 0 := ⟨real.1, by omega⟩
  have kept : ∀ a ∈ tree.nodes, filled.heap a = g.gnodeTable.heap a := by
    intro a member
    have other : a ≠ node := fun same => fresh (same ▸ member)
    simp [filled, RbTree.write, other]
  have here : (filled.heap node).key = keyWord key := by simp [filled, RbTree.write]
  have keys : filled.keys tree.nodes = g.gnodeTable.keys tree.nodes :=
    List.map_congr_left fun a member => congrArg RbNode.key (kept a member)
  have filledTree : WellFormed (· < ·) filled tree := wellFormed.agree rfl rfl kept
  have orders : Orders filled.cfunc (· < ·) := by
    rw [show filled.cfunc = none from default]
    exact orders_default
  by_cases present : keyWord key ∈ g.gnodeTable.keys tree.nodes
  · obtain ⟨a, member, same⟩ := List.mem_map.mp present
    have run : rbInsert fuel filled node = some (filled, -1) := by
      apply rbInsert_present orders filledTree member _ enough
      rw [here, kept a member]
      exact same
    refine ⟨⟨filled, Function.update g.ngbList node []⟩, tree, filledTree,
      fun absent => absurd present absent, fun _ => ⟨?_, rfl⟩⟩
    rw [graphAddNode, if_neg real.1]
    simp only [Option.bind_eq_bind]
    rw [run]
    rfl
  · have absent : (filled.heap node).key ∉ filled.keys tree.nodes := by
      rw [here, keys]
      exact present
    obtain ⟨table, grown, before, after, run, final, -, nodes, -⟩ :=
      rbInsert_absent (t := filled) orders.order (orders.separates _ _) filledTree aligned fresh absent
        enough
    refine ⟨⟨table, Function.update g.ngbList node []⟩, grown, final, fun _ => ⟨?_, ?_⟩,
      fun inside => absurd inside present⟩
    · rw [graphAddNode, if_neg real.1]
      simp only [Option.bind_eq_bind]
      rw [run]
      rfl
    · rw [nodes]
      simp

theorem graphNew_empty (heap : Nat → RbNode) (cfunc : Option CompareFunction) (node : Nat) :
    ¬ (graphNew heap cfunc).Has node := by
  rintro ⟨real, path⟩
  induction path with
  | refl => exact real rfl
  | @tail above below _ step ih =>
      obtain ⟨side, rfl⟩ := step
      apply ih
      rintro rfl
      exact real rfl

/-- The first call is never lawful: a node is answered wrongly, and an edge faults. -/
theorem first_unlawful (fuel : Nat) (heap : Nat → RbNode) (cfunc : Option CompareFunction)
    {call : GraphCall} (real : call.Real) (rest : List GraphCall) :
    ¬ Lawful fuel (call :: rest) (graphNew heap cfunc) := by
  rintro ⟨-, next, answer, run, right, -⟩
  cases call with
  | addEdge ngb1 ngb2 =>
      rw [graphCall, graphAddEdge_null] at run
      exact absurd run (by simp)
  | addNode node key =>
      obtain ⟨grown, ran, inserted⟩ := graphAddNode_first fuel heap cfunc real key
      rw [graphCall, ran] at run
      obtain ⟨rfl, rfl⟩ := Prod.mk.inj (Option.some.inj run)
      have absent : ∀ other, ¬ (graphNew heap cfunc).HasKey key other :=
        fun other has => graphNew_empty heap cfunc other has.1
      exact absurd (right.1.mpr ⟨absent, inserted⟩) (by decide)

/-- The calls are lawful only as long as there are none. -/
theorem graphCalls_never (fuel : Nat) (heap : Nat → RbNode) (cfunc : Option CompareFunction)
    (calls : List GraphCall) (real : ∀ call ∈ calls, call.Real) :
    Lawful fuel calls (graphNew heap cfunc) ↔ calls = [] := by
  constructor
  · intro lawful
    cases calls with
    | nil => rfl
    | cons call rest =>
        exact absurd lawful (first_unlawful fuel heap cfunc (real call List.mem_cons_self) rest)
  · rintro rfl
    intro u v first second has
    exact absurd has.1 (graphNew_empty heap cfunc first)

theorem graphCalls_never_one :
    Lawful 4 [.addNode 4096 7] (graphNew (fun _ => ⟨0, 0, 0, 0⟩) none) ↔
      [GraphCall.addNode 4096 7] = [] :=
  graphCalls_never 4 (fun _ => ⟨0, 0, 0, 0⟩) none [.addNode 4096 7] (by decide)

/-- The first node is inserted although the answer is zero, and the next edge writes through null. -/
theorem graphCalls_refused :
    ¬ Lawful 4 [.addNode 4096 7, .addEdge ⟨8192, 7⟩ ⟨8256, 7⟩]
        (graphNew (fun _ => ⟨0, 0, 0, 0⟩) none) ∧
      ∃ result ∈ graphCall 4 (.addNode 4096 7) (graphNew (fun _ => ⟨0, 0, 0, 0⟩) none),
        result.2 = 0 ∧ result.1.gnodeTable.root = 4096 ∧
          (result.1.gnodeTable.heap 4096).key = keyWord 7 ∧
          graphCall 4 (.addEdge ⟨8192, 7⟩ ⟨8256, 7⟩) result.1 = none := by
  refine ⟨first_unlawful 4 _ none ?_ _, ?_⟩
  · exact ⟨by decide, by decide⟩
  · decide +kernel

end Syslib
