import Syslib.Library.Tiling
import Syslib.Pgpool.Model
import Syslib.Rbtree.Succ

namespace Syslib.Pgpool

open Rbtree ColoredTree IntrusiveLists Tiling

namespace PgpoolImpl

/-- The pages behind the slack of one largest block are in the nodes. -/
def pages (pgpi : PgpoolImpl) : Nat := pgpi.chunkPgcount - pgpi.maxpgCount

def payload (pgpi : PgpoolImpl) (pgn : Nat) : Nat := (pgpi.node pgn).getPayload

def bytes (pgpi : PgpoolImpl) (pgn : Nat) : Nat := (pgpi.node pgn).pgCount * pgpi.pgSize

/-- The nodes cover the range from `_chunk_addr` to here. -/
def limit (pgpi : PgpoolImpl) : Nat := pgpi.chunkAddr + pgpi.pages * pgpi.pgSize

end PgpoolImpl

/-- The fields that `pgp_create` writes and no other function changes. -/
structure Configured (pgpi : PgpoolImpl) : Prop where
  order : ∃ k, 2 ≤ k ∧ k < 32 ∧ pgpi.pgSize = 2 ^ k
  onePage : 1 ≤ pgpi.maxpgCount
  listCount : pgpi.freelistCount = Nat.log2 pgpi.maxpgCount + 1
  real : 0 < pgpi.chunkAddr
  pageAligned : pgpi.chunkAddr % pgpi.pgSize = 0

/-- The tree has the nodes in the order of their payloads. -/
structure InTree (t : RbTree) (payload : Nat → Nat) (tree : ColorTree Nat) (nodes : List Nat) : Prop where
  wellFormed : WellFormed (· < ·) t tree
  cfunc : t.cfunc = none
  listed : tree.nodes = nodes.map (· + rbNodeOffset)
  keyed : ∀ pgn ∈ nodes, (t.heap (pgn + rbNodeOffset)).key = payload pgn

/-- The node `out` is in no free list, whatever its bits are; a null `out` makes no exception. -/
structure Listed (out : Nat) (lists : PgList → List Nat) (node : Nat → PgNode) (nodes : List Nat) : Prop where
  apart : Apart lists
  free : ∀ {pgn idx}, pgn ∈ lists (.fln idx) ↔
    pgn ∈ nodes ∧ (node pgn).using = 0 ∧ pgn ≠ out ∧ idx = Nat.log2 (node pgn).pgCount
  spare : ∀ pgn ∈ lists .freePgn, pgn ∉ nodes ∧ (node pgn).using = 0
  aligned : ∀ {pgn}, pgn ∈ nodes ∨ pgn ∈ lists .freePgn → pgn ≠ 0 ∧ pgn % 8 = 0

structure Holds (out : Nat) (pgpi : PgpoolImpl) (tree : ColorTree Nat) (nodes : List Nat) : Prop where
  inTree : InTree pgpi.pgnTree pgpi.payload tree nodes
  tiled : Tiles pgpi.payload pgpi.bytes nodes pgpi.chunkAddr pgpi.limit
  sized : ∀ pgn ∈ nodes, 1 ≤ (pgpi.node pgn).pgCount ∧ (pgpi.node pgn).pgCount ≤ pgpi.maxpgCount
  listed : Listed out pgpi.lists pgpi.node nodes
  counted : (pgpi.lists .freePgn).length + nodes.length = pgpi.chunkPgcount

section Node

@[simp] theorem setUsing_payload (node : PgNode) {value : Nat} (small : value < 4) :
    (node.setUsing value).getPayload = node.getPayload := by
  simp only [PgNode.setUsing, PgNode.getPayload]
  omega

@[simp] theorem setUsing_using (node : PgNode) {value : Nat} (small : value < 4) :
    (node.setUsing value).using = value := by
  simp only [PgNode.setUsing, PgNode.getPayload, PgNode.using]
  omega

@[simp] theorem setUsing_pgCount (node : PgNode) (value : Nat) :
    (node.setUsing value).pgCount = node.pgCount := rfl

theorem setPayload_clear {node : PgNode} (clear : node.using = 0) (payload : Nat) :
    node.setPayload payload = { node with payloadAddr := payload } := by
  simp [PgNode.setPayload, clear]

end Node

variable {out a b : Nat} {pgpi : PgpoolImpl} {tree : ColorTree Nat} {nodes front back : List Nat}

namespace Configured

theorem positive (configured : Configured pgpi) : 0 < pgpi.pgSize := by
  obtain ⟨k, -, -, size⟩ := configured.order
  rw [size]
  exact Nat.two_pow_pos k

/-- A page count has a free list as long as it is not larger than the largest one. -/
theorem list_inside (configured : Configured pgpi) {count : Nat} (large : count ≤ pgpi.maxpgCount) :
    Nat.log2 count < pgpi.freelistCount := by
  rw [configured.listCount]
  rcases Nat.eq_zero_or_pos count with rfl | positive
  · simp
  · have below : Nat.log2 count < Nat.log2 pgpi.maxpgCount + 1 :=
      (Nat.log2_lt (by omega)).mpr (lt_of_le_of_lt large Nat.lt_log2_self)
    exact below

end Configured

namespace InTree

variable {t : RbTree} {payload : Nat → Nat}

theorem mem_tree (inTree : InTree t payload tree nodes) : a + rbNodeOffset ∈ tree.nodes ↔ a ∈ nodes := by
  rw [inTree.listed, List.mem_map]
  constructor
  · rintro ⟨other, member, same⟩
    exact Nat.add_right_cancel same ▸ member
  · exact fun member => ⟨a, member, rfl⟩

theorem length_tree (inTree : InTree t payload tree nodes) : tree.nodes.length = nodes.length := by
  rw [inTree.listed, List.length_map]

theorem keys (inTree : InTree t payload tree nodes) : t.keys tree.nodes = nodes.map payload := by
  rw [RbTree.keys, inTree.listed, List.map_map]
  exact List.map_congr_left inTree.keyed

theorem congr (inTree : InTree t payload tree nodes) {other : Nat → Nat}
    (same : ∀ pgn ∈ nodes, other pgn = payload pgn) : InTree t other tree nodes :=
  ⟨inTree.wellFormed, inTree.cfunc, inTree.listed,
    fun pgn member => (inTree.keyed pgn member).trans (same pgn member).symm⟩

theorem orders (inTree : InTree t payload tree nodes) : Orders t.cfunc (· < ·) :=
  inTree.cfunc ▸ orders_default

/-- Two lists of the same nodes in increasing key order are the same list. -/
theorem increasing_unique {first second : List Nat} {key : Nat → Nat} (perm : first.Perm second)
    (inFirst : first.Pairwise fun x y => key x < key y)
    (inSecond : second.Pairwise fun x y => key x < key y) : first = second :=
  List.Perm.eq_of_pairwise (fun _ _ _ _ less more => absurd less (Nat.lt_asymm more)) inFirst inSecond
    perm

/-- A new node takes the place that its payload has among the others. -/
theorem insert (inTree : InTree t payload tree nodes) {fuel : Nat} {other : Nat → Nat}
    (same : ∀ pgn ∈ nodes, other pgn = payload pgn) {grown : List Nat} (perm : grown.Perm (b :: nodes))
    (increasing : grown.Pairwise fun x y => other x < other y) (aligned : b % 8 = 0)
    (enough : tree.nodes.length + 1 < fuel) :
    ∃ u result, rbInsert fuel (t.write (b + rbNodeOffset) ⟨other b, 0, 0, 0⟩) (b + rbNodeOffset) =
      some (u, 0) ∧ InTree u other result grown := by
  let filled := t.write (b + rbNodeOffset) ⟨other b, 0, 0, 0⟩
  have distinct : (grown.map other).Nodup := List.pairwise_map.mpr (increasing.imp Nat.ne_of_lt)
  have unique : other b ∉ nodes.map other :=
    (List.nodup_cons.mp ((perm.map other).nodup_iff.mp distinct)).1
  have fresh : b ∉ nodes := fun inside => unique (List.mem_map_of_mem inside)
  have outside : b + rbNodeOffset ∉ tree.nodes := fun inside => fresh (inTree.mem_tree.mp inside)
  have old : ∀ x ∈ tree.nodes, filled.heap x = t.heap x := by
    intro x inside
    exact Function.update_of_ne (fun equal : x = b + rbNodeOffset => outside (equal ▸ inside)) _ _
  have new : (filled.heap (b + rbNodeOffset)).key = other b := by simp [filled, RbTree.write]
  have wellFormed : WellFormed (· < ·) filled tree := inTree.wellFormed.agree rfl rfl old
  have keys : filled.keys tree.nodes = nodes.map other := by
    rw [RbTree.keys, List.map_congr_left fun x inside => congrArg RbNode.key (old x inside)]
    exact inTree.keys.trans (List.map_congr_left fun pgn inside => (same pgn inside).symm)
  have orders : Orders filled.cfunc (· < ·) := inTree.orders
  have absent : (filled.heap (b + rbNodeOffset)).key ∉ filled.keys tree.nodes := by
    rw [new, keys]
    exact unique
  obtain ⟨u, result, before, after, run, final, shape, nodes', cfunc, key⟩ :=
    rbInsert_absent orders.order (orders.separates _ _) wellFormed
      (by simp only [rbNodeOffset]; omega) outside absent enough
  have keyed : ∀ pgn ∈ grown, (u.heap (pgn + rbNodeOffset)).key = other pgn := by
    intro pgn inside
    rw [key]
    rcases List.mem_cons.mp (perm.mem_iff.mp inside) with rfl | member
    · exact new
    · rw [old _ (inTree.mem_tree.mpr member), inTree.keyed pgn member, same pgn member]
  refine ⟨u, result, run, final, cfunc.trans inTree.cfunc, ?_, keyed⟩
  have inResult : result.nodes.Perm (grown.map (· + rbNodeOffset)) := by
    rw [nodes']
    refine List.perm_middle.trans ?_
    rw [← shape, inTree.listed, ← List.map_cons (f := (· + rbNodeOffset))]
    exact (perm.map _).symm
  refine increasing_unique inResult (List.pairwise_map.mp final.sorted) ?_
  rw [List.pairwise_map]
  refine increasing.imp_of_mem ?_
  intro x y inX inY less
  rwa [keyed x inX, keyed y inY]

/-- The other nodes keep their order while the counter has not wrapped. -/
theorem remove (inTree : InTree t payload tree (front ++ b :: back)) {fuel : Nat}
    (small : tree.nodes.length ≤ 2 ^ 31) (enough : tree.nodes.length + 3 ≤ fuel) :
    ∃ u result, rbRemoveNode fuel t (b + rbNodeOffset) = some u ∧
      InTree u payload result (front ++ back) := by
  have member : b + rbNodeOffset ∈ tree.nodes := inTree.mem_tree.mpr (by simp)
  obtain ⟨u, result, first, last, run, shape, removed⟩ :=
    rbRemoveNode_linked inTree.wellFormed member small enough
  have listed := inTree.listed
  rw [List.map_append, List.map_cons] at listed
  have nodup := inTree.wellFormed.linked.nodup
  rw [listed] at nodup
  have once := (List.nodup_middle.mp nodup).notMem
  rw [List.mem_append, not_or] at once
  obtain ⟨rfl, -, rfl⟩ := (List.append_cons_inj_of_notMem once.1 once.2).mp (listed.symm.trans shape)
  refine ⟨u, result, run, removed.wellFormed, removed.cfunc.trans inTree.cfunc, ?_, ?_⟩
  · rw [removed.nodes, List.map_append]
  · intro pgn inside
    rw [removed.key]
    refine inTree.keyed pgn ?_
    simp only [List.mem_append, List.mem_cons] at inside ⊢
    tauto

theorem succ (inTree : InTree t payload tree (front ++ a :: back)) {fuel : Nat}
    (enough : tree.nodes.length < fuel) :
    rbSucc fuel t (a + rbNodeOffset) = some ((back.map (· + rbNodeOffset)).head?.getD 0) := by
  refine @rbSucc_linked _ _ _ _ (front.map (· + rbNodeOffset)) _ inTree.wellFormed.linked ?_ enough
  rw [inTree.listed, List.map_append, List.map_cons]

/-- The search finds the node of a payload, or none. -/
theorem search (inTree : InTree t payload tree nodes) {fuel : Nat} (p : Nat)
    (enough : tree.nodes.length + 1 < fuel) :
    (∃ pgn ∈ nodes, payload pgn = p ∧ ∃ hot, rbSearch fuel t p = some (pgn + rbNodeOffset, hot)) ∨
      (∀ pgn ∈ nodes, payload pgn ≠ p) ∧ ∃ hot, rbSearch fuel t p = some (0, hot) := by
  rcases rbSearch_linked p inTree.orders inTree.wellFormed.linked inTree.wellFormed.sorted enough
    with ⟨found, inside, same, run⟩ | ⟨hole, shape, place, run⟩
  · rw [inTree.listed, List.mem_map] at inside
    obtain ⟨pgn, member, rfl⟩ := inside
    exact Or.inl ⟨pgn, member, (inTree.keyed pgn member).symm.trans same, _, run⟩
  · refine Or.inr ⟨?_, _, run⟩
    intro pgn member equal
    have inside := inTree.mem_tree.mpr member
    have key := (inTree.keyed pgn member).trans equal
    rw [shape, TreePath.mem_plug] at inside
    rcases inside with leaf | around
    · simp at leaf
    · rcases List.mem_append.mp around with before | after
      · exact absurd key (Nat.ne_of_lt (place.1 _ before))
      · exact absurd key (Nat.ne_of_gt (place.2 _ after))

end InTree

namespace Listed

variable {lists : PgList → List Nat} {node : Nat → PgNode}

theorem unlisted (listed : Listed a lists node nodes) (member : a ∈ nodes) (place : PgList) :
    a ∉ lists place := by
  cases place with
  | freePgn => exact fun spare => (listed.spare a spare).1 member
  | fln idx => exact fun linked => (listed.free.mp linked).2.2.1 rfl

/-- A free node leaves its list. -/
theorem unlink (listed : Listed 0 lists node nodes) (member : a ∈ nodes) :
    Listed a (removeNode lists a) node nodes := by
  have notSpare : a ∉ lists .freePgn := fun spare => (listed.spare a spare).1 member
  have spares : removeNode lists a .freePgn = lists .freePgn := List.erase_of_not_mem notSpare
  constructor
  · exact listed.apart.removeNode a
  · intro pgn idx
    have real : pgn ∈ nodes → pgn ≠ 0 := fun inside => (listed.aligned (Or.inl inside)).1
    rw [listed.apart.mem_removeNode, listed.free]
    tauto
  · rw [spares]
    exact listed.spare
  · rw [spares]
    exact listed.aligned

/-- A free node enters the list of its count. -/
theorem link (listed : Listed a lists node nodes) (member : a ∈ nodes) (unused : (node a).using = 0) :
    Listed 0 (pushFront lists (.fln (Nat.log2 (node a).pgCount)) a) node nodes := by
  have inserted := @inserted_pushFront _ _ _ lists (.fln (Nat.log2 (node a).pgCount)) a
  have spares : pushFront lists (.fln (Nat.log2 (node a).pgCount)) a .freePgn = lists .freePgn := by
    simp [pushFront]
  constructor
  · exact inserted.apart listed.apart (listed.unlisted member)
  · intro pgn idx
    have real : pgn ∈ nodes → pgn ≠ 0 := fun inside => (listed.aligned (Or.inl inside)).1
    rw [inserted.mem, listed.free]
    constructor
    · rintro (⟨inside, bits, -, list⟩ | ⟨rfl, list⟩)
      · exact ⟨inside, bits, real inside, list⟩
      · exact ⟨member, unused, real member, PgList.fln.inj list⟩
    · rintro ⟨inside, bits, -, list⟩
      by_cases same : pgn = a
      · subst same
        exact Or.inr ⟨rfl, by rw [list]⟩
      · exact Or.inl ⟨inside, bits, same, list⟩
  · rw [spares]
    exact listed.spare
  · rw [spares]
    exact listed.aligned

/-- A node outside of the lists may change. -/
theorem write (listed : Listed a lists node nodes) (member : a ∈ nodes) (word : PgNode) :
    Listed a lists (Function.update node a word) nodes := by
  have elsewhere {pgn : Nat} (other : pgn ≠ a) : Function.update node a word pgn = node pgn :=
    Function.update_of_ne other _ _
  constructor
  · exact listed.apart
  · intro pgn idx
    by_cases same : pgn = a
    · subst same
      exact ⟨fun linked => absurd linked (listed.unlisted member _), fun free => absurd rfl free.2.2.1⟩
    · rw [elsewhere same]
      exact listed.free
  · intro pgn spare
    have other : pgn ≠ a := fun same => (listed.spare pgn spare).1 (same ▸ member)
    rw [elsewhere other]
    exact listed.spare pgn spare
  · exact listed.aligned

/-- A node in use is in no free list. -/
theorem settle (listed : Listed a lists node nodes) (used : (node a).using ≠ 0) :
    Listed 0 lists node nodes := by
  refine ⟨listed.apart, ?_, listed.spare, listed.aligned⟩
  intro pgn idx
  rw [listed.free]
  have real : pgn ∈ nodes → pgn ≠ 0 := fun inside => (listed.aligned (Or.inl inside)).1
  by_cases same : pgn = a
  · subst same
    tauto
  · tauto

theorem release (listed : Listed 0 lists node nodes) (used : (node a).using ≠ 0) :
    Listed a lists node nodes := by
  refine ⟨listed.apart, ?_, listed.spare, listed.aligned⟩
  intro pgn idx
  rw [listed.free]
  have real : pgn ∈ nodes → pgn ≠ 0 := fun inside => (listed.aligned (Or.inl inside)).1
  by_cases same : pgn = a
  · subst same
    tauto
  · tauto

/-- A spare descriptor becomes a free node. -/
theorem fetch (listed : Listed a lists node nodes) (spare : b ∈ lists .freePgn) {grown : List Nat}
    (grows : ∀ pgn, pgn ∈ grown ↔ pgn = b ∨ pgn ∈ nodes) (distinct : b ≠ a) {word : PgNode}
    (unused : word.using = 0) :
    Listed a (pushFront (removeNode lists b) (.fln (Nat.log2 word.pgCount)) b)
      (Function.update node b word) grown := by
  have inserted := @inserted_pushFront _ _ _ (removeNode lists b) (.fln (Nat.log2 word.pgCount)) b
  have outside : ∀ place, b ∉ removeNode lists b place :=
    fun place linked => (listed.apart.mem_removeNode.mp linked).1 rfl
  have fresh := (listed.spare b spare).1
  have elsewhere {pgn : Nat} (other : pgn ≠ b) : Function.update node b word pgn = node pgn :=
    Function.update_of_ne other _ _
  have spares {pgn : Nat} (linked : pgn ∈ pushFront (removeNode lists b)
      (.fln (Nat.log2 word.pgCount)) b .freePgn) : pgn ≠ b ∧ pgn ∈ lists .freePgn := by
    rcases inserted.mem.mp linked with old | ⟨-, wrong⟩
    · exact listed.apart.mem_removeNode.mp old
    · cases wrong
  constructor
  · exact inserted.apart (listed.apart.removeNode b) outside
  · intro pgn idx
    rw [inserted.mem, listed.apart.mem_removeNode, grows]
    by_cases same : pgn = b
    · subst same
      simp [unused, distinct]
    · rw [elsewhere same, listed.free]
      simp [same]
  · intro pgn linked
    obtain ⟨other, old⟩ := spares linked
    rw [elsewhere other, grows]
    have apart := listed.spare pgn old
    exact ⟨fun place => place.elim other apart.1, apart.2⟩
  · intro pgn place
    rcases place with inside | linked
    · rcases (grows pgn).mp inside with rfl | old
      · exact listed.aligned (Or.inr spare)
      · exact listed.aligned (Or.inl old)
    · exact listed.aligned (Or.inr (spares linked).2)

/-- A free node becomes a spare descriptor. -/
theorem give (listed : Listed a lists node nodes) {fewer : List Nat}
    (shrinks : ∀ pgn, pgn ∈ nodes ↔ pgn = b ∨ pgn ∈ fewer) (gone : b ∉ fewer)
    (unused : (node b).using = 0) : Listed a (pushFront (removeNode lists b) .freePgn b) node fewer := by
  have inserted := @inserted_pushFront _ _ _ (removeNode lists b) .freePgn b
  have outside : ∀ place, b ∉ removeNode lists b place :=
    fun place linked => (listed.apart.mem_removeNode.mp linked).1 rfl
  constructor
  · exact inserted.apart (listed.apart.removeNode b) outside
  · intro pgn idx
    rw [inserted.mem, listed.apart.mem_removeNode, listed.free, shrinks]
    by_cases same : pgn = b
    · subst same
      simp [gone]
    · simp [same]
  · intro pgn linked
    rcases inserted.mem.mp linked with old | ⟨rfl, -⟩
    · obtain ⟨-, spare⟩ := listed.apart.mem_removeNode.mp old
      have apart := listed.spare pgn spare
      exact ⟨fun inside => apart.1 ((shrinks pgn).mpr (Or.inr inside)), apart.2⟩
    · exact ⟨gone, unused⟩
  · intro pgn place
    rcases place with inside | linked
    · exact listed.aligned (Or.inl ((shrinks pgn).mpr (Or.inr inside)))
    · rcases inserted.mem.mp linked with old | ⟨rfl, -⟩
      · exact listed.aligned (Or.inr (listed.apart.mem_removeNode.mp old).2)
      · exact listed.aligned (Or.inl ((shrinks pgn).mpr (Or.inl rfl)))

end Listed

namespace Holds

theorem nodup (holds : Holds out pgpi tree nodes) : nodes.Nodup := holds.tiled.nodup

theorem length_le (holds : Holds out pgpi tree nodes) (configured : Configured pgpi) :
    nodes.length ≤ pgpi.pages := by
  have large : ∀ pgn ∈ nodes, pgpi.pgSize ≤ pgpi.bytes pgn := by
    intro pgn member
    exact Nat.le_mul_of_pos_left _ (holds.sized pgn member).1
  have bound := holds.tiled.length_le large
  rw [PgpoolImpl.limit, Nat.mul_comm] at bound
  exact Nat.le_of_mul_le_mul_right (by omega) configured.positive

/-- A pool with nodes always has a spare descriptor. -/
theorem exists_spare (holds : Holds out pgpi tree nodes) (configured : Configured pgpi)
    (member : a ∈ nodes) : ∃ b rest, pgpi.lists .freePgn = b :: rest := by
  have some_node := List.length_pos_of_mem member
  have few := holds.length_le configured
  have counted := holds.counted
  have onePage := configured.onePage
  have spare : (pgpi.lists .freePgn).length ≠ 0 := by
    rw [PgpoolImpl.pages] at few
    omega
  exact List.exists_cons_of_length_pos (Nat.pos_of_ne_zero spare)

theorem fuel_enough (holds : Holds out pgpi tree nodes) : tree.nodes.length + 4 ≤ pgpi.fuel := by
  have counted := holds.counted
  rw [holds.inTree.length_tree, PgpoolImpl.fuel]
  omega

/-- The list operations on a node with a valid count do not fault. -/
theorem unlinkFln_eq (configured : Configured pgpi) (junk : Junk) (sized : 1 ≤ (pgpi.node a).pgCount)
    (large : (pgpi.node a).pgCount ≤ pgpi.maxpgCount)
    (linked : a ∈ pgpi.lists (.fln (Nat.log2 (pgpi.node a).pgCount))) :
    pgpi.unlinkFln junk a = some { pgpi with lists := removeNode pgpi.lists a } := by
  have inside := configured.list_inside large
  have filled := List.ne_nil_of_mem linked
  simp only [PgpoolImpl.unlinkFln, log2_pos _ sized, inside, if_true, filled, if_false]

theorem linkFln_eq (configured : Configured pgpi) (junk : Junk) (sized : 1 ≤ (pgpi.node a).pgCount)
    (large : (pgpi.node a).pgCount ≤ pgpi.maxpgCount) :
    pgpi.linkFln junk a = some { pgpi with
      lists := pushFront pgpi.lists (.fln (Nat.log2 (pgpi.node a).pgCount)) a } := by
  have inside := configured.list_inside large
  simp only [PgpoolImpl.linkFln, log2_pos _ sized, inside, if_true]

end Holds

end Syslib.Pgpool
