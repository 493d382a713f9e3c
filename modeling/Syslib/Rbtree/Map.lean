import Syslib.Library.Runs
import Syslib.Rbtree.Remove

namespace Syslib.Rbtree

open ColoredTree

/-- The calls of a user, who sets the key of an unlinked node before its insertion. -/
inductive Call where
  | insert (node key : Nat)
  | remove (key : Nat)
  | removeNode (node : Nat)
  | search (key : Nat)
  deriving DecidableEq, Repr

inductive Answer where
  | status (code : Int)
  | node (address : Nat)
  | done
  deriving DecidableEq, Repr

def setKey (t : RbTree) (node key : Nat) : RbTree := t.write node { t.heap node with key := key }

def rbCall (fuel : Nat) : Call → RbTree → Option (RbTree × Answer)
  | .insert node key, t => do
      let (t, code) ← rbInsert fuel (setKey t node key) node
      some (t, .status code)
  | .remove key, t => do
      let (t, x) ← rbRemove fuel t key
      some (t, .node x)
  | .removeNode node, t => do
      let t ← rbRemoveNode fuel t node
      some (t, .done)
  | .search key, t => do
      let (x, _) ← rbSearch fuel t key
      some (t, .node x)

/-- The abstract map lists the inserted keys with their nodes. -/
abbrev Entries := List (Nat × Nat)

def find (key : Nat) : Entries → Option Nat
  | [] => none
  | (other, node) :: rest => if other = key then some node else find key rest

/-- The calls on the abstract map. -/
def mapCall : Call → Entries → Entries × Answer
  | .insert node key, entries =>
      if find key entries = none then ((key, node) :: entries, .status 0)
      else (entries, .status (-1))
  | .remove key, entries =>
      (entries.filter (fun entry => entry.1 ≠ key), .node ((find key entries).getD 0))
  | .removeNode node, entries => (entries.filter (fun entry => entry.2 ≠ node), .done)
  | .search key, entries => (entries, .node ((find key entries).getD 0))

/-- Inserted nodes are aligned and unlinked, and removed nodes are linked. -/
def Proper : Call → Entries → Prop
  | .insert node _, entries => node ≠ 0 ∧ node % 4 = 0 ∧ node ∉ entries.map Prod.snd
  | .removeNode node, entries => node ∈ entries.map Prod.snd
  | .remove _, _ => True
  | .search _, _ => True

/-- The tree stays below the range of the counter. -/
def Fits : Call → Entries → Prop
  | .insert _ key, entries => find key entries = none → entries.length + 1 < 2 ^ 31
  | _, _ => True

/-- The tree and the abstract map take the same calls. -/
def step (fuel : Nat) (call : Call) (state : RbTree × Entries) : Option (RbTree × Entries) :=
  (rbCall fuel call state.1).map fun result => (result.1, (mapCall call state.2).1)

theorem find_eq_some {entries : Entries} (nodup : (entries.map Prod.fst).Nodup) {key node : Nat} :
    find key entries = some node ↔ (key, node) ∈ entries := by
  induction entries with
  | nil => simp [find]
  | cons entry rest ih =>
      obtain ⟨other, a⟩ := entry
      rw [List.map_cons, List.nodup_cons] at nodup
      simp only [find, List.mem_cons, Prod.mk.injEq]
      split_ifs with equal
      · subst equal
        constructor
        · rintro found
          exact Or.inl ⟨rfl, (Option.some.inj found).symm⟩
        · rintro (⟨-, rfl⟩ | inside)
          · rfl
          · exact absurd (List.mem_map_of_mem inside) nodup.1
      · rw [ih nodup.2]
        have apart : key ≠ other := Ne.symm equal
        simp [apart]

theorem find_eq_none {entries : Entries} {key : Nat} :
    find key entries = none ↔ key ∉ entries.map Prod.fst := by
  induction entries with
  | nil => simp [find]
  | cons entry rest ih =>
      obtain ⟨other, a⟩ := entry
      simp only [find, List.map_cons, List.mem_cons]
      split_ifs with equal
      · simp [equal]
      · rw [ih]
        have apart : key ≠ other := Ne.symm equal
        simp [apart]

/-- The entries that a tree represents. -/
def RbTree.entries (t : RbTree) (tree : ColorTree Nat) : Entries :=
  tree.nodes.map fun a => ((t.heap a).key, a)

/-- The tree in memory refines the abstract map. -/
structure Refines (lt : Nat → Nat → Prop) (t : RbTree) (tree : ColorTree Nat) (entries : Entries) :
    Prop where
  wellFormed : WellFormed lt t tree
  perm : entries.Perm (t.entries tree)

variable {t : RbTree} {lt : Nat → Nat → Prop} {tree : ColorTree Nat} {entries : Entries}

namespace Refines

theorem keys_nodup (order : IsStrictTotalOrder Nat lt) (refines : Refines lt t tree entries) :
    (entries.map Prod.fst).Nodup := by
  have keys : (entries.map Prod.fst).Perm (t.keys tree.nodes) := by
    have mapped := refines.perm.map Prod.fst
    rwa [RbTree.entries, List.map_map] at mapped
  rw [keys.nodup_iff]
  apply refines.wellFormed.sorted.imp
  rintro a b below rfl
  exact order.irrefl a below

theorem find_eq_some (order : IsStrictTotalOrder Nat lt) (refines : Refines lt t tree entries)
    {key node : Nat} :
    find key entries = some node ↔ node ∈ tree.nodes ∧ (t.heap node).key = key := by
  rw [Rbtree.find_eq_some (refines.keys_nodup order), refines.perm.mem_iff, RbTree.entries,
    List.mem_map]
  constructor
  · rintro ⟨a, member, equal⟩
    obtain ⟨rfl, rfl⟩ := Prod.mk.inj equal
    exact ⟨member, rfl⟩
  · rintro ⟨member, rfl⟩
    exact ⟨node, member, rfl⟩

theorem find_eq_none (refines : Refines lt t tree entries) {key : Nat} :
    find key entries = none ↔ key ∉ t.keys tree.nodes := by
  rw [Rbtree.find_eq_none, (refines.perm.map Prod.fst).mem_iff, RbTree.entries, List.map_map]
  rfl

theorem linked_iff (refines : Refines lt t tree entries) {node : Nat} :
    node ∈ entries.map Prod.snd ↔ node ∈ tree.nodes := by
  rw [(refines.perm.map Prod.snd).mem_iff, RbTree.entries, List.map_map]
  simp

theorem length (refines : Refines lt t tree entries) : entries.length = tree.nodes.length := by
  rw [refines.perm.length_eq, RbTree.entries, List.length_map]

theorem find_getD (order : IsStrictTotalOrder Nat lt) (refines : Refines lt t tree entries)
    {key node : Nat} (member : node ∈ tree.nodes) (same : (t.heap node).key = key) :
    find key entries = some node :=
  (refines.find_eq_some order).mpr ⟨member, same⟩

/-- The answer to a search is the null pointer exactly when the key is missing. -/
theorem getD_eq_zero (order : IsStrictTotalOrder Nat lt) (refines : Refines lt t tree entries)
    {key : Nat} : (find key entries).getD 0 = 0 ↔ key ∉ entries.map Prod.fst := by
  rw [← Rbtree.find_eq_none]
  cases found : find key entries with
  | none => simp
  | some node =>
      have member := ((refines.find_eq_some order).mp found).1
      have real := (refines.wellFormed.linked.aligned node member).1
      simpa using real

end Refines

/-- The links of a removed node are cleared, so that the node can be inserted again. -/
def Cleared (t : RbTree) (node : Nat) : Prop := (∀ side, t.child side node = 0) ∧ t.getParent node = 0

/-- What a call does to the memory besides its effect on the map. -/
def Effect (call : Call) (entries : Entries) (t u : RbTree) : Prop :=
  match call with
  | .insert node key => find key entries ≠ none → u = setKey t node key
  | .remove key =>
      (find key entries = none → u = t) ∧ ∀ node, find key entries = some node → Cleared u node
  | .removeNode node => Cleared u node
  | .search _ => u = t

theorem keys_setKey {node key : Nat} {nodes : List Nat} (fresh : node ∉ nodes) :
    (setKey t node key).keys nodes = t.keys nodes := by
  apply List.map_congr_left
  intro a member
  have other : a ≠ node := fun equal => fresh (equal ▸ member)
  simp [setKey, RbTree.write, other]

/-- The user may write the key of an unlinked node. -/
theorem WellFormed.setKey {node : Nat} (wellFormed : WellFormed lt t tree) (fresh : node ∉ tree.nodes)
    (key : Nat) : WellFormed lt (setKey t node key) tree := by
  refine wellFormed.agree rfl rfl ?_
  intro a member
  have other : a ≠ node := fun equal => fresh (equal ▸ member)
  simp [Rbtree.setKey, RbTree.write, other]

theorem Cleared.of_cell {node : Nat} (child : ∀ side, (t.cell node).child side = 0)
    (parent : (t.cell node).parent = 0) : Cleared t node := by
  refine ⟨fun side => ?_, ?_⟩
  · rw [t.child_eq, child]
    exact ite_self 0
  · rw [t.getParent_eq, parent]
    exact ite_self 0

theorem filter_middle {α : Type*} {first rest : List α} {entry : α} {keep : α → Bool}
    (dropped : keep entry = false) (kept : ∀ other ∈ first ++ rest, keep other = true) :
    (first ++ entry :: rest).filter keep = first ++ rest := by
  rw [List.filter_append, List.filter_cons_of_neg (by simp [dropped]), ← List.filter_append]
  exact List.filter_eq_self.mpr kept

variable {fuel : Nat}

theorem call_insert {node key : Nat} (orders : Orders t.cfunc lt) (refines : Refines lt t tree entries)
    (proper : Proper (.insert node key) entries) (enough : tree.nodes.length + 1 < fuel) :
    ∃ u result, rbCall fuel (.insert node key) t = some (u, (mapCall (.insert node key) entries).2) ∧
      Refines lt u result (mapCall (.insert node key) entries).1 ∧ u.cfunc = t.cfunc ∧
      Effect (.insert node key) entries t u := by
  obtain ⟨real, aligned, unlinked⟩ := proper
  rw [refines.linked_iff] at unlinked
  have wellFormed := refines.wellFormed.setKey unlinked key
  have keyed : ((setKey t node key).heap node).key = key := by simp [setKey, RbTree.write]
  have others : ∀ a, a ≠ node → ((setKey t node key).heap a).key = (t.heap a).key := by
    intro a other
    simp [setKey, RbTree.write, other]
  have old : (setKey t node key).entries tree = t.entries tree := by
    apply List.map_congr_left
    intro a member
    rw [others a fun equal => unlinked (equal ▸ member)]
  by_cases present : find key entries = none
  · have absent : ((setKey t node key).heap node).key ∉ (setKey t node key).keys tree.nodes := by
      rw [keyed, keys_setKey unlinked]
      exact refines.find_eq_none.mp present
    obtain ⟨u, result, before, after, run, final, split, grown, cfunc, keys⟩ :=
      rbInsert_absent (t := setKey t node key) orders.order
        (Orders.separates (t := setKey t node key) orders _ _) wellFormed ⟨real, aligned⟩ unlinked absent
        enough
    refine ⟨u, result, ?_, ⟨final, ?_⟩, cfunc, fun filled => absurd present filled⟩
    · simp [rbCall, run, mapCall, present]
    · have perm := refines.perm
      rw [← old, RbTree.entries, split, List.map_append] at perm
      have middle := (perm.cons (key, node)).trans List.perm_middle.symm
      simpa [mapCall, present, RbTree.entries, grown, keys, keyed] using middle
  · obtain ⟨a, found⟩ := Option.ne_none_iff_exists'.mp present
    obtain ⟨member, same⟩ := (refines.find_eq_some orders.order).mp found
    have run : rbInsert fuel (setKey t node key) node = some (setKey t node key, -1) := by
      apply rbInsert_present (t := setKey t node key) orders wellFormed member _ enough
      rw [keyed, others a fun equal => unlinked (equal ▸ member)]
      exact same
    refine ⟨setKey t node key, tree, ?_, ⟨wellFormed, ?_⟩, rfl, fun _ => rfl⟩
    · simp [rbCall, run, mapCall, present]
    · rw [old]
      simpa [mapCall, present] using refines.perm

/-- The search of a key in the tree is the search in the map. -/
theorem search_find (key : Nat) (orders : Orders t.cfunc lt) (refines : Refines lt t tree entries)
    (enough : tree.nodes.length + 1 < fuel) :
    ∃ hot, rbSearch fuel t key = some ((find key entries).getD 0, hot) := by
  rcases rbSearch_linked key orders refines.wellFormed.linked refines.wellFormed.sorted enough
    with ⟨a, member, same, run⟩ | ⟨hole, rfl, place, run⟩
  · rw [refines.find_getD orders.order member same]
    exact ⟨a, run⟩
  · have absent : find key entries = none := by
      rw [refines.find_eq_none]
      intro present
      obtain ⟨a, member, rfl⟩ := List.mem_map.mp present
      have irreflexive := orders.order.irrefl (t.heap a).key
      rcases TreePath.mem_plug.mp member with inner | around
      · simp at inner
      · rcases List.mem_append.mp around with before | after
        · exact irreflexive (place.1 a before)
        · exact irreflexive (place.2 a after)
    rw [absent]
    exact ⟨_, run⟩

theorem call_search {key : Nat} (orders : Orders t.cfunc lt) (refines : Refines lt t tree entries)
    (enough : tree.nodes.length + 1 < fuel) :
    rbCall fuel (.search key) t = some (t, (mapCall (.search key) entries).2) := by
  obtain ⟨hot, run⟩ := search_find key orders refines enough
  simp [rbCall, run, mapCall]

/-- The removal of a linked node drops its entry from the map. -/
theorem removeNode_refines {x : Nat} (order : IsStrictTotalOrder Nat lt)
    (refines : Refines lt t tree entries) (member : x ∈ tree.nodes) (small : tree.nodes.length ≤ 2 ^ 31)
    (enough : tree.nodes.length + 3 ≤ fuel) :
    ∃ u result, rbRemoveNode fuel t x = some u ∧
      Refines lt u result (entries.filter (fun entry => entry.2 ≠ x)) ∧
      entries.filter (fun entry => entry.1 ≠ (t.heap x).key) =
        entries.filter (fun entry => entry.2 ≠ x) ∧ u.cfunc = t.cfunc ∧ Cleared u x := by
  obtain ⟨u, result, front, back, run, split, removed⟩ :=
    rbRemoveNode_linked refines.wellFormed member small enough
  have nodup := refines.wellFormed.linked.nodup
  have keysNodup := refines.keys_nodup order
  have others : ∀ a ∈ front ++ back, a ≠ x := by
    rw [split, List.nodup_middle, List.nodup_cons] at nodup
    rintro a place rfl
    exact nodup.1 place
  refine ⟨u, result, run, ⟨removed.wellFormed, ?_⟩, ?_, removed.cfunc,
    Cleared.of_cell removed.child removed.parent⟩
  · have perm := refines.perm.filter (fun entry => entry.2 ≠ x)
    rw [RbTree.entries, split, List.map_append, List.map_cons, filter_middle (by simp)] at perm
    · simpa [RbTree.entries, removed.nodes, removed.key] using perm
    · intro other place
      rw [← List.map_append, List.mem_map] at place
      obtain ⟨a, inside, rfl⟩ := place
      simpa using others a inside
  · apply List.filter_congr
    rintro ⟨key, a⟩ place
    have here := (find_eq_some keysNodup).mpr place
    obtain ⟨inside, rfl⟩ := (refines.find_eq_some order).mp here
    have same := refines.find_getD order member rfl
    apply decide_eq_decide.mpr
    apply not_congr
    constructor
    · intro (equal : (t.heap a).key = (t.heap x).key)
      rw [equal, same] at here
      exact (Option.some.inj here).symm
    · rintro rfl
      rfl

theorem call_remove {key : Nat} (orders : Orders t.cfunc lt) (refines : Refines lt t tree entries)
    (small : tree.nodes.length < 2 ^ 31) (enough : tree.nodes.length + 3 ≤ fuel) :
    ∃ u result, rbCall fuel (.remove key) t = some (u, (mapCall (.remove key) entries).2) ∧
      Refines lt u result (mapCall (.remove key) entries).1 ∧ u.cfunc = t.cfunc ∧
      Effect (.remove key) entries t u := by
  obtain ⟨hot, run⟩ := search_find key orders refines (by omega : tree.nodes.length + 1 < fuel)
  have root := refines.wellFormed.linked.root
  have size := refines.wellFormed.size
  rw [toInt_eq small] at size
  rcases here : find key entries with _ | x
  · have removed : rbRemove fuel t key = some (t, 0) := by
      simp only [rbRemove, Option.bind_eq_bind, run, here, Option.getD_none, Option.bind_some, if_true]
      split_ifs <;> rfl
    have unchanged : entries.filter (fun entry => entry.1 ≠ key) = entries := by
      apply List.filter_eq_self.mpr
      intro entry place
      have absent := find_eq_none.mp here
      simp only [ne_eq, decide_eq_true_eq]
      rintro rfl
      exact absent (List.mem_map_of_mem place)
    refine ⟨t, tree, ?_, ⟨refines.wellFormed, ?_⟩, rfl, fun _ => rfl, fun node found => ?_⟩
    · simp [rbCall, removed, mapCall, here]
    · rw [mapCall, unchanged]
      exact refines.perm
    · rw [here] at found
      simp at found
  · obtain ⟨member, same⟩ := (refines.find_eq_some orders.order).mp here
    have real := (refines.wellFormed.linked.aligned x member).1
    obtain ⟨u, result, removed, final, filtered, cfunc, cleared⟩ :=
      removeNode_refines orders.order refines member (by omega) enough
    have inner : tree ≠ .leaf := by
      rintro rfl
      simp at member
    have rootReal : t.root ≠ 0 := by
      rw [root]
      exact (refines.wellFormed.linked.aligned _ (ptr_mem inner)).1
    have positive : ¬ t.size ≤ 0 := by
      have some := List.length_pos_of_mem member
      omega
    refine ⟨u, result, ?_, ?_, cfunc, fun absent => ?_, fun node found => ?_⟩
    · simp only [rbCall, rbRemove, rootReal, if_false, positive, Option.bind_eq_bind, run, here,
        Option.getD_some, Option.bind_some, real, removed, mapCall]
    · rw [mapCall, ← same, filtered]
      exact final
    · rw [here] at absent
      simp at absent
    · rw [here] at found
      obtain rfl := Option.some.inj found
      exact cleared

theorem call_removeNode {node : Nat} (orders : Orders t.cfunc lt) (refines : Refines lt t tree entries)
    (proper : Proper (.removeNode node) entries) (small : tree.nodes.length < 2 ^ 31)
    (enough : tree.nodes.length + 3 ≤ fuel) :
    ∃ u result, rbCall fuel (.removeNode node) t = some (u, (mapCall (.removeNode node) entries).2) ∧
      Refines lt u result (mapCall (.removeNode node) entries).1 ∧ u.cfunc = t.cfunc ∧
      Effect (.removeNode node) entries t u := by
  obtain ⟨u, result, removed, final, -, cfunc, cleared⟩ :=
    removeNode_refines orders.order refines (refines.linked_iff.mp proper) (by omega) enough
  exact ⟨u, result, by simp [rbCall, removed, mapCall], final, cfunc, cleared⟩

/-- Each proper call answers as the map and leaves a tree that refines the new map. -/
theorem call_refines {call : Call} (orders : Orders t.cfunc lt) (refines : Refines lt t tree entries)
    (proper : Proper call entries) (small : tree.nodes.length < 2 ^ 31)
    (enough : tree.nodes.length + 3 ≤ fuel) :
    ∃ u result, rbCall fuel call t = some (u, (mapCall call entries).2) ∧
      Refines lt u result (mapCall call entries).1 ∧ u.cfunc = t.cfunc ∧ Effect call entries t u := by
  cases call with
  | insert node key => exact call_insert orders refines proper (by omega)
  | remove key => exact call_remove orders refines small enough
  | removeNode node => exact call_removeNode orders refines proper small enough
  | search key => exact ⟨t, tree, call_search orders refines (by omega), refines, rfl, rfl⟩

/-- The calls of a user never fill the map beyond the range of the counter. -/
theorem length_mapCall {call : Call} (fits : Fits call entries) (small : entries.length < 2 ^ 31) :
    (mapCall call entries).1.length < 2 ^ 31 ∧
      (mapCall call entries).1.length ≤ entries.length + 1 := by
  cases call with
  | insert node key =>
      by_cases absent : find key entries = none
      · have bound := fits absent
        simp only [mapCall, absent, if_true, List.length_cons]
        omega
      · simp only [mapCall, absent, if_false]
        omega
  | remove key =>
      have shorter := List.length_filter_le (fun entry => decide (entry.1 ≠ key)) entries
      simp only [mapCall]
      omega
  | removeNode node =>
      have shorter := List.length_filter_le (fun entry => decide (entry.2 ≠ node)) entries
      simp only [mapCall]
      omega
  | search key =>
      simp only [mapCall]
      omega

end Syslib.Rbtree
