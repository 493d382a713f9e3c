import Syslib.Rbtree.Map

namespace Syslib.Rbtree

open ColoredTree

instance Proper.decidable : ∀ (call : Call) (entries : Entries), Decidable (Proper call entries)
  | .insert node _, entries =>
      inferInstanceAs (Decidable (node ≠ 0 ∧ node % 4 = 0 ∧ node ∉ entries.map Prod.snd))
  | .removeNode node, entries => inferInstanceAs (Decidable (node ∈ entries.map Prod.snd))
  | .remove _, _ => isTrue trivial
  | .search _, _ => isTrue trivial

instance Fits.decidable : ∀ (call : Call) (entries : Entries), Decidable (Fits call entries)
  | .insert _ key, entries =>
      inferInstanceAs (Decidable (find key entries = none → entries.length + 1 < 2 ^ 31))
  | .removeNode _, _ => isTrue trivial
  | .remove _, _ => isTrue trivial
  | .search _, _ => isTrue trivial

/-- The tree in memory is a search tree with balanced colours, correct parent links and its size. -/
structure TreeLaw (lt : Nat → Nat → Prop) (t : RbTree) (tree : ColorTree Nat) : Prop where
  linked : Linked t tree
  increasing : (t.keys tree.nodes).Pairwise lt
  blackRoot : tree.isRed = false
  noRedRed : tree.NoRedRed
  blackHeight : ∃ count, tree.BlackHeight count
  size : t.size = tree.nodes.length
  depth : tree.height ≤ 2 * Nat.log 2 (tree.nodes.length + 1)

variable {lt : Nat → Nat → Prop} {cfunc : Option CompareFunction} {t : RbTree} {tree : ColorTree Nat}

theorem WellFormed.treeLaw (wellFormed : WellFormed lt t tree) (small : tree.nodes.length < 2 ^ 31) :
    TreeLaw lt t tree := by
  have depth := wellFormed.redBlack.depth
  obtain ⟨count, ⟨noRedRed, blackHeight⟩, black⟩ := wellFormed.redBlack
  refine ⟨wellFormed.linked, wellFormed.sorted, black, noRedRed, ⟨count, blackHeight⟩, ?_, ?_⟩
  · rw [wellFormed.size, toInt_eq small]
  · rwa [ColorTree.size_eq_length] at depth

/-- The empty tree refines the empty map. -/
theorem refines_init (heap : Nat → RbNode) :
    Refines lt (rbInit heap cfunc) .leaf [] :=
  ⟨wellFormed_init heap cfunc, List.Perm.refl _⟩

/-- A run of proper calls keeps the refinement while the tree stays below the counter's range. -/
theorem calls_refine (left : Nat) (orders : Orders cfunc lt) (heap : Nat → RbNode)
    (calls : List Call) {fuel : Nat}
    (meets : Runs.Meets (step fuel) (fun call state => Proper call state.2 ∧ Fits call state.2) calls
      (rbInit heap cfunc, []))
    (enough : calls.length + left + 3 ≤ fuel) :
    ∃ t tree entries, Runs.exec (step fuel) calls (rbInit heap cfunc, []) = some (t, entries) ∧
      Refines lt t tree entries ∧ t.cfunc = cfunc ∧ tree.nodes.length < 2 ^ 31 ∧
      tree.nodes.length + left + 3 ≤ fuel := by
  have run := @Runs.exec_countdown _ _ (step fuel)
    (fun call state => Proper call state.2 ∧ Fits call state.2)
    (fun remaining state => ∃ tree, Refines lt state.1 tree state.2 ∧ state.1.cfunc = cfunc ∧
      tree.nodes.length < 2 ^ 31 ∧ tree.nodes.length + remaining + 3 ≤ fuel)
  obtain ⟨⟨t, entries⟩, final, tree, held⟩ := run (by
    rintro call remaining ⟨t, entries⟩ ⟨tree, refines, rfl, small, room⟩ ⟨proper, fits⟩
    have short : tree.nodes.length + 3 ≤ fuel := by omega
    obtain ⟨u, result, called, next, cfunc, -⟩ := call_refines orders refines proper small short
    have bound := length_mapCall fits (by rw [refines.length]; exact small)
    rw [next.length, refines.length] at bound
    refine ⟨(u, (mapCall call entries).1), ?_, result, next, cfunc, bound.1, ?_⟩
    · simp [step, called]
    · show result.nodes.length + remaining + 3 ≤ fuel
      omega) calls left _ ⟨.leaf, refines_init heap, rfl, by decide, by simpa using enough⟩ meets
  exact ⟨t, tree, entries, final, held⟩

/-- After every run of proper calls the tree is a balanced search tree with its size. -/
theorem rbCalls_balanced (orders : Orders cfunc lt) (heap : Nat → RbNode) (calls : List Call)
    (fuel : Nat) (enough : calls.length + 3 ≤ fuel)
    (meets : Runs.Meets (step fuel) (fun call state => Proper call state.2 ∧ Fits call state.2) calls
      (rbInit heap cfunc, [])) :
    ∃ t tree entries, Runs.exec (step fuel) calls (rbInit heap cfunc, []) = some (t, entries) ∧
      TreeLaw lt t tree ∧ (tree.nodes.map fun a => ((t.heap a).key, a)).Perm entries := by
  obtain ⟨t, tree, entries, run, refines, -, small, -⟩ := calls_refine 0 orders heap calls
    meets (by omega)
  exact ⟨t, tree, entries, run, refines.wellFormed.treeLaw small, refines.perm.symm⟩

/-- Four insertions and the removal of an inner node. -/
theorem rbCalls_balanced_five : ∃ t tree entries, Runs.exec (step 12)
      [.insert 8 3, .insert 16 1, .insert 24 2, .insert 32 5, .removeNode 8]
      (rbInit (fun _ => ⟨0, 0, 0, 0⟩) none, []) = some (t, entries) ∧
    TreeLaw (· < ·) t tree ∧ (tree.nodes.map fun a => ((t.heap a).key, a)).Perm entries :=
  rbCalls_balanced orders_default _ _ 12 (by decide) (by decide +kernel)

/-- After every run of proper calls each call answers as the finite map from keys to nodes. -/
theorem rbCalls_map (orders : Orders cfunc lt) (heap : Nat → RbNode) (calls : List Call) (next : Call)
    (fuel : Nat) (enough : calls.length + 4 ≤ fuel)
    (meets : Runs.Meets (step fuel) (fun call state => Proper call state.2 ∧ Fits call state.2)
      (calls ++ [next]) (rbInit heap cfunc, [])) :
    ∃ t entries u, Runs.exec (step fuel) calls (rbInit heap cfunc, []) = some (t, entries) ∧
      rbCall fuel next t = some (u, (mapCall next entries).2) ∧ Effect next entries t u ∧
      (∀ key node, find key entries = some node → (t.heap node).key = key) ∧
      ∀ key node, find key (mapCall next entries).1 = some node → (u.heap node).key = key := by
  obtain ⟨before, after⟩ := Runs.meets_append.mp meets
  obtain ⟨t, tree, entries, run, refines, rfl, small, room⟩ := calls_refine 1 orders heap calls
    before (by omega)
  obtain ⟨⟨proper, -⟩, -⟩ := after _ run
  obtain ⟨u, result, called, final, cfunc, effect⟩ := call_refines orders refines proper small
    (by omega : tree.nodes.length + 3 ≤ fuel)
  refine ⟨t, entries, u, run, called, effect, ?_, ?_⟩
  · intro key node found
    exact ((refines.find_eq_some orders.order).mp found).2
  · intro key node found
    exact ((final.find_eq_some orders.order).mp found).2

/-- The removal of a key that three insertions and a refused one left in the tree. -/
theorem rbCalls_map_five : ∃ t entries u, Runs.exec (step 12)
      [.insert 8 3, .insert 16 1, .insert 24 2, .insert 32 1] (rbInit (fun _ => ⟨0, 0, 0, 0⟩) none, []) =
        some (t, entries) ∧
    rbCall 12 (.remove 1) t = some (u, (mapCall (.remove 1) entries).2) ∧
    Effect (.remove 1) entries t u ∧
    (∀ key node, find key entries = some node → (t.heap node).key = key) ∧
    ∀ key node, find key (mapCall (.remove 1) entries).1 = some node → (u.heap node).key = key :=
  rbCalls_map orders_default _ _ _ 12 (by decide) (by decide +kernel)

/-- The calls that insert the keys from 0 on in the nodes 4, 8, 12 and so on. -/
def fill (count : Nat) : List Call := (List.range count).map fun key => .insert (4 * (key + 1)) key

theorem fill_succ (count : Nat) : fill (count + 1) = fill count ++ [.insert (4 * (count + 1)) count] := by
  simp [fill, List.range_succ]

/-- The insertions do not depend on the counter, which wraps around. -/
theorem fill_refines (heap : Nat → RbNode) (fuel count : Nat) (enough : count + 3 ≤ fuel) :
    Runs.Meets (step fuel) (fun call state => Proper call state.2) (fill count)
      (rbInit heap none, []) ∧
    ∃ t tree entries, Runs.exec (step fuel) (fill count) (rbInit heap none, []) = some (t, entries) ∧
      Refines (· < ·) t tree entries ∧ t.cfunc = none ∧ entries.length = count ∧
      ∀ key node, (key, node) ∈ entries ↔ key < count ∧ node = 4 * (key + 1) := by
  induction count with
  | zero => exact ⟨trivial, _, _, _, rfl, refines_init heap, rfl, rfl, by simp⟩
  | succ count ih =>
      obtain ⟨meets, t, tree, entries, run, refines, cfunc, length, content⟩ := ih (by omega)
      have orders : Orders t.cfunc (· < ·) := cfunc ▸ orders_default
      have proper : Proper (.insert (4 * (count + 1)) count) entries := by
        refine ⟨by omega, by omega, ?_⟩
        rintro linked
        obtain ⟨⟨key, node⟩, member, same⟩ := List.mem_map.mp linked
        obtain ⟨below, shape⟩ := (content key node).mp member
        simp only at same
        omega
      have absent : find count entries = none := by
        rw [find_eq_none]
        intro present
        obtain ⟨⟨key, node⟩, member, same⟩ := List.mem_map.mp present
        obtain ⟨below, -⟩ := (content key node).mp member
        simp only at same
        omega
      have nodes := refines.length
      obtain ⟨u, result, called, final, same, -⟩ := call_insert orders refines proper
        (by omega : tree.nodes.length + 1 < fuel)
      have entriesNext : (mapCall (.insert (4 * (count + 1)) count) entries).1 =
          (count, 4 * (count + 1)) :: entries := by simp [mapCall, absent]
      have stepped : step fuel (.insert (4 * (count + 1)) count) (t, entries) =
          some (u, (count, 4 * (count + 1)) :: entries) := by
        simp [step, called, entriesNext]
      rw [entriesNext] at final
      rw [fill_succ]
      refine ⟨Runs.meets_append.mpr ⟨meets, ?_⟩, u, result, _, ?_, final, same.trans cfunc,
        by simp [length], ?_⟩
      · intro next taken
        rw [Option.mem_def, run] at taken
        obtain rfl := Option.some.inj taken
        exact ⟨proper, fun _ _ => trivial⟩
      · rw [Runs.exec_append, run, Option.bind_some, Runs.exec_cons, stepped]
        rfl
      · intro key node
        rw [List.mem_cons, content, Prod.mk.injEq]
        constructor
        · rintro (⟨rfl, rfl⟩ | ⟨below, shape⟩)
          · exact ⟨by omega, rfl⟩
          · exact ⟨by omega, shape⟩
        · rintro ⟨below, rfl⟩
          by_cases last : key = count
          · exact Or.inl ⟨last, by rw [last]⟩
          · exact Or.inr ⟨by omega, rfl⟩

theorem toInt_wraps : toInt ((2 ^ 31 : Nat) : Int) = -2 ^ 31 := by
  rw [toInt, Int.bmod_def]
  norm_num

/-- Once the counter has wrapped it is not the number of nodes, and present keys are not removed. -/
theorem fill_wraps (heap : Nat → RbNode) (count fuel : Nat) (enough : count + 3 ≤ fuel)
    (some_key : 0 < count) (wraps : toInt count = -2 ^ 31) :
    Runs.Meets (step fuel) (fun call state => Proper call state.2) (fill count)
      (rbInit heap none, []) ∧
    ∃ t entries, Runs.exec (step fuel) (fill count) (rbInit heap none, []) = some (t, entries) ∧
      t.size = -2 ^ 31 ∧ (¬ ∃ tree, TreeLaw (· < ·) t tree) ∧
      (mapCall (.remove 0) entries).2 = .node 4 ∧
      rbCall fuel (.remove 0) t = some (t, .node 0) := by
  obtain ⟨meets, t, tree, entries, run, refines, -, length, content⟩ :=
    fill_refines heap fuel count enough
  have size : t.size = -2 ^ 31 := by
    rw [refines.wellFormed.size, ← refines.length, length, wraps]
  have nodup := refines.keys_nodup orders_default.order
  have found : find 0 entries = some 4 := (find_eq_some nodup).mpr ((content 0 4).mpr ⟨some_key, rfl⟩)
  have empty : t.size ≤ 0 := by omega
  refine ⟨meets, t, entries, run, size, ?_, by simp [mapCall, found], ?_⟩
  · rintro ⟨other, law⟩
    have positive := law.size
    omega
  · simp only [rbCall, rbRemove, empty, if_true]
    split_ifs <;> rfl

/-- After `2 ^ 31` insertions the counter does not hold the number of nodes. -/
theorem rbCalls_size_wraps :
    Runs.Meets (step (2 ^ 31 + 3)) (fun call state => Proper call state.2) (fill (2 ^ 31))
      (rbInit (fun _ => ⟨0, 0, 0, 0⟩) none, []) ∧
    ∃ t entries, Runs.exec (step (2 ^ 31 + 3)) (fill (2 ^ 31))
        (rbInit (fun _ => ⟨0, 0, 0, 0⟩) none, []) = some (t, entries) ∧
      t.size = -2 ^ 31 ∧ ¬ ∃ tree, TreeLaw (· < ·) t tree := by
  apply (fill_wraps _ _ _ (le_refl _) (by decide) toInt_wraps).imp_right
  rintro ⟨t, entries, run, size, law, -⟩
  exact ⟨t, entries, run, size, law⟩

/-- After `2 ^ 31` insertions `rb_remove` no longer finds a present key. -/
theorem rbCalls_remove_refused :
    Runs.Meets (step (2 ^ 31 + 3)) (fun call state => Proper call state.2) (fill (2 ^ 31))
      (rbInit (fun _ => ⟨0, 0, 0, 0⟩) none, []) ∧
    ∃ t entries, Runs.exec (step (2 ^ 31 + 3)) (fill (2 ^ 31))
        (rbInit (fun _ => ⟨0, 0, 0, 0⟩) none, []) = some (t, entries) ∧
      (mapCall (.remove 0) entries).2 = .node 4 ∧
      rbCall (2 ^ 31 + 3) (.remove 0) t = some (t, .node 0) := by
  apply (fill_wraps _ _ _ (le_refl _) (by decide) toInt_wraps).imp_right
  rintro ⟨t, entries, run, -, -, found, refused⟩
  exact ⟨t, entries, run, found, refused⟩

end Syslib.Rbtree
