import Syslib.Library.Fuel
import Syslib.Rbtree.Laws

namespace Syslib.Rbtree

open ColoredTree Fuel

theorem rbSearchLoop_lasts (t : RbTree) (key h p : Nat) (compRet : Int) :
    Lasts fun fuel => rbSearchLoop fuel t key h p compRet := by
  intro fuel result
  beta_reduce
  intro run
  induction fuel generalizing h p compRet with
  | zero => cases run
  | succ fuel ih =>
      rw [rbSearchLoop] at run ⊢
      by_cases more : p ≠ 0 ∧ compRet ≠ 0
      · rw [if_pos more] at run ⊢
        exact ih _ _ _ run
      · rw [if_neg more] at run ⊢
        exact run

theorem fixRrLoop_lasts (t : RbTree) (node p : Nat) : Lasts fun fuel => fixRrLoop fuel t node p := by
  intro fuel result
  beta_reduce
  intro run
  induction fuel generalizing t node p with
  | zero => cases run
  | succ fuel ih =>
      rw [fixRrLoop] at run ⊢
      dsimp only at run ⊢
      split_ifs at run ⊢
      all_goals first | exact run | exact ih _ _ _ run

theorem climb_lasts (t : RbTree) (node : Nat) : Lasts fun fuel => climb fuel t node := by
  intro fuel result
  beta_reduce
  intro run
  induction fuel generalizing node with
  | zero => cases run
  | succ fuel ih =>
      rw [climb] at run ⊢
      dsimp only at run ⊢
      split_ifs at run ⊢
      all_goals first | exact run | exact ih _ run

theorem succLoop_lasts (t : RbTree) (p subroot : Nat) : Lasts fun fuel => succLoop fuel t p subroot := by
  intro fuel result
  beta_reduce
  intro run
  induction fuel generalizing p subroot with
  | zero => cases run
  | succ fuel ih =>
      rw [succLoop] at run ⊢
      split_ifs at run ⊢
      · exact ih _ _ run
      · exact run

theorem fixBbNewLoop_lasts (t : RbTree) (x : Nat) : Lasts fun fuel => fixBbNewLoop fuel t x := by
  intro fuel result
  beta_reduce
  intro run
  induction fuel generalizing t x with
  | zero => cases run
  | succ fuel ih =>
      rw [fixBbNewLoop] at run ⊢
      dsimp only at run ⊢
      split_ifs at run ⊢
      all_goals first | exact run | exact ih _ _ run

theorem rbSearch_lasts (t : RbTree) (key : Nat) : Lasts fun fuel => rbSearch fuel t key :=
  (lasts_const _).ite (rbSearchLoop_lasts t key _ _ _)

theorem fixRr_lasts (t : RbTree) (node : Nat) : Lasts fun fuel => fixRr fuel t node :=
  (lasts_const _).ite ((lasts_const _).ite ((fixRrLoop_lasts t node _).bind fun _ =>
    (climb_lasts _ _).bind fun _ => lasts_const _))

theorem rbInsert_lasts (t : RbTree) (node : Nat) : Lasts fun fuel => rbInsert fuel t node :=
  (lasts_const _).ite ((rbSearch_lasts t _).bind fun _ => (lasts_const _).ite ((Lasts.ite
    ((lasts_const _).ite ((fixRr_lasts _ node).bind fun _ => lasts_const _)) (lasts_const _))))

theorem fixBbNew_lasts (t : RbTree) (x : Nat) : Lasts fun fuel => fixBbNew fuel t x :=
  (fixBbNewLoop_lasts t x).bind fun _ => lasts_const _

theorem unlinkNode_lasts (t : RbTree) (x r : Nat) (doubleBlack : Bool) :
    Lasts fun fuel => unlinkNode fuel t x r doubleBlack := by
  cases doubleBlack with
  | true => exact (fixBbNew_lasts t x).bind fun _ => lasts_const _
  | false => exact lasts_const _

theorem rbRemoveNode_lasts (t : RbTree) (x : Nat) : Lasts fun fuel => rbRemoveNode fuel t x :=
  (lasts_const _).ite (Lasts.ite (((lasts_const _).ite (succLoop_lasts t _ _)).bind fun _ => unlinkNode_lasts _ _ _ _)
    (unlinkNode_lasts _ _ _ _))

theorem rbRemove_lasts (t : RbTree) (key : Nat) : Lasts fun fuel => rbRemove fuel t key :=
  (lasts_const _).ite ((lasts_const _).ite ((rbSearch_lasts t key).bind fun _ =>
    (lasts_const _).ite ((rbRemoveNode_lasts t _).bind fun _ => lasts_const _)))

theorem rbCall_lasts (call : Call) (t : RbTree) : Lasts fun fuel => rbCall fuel call t := by
  cases call with
  | insert node key => exact (rbInsert_lasts _ _).bind fun _ => lasts_const _
  | remove key => exact (rbRemove_lasts _ _).bind fun _ => lasts_const _
  | removeNode node => exact (rbRemoveNode_lasts _ _).bind fun _ => lasts_const _
  | search key => exact (rbSearch_lasts _ _).bind fun _ => lasts_const _

/-- This many passes suffice for each loop of a call on a tree of this many nodes. -/
def passes (count : Nat) : Nat := 2 * Nat.log 2 (count + 1) + 3

variable {lt : Nat → Nat → Prop} {cfunc : Option CompareFunction} {t : RbTree} {tree : ColorTree Nat}
  {entries : Entries}

theorem WellFormed.height (wellFormed : WellFormed lt t tree) : tree.height + 3 ≤ passes tree.nodes.length := by
  have depth := wellFormed.redBlack.depth
  rw [ColorTree.size_eq_length] at depth
  rw [passes]
  omega

theorem shallow_passes (count : Nat) : Shallow (passes count) (count + 1) := by
  apply shallow_of_log
  have level : Nat.log 2 (count + 1 + 1) ≤ Nat.log 2 (count + 1) + 1 := by
    rw [← Nat.log_mul_base (by decide) (by omega : count + 1 ≠ 0)]
    exact Nat.log_mono_right (by omega)
  rw [passes]
  omega

theorem insert_ends {node key : Nat} (orders : Orders t.cfunc lt) (refines : Refines lt t tree entries)
    (proper : Proper (.insert node key) entries) :
    (rbCall (passes tree.nodes.length) (.insert node key) t).isSome := by
  obtain ⟨real, aligned, unlinked⟩ := proper
  rw [refines.linked_iff] at unlinked
  have wellFormed := refines.wellFormed.setKey unlinked key
  have low := wellFormed.height
  by_cases present : ((setKey t node key).heap node).key ∈ (setKey t node key).keys tree.nodes
  · obtain ⟨a, member, same⟩ := List.mem_map.mp present
    have run := @rbInsert_finds (setKey t node key) lt tree node (passes tree.nodes.length) a orders wellFormed member
      same (by omega)
    simp [rbCall, run]
  · obtain ⟨u, result, before, after, run, -⟩ := @rbInsert_adds (setKey t node key) lt tree node
      (passes tree.nodes.length) orders.order (Orders.separates (t := setKey t node key) orders _ _) wellFormed
      ⟨real, aligned⟩ unlinked present (by omega) (shallow_passes _)
    simp [rbCall, run]

theorem removeNode_ends {node : Nat} (wellFormed : WellFormed lt t tree) (member : node ∈ tree.nodes) :
    (rbRemoveNode (passes tree.nodes.length) t node).isSome := by
  have low := wellFormed.height
  obtain ⟨v, result, front, back, run, -⟩ := rbRemoveNode_detaches wellFormed member
    (by omega : tree.height + 2 ≤ passes tree.nodes.length)
  rw [run]
  rfl

/-- A call on a tree that a run has built ends within so many passes of each loop. -/
theorem call_ends {call : Call} (orders : Orders t.cfunc lt) (refines : Refines lt t tree entries)
    (proper : Proper call entries) : (rbCall (passes tree.nodes.length) call t).isSome := by
  have wellFormed := refines.wellFormed
  have low := wellFormed.height
  have searches (key : Nat) := rbSearch_places orders.order (orders.separates key tree.nodes) wellFormed.linked
    wellFormed.sorted (by omega : tree.height + 1 < passes tree.nodes.length)
  cases call with
  | insert node key => exact insert_ends orders refines proper
  | removeNode node =>
      obtain ⟨u, run⟩ := Option.isSome_iff_exists.mp (removeNode_ends wellFormed (refines.linked_iff.mp proper))
      simp [rbCall, run]
  | search key =>
      rcases searches key with ⟨a, -, -, run⟩ | ⟨hole, -, -, run⟩
      · simp [rbCall, run]
      · simp [rbCall, run]
  | remove key =>
      rcases searches key with ⟨a, member, -, run⟩ | ⟨hole, -, -, run⟩
      · have real := (wellFormed.linked.aligned a member).1
        obtain ⟨u, removed⟩ := Option.isSome_iff_exists.mp (removeNode_ends wellFormed member)
        simp only [rbCall, rbRemove, run, Option.bind_eq_bind, Option.bind_some, if_neg real, removed]
        split_ifs <;> rfl
      · simp only [rbCall, rbRemove, run, Option.bind_eq_bind, Option.bind_some, if_true]
        split_ifs <;> rfl

/-- In every tree that a run reaches the loops of the next call make a logarithmic number of passes. -/
theorem rbCalls_logarithmic (orders : Orders cfunc lt) (heap : Nat → RbNode) (calls : List Call) (next : Call)
    (fuel : Nat) (enough : calls.length + 3 ≤ fuel)
    (meets : Runs.Meets (step fuel) (fun call state => Proper call state.2 ∧ Fits call state.2) (calls ++ [next])
      (rbInit heap cfunc, [])) :
    ∃ t entries result, Runs.exec (step fuel) calls (rbInit heap cfunc, []) = some (t, entries) ∧
      rbCall fuel next t = some result ∧
      ∀ few, passes entries.length ≤ few → rbCall few next t = some result := by
  obtain ⟨before, last⟩ := Runs.meets_append.mp meets
  obtain ⟨t, tree, entries, run, refines, rfl, small, room⟩ := calls_refine 0 orders heap calls before (by omega)
  obtain ⟨proper, -⟩ := (last _ run).1
  obtain ⟨u, -, called, -⟩ := call_refines orders refines proper small (by omega : tree.nodes.length + 3 ≤ fuel)
  obtain ⟨result, ended⟩ := Option.isSome_iff_exists.mp (call_ends orders refines proper)
  have same := (rbCall_lasts next t).agree called ended
  refine ⟨t, entries, result, run, same ▸ called, fun few shallow => ?_⟩
  rw [refines.length] at shallow
  exact (rbCall_lasts next t).le shallow ended

/-- After twelve insertions a removal ends within nine passes of each loop. -/
theorem rbCalls_logarithmic_twelve :
    ∃ t entries result, Runs.exec (step 20) (fill 12) (rbInit (fun _ => ⟨0, 0, 0, 0⟩) none, []) = some (t, entries) ∧
      rbCall 20 (.remove 7) t = some result ∧
      ∀ few, passes entries.length ≤ few → rbCall few (.remove 7) t = some result :=
  rbCalls_logarithmic orders_default _ (fill 12) (.remove 7) 20 (by decide) (by decide +kernel)

end Syslib.Rbtree
