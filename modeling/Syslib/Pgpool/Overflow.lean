import Syslib.Pgpool.Create

namespace Syslib.Pgpool

open Rbtree ColoredTree IntrusiveLists Tiling

variable {a b size : Nat} {junk : Junk} {pgpi : PgpoolImpl} {tree : ColorTree Nat} {nodes front back : List Nat}

/-- A payload is a page boundary. -/
theorem payload_dvd (holds : Holds 0 pgpi tree nodes) (configured : Configured pgpi) (member : a ∈ nodes) :
    pgpi.pgSize ∣ pgpi.payload a :=
  holds.tiled.start_dvd (fun pgn _ => Dvd.intro_left (pgpi.node pgn).pgCount rfl)
    (Nat.dvd_of_mod_eq_zero configured.pageAligned) member

/-- The pointer of a block in use passes the alignment check. -/
theorem payload_straight (holds : Holds 0 pgpi tree nodes) (configured : Configured pgpi)
    (member : a ∈ nodes) : pgpi.payload a &&& (pgpi.pgSize - 1) = 0 := by
  obtain ⟨k, -, -, size⟩ := configured.order
  have whole := payload_dvd holds configured member
  rw [size] at whole ⊢
  rw [Nat.and_two_pow_sub_one_eq_mod]
  exact Nat.mod_eq_zero_of_dvd whole

theorem pgnFromPayload_eq (holds : Holds 0 pgpi tree nodes) (member : a ∈ nodes) :
    pgpi.pgnFromPayload (pgpi.payload a) = some a := by
  rcases pgnFromPayload_holds holds (pgpi.payload a) with ⟨other, inside, same, run⟩ | ⟨absent, -⟩
  · rw [run, holds.tiled.start_inj inside member same]
  · exact absurd rfl (absent a member)

/-- A release that merges two blocks loses the tree once the counter has wrapped. -/
theorem pgpFree_wraps (holds : Holds 0 pgpi tree (front ++ a :: b :: back)) (configured : Configured pgpi)
    (used : (pgpi.node a).using ≠ 0) (unused : (pgpi.node b).using = 0)
    (fits : (pgpi.node a).pgCount + (pgpi.node b).pgCount ≤ pgpi.maxpgCount)
    (stops : ∀ c ∈ back, pgpi.maxpgCount <
      (pgpi.node a).pgCount + (pgpi.node b).pgCount + (pgpi.node c).pgCount)
    (wraps : toInt (pgpi.pgnTree.size - 1) ≤ 0) :
    ∃ next, pgpFree junk pgpi (pgpi.payload a) = some (next, 0) ∧ next.pgnTree.root = 0 := by
  have member : a ∈ front ++ a :: b :: back := by simp
  have nodup := holds.nodup
  obtain ⟨marked, free⟩ := holds.clear member used
  let pool := pgpi.writeNode a ((pgpi.node a).setUsing 0)
  have elsewhere {c : Nat} (other : c ≠ a) : pool.node c = pgpi.node c := Function.update_of_ne other _ _
  have atA : (pool.node a).pgCount = (pgpi.node a).pgCount := by simp [pool, PgpoolImpl.writeNode]
  have notA : b ≠ a := by
    rintro rfl
    simp [List.nodup_append] at nodup
  have kept : pgpi.Kept pool := rfl
  have room := holds.fuel_enough
  have inTree : b + rbNodeOffset ∈ tree.nodes := holds.inTree.mem_tree.mpr (by simp)
  obtain ⟨u, first, last, removed, shape, root, succ⟩ := rbRemoveNode_wrapped holds.inTree.wellFormed inTree
    (by omega : tree.nodes.length + 3 ≤ pgpi.fuel) wraps
  have together : (pool.node a).pgCount + (pool.node b).pgCount ≤ pool.maxpgCount := by
    rw [atA, elsewhere notA]
    exact fits
  let merged := pool.merged a b u
  have joined : PgpoolImpl.mergeLoop junk (pool.chunkPgcount + 1) pool a =
      PgpoolImpl.mergeLoop junk pgpi.chunkPgcount merged a :=
    mergeLoop_join marked (configured.kept kept) junk (by rw [elsewhere notA]; exact unused) together _
      removed
  have listed := holds.inTree.listed
  rw [show front ++ a :: b :: back = (front ++ [a]) ++ b :: back by simp, List.map_append,
    List.map_cons] at listed
  have once := (List.nodup_middle.mp (listed ▸ holds.inTree.wellFormed.linked.nodup)).notMem
  rw [List.mem_append, not_or] at once
  obtain ⟨rfl, -, rfl⟩ := (List.append_cons_inj_of_notMem once.1 once.2).mp (listed.symm.trans shape)
  have next := succ (front.map (· + rbNodeOffset)) (a + rbNodeOffset) (back.map (· + rbNodeOffset))
    (by simp)
  have sum : (merged.node a).pgCount = (pgpi.node a).pgCount + (pgpi.node b).pgCount := by
    rw [← atA, ← elsewhere notA]
    exact congrArg PgNode.pgCount merged_first
  obtain ⟨rounds, count⟩ : ∃ rounds, pgpi.chunkPgcount = rounds + 1 := by
    refine Nat.exists_eq_add_one_of_ne_zero fun zero => ?_
    have counted := holds.counted
    simp only [List.length_append, List.length_cons] at counted
    omega
  have ends : PgpoolImpl.mergeLoop junk pgpi.chunkPgcount merged a = some merged := by
    rw [count]
    cases back with
    | nil => exact mergeLoop_last junk rounds next
    | cons c rest =>
        have notA : c ≠ a := by
          rintro rfl
          simp [List.nodup_append] at nodup
        have same : merged.node c = pgpi.node c :=
          (merged_other notA).trans (elsewhere notA)
        refine mergeLoop_blocked junk rounds next (Or.inr ?_)
        rw [sum, same]
        exact stops c List.mem_cons_self
  have sized := holds.sized a member
  have linked := @Holds.linkFln_eq a merged (configured.kept rfl) junk (by rw [sum]; omega)
    (by rw [sum]; exact fits)
  let final : PgpoolImpl :=
    { merged with lists := pushFront merged.lists (.fln (Nat.log2 (merged.node a).pgCount)) a }
  have returned : pool.returnFreeNode junk a = some final := by
    rw [PgpoolImpl.returnFreeNode, joined, ends]
    exact linked
  refine ⟨{ final with freeCount := final.freeCount + 1 }, ?_, root⟩
  rw [pgpFree_used holds junk member (payload_straight holds configured member)
    (pgnFromPayload_eq holds member) used, returned]
  rfl

/-- An empty list of its own sends every request to the search. -/
theorem takeFreeNode_scans (configured : Configured pgpi) (junk : Junk) {n : Nat} (positive : 1 ≤ n)
    (large : n ≤ pgpi.maxpgCount) (none_listed : pgpi.lists (.fln (Nat.log2 n)) = []) :
    pgpi.takeFreeNode junk n = pgpi.scanLists junk n := by
  have inside := configured.list_inside large
  rw [PgpoolImpl.takeFreeNode, log2_pos _ positive]
  simp only [inside, if_true, none_listed]
  split_ifs <;> rfl

/-- Without a block of its own list a request splits a larger one. -/
theorem pgpAlloc_splits (holds : Holds 0 pgpi tree nodes) (configured : Configured pgpi) (junk : Junk)
    (positive : 1 ≤ pgpi.pagesOf size) (none_listed : pgpi.lists (.fln (Nat.log2 (pgpi.pagesOf size))) = [])
    {c : Nat} (member : c ∈ nodes) (free : (pgpi.node c).using = 0)
    (larger : pgpi.pagesOf size < (pgpi.node c).pgCount) :
    ∃ front a b back next result, nodes = front ++ a :: back ∧
      pgpAlloc junk pgpi size = some (next, next.payload a) ∧ Holds 0 next result (front ++ a :: b :: back) ∧
      pgpi.Kept next ∧ (next.node a).using = 1 ∧ (next.node a).pgCount = pgpi.pagesOf size ∧
      (next.node b).using = 0 ∧ (next.node b).pgCount = (pgpi.node a).pgCount - pgpi.pagesOf size ∧
      ∀ d ∈ nodes, d ≠ a → next.node d = pgpi.node d := by
  have sized := holds.sized c member
  have place := configured.list_inside sized.2
  have order : Nat.log2 (pgpi.pagesOf size) ≤ Nat.log2 (pgpi.node c).pgCount := by
    rw [Nat.le_log2 (by omega)]
    exact Nat.le_trans (Nat.log2_self_le (by omega)) larger.le
  have linked : c ∈ pgpi.lists (.fln (Nat.log2 (pgpi.node c).pgCount)) :=
    holds.listed.free.mpr ⟨member, free, (holds.listed.aligned (Or.inl member)).1, rfl⟩
  cases found : pgpi.candidate (pgpi.pagesOf size)
      (pgpi.freelistCount - log2 junk.index (pgpi.pagesOf size)) (log2 junk.index (pgpi.pagesOf size)) with
  | none =>
      rw [log2_pos _ positive] at found
      have missed := candidate_none found order (by omega) linked free
      omega
  | some a =>
      obtain ⟨idx, here, large⟩ := candidate_spec found
      obtain ⟨inside, unused, -, rfl⟩ := holds.listed.free.mp here
      have less : pgpi.pagesOf size < (pgpi.node a).pgCount := by
        refine Nat.lt_of_le_of_ne large fun equal => ?_
        rw [← equal, none_listed] at here
        exact absurd here List.not_mem_nil
      obtain ⟨front, back, b, u, result, rfl, fresh, run, between⟩ :=
        scanLists_split holds configured junk positive found less
      have taken := (takeFreeNode_scans configured junk positive (by omega) none_listed).trans run
      let split := ({ pgpi with lists := removeNode pgpi.lists a } : PgpoolImpl).split a b
        (pgpi.pagesOf size) u
      let next : PgpoolImpl :=
        { split.writeNode a ((split.node a).setUsing 1) with allocCount := split.allocCount + 1 }
      have atA : next.node a = (split.node a).setUsing 1 := Function.update_self ..
      have used : (next.node a).using = 1 := by
        rw [atA]
        exact setUsing_using _ (by decide)
      have still : a ∈ front ++ a :: b :: back := by simp
      have marked := between.mark still (by decide : 1 < 4)
      have settled : Listed 0 next.lists next.node (front ++ a :: b :: back) :=
        Listed.settle marked.listed (by rw [used]; decide)
      have real : a ≠ 0 := (holds.listed.aligned (Or.inl inside)).1
      have distinct : b ≠ a := fun same => fresh (same ▸ inside)
      have atB : next.node b = ⟨pgpi.payload a + pgpi.pagesOf size * pgpi.pgSize,
          (pgpi.node a).pgCount - pgpi.pagesOf size⟩ :=
        (Function.update_of_ne distinct _ _).trans (split_rest distinct)
      refine ⟨front, a, b, back, next, result, rfl, ?_, ⟨marked.inTree, marked.tiled, marked.sized, settled,
        marked.counted⟩, rfl, used, ?_, ?_, ?_, ?_⟩
      · rw [pgpAlloc, taken]
        simp only [Option.bind_eq_bind, Option.bind_some, real, if_false]
        refine congrArg (fun p => some (next, p)) ?_
        rw [PgpoolImpl.payload, atA, setUsing_payload _ (by decide)]
      · rw [atA, setUsing_pgCount]
        exact congrArg PgNode.pgCount split_first
      · rw [atB]
        exact configured.payload_aligned a _
      · rw [atB]
      · intro d old other
        have notB : d ≠ b := fun same => fresh (same ▸ old)
        exact (Function.update_of_ne other _ _).trans (split_other other notB)

/-- Among free blocks of two pages one request of a page and its release remove a node. -/
theorem split_merge_wraps (holds : Holds 0 pgpi tree nodes) (configured : Configured pgpi) (junk : Junk)
    (unused : ∀ c ∈ nodes, (pgpi.node c).using = 0) (double : ∀ c ∈ nodes, (pgpi.node c).pgCount = 2)
    (largest : pgpi.maxpgCount = 2) (onePage : pgpi.pagesOf size = 1) (some_node : nodes ≠ [])
    (wraps : toInt (toInt ((nodes.length + 1 : Nat) : Int) - 1) ≤ 0) :
    ∃ next p last, pgpAlloc junk pgpi size = some (next, p) ∧ p ≤ pgpi.limit ∧
      pgpFree junk next p = some (last, 0) ∧ last.pgnTree.root = 0 := by
  have none_listed : pgpi.lists (.fln (Nat.log2 (pgpi.pagesOf size))) = [] := by
    refine List.eq_nil_iff_forall_not_mem.mpr fun c linked => ?_
    obtain ⟨inside, -, -, order⟩ := holds.listed.free.mp linked
    rw [onePage, double c inside] at order
    exact absurd order (by decide)
  obtain ⟨c, member⟩ := List.exists_mem_of_ne_nil nodes some_node
  obtain ⟨front, a, b, back, next, result, rfl, split, after, kept, used, countA, free, countB, others⟩ :=
    pgpAlloc_splits holds configured junk (by rw [onePage]) none_listed member (unused c member)
      (by rw [onePage, double c member]; decide)
  rw [onePage] at countA countB
  rw [double a (by simp)] at countB
  have once := (List.nodup_middle.mp holds.nodup).notMem
  have stillLargest : next.maxpgCount = 2 := by
    rw [kept]
    exact largest
  have counted : next.pgnTree.size = toInt (((front ++ a :: back).length + 1 : Nat) : Int) := by
    have grown := (@split_perm a b front back).length_eq
    rw [List.length_cons] at grown
    rw [after.inTree.wellFormed.size, after.inTree.length_tree, grown]
  obtain ⟨last, freed, root⟩ := @pgpFree_wraps a b junk next result front back after (configured.kept kept)
    (by rw [used]; decide) free (by rw [countA, countB, stillLargest]) (by
      intro d later
      have old : d ∈ front ++ a :: back := by simp [later]
      have other : d ≠ a := fun same => once (List.mem_append_right _ (same ▸ later))
      rw [countA, countB, stillLargest, others d old other, double d old]
      decide) (by rw [counted]; exact wraps)
  have bounds := after.tiled.bounds (show a ∈ front ++ a :: b :: back by simp)
  have limit : next.limit = pgpi.limit := by
    rw [kept]
    rfl
  exact ⟨next, next.payload a, last, split, by omega, freed, root⟩

end Syslib.Pgpool
