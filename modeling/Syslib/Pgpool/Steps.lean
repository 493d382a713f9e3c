import Syslib.Pgpool.Invariant

namespace Syslib.Pgpool

open Rbtree ColoredTree IntrusiveLists Tiling

/-- Only the tree, the nodes, the lists and the counters may differ. -/
def PgpoolImpl.Kept (pgpi next : PgpoolImpl) : Prop :=
  next = { pgpi with
    pgnTree := next.pgnTree
    node := next.node
    lists := next.lists
    allocCount := next.allocCount
    freeCount := next.freeCount }

variable {a b n : Nat} {pgpi next : PgpoolImpl} {tree : ColorTree Nat} {nodes front back : List Nat}

theorem PgpoolImpl.Kept.trans {last : PgpoolImpl} (first : pgpi.Kept next) (second : next.Kept last) :
    pgpi.Kept last := by
  rw [PgpoolImpl.Kept, second, first]

theorem Configured.kept (configured : Configured pgpi) (kept : pgpi.Kept next) : Configured next := by
  rw [kept]
  exact ⟨configured.order, configured.onePage, configured.listCount, configured.real,
    configured.pageAligned⟩

theorem candidate_spec {left idx : Nat} (found : pgpi.candidate n left idx = some a) :
    ∃ list, a ∈ pgpi.lists (.fln list) ∧ n ≤ (pgpi.node a).pgCount := by
  induction left generalizing idx with
  | zero => cases found
  | succ left ih =>
      rw [PgpoolImpl.candidate] at found
      split at found
      next pgn here =>
        obtain rfl := Option.some.inj found
        have fits := List.find?_some here
        simp only [decide_eq_true_eq] at fits
        exact ⟨idx, List.mem_of_find?_eq_some here, fits.1⟩
      next => exact ih found

/-- The search misses no free node that is large enough. -/
theorem candidate_none {left idx place : Nat} (missing : pgpi.candidate n left idx = none)
    (from_idx : idx ≤ place) (inside : place < idx + left) (linked : a ∈ pgpi.lists (.fln place))
    (free : (pgpi.node a).using = 0) : (pgpi.node a).pgCount < n := by
  induction left generalizing idx with
  | zero => omega
  | succ left ih =>
      rw [PgpoolImpl.candidate] at missing
      split at missing
      next pgn here => cases missing
      next none_here =>
        rcases Nat.eq_or_lt_of_le from_idx with rfl | later
        · have refused := List.find?_eq_none.mp none_here a linked
          simpa [free] using refused
        · exact ih missing later (by omega)

/-- The payload of a page is a multiple of four, so the bits are free. -/
theorem Configured.payload_aligned (configured : Configured pgpi) (a count : Nat) :
    (pgpi.payload a + count * pgpi.pgSize) % 4 = 0 := by
  obtain ⟨k, large, -, size⟩ := configured.order
  have four : 4 ∣ pgpi.pgSize := by
    rw [size]
    exact Nat.pow_dvd_pow 2 (by omega : 2 ≤ k)
  have first : pgpi.payload a % 4 = 0 := by
    simp only [PgpoolImpl.payload, PgNode.getPayload]
    omega
  have rest : count * pgpi.pgSize % 4 = 0 := Nat.mod_eq_zero_of_dvd (Dvd.dvd.mul_left four count)
  omega

/-- A new node enters the tree and the list of its count. -/
theorem link_new {payload : Nat → Nat} (inTree : InTree pgpi.pgnTree payload tree nodes)
    (configured : Configured pgpi) (junk : Junk) (same : ∀ c ∈ nodes, pgpi.payload c = payload c)
    {grown : List Nat} (perm : grown.Perm (b :: nodes))
    (increasing : grown.Pairwise fun x y => pgpi.payload x < pgpi.payload y) (aligned : b % 8 = 0)
    (room : tree.nodes.length + 1 < pgpi.fuel) (sized : 1 ≤ (pgpi.node b).pgCount)
    (large : (pgpi.node b).pgCount ≤ pgpi.maxpgCount) :
    ∃ t result, ((pgpi.linkRbn b).bind fun next => next.linkFln junk b) = some { pgpi with
        pgnTree := t
        lists := pushFront pgpi.lists (.fln (Nat.log2 (pgpi.node b).pgCount)) b } ∧
      InTree t pgpi.payload result grown := by
  obtain ⟨t, result, run, final⟩ := inTree.insert same perm increasing aligned room
  have linked : pgpi.linkRbn b = some { pgpi with pgnTree := t } := by
    simp only [PgpoolImpl.linkRbn]
    exact congrArg (fun inserted => Option.bind inserted fun found =>
      some { pgpi with pgnTree := found.1 }) run
  have entered := @Holds.linkFln_eq b { pgpi with pgnTree := t } (configured.kept rfl) junk sized large
  refine ⟨t, result, ?_, final⟩
  rw [linked]
  exact entered

/-- The pool after a spare descriptor has taken the pages behind the first ones. -/
def PgpoolImpl.split (pgpi : PgpoolImpl) (a b n : Nat) (pgnTree : RbTree) : PgpoolImpl :=
  { pgpi with
    pgnTree
    node := Function.update (Function.update pgpi.node b
      ⟨pgpi.payload a + n * pgpi.pgSize, (pgpi.node a).pgCount - n⟩) a { pgpi.node a with pgCount := n }
    lists := pushFront (removeNode pgpi.lists b) (.fln (Nat.log2 ((pgpi.node a).pgCount - n))) b }

section Split

variable {u : RbTree} {result : ColorTree Nat}

theorem split_first : (pgpi.split a b n u).node a = { pgpi.node a with pgCount := n } :=
  Function.update_self ..

theorem split_rest (distinct : b ≠ a) : (pgpi.split a b n u).node b =
    ⟨pgpi.payload a + n * pgpi.pgSize, (pgpi.node a).pgCount - n⟩ := by
  simp [PgpoolImpl.split, distinct]

theorem split_other {c : Nat} (notA : c ≠ a) (notB : c ≠ b) :
    (pgpi.split a b n u).node c = pgpi.node c := by
  simp [PgpoolImpl.split, notA, notB]

theorem split_payload {c : Nat} (notB : c ≠ b) : (pgpi.split a b n u).payload c = pgpi.payload c := by
  by_cases same : c = a
  · subst same
    rw [PgpoolImpl.payload, split_first]
    rfl
  · rw [PgpoolImpl.payload, split_other same notB]
    rfl

theorem split_tiled (configured : Configured pgpi) (nodup : (front ++ a :: back).Nodup)
    (fresh : b ∉ front ++ a :: back)
    (tiled : Tiles pgpi.payload pgpi.bytes (front ++ a :: back) pgpi.chunkAddr pgpi.limit)
    (positive : 1 ≤ n) (less : n < (pgpi.node a).pgCount) :
    Tiles (pgpi.split a b n u).payload (pgpi.split a b n u).bytes (front ++ a :: b :: back) pgpi.chunkAddr
      pgpi.limit := by
  have distinct : b ≠ a := fun same => fresh (by simp [same])
  have once := (List.nodup_middle.mp nodup).notMem
  have rest : (pgpi.split a b n u).payload b = pgpi.payload a + n * pgpi.pgSize := by
    have aligned := configured.payload_aligned a n
    rw [PgpoolImpl.payload, split_rest distinct]
    simp only [PgNode.getPayload]
    omega
  have replaced : Tiles (pgpi.split a b n u).payload (pgpi.split a b n u).bytes (front ++ [a, b] ++ back)
      pgpi.chunkAddr pgpi.limit := by
    refine @Tiles.replace _ pgpi.payload pgpi.bytes _ _ _ [a] _ _ _ _ (by simpa using tiled) ?_ ?_
    · intro c inside
      have notA : c ≠ a := fun same => once (same ▸ List.mem_append.mpr inside)
      have notB : c ≠ b := by
        rintro rfl
        refine fresh ?_
        simp only [List.mem_append, List.mem_cons]
        tauto
      rw [PgpoolImpl.bytes, split_other notA notB]
      exact ⟨split_payload notB, rfl⟩
    · intro left right row
      obtain ⟨here, -, there⟩ := row
      have page := configured.positive
      have size : left + (pgpi.node a).pgCount * pgpi.pgSize = right := there
      have whole : n * pgpi.pgSize + ((pgpi.node a).pgCount - n) * pgpi.pgSize =
          (pgpi.node a).pgCount * pgpi.pgSize := by
        rw [← Nat.add_mul, Nat.add_sub_cancel' less.le]
      have sizeA : (pgpi.split a b n u).bytes a = n * pgpi.pgSize := by
        rw [PgpoolImpl.bytes, split_first]
        rfl
      have sizeB : (pgpi.split a b n u).bytes b = ((pgpi.node a).pgCount - n) * pgpi.pgSize := by
        rw [PgpoolImpl.bytes, split_rest distinct]
        rfl
      rw [Tiles, Tiles, Tiles, sizeA, sizeB, rest, split_payload distinct.symm, here]
      exact ⟨rfl, Nat.mul_pos positive page, rfl, Nat.mul_pos (Nat.sub_pos_of_lt less) page, by omega⟩
  simpa using replaced

theorem split_perm : (front ++ a :: b :: back).Perm (b :: (front ++ a :: back)) := by
  simpa using (@List.perm_middle _ b (front ++ [a]) back)

theorem split_holds (holds : Holds a pgpi tree (front ++ a :: back)) (configured : Configured pgpi)
    (spare : b ∈ pgpi.lists .freePgn) (positive : 1 ≤ n) (less : n < (pgpi.node a).pgCount)
    (inTree : InTree u (pgpi.split a b n u).payload result (front ++ a :: b :: back)) :
    Holds a (pgpi.split a b n u) result (front ++ a :: b :: back) := by
  have member : a ∈ front ++ a :: back := by simp
  have fresh := (holds.listed.spare b spare).1
  have distinct : b ≠ a := fun same => fresh (same ▸ member)
  have grows : ∀ c, c ∈ front ++ a :: b :: back ↔ c = b ∨ c ∈ front ++ a :: back := by
    intro c
    rw [split_perm.mem_iff, List.mem_cons]
  have large := (holds.sized a member).2
  refine ⟨inTree, split_tiled configured holds.nodup fresh holds.tiled positive less, ?_, ?_, ?_⟩
  · intro c inside
    rcases (grows c).mp inside with rfl | old
    · rw [split_rest distinct]
      exact ⟨Nat.sub_pos_of_lt less, Nat.le_trans (Nat.sub_le _ _) large⟩
    · by_cases same : c = a
      · subst same
        rw [split_first]
        exact ⟨positive, less.le.trans large⟩
      · have notB : c ≠ b := fun equal => fresh (equal ▸ old)
        rw [split_other same notB]
        exact holds.sized c old
  · have unused : (⟨pgpi.payload a + n * pgpi.pgSize, (pgpi.node a).pgCount - n⟩ : PgNode).using = 0 :=
      configured.payload_aligned a n
    exact (holds.listed.fetch spare grows distinct unused).write ((grows a).mpr (Or.inr member)) _
  · have before := holds.counted
    have length := (@split_perm a b front back).length_eq
    have dropped : ((pgpi.split a b n u).lists .freePgn).length + 1 = (pgpi.lists .freePgn).length := by
      have some_spare := List.length_pos_of_mem spare
      simp only [PgpoolImpl.split, pushFront, removeNode, ne_eq, reduceCtorEq, not_false_eq_true,
        Function.update_of_ne, List.length_erase_of_mem spare]
      omega
    rw [List.length_cons] at length
    exact (by omega : ((pgpi.split a b n u).lists .freePgn).length + (front ++ a :: b :: back).length =
      pgpi.chunkPgcount)

end Split

/-- The rest of a split node stands behind it in the tree and in a free list. -/
theorem splitNode_holds (holds : Holds a pgpi tree (front ++ a :: back)) (configured : Configured pgpi)
    (junk : Junk) (positive : 1 ≤ n) (less : n < (pgpi.node a).pgCount) :
    ∃ b u result, b ∉ front ++ a :: back ∧ pgpi.splitNode junk a n = some (pgpi.split a b n u) ∧
      Holds a (pgpi.split a b n u) result (front ++ a :: b :: back) := by
  have member : a ∈ front ++ a :: back := by simp
  obtain ⟨b, rest, first⟩ := holds.exists_spare configured member
  have spare : b ∈ pgpi.lists .freePgn := first ▸ List.mem_cons_self
  obtain ⟨fresh, unused⟩ := holds.listed.spare b spare
  have distinct : b ≠ a := fun same => fresh (same ▸ member)
  let word : PgNode := ⟨pgpi.payload a + n * pgpi.pgSize, (pgpi.node a).pgCount - n⟩
  let drawn : PgpoolImpl := { pgpi.split a b n pgpi.pgnTree with lists := removeNode pgpi.lists b }
  have atB : drawn.node b = word := @split_rest _ _ _ pgpi pgpi.pgnTree distinct
  have worded : { (pgpi.node b).setPayload ((pgpi.node a).getPayload + n * pgpi.pgSize) with
      pgCount := (pgpi.node a).pgCount - n } = word := by
    rw [setPayload_clear unused]
    rfl
  have written : (({ pgpi with lists := removeNode pgpi.lists b } : PgpoolImpl).writeNode b word).writeNode a
      { Function.update pgpi.node b word a with pgCount := n } = drawn := by
    rw [Function.update_of_ne distinct.symm]
    rfl
  have same : ∀ c ∈ front ++ a :: back, drawn.payload c = pgpi.payload c :=
    fun c inside => @split_payload a b n pgpi pgpi.pgnTree c fun equal => fresh (equal ▸ inside)
  have tiled := @split_tiled a b n pgpi front back pgpi.pgnTree configured holds.nodup fresh holds.tiled
    positive less
  have large := (holds.sized a member).2
  obtain ⟨u, result, linked, inTree⟩ := @link_new b drawn tree _ pgpi.payload holds.inTree
    (configured.kept rfl) junk same _ split_perm tiled.increasing
    (holds.listed.aligned (Or.inr spare)).2 (by
      have room := holds.fuel_enough
      exact (by omega : tree.nodes.length + 1 < pgpi.fuel))
    (by rw [atB]; exact Nat.sub_pos_of_lt less)
    (by rw [atB]; exact Nat.le_trans (Nat.sub_le _ _) large)
  refine ⟨b, u, result, fresh, ?_, split_holds holds configured spare positive less inTree⟩
  have parts : pgpi.splitNode junk a n = (drawn.linkRbn b).bind fun next => next.linkFln junk b := by
    simp only [PgpoolImpl.splitNode, PgpoolImpl.fetchFreePgn, first, Option.bind_eq_bind,
      Option.bind_some, worded]
    rw [← written]
    rfl
  rw [parts, linked, atB]
  rfl

/-- A free node with enough pages is taken out of the lists. -/
structure Taken (n : Nat) (pgpi : PgpoolImpl) (nodes : List Nat) (a : Nat) (next : PgpoolImpl)
    (grown : List Nat) : Prop where
  holds : ∃ result, Holds a next result grown
  kept : pgpi.Kept next
  member : a ∈ nodes
  free : (pgpi.node a).using = 0
  large : n ≤ (pgpi.node a).pgCount
  word : (next.node a).payloadAddr = (pgpi.node a).payloadAddr
  enough : n ≤ (next.node a).pgCount
  others : ∀ c ∈ nodes, c ∈ grown ∧ (c ≠ a → next.node c = pgpi.node c)
  allocCount : next.allocCount = pgpi.allocCount
  freeCount : next.freeCount = pgpi.freeCount

theorem Holds.taken (holds : Holds 0 pgpi tree nodes) (member : a ∈ nodes)
    (free : (pgpi.node a).using = 0) (large : n ≤ (pgpi.node a).pgCount) :
    Taken n pgpi nodes a { pgpi with lists := removeNode pgpi.lists a } nodes := by
  have notSpare : a ∉ pgpi.lists .freePgn := fun spare => (holds.listed.spare a spare).1 member
  have counted : (removeNode pgpi.lists a .freePgn).length + nodes.length = pgpi.chunkPgcount := by
    rw [show removeNode pgpi.lists a .freePgn = pgpi.lists .freePgn from List.erase_of_not_mem notSpare]
    exact holds.counted
  exact ⟨⟨tree, holds.inTree, holds.tiled, holds.sized, holds.listed.unlink member, counted⟩, rfl, member,
    free, large, rfl, large, fun c inside => ⟨inside, fun _ => rfl⟩, rfl, rfl⟩

/-- A candidate with more pages than requested is split. -/
theorem scanLists_split (holds : Holds 0 pgpi tree nodes) (configured : Configured pgpi) (junk : Junk)
    (positive : 1 ≤ n) (found : pgpi.candidate n (pgpi.freelistCount - log2 junk.index n)
      (log2 junk.index n) = some a) (less : n < (pgpi.node a).pgCount) :
    ∃ front back b u result, nodes = front ++ a :: back ∧ b ∉ nodes ∧
      pgpi.scanLists junk n =
        some (({ pgpi with lists := removeNode pgpi.lists a } : PgpoolImpl).split a b n u, a) ∧
      Holds a (({ pgpi with lists := removeNode pgpi.lists a } : PgpoolImpl).split a b n u) result
        (front ++ a :: b :: back) := by
  obtain ⟨list, linked, large⟩ := candidate_spec found
  obtain ⟨member, free, -, rfl⟩ := holds.listed.free.mp linked
  have sized := holds.sized a member
  have unlinked := Holds.unlinkFln_eq configured junk sized.1 sized.2 linked
  obtain ⟨result, between⟩ := (holds.taken member free large).holds
  obtain ⟨front, back, rfl⟩ := List.append_of_mem member
  obtain ⟨b, u, result, fresh, split, final⟩ :=
    splitNode_holds between (configured.kept rfl) junk positive less
  refine ⟨front, back, b, u, result, rfl, fresh, ?_, final⟩
  simp only [PgpoolImpl.scanLists, found, unlinked, Option.bind_eq_bind, Option.bind_some, less, if_true]
  rw [split]
  rfl

/-- The first block in the list of a power of two has more pages than requested. -/
def PgpoolImpl.Oversized (pgpi : PgpoolImpl) (n : Nat) : Prop :=
  n = 2 ^ Nat.log2 n ∧ ∃ a ∈ (pgpi.lists (.fln (Nat.log2 n))).head?, n < (pgpi.node a).pgCount

instance PgpoolImpl.Oversized.decidable (pgpi : PgpoolImpl) (n : Nat) : Decidable (pgpi.Oversized n) :=
  inferInstanceAs (Decidable (_ ∧ _))

/-- A block is handed out whole, or it is cut to the requested pages. -/
structure Drawn (n : Nat) (pgpi : PgpoolImpl) (nodes : List Nat) (a : Nat) (next : PgpoolImpl)
    (grown : List Nat) : Prop extends Taken n pgpi nodes a next grown where
  rows : ∃ front back, nodes = front ++ a :: back ∧
    (grown = nodes ∧ (next.node a).pgCount = (pgpi.node a).pgCount ∨
      ∃ b, grown = front ++ a :: b :: back ∧ b ∉ nodes ∧ (next.node b).using = 0 ∧
        (next.node a).pgCount + (next.node b).pgCount = (pgpi.node a).pgCount)
  fits : (next.node a).pgCount = n ↔ ¬ pgpi.Oversized n

/-- A free node with enough pages is in a list that the scan goes through. -/
theorem Holds.scanned (holds : Holds 0 pgpi tree nodes) (configured : Configured pgpi) (junk : Junk)
    (positive : 1 ≤ n) (missing : pgpi.candidate n (pgpi.freelistCount - log2 junk.index n)
      (log2 junk.index n) = none) (member : a ∈ nodes) (free : (pgpi.node a).using = 0) :
    (pgpi.node a).pgCount < n := by
  by_contra large
  have real := (holds.listed.aligned (Or.inl member)).1
  have inside := configured.list_inside (holds.sized a member).2
  have linked : a ∈ pgpi.lists (.fln (Nat.log2 (pgpi.node a).pgCount)) :=
    holds.listed.free.mpr ⟨member, free, real, rfl⟩
  have order : Nat.log2 n ≤ Nat.log2 (pgpi.node a).pgCount := by
    have least : 2 ^ Nat.log2 n ≤ n := Nat.log2_self_le (by omega)
    exact (Nat.le_log2 (by omega)).mpr (by omega)
  rw [log2_pos _ positive] at missing
  exact large (candidate_none missing order (by omega) linked free)

/-- The scan hands out exactly the requested pages. -/
theorem scanLists_holds (holds : Holds 0 pgpi tree nodes) (configured : Configured pgpi) (junk : Junk)
    (positive : 1 ≤ n) (fitting : ¬ pgpi.Oversized n) :
    (pgpi.scanLists junk n = some (pgpi, 0) ∧ ∀ c ∈ nodes, (pgpi.node c).using = 0 → (pgpi.node c).pgCount < n) ∨
      ∃ a next grown, pgpi.scanLists junk n = some (next, a) ∧ Drawn n pgpi nodes a next grown := by
  cases found : pgpi.candidate n (pgpi.freelistCount - log2 junk.index n) (log2 junk.index n) with
  | none =>
      left
      refine ⟨?_, fun c inside free => holds.scanned configured junk positive found inside free⟩
      simp only [PgpoolImpl.scanLists, found]
  | some a =>
      right
      obtain ⟨list, linked, large⟩ := candidate_spec found
      obtain ⟨member, free, -, rfl⟩ := holds.listed.free.mp linked
      by_cases less : n < (pgpi.node a).pgCount
      · obtain ⟨front, back, b, u, result, rfl, fresh, run, final⟩ :=
          scanLists_split holds configured junk positive found less
        have distinct : b ≠ a := fun same => fresh (same ▸ member)
        have rest := @split_rest a b n { pgpi with lists := removeNode pgpi.lists a } u distinct
        refine ⟨a, _, front ++ a :: b :: back, run, ⟨⟨⟨result, final⟩, rfl, member, free, large, ?_, ?_, ?_,
          rfl, rfl⟩, ⟨front, back, rfl, Or.inr ⟨b, rfl, fresh, ?_, ?_⟩⟩, ?_⟩⟩
        · rw [split_first]
        · rw [split_first]
        · intro c inside
          have notB : c ≠ b := fun equal => fresh (equal ▸ inside)
          exact ⟨split_perm.mem_iff.mpr (List.mem_cons_of_mem _ inside), fun notA => split_other notA notB⟩
        · rw [rest]
          exact configured.payload_aligned a n
        · rw [rest, split_first]
          exact Nat.add_sub_cancel' less.le
        · rw [split_first]
          exact iff_of_true rfl fitting
      · have sized := holds.sized a member
        have unlinked := Holds.unlinkFln_eq configured junk sized.1 sized.2 linked
        obtain ⟨front, back, row⟩ := List.append_of_mem member
        refine ⟨a, _, nodes, ?_, ⟨holds.taken member free large, ⟨front, back, row, Or.inl ⟨rfl, rfl⟩⟩,
          iff_of_true (Nat.le_antisymm (Nat.le_of_not_lt less) large) fitting⟩⟩
        simp only [PgpoolImpl.scanLists, found, unlinked, Option.bind_eq_bind, Option.bind_some, less,
          if_false]

/-- The blocks in the list of a power of two have at least as many pages. -/
theorem Holds.listed_large (holds : Holds 0 pgpi tree nodes) {order : Nat}
    (linked : a ∈ pgpi.lists (.fln order)) : 2 ^ order ≤ (pgpi.node a).pgCount := by
  obtain ⟨member, -, -, rfl⟩ := holds.listed.free.mp linked
  have sized := holds.sized a member
  exact Nat.log2_self_le (by omega)

/-- The first list has blocks of one page only. -/
theorem Holds.not_oversized_one (holds : Holds 0 pgpi tree nodes) : ¬ pgpi.Oversized 1 := by
  rintro ⟨-, a, first, large⟩
  have linked : a ∈ pgpi.lists (.fln 0) := List.mem_of_mem_head? first
  obtain ⟨-, -, -, order⟩ := holds.listed.free.mp linked
  have more : 1 ≤ Nat.log2 (pgpi.node a).pgCount := (Nat.le_log2 (by omega)).mpr large
  omega

/-- The search faults only for a power of two that has no list. -/
theorem takeFreeNode_holds (holds : Holds 0 pgpi tree nodes) (configured : Configured pgpi) (junk : Junk)
    (positive : 1 ≤ n) (inside : n < 2 ^ 64) (listed : n = 2 ^ Nat.log2 n → Nat.log2 n < pgpi.freelistCount) :
    (pgpi.takeFreeNode junk n = some (pgpi, 0) ∧
        ∀ c ∈ nodes, (pgpi.node c).using = 0 → (pgpi.node c).pgCount < n) ∨
      ∃ a next grown, pgpi.takeFreeNode junk n = some (next, a) ∧ Drawn n pgpi nodes a next grown := by
  rw [PgpoolImpl.takeFreeNode, log2_pos _ positive]
  by_cases power : isTwoPower junk.roundUp junk.roundDown n
  · have exact_power : n = 2 ^ Nat.log2 n := by
      rcases Nat.lt_or_ge 1 n with big | one
      · exact (isTwoPower_iff big inside).mp power
      · obtain rfl : n = 1 := by omega
        rfl
    rw [if_pos power, if_pos (listed exact_power)]
    cases list : pgpi.lists (.fln (Nat.log2 n)) with
    | nil =>
        refine scanLists_holds holds configured junk positive ?_
        rintro ⟨-, a, first, -⟩
        rw [list] at first
        cases first
    | cons a rest =>
        have linked : a ∈ pgpi.lists (.fln (Nat.log2 n)) := list ▸ List.mem_cons_self
        obtain ⟨member, free, -, order⟩ := holds.listed.free.mp linked
        have large : n ≤ (pgpi.node a).pgCount := exact_power ▸ holds.listed_large linked
        obtain ⟨front, back, row⟩ := List.append_of_mem member
        right
        refine ⟨a, _, nodes, ?_, ⟨holds.taken member free large, ⟨front, back, row, Or.inl ⟨rfl, rfl⟩⟩, ?_⟩⟩
        · simp only [free, if_true]
        · show (pgpi.node a).pgCount = n ↔ _
          constructor
          · rintro same ⟨-, first, here, more⟩
            rw [list] at here
            obtain rfl := Option.some.inj here
            omega
          · intro fitting
            by_contra other
            exact fitting ⟨exact_power, a, by rw [list]; rfl, by omega⟩
  · rw [if_neg power]
    refine scanLists_holds holds configured junk positive ?_
    intro oversized
    rcases Nat.lt_or_ge 1 n with big | one
    · exact power ((isTwoPower_iff big inside).mpr oversized.1)
    · obtain rfl : n = 1 := by omega
      exact holds.not_oversized_one oversized

/-- The bits of a node outside of the lists may change. -/
theorem Holds.mark (holds : Holds a pgpi tree nodes) (member : a ∈ nodes) {value : Nat} (small : value < 4) :
    Holds a (pgpi.writeNode a ((pgpi.node a).setUsing value)) tree nodes := by
  let next := pgpi.writeNode a ((pgpi.node a).setUsing value)
  have words : ∀ c, (next.node c).getPayload = (pgpi.node c).getPayload ∧
      (next.node c).pgCount = (pgpi.node c).pgCount := by
    intro c
    by_cases same : c = a
    · subst same
      simp [next, PgpoolImpl.writeNode, small]
    · simp [next, PgpoolImpl.writeNode, same]
  refine ⟨holds.inTree.congr fun c _ => (words c).1, holds.tiled.congr fun c _ => ⟨(words c).1, ?_⟩, ?_,
    holds.listed.write member _, holds.counted⟩
  · exact congrArg (· * pgpi.pgSize) (words c).2
  · intro c inside
    rw [(words c).2]
    exact holds.sized c inside

/-- A block that was free and is large enough is in use now, and no other block has changed. -/
structure Allocated (n : Nat) (pgpi : PgpoolImpl) (nodes : List Nat) (a : Nat) (next : PgpoolImpl)
    (grown : List Nat) : Prop where
  holds : ∃ result, Holds 0 next result grown
  kept : pgpi.Kept next
  member : a ∈ nodes
  free : (pgpi.node a).using = 0
  large : n ≤ (pgpi.node a).pgCount
  still : a ∈ grown
  used : (next.node a).using = 1
  payload : next.payload a = pgpi.payload a
  enough : n ≤ (next.node a).pgCount
  others : ∀ c ∈ nodes, c ≠ a → c ∈ grown ∧ next.node c = pgpi.node c

/-- The allocation hands out the block that the search has drawn, or there is no block to draw. -/
theorem pgpAlloc_drawn (holds : Holds 0 pgpi tree nodes) (configured : Configured pgpi) (junk : Junk)
    (size : Nat) (positive : 1 ≤ pgpi.pagesOf size) (inside : pgpi.pagesOf size < 2 ^ 64)
    (listed : pgpi.pagesOf size = 2 ^ Nat.log2 (pgpi.pagesOf size) →
      Nat.log2 (pgpi.pagesOf size) < pgpi.freelistCount) :
    (pgpAlloc junk pgpi size = some (pgpi, 0) ∧
        ∀ c ∈ nodes, (pgpi.node c).using = 0 → (pgpi.node c).pgCount < pgpi.pagesOf size) ∨
      ∃ a drawn next grown, pgpAlloc junk pgpi size = some (next, pgpi.payload a) ∧
        Drawn (pgpi.pagesOf size) pgpi nodes a drawn grown ∧
        Allocated (pgpi.pagesOf size) pgpi nodes a next grown ∧
        (next.node a).pgCount = (drawn.node a).pgCount ∧ ∀ c, c ≠ a → next.node c = drawn.node c := by
  rcases takeFreeNode_holds holds configured junk positive inside listed with
    ⟨none_free, small⟩ | ⟨a, next, grown, run, taken⟩
  · left
    refine ⟨?_, small⟩
    rw [pgpAlloc, none_free]
    rfl
  · right
    obtain ⟨result, between⟩ := taken.holds
    have real : a ≠ 0 := (holds.listed.aligned (Or.inl taken.member)).1
    have still := (taken.others a taken.member).1
    have marked := between.mark still (by decide : 1 < 4)
    have word : next.payload a = pgpi.payload a := by
      simp only [PgpoolImpl.payload, PgNode.getPayload, taken.word]
    let final : PgpoolImpl :=
      { next.writeNode a ((next.node a).setUsing 1) with allocCount := next.allocCount + 1 }
    have atA : final.node a = (next.node a).setUsing 1 := Function.update_self ..
    have elsewhere {c : Nat} (other : c ≠ a) : final.node c = next.node c := Function.update_of_ne other _ _
    have used : (final.node a).using = 1 := by
      rw [atA]
      exact setUsing_using _ (by decide)
    have settled : Listed 0 final.lists final.node grown :=
      Listed.settle marked.listed (by rw [used]; decide)
    refine ⟨a, next, final, grown, ?_, taken, ⟨⟨result, marked.inTree, marked.tiled, marked.sized, settled,
      marked.counted⟩, taken.kept.trans rfl, taken.member, taken.free, taken.large, still, used, ?_, ?_, ?_⟩,
      ?_, fun c => elsewhere⟩
    · rw [pgpAlloc, run]
      simp only [Option.bind_eq_bind, Option.bind_some, real, if_false]
      exact congrArg (fun p => some (final, p)) word
    · rw [PgpoolImpl.payload, atA, setUsing_payload _ (by decide)]
      exact word
    · rw [atA]
      exact taken.enough
    · intro c old notA
      obtain ⟨inGrown, same⟩ := taken.others c old
      exact ⟨inGrown, (elsewhere notA).trans (same notA)⟩
    · rw [atA]
      rfl

theorem pgpAlloc_holds (holds : Holds 0 pgpi tree nodes) (configured : Configured pgpi) (junk : Junk)
    (size : Nat) (positive : 1 ≤ pgpi.pagesOf size) (inside : pgpi.pagesOf size < 2 ^ 64)
    (listed : pgpi.pagesOf size = 2 ^ Nat.log2 (pgpi.pagesOf size) →
      Nat.log2 (pgpi.pagesOf size) < pgpi.freelistCount) :
    pgpAlloc junk pgpi size = some (pgpi, 0) ∨
      ∃ a next grown, pgpAlloc junk pgpi size = some (next, pgpi.payload a) ∧
        Allocated (pgpi.pagesOf size) pgpi nodes a next grown := by
  rcases pgpAlloc_drawn holds configured junk size positive inside listed with
    ⟨none_free, -⟩ | ⟨a, drawn, next, grown, run, -, allocated, -⟩
  · exact Or.inl none_free
  · exact Or.inr ⟨a, next, grown, run, allocated⟩

/-- The tree loses its root when a node is removed while the `int` counter has wrapped. -/
def PgpoolImpl.Few (pgpi : PgpoolImpl) : Prop :=
  pgpi.maxpgCount = 1 ∨ pgpi.chunkPgcount ≤ (pgpi.lists .freePgn).length + 2 ^ 31

theorem Holds.few (holds : Holds a pgpi tree nodes) :
    pgpi.Few ↔ pgpi.maxpgCount = 1 ∨ nodes.length ≤ 2 ^ 31 := by
  have counted := holds.counted
  rw [PgpoolImpl.Few, ← counted, Nat.add_le_add_iff_left]

/-- The pool after the node has taken its successor's pages. -/
def PgpoolImpl.merged (pgpi : PgpoolImpl) (a b : Nat) (pgnTree : RbTree) : PgpoolImpl :=
  { pgpi with
    pgnTree
    node := Function.update pgpi.node a
      { pgpi.node a with pgCount := (pgpi.node a).pgCount + (pgpi.node b).pgCount }
    lists := pushFront (removeNode pgpi.lists b) .freePgn b }

theorem merged_first {u : RbTree} : (pgpi.merged a b u).node a =
    { pgpi.node a with pgCount := (pgpi.node a).pgCount + (pgpi.node b).pgCount } :=
  Function.update_self ..

theorem merged_other {c : Nat} {u : RbTree} (other : c ≠ a) :
    (pgpi.merged a b u).node c = pgpi.node c :=
  Function.update_of_ne other _ _

theorem merged_holds (holds : Holds a pgpi tree (front ++ a :: b :: back))
    (unused : (pgpi.node b).using = 0)
    (fits : (pgpi.node a).pgCount + (pgpi.node b).pgCount ≤ pgpi.maxpgCount) {u : RbTree}
    {result : ColorTree Nat} (inTree : InTree u pgpi.payload result (front ++ a :: back)) :
    Holds a (pgpi.merged a b u) result (front ++ a :: back) := by
  have nodup := holds.nodup
  have notA : b ≠ a := by
    rintro rfl
    simp [List.nodup_append] at nodup
  have order : (front ++ a :: b :: back).Perm (b :: (front ++ a :: back)) := by
    simpa using (@List.perm_middle _ b (front ++ [a]) back)
  have shrinks : ∀ c, c ∈ front ++ a :: b :: back ↔ c = b ∨ c ∈ front ++ a :: back := by
    intro c
    rw [order.mem_iff, List.mem_cons]
  have gone : b ∉ front ++ a :: back := (List.nodup_cons.mp (order.nodup_iff.mp nodup)).1
  have onceA : a ∉ front ∧ a ∉ back := by
    have once := (List.nodup_middle.mp nodup).notMem
    simp only [List.mem_append, List.mem_cons, not_or] at once
    exact ⟨once.1, once.2.2⟩
  have samePayload : ∀ c, (pgpi.merged a b u).payload c = pgpi.payload c := by
    intro c
    by_cases same : c = a
    · subst same
      rw [PgpoolImpl.payload, merged_first]
      rfl
    · rw [PgpoolImpl.payload, merged_other same]
      rfl
  refine ⟨inTree.congr fun c _ => samePayload c, ?_, ?_, ?_, ?_⟩
  · have tiled : Tiles (pgpi.merged a b u).payload (pgpi.merged a b u).bytes (front ++ [a] ++ back)
        pgpi.chunkAddr pgpi.limit := by
      refine @Tiles.replace _ pgpi.payload pgpi.bytes _ _ front [a, b] [a] back _ _
        (by simpa using holds.tiled) ?_ ?_
      · intro c inside
        have other : c ≠ a := by
          rintro rfl
          rcases inside with inFront | inBack
          exacts [onceA.1 inFront, onceA.2 inBack]
        rw [PgpoolImpl.bytes, merged_other other]
        exact ⟨samePayload c, rfl⟩
      · intro left right row
        obtain ⟨here, positive, -, -, there⟩ := row
        have size : left + pgpi.bytes a + pgpi.bytes b = right := there
        refine ⟨(samePayload a).trans here, ?_, ?_⟩
        · rw [PgpoolImpl.bytes, merged_first]
          exact Nat.lt_of_lt_of_le positive (Nat.mul_le_mul_right _ (Nat.le_add_right _ _))
        · rw [← size, PgpoolImpl.bytes, merged_first, Nat.add_assoc]
          exact congrArg (left + ·) (Nat.add_mul _ _ _)
    rw [List.append_assoc] at tiled
    exact tiled
  · intro c inside
    by_cases same : c = a
    · subst same
      have sized := holds.sized c (by simp)
      rw [merged_first]
      exact ⟨by simp only; omega, fits⟩
    · rw [merged_other same]
      exact holds.sized c ((shrinks c).mpr (Or.inr inside))
  · exact (holds.listed.give shrinks gone unused).write (by simp) _
  · have notSpare : b ∉ pgpi.lists .freePgn := fun spare =>
      (holds.listed.spare b spare).1 (by simp)
    have grown : (pgpi.merged a b u).lists .freePgn = b :: pgpi.lists .freePgn := by
      simp only [PgpoolImpl.merged, pushFront, Function.update_self, removeNode]
      rw [List.erase_of_not_mem notSpare]
    have counted := holds.counted
    have length := order.length_eq
    rw [grown]
    simp only [List.length_cons] at length ⊢
    rw [length] at counted
    exact (by omega : (pgpi.lists .freePgn).length + 1 + (front ++ a :: back).length = pgpi.chunkPgcount)

/-- A successor that is free and fits joins the node, whatever its removal leaves of the tree. -/
theorem mergeLoop_join (holds : Holds a pgpi tree (front ++ a :: b :: back)) (configured : Configured pgpi)
    (junk : Junk) (unused : (pgpi.node b).using = 0)
    (fits : (pgpi.node a).pgCount + (pgpi.node b).pgCount ≤ pgpi.maxpgCount) (rounds : Nat) {u : RbTree}
    (removed : rbRemoveNode pgpi.fuel pgpi.pgnTree (b + rbNodeOffset) = some u) :
    PgpoolImpl.mergeLoop junk (rounds + 1) pgpi a =
      PgpoolImpl.mergeLoop junk rounds (pgpi.merged a b u) a := by
  have sizedB := holds.sized b (by simp)
  have enough := holds.fuel_enough
  have succ := holds.inTree.succ (by omega : tree.nodes.length < pgpi.fuel)
  have distinct : b ≠ a := by
    have nodup := holds.nodup
    rintro rfl
    simp [List.nodup_append] at nodup
  have linked : b ∈ pgpi.lists (.fln (Nat.log2 (pgpi.node b).pgCount)) :=
    holds.listed.free.mpr ⟨by simp, unused, distinct, rfl⟩
  have unlinked := Holds.unlinkFln_eq configured junk sizedB.1 sizedB.2 linked
  have behind : (pgpi.node b).getPayload = (pgpi.node a).getPayload + (pgpi.node a).pgCount * pgpi.pgSize := by
    obtain ⟨middle, -, here, -, there, -⟩ := tiles_append.mp holds.tiled
    exact there.trans (congrArg (· + pgpi.bytes a) here.symm)
  have real : b + rbNodeOffset ≠ 0 := by simp [rbNodeOffset]
  have notLarge : ¬ pgpi.maxpgCount < (pgpi.node a).pgCount + (pgpi.node b).pgCount := by omega
  rw [PgpoolImpl.mergeLoop, succ]
  simp only [List.map_cons, List.head?_cons, Option.getD_some, Option.bind_eq_bind, Option.bind_some, real,
    if_false, Nat.add_sub_cancel, unused, ne_eq, not_true_eq_false, notLarge, or_self, behind, unlinked,
    PgpoolImpl.unlinkRbn]
  rw [show ({ pgpi with lists := removeNode pgpi.lists b } : PgpoolImpl).fuel = pgpi.fuel from rfl, removed]
  rfl

theorem mergeLoop_step (holds : Holds a pgpi tree (front ++ a :: b :: back)) (configured : Configured pgpi)
    (few : pgpi.Few) (junk : Junk) (unused : (pgpi.node b).using = 0)
    (fits : (pgpi.node a).pgCount + (pgpi.node b).pgCount ≤ pgpi.maxpgCount) (rounds : Nat) :
    ∃ u result, PgpoolImpl.mergeLoop junk (rounds + 1) pgpi a =
        PgpoolImpl.mergeLoop junk rounds (pgpi.merged a b u) a ∧
      Holds a (pgpi.merged a b u) result (front ++ a :: back) := by
  have sizedA := holds.sized a (by simp)
  have sizedB := holds.sized b (by simp)
  have enough := holds.fuel_enough
  have small : tree.nodes.length ≤ 2 ^ 31 := by
    rw [holds.inTree.length_tree]
    refine (holds.few.mp few).resolve_left fun one => ?_
    omega
  have shape : front ++ a :: b :: back = (front ++ [a]) ++ b :: back := by simp
  have inTree := holds.inTree
  rw [shape] at inTree
  obtain ⟨u, result, removed, kept⟩ := inTree.remove small (by omega : tree.nodes.length + 3 ≤ pgpi.fuel)
  exact ⟨u, result, mergeLoop_join holds configured junk unused fits rounds removed,
    merged_holds holds unused fits (by simpa using kept)⟩

/-- A successor that is in use or does not fit ends the loop. -/
theorem mergeLoop_blocked (junk : Junk) (rounds : Nat)
    (succ : rbSucc pgpi.fuel pgpi.pgnTree (a + rbNodeOffset) = some (b + rbNodeOffset))
    (blocked : (pgpi.node b).using ≠ 0 ∨
      pgpi.maxpgCount < (pgpi.node a).pgCount + (pgpi.node b).pgCount) :
    PgpoolImpl.mergeLoop junk (rounds + 1) pgpi a = some pgpi := by
  have real : b + rbNodeOffset ≠ 0 := by simp [rbNodeOffset]
  rw [PgpoolImpl.mergeLoop, succ]
  simp only [Option.bind_eq_bind, Option.bind_some, real, if_false, Nat.add_sub_cancel]
  rw [if_pos blocked]

theorem mergeLoop_last (junk : Junk) (rounds : Nat)
    (succ : rbSucc pgpi.fuel pgpi.pgnTree (a + rbNodeOffset) = some 0) :
    PgpoolImpl.mergeLoop junk (rounds + 1) pgpi a = some pgpi := by
  rw [PgpoolImpl.mergeLoop, succ]
  rfl

/-- The merged node keeps its bits and its payload, and only free nodes go away. -/
structure Merged (a : Nat) (pgpi : PgpoolImpl) (nodes : List Nat) (next : PgpoolImpl)
    (fewer : List Nat) : Prop where
  holds : ∃ result, Holds a next result fewer
  kept : pgpi.Kept next
  still : a ∈ fewer
  word : (next.node a).payloadAddr = (pgpi.node a).payloadAddr
  larger : (pgpi.node a).pgCount ≤ (next.node a).pgCount
  others : ∀ c, c ≠ a → next.node c = pgpi.node c
  used : ∀ c ∈ nodes, (pgpi.node c).using ≠ 0 → c ∈ fewer
  allocCount : next.allocCount = pgpi.allocCount
  freeCount : next.freeCount = pgpi.freeCount

theorem Holds.unmerged (holds : Holds a pgpi tree nodes) (member : a ∈ nodes) :
    Merged a pgpi nodes pgpi nodes :=
  ⟨⟨tree, holds⟩, rfl, member, rfl, Nat.le_refl _, fun _ _ => rfl, fun _ inside _ => inside, rfl, rfl⟩

/-- The merged node joins no further: its successor is in use or does not fit. -/
structure Coalesced (a : Nat) (pgpi : PgpoolImpl) (nodes : List Nat) (next : PgpoolImpl)
    (fewer : List Nat) : Prop extends Merged a pgpi nodes next fewer where
  subset : ∀ c ∈ fewer, c ∈ nodes
  stops : ∃ front back, fewer = front ++ a :: back ∧ ∀ b ∈ back.head?,
    (next.node b).using ≠ 0 ∨ next.maxpgCount < (next.node a).pgCount + (next.node b).pgCount

theorem mergeLoop_holds (holds : Holds a pgpi tree (front ++ a :: back)) (configured : Configured pgpi)
    (few : pgpi.Few) (junk : Junk) {rounds : Nat} (enough : back.length < rounds) :
    ∃ next fewer, PgpoolImpl.mergeLoop junk rounds pgpi a = some next ∧
      Coalesced a pgpi (front ++ a :: back) next fewer := by
  induction rounds generalizing pgpi tree back with
  | zero => exact absurd enough (Nat.not_lt_zero _)
  | succ rounds ih =>
      have stays : Merged a pgpi (front ++ a :: back) pgpi (front ++ a :: back) := holds.unmerged (by simp)
      have room := holds.fuel_enough
      have succ := holds.inTree.succ (by omega : tree.nodes.length < pgpi.fuel)
      cases back with
      | nil =>
          exact ⟨pgpi, _, mergeLoop_last junk rounds succ, stays, fun _ inside => inside, front, [], rfl,
            by simp⟩
      | cons b back =>
          by_cases joins : (pgpi.node b).using = 0 ∧
              (pgpi.node a).pgCount + (pgpi.node b).pgCount ≤ pgpi.maxpgCount
          · obtain ⟨u, result, run, merged⟩ :=
              mergeLoop_step holds configured few junk joins.1 joins.2 rounds
            have still : (pgpi.merged a b u).Few := by
              refine merged.few.mpr ((holds.few.mp few).imp_right fun length => ?_)
              simp only [List.length_append, List.length_cons] at length ⊢
              omega
            obtain ⟨next, fewer, rest, final⟩ := ih merged (configured.kept rfl) still
              (by simpa using enough)
            have nodup := holds.nodup
            have distinct : b ≠ a := by
              rintro rfl
              simp [List.nodup_append] at nodup
            have first : pgpi.Kept (pgpi.merged a b u) := rfl
            refine ⟨next, fewer, run.trans rest, ⟨final.holds, first.trans final.kept, final.still, ?_, ?_,
              ?_, ?_, final.allocCount, final.freeCount⟩, ?_, final.stops⟩
            · rw [final.word, merged_first]
            · have larger := final.larger
              rw [merged_first] at larger
              exact Nat.le_trans (Nat.le_add_right _ _) larger
            · intro c other
              rw [final.others c other, merged_other other]
            · intro c inside used
              by_cases same : c = a
              · exact same ▸ final.still
              · have notB : c ≠ b := by
                  rintro rfl
                  exact used joins.1
                refine final.used c ?_ ?_
                · simp only [List.mem_append, List.mem_cons] at inside ⊢
                  tauto
                · rw [merged_other same]
                  exact used
            · intro c inside
              have old := final.subset c inside
              simp only [List.mem_append, List.mem_cons] at old ⊢
              tauto
          · have blocked : (pgpi.node b).using ≠ 0 ∨
                pgpi.maxpgCount < (pgpi.node a).pgCount + (pgpi.node b).pgCount := by
              by_cases unused : (pgpi.node b).using = 0
              · right
                by_contra less
                exact joins ⟨unused, by omega⟩
              · exact Or.inl unused
            refine ⟨pgpi, _, mergeLoop_blocked junk rounds succ blocked, stays, fun _ inside => inside,
              front, b :: back, rfl, ?_⟩
            rintro c ⟨⟩
            exact blocked

/-- The block of the payload was in use and is free now, and the other blocks in use have not changed. -/
structure Freed (p : Nat) (pgpi : PgpoolImpl) (nodes : List Nat) (a : Nat) (next : PgpoolImpl)
    (fewer : List Nat) : Prop where
  holds : ∃ result, Holds 0 next result fewer
  kept : pgpi.Kept next
  member : a ∈ nodes
  payload : pgpi.payload a = p
  used : (pgpi.node a).using ≠ 0
  unused : (next.node a).using = 0
  others : ∀ c ∈ nodes, c ≠ a → (pgpi.node c).using ≠ 0 → c ∈ fewer ∧ next.node c = pgpi.node c

/-- No other block enters or leaves the blocks in use, and the released block joins no further. -/
structure Released (p : Nat) (pgpi : PgpoolImpl) (nodes : List Nat) (a : Nat) (next : PgpoolImpl)
    (fewer : List Nat) : Prop extends Freed p pgpi nodes a next fewer where
  still : a ∈ fewer
  samePayload : next.payload a = pgpi.payload a
  origin : ∀ c ∈ fewer, (next.node c).using ≠ 0 → c ∈ nodes ∧ (pgpi.node c).using ≠ 0
  stops : ∃ front back, fewer = front ++ a :: back ∧ ∀ b ∈ back.head?,
    (next.node b).using ≠ 0 ∨ next.maxpgCount < (next.node a).pgCount + (next.node b).pgCount

theorem returnFreeNode_holds (holds : Holds a pgpi tree nodes) (configured : Configured pgpi)
    (few : pgpi.Few) (junk : Junk) (member : a ∈ nodes) (unused : (pgpi.node a).using = 0) :
    ∃ next middle fewer result, pgpi.returnFreeNode junk a = some next ∧
      Coalesced a pgpi nodes middle fewer ∧ Holds 0 next result fewer ∧ pgpi.Kept next ∧
      next.node = middle.node := by
  obtain ⟨front, back, rfl⟩ := List.append_of_mem member
  have counted := holds.counted
  obtain ⟨middle, fewer, run, merged⟩ := @mergeLoop_holds a _ _ front back holds configured few junk
    (pgpi.chunkPgcount + 1) (by
      simp only [List.length_append, List.length_cons] at counted
      omega)
  obtain ⟨result, between⟩ := merged.holds
  have sized := between.sized a merged.still
  have free : (middle.node a).using = 0 := by
    rw [PgNode.using, merged.word]
    exact unused
  have linked := Holds.linkFln_eq (configured.kept merged.kept) junk sized.1 sized.2
  have listed := between.listed.link merged.still free
  have spares : pushFront middle.lists (.fln (Nat.log2 (middle.node a).pgCount)) a .freePgn =
      middle.lists .freePgn := by simp [pushFront]
  let final : PgpoolImpl := { middle with
    lists := pushFront middle.lists (.fln (Nat.log2 (middle.node a).pgCount)) a }
  have last : middle.Kept final := rfl
  refine ⟨final, middle, fewer, result, ?_, merged,
    ⟨between.inTree, between.tiled, between.sized, listed, ?_⟩, merged.kept.trans last, rfl⟩
  · rw [PgpoolImpl.returnFreeNode, run]
    exact linked
  · show (final.lists .freePgn).length + fewer.length = middle.chunkPgcount
    rw [show final.lists .freePgn = middle.lists .freePgn from spares]
    exact between.counted

/-- The tree finds the node of a payload. -/
theorem pgnFromPayload_holds (holds : Holds 0 pgpi tree nodes) (p : Nat) :
    (∃ a ∈ nodes, pgpi.payload a = p ∧ pgpi.pgnFromPayload p = some a) ∨
      (∀ a ∈ nodes, pgpi.payload a ≠ p) ∧ pgpi.pgnFromPayload p = some 0 := by
  have enough := holds.fuel_enough
  rcases holds.inTree.search p (by omega : tree.nodes.length + 1 < pgpi.fuel) with
    ⟨a, member, payload, hot, run⟩ | ⟨absent, hot, run⟩
  · have shifted : a + rbNodeOffset ≠ 0 := by simp [rbNodeOffset]
    refine Or.inl ⟨a, member, payload, ?_⟩
    rw [PgpoolImpl.pgnFromPayload, run]
    simp only [Option.bind_eq_bind, Option.bind_some, shifted, if_false, Nat.add_sub_cancel]
  · refine Or.inr ⟨absent, ?_⟩
    rw [PgpoolImpl.pgnFromPayload, run]
    rfl

/-- A pointer to a block in use is given back. -/
theorem pgpFree_used (holds : Holds 0 pgpi tree nodes) (junk : Junk) {p : Nat} (member : a ∈ nodes)
    (straight : p &&& (pgpi.pgSize - 1) = 0) (found : pgpi.pgnFromPayload p = some a)
    (used : (pgpi.node a).using ≠ 0) : pgpFree junk pgpi p =
      ((pgpi.writeNode a ((pgpi.node a).setUsing 0)).returnFreeNode junk a).bind fun next =>
        some ({ next with freeCount := next.freeCount + 1 }, 0) := by
  have real : a ≠ 0 := (holds.listed.aligned (Or.inl member)).1
  rw [pgpFree, if_neg (not_not.mpr straight), found]
  simp only [Option.bind_eq_bind, Option.bind_some, real, if_false, used]

/-- The bits of a node in use may be cleared before it enters a list. -/
theorem Holds.clear (holds : Holds 0 pgpi tree nodes) (member : a ∈ nodes)
    (used : (pgpi.node a).using ≠ 0) :
    Holds a (pgpi.writeNode a ((pgpi.node a).setUsing 0)) tree nodes ∧
      ((pgpi.writeNode a ((pgpi.node a).setUsing 0)).node a).using = 0 := by
  have released : Holds a pgpi tree nodes :=
    ⟨holds.inTree, holds.tiled, holds.sized, holds.listed.release used, holds.counted⟩
  refine ⟨released.mark member (by decide), ?_⟩
  rw [show (pgpi.writeNode a ((pgpi.node a).setUsing 0)).node a = (pgpi.node a).setUsing 0 from
    Function.update_self ..]
  exact setUsing_using _ (by decide)

/-- A pointer that is not the payload of a block in use is refused. -/
theorem pgpFree_holds (holds : Holds 0 pgpi tree nodes) (configured : Configured pgpi) (few : pgpi.Few)
    (junk : Junk) (p : Nat) :
    (pgpFree junk pgpi p = some (pgpi, -1) ∧
        (p &&& (pgpi.pgSize - 1) = 0 → ∀ a ∈ nodes, pgpi.payload a = p → (pgpi.node a).using = 0)) ∨
      ∃ a next fewer, pgpFree junk pgpi p = some (next, 0) ∧ Released p pgpi nodes a next fewer := by
  by_cases crooked : p &&& (pgpi.pgSize - 1) ≠ 0
  · exact Or.inl ⟨if_pos crooked, fun straight => absurd straight crooked⟩
  rcases pgnFromPayload_holds holds p with ⟨a, member, payload, found⟩ | ⟨absent, found⟩
  · by_cases unused : (pgpi.node a).using = 0
    · have real : a ≠ 0 := (holds.listed.aligned (Or.inl member)).1
      left
      refine ⟨?_, fun _ c inside same => ?_⟩
      · rw [pgpFree, if_neg crooked, found]
        simp only [Option.bind_eq_bind, Option.bind_some, real, if_false, unused, if_true]
      · rw [holds.tiled.start_inj inside member (same.trans payload.symm)]
        exact unused
    · right
      obtain ⟨marked, free⟩ := holds.clear member unused
      obtain ⟨next, middle, fewer, result, returned, merged, final, kept, nodes⟩ :=
        returnFreeNode_holds marked (configured.kept rfl) few junk member free
      have first : pgpi.Kept (pgpi.writeNode a ((pgpi.node a).setUsing 0)) := rfl
      have last : next.Kept { next with freeCount := next.freeCount + 1 } := rfl
      have elsewhere {c : Nat} (other : c ≠ a) :
          (pgpi.writeNode a ((pgpi.node a).setUsing 0)).node c = pgpi.node c :=
        Function.update_of_ne other _ _
      have others {c : Nat} (other : c ≠ a) : next.node c = pgpi.node c := by
        rw [nodes, merged.others c other, elsewhere other]
      have unusedNext : (next.node a).using = 0 := by
        rw [nodes, PgNode.using, merged.word]
        exact free
      refine ⟨a, { next with freeCount := next.freeCount + 1 }, fewer, ?_, ⟨⟨⟨result, final.inTree,
        final.tiled, final.sized, final.listed, final.counted⟩, (first.trans kept).trans last, member,
        payload, unused, unusedNext, ?_⟩, merged.still, ?_, ?_, ?_⟩⟩
      · rw [pgpFree_used holds junk member (not_not.mp crooked) found unused, returned]
        rfl
      · intro c inside other used
        exact ⟨merged.used c inside (by rw [elsewhere other]; exact used), others other⟩
      · show (next.node a).getPayload = (pgpi.node a).getPayload
        rw [nodes, PgNode.getPayload, merged.word]
        have atA : (pgpi.writeNode a ((pgpi.node a).setUsing 0)).node a = (pgpi.node a).setUsing 0 :=
          Function.update_self ..
        rw [atA]
        exact setUsing_payload _ (by decide)
      · intro c inside used
        have other : c ≠ a := by
          rintro rfl
          exact used unusedNext
        refine ⟨merged.subset c inside, ?_⟩
        rw [← others other]
        exact used
      · obtain ⟨front, back, row, stop⟩ := merged.stops
        refine ⟨front, back, row, fun b here => ?_⟩
        show (next.node b).using ≠ 0 ∨ next.maxpgCount < (next.node a).pgCount + (next.node b).pgCount
        have same : next.maxpgCount = middle.maxpgCount := by
          rw [kept, merged.kept]
        rw [nodes, same]
        exact stop b here
  · refine Or.inl ⟨?_, fun _ a inside same => absurd same (absent a inside)⟩
    rw [pgpFree, if_neg crooked, found]
    rfl

end Syslib.Pgpool
