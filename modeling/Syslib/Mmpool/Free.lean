import Syslib.Mmpool.Merge

namespace Syslib.Mmpool

open IntrusiveLists Tiling Buddies

variable {a c k m o : Nat} {origin mmpi next : MmpoolImpl} {blocks fewer pieces : List Nat}

/-- If the loop ends at the first block of the chunk, then this block finds no list to leave. -/
def MmpoolImpl.Guarded (mmpi : MmpoolImpl) (blocks : List Nat) (a k : Nat) : Prop :=
  ∀ m, k ≤ m → m < mmpi.maxBlockOrder → mmpi.enclosed a m = mmpi.chunkAddr →
    (∀ o, k ≤ o → o < m → mmpi.IsFree blocks (mmpi.buddy a o) o) → ¬ mmpi.IsFree blocks (mmpi.buddy a m) m →
    (mmpi.word (mmpi.chunkAddr - headSize)).high = 0 ∧ (mmpi.head a).flnIdx = 0 ∧ 0 < mmpi.flnCount ∧
      mmpi.freeBlocks m = []

/-- The loop joins free buddies until one is missing or the block has the largest order. -/
theorem mergeLoop_merges (configured : Configured origin) (holds : Holds True 0 0 origin blocks)
    (guarded : origin.Guarded blocks a k) (rounds : Nat) (merged : Merged origin blocks a k m mmpi fewer)
    (enough : origin.maxBlockOrder - m < rounds) :
    ∃ top last rest, mmpi.mergeLoop rounds (origin.enclosed a m) = some (last, origin.enclosed a top) ∧
      Merged origin blocks a k top last rest ∧
      (top < origin.maxBlockOrder → ¬ origin.IsFree blocks (origin.buddy a top) top) := by
  induction rounds generalizing m mmpi fewer with
  | zero => omega
  | succ rounds ih =>
      have now := configured.kept merged.kept
      have largest : mmpi.maxBlockOrder = origin.maxBlockOrder := by rw [merged.kept]
      obtain ⟨least, most, -⟩ := merged.loose.shape now
      by_cases less : m < mmpi.maxBlockOrder
      · have chunk : mmpi.chunkAddr = origin.chunkAddr := by rw [merged.kept]
        have count : mmpi.flnCount = origin.flnCount := by rw [merged.kept]
        have guard : origin.enclosed a m = mmpi.chunkAddr →
            ¬ mmpi.IsFree fewer (mmpi.buddy (origin.enclosed a m) m) m →
            (mmpi.word (mmpi.chunkAddr - headSize)).high = 0 ∧
              (mmpi.head (origin.enclosed a m)).flnIdx < mmpi.flnCount ∧ mmpi.freeBlocks m = [] := by
          intro first single
          rw [merged.isFree_iff] at single
          rw [chunk] at first
          obtain ⟨before, index, counted, empty⟩ := guarded m merged.low (by omega) first merged.chain single
          have real := configured.real
          simp only [headSize] at real
          rw [chunk, merged.within _ (Or.inl (by simp only [headSize]; omega)), merged.index index, count,
            merged.lists m le_rfl]
          exact ⟨before, counted, empty⟩
        rcases merged.loose.round now less guard rounds with ⟨free, rest, ran, loose, members⟩ | ⟨single, ran⟩
        · rw [merged.isFree_iff] at free
          rw [Merged.buddy_enclosed merged.kept, Merged.enclosed_enclosed merged.kept] at ran loose members
          obtain ⟨top, last, final, run, result, stop⟩ :=
            ih (merged.step configured holds free loose members) (by omega)
          exact ⟨top, last, final, ran.trans run, result, stop⟩
        · exact ⟨m, mmpi, fewer, ran, merged, fun _ => merged.isFree_iff.not.mp single⟩
      · have full : m = mmpi.maxBlockOrder := by omega
        refine ⟨m, mmpi, fewer, ?_, merged, fun less => by omega⟩
        rw [MmpoolImpl.mergeLoop, if_neg]
        rw [now.max_eq, show (mmpi.head (origin.enclosed a m)).blockSize = 2 ^ m from merged.loose.size, full]
        exact Nat.lt_irrefl _

/-- The block has joined its free buddies, and it is in the list of the order that it has reached. -/
structure Freed (mmpi : MmpoolImpl) (blocks : List Nat) (a k m : Nat) (next : MmpoolImpl)
    (pieces : List Nat) : Prop where
  low : k ≤ m
  most : m ≤ mmpi.maxBlockOrder
  chain : ∀ o, k ≤ o → o < m → mmpi.IsFree blocks (mmpi.buddy a o) o
  stop : m < mmpi.maxBlockOrder → ¬ mmpi.IsFree blocks (mmpi.buddy a m) m
  kept : mmpi.Kept next
  holds : Holds True 0 0 next pieces
  free : next.IsFree pieces (mmpi.enclosed a m) m
  within : mmpi.Within next (mmpi.enclosed a m) (mmpi.enclosed a m + 2 ^ m)
  members : ∀ c, c ∈ pieces ↔ c = mmpi.enclosed a m ∨
    c ∈ blocks ∧ (c + mmpi.size c ≤ mmpi.enclosed a m ∨ mmpi.enclosed a m + 2 ^ m ≤ c)
  linked : ∀ n, next.Linked n ↔ mmpi.Linked n

/-- A block has an order of the pool, and it is the range of its order. -/
theorem Holds.shape {tailed : Prop} (holds : Holds tailed 0 0 mmpi blocks) (configured : Configured mmpi)
    (member : a ∈ blocks) (size : mmpi.size a = 2 ^ k) : mmpi.minBlockOrder ≤ k ∧ k ≤ mmpi.maxBlockOrder ∧
      mmpi.enclosed a k = a ∧ mmpi.chunkAddr ≤ a ∧ a + 2 ^ k ≤ mmpi.limit := by
  have real := holds.real configured member
  have bounds := holds.bounds configured member
  obtain ⟨order, least, most, span, aligned⟩ := holds.shaped a member
  rw [Holds.size_in real, size] at span bounds
  obtain rfl := Nat.pow_right_injective (le_refl 2) span
  refine ⟨least, most, ?_, bounds.1, bounds.2.2⟩
  rw [MmpoolImpl.enclosed, enclosing_self aligned]
  exact Nat.add_sub_cancel' bounds.1

/-- The flag of the block is clear, and nothing has been joined yet. -/
theorem Merged.start (configured : Configured mmpi) (holds : Holds True 0 0 mmpi blocks) (member : a ∈ blocks)
    (used : (mmpi.head a).flag ≠ 0) (size : mmpi.size a = 2 ^ k) :
    Merged mmpi blocks a k k (mmpi.flagged a 0) blocks := by
  have real := holds.real configured member
  have positive := Nat.two_pow_pos k
  obtain ⟨least, most, here, -⟩ := holds.shape configured member size
  have head := @flagged_head a mmpi 0 (by decide)
  have loose : Loose (mmpi.flagged a 0) blocks a k := by
    refine ⟨size ▸ unuse_holds holds configured member used, member, by rw [head],
      (congrArg BlockHead.blockSize head).trans size, ?_⟩
    have apart : a + 2 ^ k - headSize ≠ a := by
      have large := configured.large least
      simp only [headTailSize, headSize] at large ⊢
      omega
    rw [← size] at apart ⊢
    exact (writeHead_word apart).trans (holds.tails trivial a member real)
  refine ⟨le_rfl, rfl, here.symm ▸ loose, ?_, ?_, by omega, ?_, fun _ _ => rfl, List.suffix_rfl, fun _ => Iff.rfl⟩
  · intro x outside
    exact writeHead_word (by omega)
  · intro c
    rw [here]
    constructor
    · intro inside
      by_cases same : c = a
      · exact Or.inl same
      · have outside := holds.start_outside member inside same
        have disjoint := holds.tiled.disjoint inside member same
        rw [Holds.size_in real, size] at outside disjoint
        rw [Holds.size_in (holds.real configured inside)] at disjoint
        simp only [id_eq] at disjoint
        exact Or.inr ⟨inside, by omega⟩
    · rintro (rfl | ⟨inside, -⟩)
      · exact member
      · exact inside
  · intro zero
    rw [here, head]
    exact zero

/-- A used block comes back with one unused descriptor. -/
theorem mmpFree_freed (configured : Configured mmpi) (holds : Holds True 0 0 mmpi blocks) (member : a ∈ blocks)
    (used : (mmpi.head a).flag = blockBitUsed) (size : mmpi.size a = 2 ^ k) (guarded : mmpi.Guarded blocks a k)
    (spare : mmpi.lists .freeFln ≠ []) :
    ∃ m next pieces, mmpFree mmpi (payloadAddr a) = some (next, 0) ∧ Freed mmpi blocks a k m next pieces := by
  have real := holds.real configured member
  have flag : (mmpi.head a).flag ≠ 0 := by
    rw [used]
    decide
  have start := Merged.start configured holds member flag size
  obtain ⟨least, most, here, above, -⟩ := holds.shape configured member size
  have count := configured.listCount
  obtain ⟨m, last, rest, ran, merged, stop⟩ :=
    mergeLoop_merges configured holds guarded (mmpi.freeListCount + 1) start (by omega)
  rw [here] at ran
  obtain ⟨i, others, spareNow⟩ : ∃ i others, last.lists .freeFln = i :: others := by
    refine List.exists_cons_of_ne_nil fun empty => spare ?_
    exact List.suffix_nil.mp (empty ▸ merged.spare)
  have now := configured.kept merged.kept
  obtain ⟨leastM, mostM, -⟩ := merged.loose.shape now
  have loose := merged.loose
  have realM := loose.holds.real now loose.member
  have entered := returnFreeNodeToHead_eq now realM loose.flag loose.size leastM mostM spareNow
  have inside : i ∈ last.lists .freeFln := spareNow ▸ List.mem_cons_self
  have enterKept := @entered_kept last (mmpi.enclosed a m) i m
  have head : (last.entered (mmpi.enclosed a m) i m).head (mmpi.enclosed a m) = ⟨0, i, 2 ^ m⟩ :=
    entered_head loose.flag loose.size
  refine ⟨m, last.entered (mmpi.enclosed a m) i m, rest, ?_, merged.low, ?_, merged.chain, stop,
    merged.kept.trans enterKept, settle_holds loose.holds now loose.member loose.flag loose.size loose.tail leastM inside,
    ⟨loose.member, by rw [head], by rw [MmpoolImpl.size, head]⟩, ?_, merged.members,
    fun n => (entered_linked inside).trans (merged.linked n)⟩
  · have block : payloadAddr a - headSize = a := Nat.add_sub_cancel ..
    have tail : mmpi.word (mmpi.getTail a) = ⟨tailLabel, (mmpi.head a).blockSize⟩ :=
      holds.tails trivial a member real
    rw [mmpFree, if_neg (by simp [payloadAddr, headSize])]
    simp only [block, tail, used]
    rw [if_neg (by simp), if_neg (by decide)]
    refine Option.bind_eq_some_iff.mpr ⟨(last, mmpi.enclosed a m), ?_, entered⟩
    exact ran
  · rw [merged.kept] at mostM
    exact mostM
  · intro x outside
    have positive := Nat.two_pow_pos m
    have other : x ≠ mmpi.enclosed a m := by omega
    exact (entered_word other).trans (merged.within x outside)

/-- No two buddies below the largest order are free blocks of one size. -/
def MmpoolImpl.Unpaired (mmpi : MmpoolImpl) (blocks : List Nat) : Prop :=
  ∀ a k, k < mmpi.maxBlockOrder → mmpi.IsFree blocks a k → ¬ mmpi.IsFree blocks (mmpi.buddy a k) k

/-- Every block that starts in the range is free. -/
def MmpoolImpl.WhollyFree (mmpi : MmpoolImpl) (blocks : List Nat) (lo k : Nat) : Prop :=
  ∀ c ∈ blocks, lo ≤ c → c < lo + 2 ^ k → (mmpi.head c).flag = 0

section Wholly

variable {tailed : Prop} (holds : Holds tailed 0 0 mmpi blocks) (configured : Configured mmpi)

include holds configured

/-- The other half of a block's range lies in the chunk, and no larger block covers it. -/
theorem buddy_starts (member : a ∈ blocks) (size : mmpi.size a = 2 ^ k) (less : k < mmpi.maxBlockOrder) :
    mmpi.buddy a k ∈ blocks ∧ mmpi.size (mmpi.buddy a k) ≤ 2 ^ k ∧ mmpi.buddy a k + 2 ^ k ≤ mmpi.limit := by
  obtain ⟨least, most, here, start, stop⟩ := holds.shape configured member size
  have positive := Nat.two_pow_pos k
  have double : 2 ^ (k + 1) = 2 ^ k + 2 ^ k := by omega
  have halves := Merged.halves mmpi a k
  have room : mmpi.enclosed a (k + 1) + 2 ^ (k + 1) ≤ mmpi.limit := by
    have bounds := enclosing_bounds (k + 1) (a - mmpi.chunkAddr)
    rw [MmpoolImpl.limit] at stop ⊢
    rw [MmpoolImpl.enclosed, Nat.add_assoc]
    refine Nat.add_le_add_left (unit_le (Nat.dvd_of_mod_eq_zero (enclosing_aligned _ _)) ?_ (by omega)) _
    exact (Nat.pow_dvd_pow 2 less).trans (Nat.dvd_of_mod_eq_zero configured.whole)
  have low : mmpi.chunkAddr ≤ mmpi.buddy a k := Nat.le_add_right _ _
  obtain ⟨c, inside, before, behind⟩ := holds.tiled.covers low (by omega : mmpi.buddy a k < mmpi.limit)
  have realC := holds.real configured inside
  obtain ⟨order, -, -, span, aligned⟩ := holds.shaped c inside
  have bounds := holds.bounds configured inside
  rw [Holds.size_in realC] at behind span bounds
  simp only [id_eq] at before behind
  rw [span] at behind
  have whole : mmpi.enclosed c order = c := by
    rw [MmpoolImpl.enclosed, enclosing_self aligned]
    omega
  have small : order ≤ k := by
    by_contra larger
    have parent : enclosing order (mmpi.buddy a k - mmpi.chunkAddr) = c - mmpi.chunkAddr :=
      enclosing_unique aligned (by omega) (by omega)
    have upper : mmpi.enclosed a order = c := by
      rw [MmpoolImpl.enclosed, ← enclosing_enclosing (Nat.lt_of_not_le larger), ← sibling_parent,
        enclosing_enclosing (Nat.lt_of_not_le larger)]
      rw [MmpoolImpl.buddy, Nat.add_sub_cancel_left] at parent
      omega
    have inner := enclosing_bounds order (a - mmpi.chunkAddr)
    rw [MmpoolImpl.enclosed] at upper
    have distinct : c ≠ a := by
      rintro rfl
      rw [size] at span
      exact larger (Nat.pow_right_injective (le_refl 2) span).ge
    have apart := holds.tiled.disjoint inside member distinct
    rw [Holds.size_in realC, Holds.size_in (holds.real configured member), span, size] at apart
    simp only [id_eq] at apart
    omega
  have same : c = mmpi.buddy a k := by
    by_contra other
    have wholeB : 2 ^ order ∣ mmpi.buddy a k - mmpi.chunkAddr := by
      rw [MmpoolImpl.buddy, Nat.add_sub_cancel_left]
      exact (Nat.pow_dvd_pow 2 small).trans (Nat.dvd_of_mod_eq_zero (sibling_aligned _ _))
    have step := unit_le (Nat.dvd_of_mod_eq_zero aligned) wholeB (by omega)
    omega
  subst same
  exact ⟨inside, span ▸ Nat.pow_le_pow_right (by decide) small, by omega⟩

/-- Without free pairs, an aligned range of free blocks is one free block. -/
theorem wholly_single (unpaired : mmpi.Unpaired blocks) (n : Nat) (inside : a ∈ blocks)
    (aligned : (a - mmpi.chunkAddr) % 2 ^ n = 0) (bounded : mmpi.size a ≤ 2 ^ n) (most : n ≤ mmpi.maxBlockOrder)
    (wholly : mmpi.WhollyFree blocks a n) : mmpi.IsFree blocks a n := by
  induction n generalizing a with
  | zero =>
      obtain ⟨order, -, -, span, -⟩ := holds.shaped a inside
      rw [Holds.size_in (holds.real configured inside)] at span
      have positive := Nat.two_pow_pos order
      exact ⟨inside, wholly a inside le_rfl (by omega), by omega⟩
  | succ n ih =>
      have positive := Nat.two_pow_pos n
      have double : 2 ^ (n + 1) = 2 ^ n + 2 ^ n := by omega
      obtain ⟨order, -, -, span, -⟩ := holds.shaped a inside
      rw [Holds.size_in (holds.real configured inside)] at span
      by_cases whole : order = n + 1
      · exact ⟨inside, wholly a inside le_rfl (by omega), whole ▸ span⟩
      · have small : order ≤ n := by
          rw [span] at bounded
          have := (Nat.pow_le_pow_iff_right (by decide)).mp bounded
          omega
        have alignedA : (a - mmpi.chunkAddr) % 2 ^ n = 0 :=
          Nat.mod_eq_zero_of_dvd ((Nat.pow_dvd_pow 2 (Nat.le_succ n)).trans (Nat.dvd_of_mod_eq_zero aligned))
        have lower : mmpi.IsFree blocks a n := ih inside alignedA (span ▸ Nat.pow_le_pow_right (by decide) small)
          (by omega) fun c member low high => wholly c member low (by omega)
        obtain ⟨memberB, sizeB, -⟩ := buddy_starts holds configured inside lower.2.2 most
        obtain ⟨start, -⟩ := holds.bounds configured inside
        have place : mmpi.buddy a n = a + 2 ^ n := by
          have whole := enclosing_self aligned
          have self := enclosing_self alignedA
          rw [MmpoolImpl.buddy]
          rcases sides n (a - mmpi.chunkAddr) with ⟨-, same⟩ | ⟨upper, lower⟩ <;> omega
        have alignedB : (mmpi.buddy a n - mmpi.chunkAddr) % 2 ^ n = 0 := by
          rw [MmpoolImpl.buddy, Nat.add_sub_cancel_left]
          exact sibling_aligned _ _
        have upper : mmpi.IsFree blocks (mmpi.buddy a n) n := ih memberB alignedB sizeB (by omega)
          fun c member low high => wholly c member (by omega) (by omega)
        exact absurd upper (unpaired a n most lower)

end Wholly

/-- A used block has nothing in common with the blocks that have joined another one. -/
theorem chain_outside (configured : Configured mmpi) (holds : Holds True 0 0 mmpi blocks) (member : a ∈ blocks)
    (size : mmpi.size a = 2 ^ k) (inside : c ∈ blocks) (other : c ≠ a) (used : (mmpi.head c).flag ≠ 0)
    (low : k ≤ m) (chain : ∀ o, k ≤ o → o < m → mmpi.IsFree blocks (mmpi.buddy a o) o) :
    c + mmpi.size c ≤ mmpi.enclosed a m ∨ mmpi.enclosed a m + 2 ^ m ≤ c := by
  have sized {b : Nat} (member : b ∈ blocks) : mmpi.sizeIn 0 0 b = mmpi.size b :=
    Holds.size_in (holds.real configured member)
  induction m, low using Nat.le_induction with
  | base =>
      obtain ⟨-, -, here, -⟩ := holds.shape configured member size
      have apart := holds.tiled.disjoint inside member other
      rw [sized inside, sized member, size] at apart
      rw [here]
      exact apart
  | succ m low ih =>
      have free := chain m low (Nat.lt_succ_self m)
      have before := ih fun o above below => chain o above (by omega)
      have notHere : c ≠ mmpi.enclosed a m := by
        have positive := (holds.tiled.bounds inside).2.1
        have range := Nat.two_pow_pos m
        rw [sized inside] at positive
        omega
      have notBuddy : c ≠ mmpi.buddy a m := by
        rintro rfl
        exact used free.2.1
      exact ((Merged.outside_iff holds configured free).mp ⟨Or.inr ⟨inside, before⟩, notHere, notBuddy⟩).2

theorem buddy_buddy (aligned : (a - mmpi.chunkAddr) % 2 ^ k = 0) (start : mmpi.chunkAddr ≤ a) :
    mmpi.buddy (mmpi.buddy a k) k = a := by
  rw [MmpoolImpl.buddy, MmpoolImpl.buddy, Nat.add_sub_cancel_left, sibling_sibling aligned]
  exact Nat.add_sub_cancel' start

namespace Freed

/-- Outside of the range that has been freed, the blocks are the same as before. -/
theorem isFree_iff (freed : Freed mmpi blocks a k m next pieces) (other : c ≠ mmpi.enclosed a m) :
    next.IsFree pieces c o ↔ mmpi.IsFree blocks c o ∧
      (c + 2 ^ o ≤ mmpi.enclosed a m ∨ mmpi.enclosed a m + 2 ^ m ≤ c) := by
  have positive := Nat.two_pow_pos o
  have word (outside : c < mmpi.enclosed a m ∨ mmpi.enclosed a m + 2 ^ m ≤ c) : next.word c = mmpi.word c :=
    freed.within c outside
  rw [MmpoolImpl.IsFree, MmpoolImpl.IsFree, freed.members]
  constructor
  · rintro ⟨same | ⟨inside, outside⟩, unused, size⟩
    · exact absurd same other
    · have start : c < mmpi.enclosed a m ∨ mmpi.enclosed a m + 2 ^ m ≤ c := by omega
      rw [head_congr (word start)] at unused
      rw [size_congr (word start)] at size
      exact ⟨⟨inside, unused, size⟩, size ▸ outside⟩
  · rintro ⟨⟨inside, unused, size⟩, outside⟩
    have start : c < mmpi.enclosed a m ∨ mmpi.enclosed a m + 2 ^ m ≤ c := by omega
    rw [head_congr (word start), size_congr (word start)]
    exact ⟨Or.inr ⟨inside, size ▸ outside⟩, unused, size⟩

/-- The block has stopped at a buddy that is not free, so there is no pair of free buddies again. -/
theorem unpaired (freed : Freed mmpi blocks a k m next pieces) (configured : Configured mmpi)
    (before : mmpi.Unpaired blocks) : next.Unpaired pieces := by
  have chunk : next.chunkAddr = mmpi.chunkAddr := by rw [freed.kept]
  have largest : next.maxBlockOrder = mmpi.maxBlockOrder := by rw [freed.kept]
  have now := configured.kept freed.kept
  have buddies (c o : Nat) : next.buddy c o = mmpi.buddy c o := by rw [MmpoolImpl.buddy, chunk, MmpoolImpl.buddy]
  have mine : mmpi.buddy (mmpi.enclosed a m) m = mmpi.buddy a m := Merged.buddy_enclosed rfl
  have halves := Merged.halves mmpi a m
  have range := Nat.two_pow_pos m
  have apart : mmpi.buddy a m ≠ mmpi.enclosed a m := by omega
  -- The new block has the order `m`, and the loop has looked at its buddy last.
  have new (less : m < mmpi.maxBlockOrder) : ¬ next.IsFree pieces (mmpi.buddy a m) m := fun free =>
    freed.stop less ((freed.isFree_iff apart).mp free).1
  have order {c o : Nat} (same : c = mmpi.enclosed a m) (free : next.IsFree pieces c o) : o = m := by
    refine Nat.pow_right_injective (le_refl 2) (?_ : 2 ^ o = 2 ^ m)
    rw [← free.2.2, same, freed.free.2.2]
  intro c o less free buddy
  rw [largest] at less
  rw [buddies] at buddy
  obtain ⟨-, -, whole, start, -⟩ := freed.holds.shape now free.1 free.2.2
  have aligned : (c - mmpi.chunkAddr) % 2 ^ o = 0 := by
    rw [MmpoolImpl.enclosed, chunk] at whole
    rw [show c - mmpi.chunkAddr = enclosing o (c - mmpi.chunkAddr) by omega]
    exact enclosing_aligned _ _
  by_cases here : c = mmpi.enclosed a m
  · obtain rfl := order here free
    rw [here, mine] at buddy
    exact new less buddy
  · by_cases there : mmpi.buddy c o = mmpi.enclosed a m
    · obtain rfl := order there buddy
      have back := buddy_buddy aligned (chunk ▸ start)
      rw [there, mine] at back
      exact new less (back ▸ free)
    · exact before c o less ((freed.isFree_iff here).mp free).1 ((freed.isFree_iff there).mp buddy).1

/-- The buddy of the block is not wholly free when it is not one free block. -/
theorem partly (freed : Freed mmpi blocks a k m next pieces) (configured : Configured mmpi)
    (before : mmpi.Unpaired blocks) (less : m < mmpi.maxBlockOrder) :
    ¬ mmpi.WhollyFree blocks (mmpi.buddy a m) m := by
  intro wholly
  have chunk : next.chunkAddr = mmpi.chunkAddr := by rw [freed.kept]
  have largest : next.maxBlockOrder = mmpi.maxBlockOrder := by rw [freed.kept]
  have now := configured.kept freed.kept
  have halves := Merged.halves mmpi a m
  have positive := Nat.two_pow_pos m
  have mine : next.buddy (mmpi.enclosed a m) m = mmpi.buddy a m := by
    rw [MmpoolImpl.buddy, chunk]
    exact Merged.buddy_enclosed rfl
  obtain ⟨inside, bounded, -⟩ := buddy_starts freed.holds now freed.free.1 freed.free.2.2 (largest ▸ less)
  rw [mine] at inside bounded
  have aligned : (mmpi.buddy a m - next.chunkAddr) % 2 ^ m = 0 := by
    rw [chunk, MmpoolImpl.buddy, Nat.add_sub_cancel_left]
    exact sibling_aligned _ _
  have single := wholly_single freed.holds now (freed.unpaired configured before) m inside aligned bounded
    (largest ▸ less.le) fun c member low high => by
      rcases (freed.members c).mp member with same | ⟨old, -⟩
      · omega
      · rw [head_congr (freed.within c (by omega))]
        exact wholly c old low high
  exact freed.stop less ((freed.isFree_iff (by omega)).mp single).1

end Freed

/-- In a new pool every block has the largest order. -/
theorem Rowed.unpaired (rowed : Rowed origin c mmpi blocks) : mmpi.Unpaired blocks := by
  intro a k less free
  have size := (rowed.largest a free.1).2
  rw [free.2.2, show origin.maxBlockOrder = mmpi.maxBlockOrder by rw [rowed.kept]] at size
  exact absurd (Nat.pow_right_injective (le_refl 2) size) (Nat.ne_of_lt less)

/-- The parts of a block have different orders, so an allocation makes no free pair. -/
theorem Taken.unpaired {tailed : Prop} {j : Nat} (taken : Taken tailed mmpi blocks k j a next) (configured : Configured mmpi)
    (holds : Holds tailed 0 0 mmpi blocks) (before : mmpi.Unpaired blocks) (heldNext : Holds tailed 0 0 next pieces) :
    next.Unpaired pieces := by
  have now := configured.kept taken.kept
  have largest : next.maxBlockOrder = mmpi.maxBlockOrder := by rw [taken.kept]
  have smallest : next.minBlockOrder = mmpi.minBlockOrder := by rw [taken.kept]
  have chunk : next.chunkAddr = mmpi.chunkAddr := by rw [taken.kept]
  intro c o less free buddy
  rw [largest] at less
  have least := (heldNext.shape now free.1 free.2.2).1
  have place : next.buddy c o = mmpi.buddy c o := by rw [MmpoolImpl.buddy, chunk, MmpoolImpl.buddy]
  rw [place] at buddy
  have first := (heldNext.mem_freeBlocks now least).mpr free
  have second := (heldNext.mem_freeBlocks now least).mpr buddy
  rw [smallest] at least
  have old {b : Nat} (inside : b ∈ mmpi.freeBlocks o) : mmpi.IsFree blocks b o :=
    (holds.mem_freeBlocks configured least).mp inside
  rw [taken.free o least] at first second
  split_ifs at first second
  · exact before c o less (old (List.mem_of_mem_tail first)) (old (List.mem_of_mem_tail second))
  · have same := (List.mem_singleton.mp second).trans (List.mem_singleton.mp first).symm
    have positive := Nat.two_pow_pos o
    have halves := Merged.halves mmpi c o
    have whole := (heldNext.shape now free.1 free.2.2).2.2.1
    rw [MmpoolImpl.enclosed, chunk] at whole
    rw [same, show mmpi.enclosed c o = c from whole] at halves
    omega
  · exact before c o less (old first) (old second)

/-- A block that starts in a later part of the largest order never becomes the first one of the chunk. -/
theorem guarded_later (later : mmpi.chunkAddr + 2 ^ mmpi.maxBlockOrder ≤ a) : mmpi.Guarded blocks a k := by
  intro m _ less first
  exfalso
  have bounds := enclosing_bounds m (a - mmpi.chunkAddr)
  have smaller : 2 ^ m ≤ 2 ^ mmpi.maxBlockOrder := Nat.pow_le_pow_right (by decide) less.le
  rw [MmpoolImpl.enclosed] at first
  omega

/-- A block behind the first part of the largest order joins its free buddies, and the pool stays sound. -/
theorem mmpFree_merges (mmpi : MmpoolImpl) (blocks : List Nat) (configured : Configured mmpi)
    (holds : Holds True 0 0 mmpi blocks) (unpaired : mmpi.Unpaired blocks) (spare : mmpi.lists .freeFln ≠ [])
    (a : Nat) (member : a ∈ blocks) (used : (mmpi.head a).flag ≠ 0)
    (later : mmpi.chunkAddr + 2 ^ mmpi.maxBlockOrder ≤ a) :
    ∃ k m next pieces, mmpi.size a = 2 ^ k ∧ k ≤ m ∧ m ≤ mmpi.maxBlockOrder ∧
      mmpFree mmpi (payloadAddr a) = some (next, 0) ∧
      (∀ o, k ≤ o → o < m → mmpi.IsFree blocks (mmpi.buddy a o) o) ∧
      (m < mmpi.maxBlockOrder → ¬ mmpi.WhollyFree blocks (mmpi.buddy a m) m) ∧
      next.IsFree pieces (mmpi.enclosed a m) m ∧
      mmpi.Kept next ∧ Holds True 0 0 next pieces ∧ next.Unpaired pieces ∧
      ∀ c ∈ blocks, c ≠ a → (mmpi.head c).flag ≠ 0 →
        c ∈ pieces ∧ ∀ x, c ≤ x → x < c + mmpi.size c → next.word x = mmpi.word x := by
  obtain ⟨k, -, -, size, -⟩ := holds.shaped a member
  have real := holds.real configured member
  rw [Holds.size_in real] at size
  have flag : (mmpi.head a).flag = blockBitUsed := (holds.flags a member real).resolve_left used
  obtain ⟨m, next, pieces, ran, freed⟩ :=
    mmpFree_freed configured holds member flag size (guarded_later later) spare
  refine ⟨k, m, next, pieces, size, freed.low, freed.most, ran, freed.chain, freed.partly configured unpaired,
    freed.free, freed.kept, freed.holds, freed.unpaired configured unpaired, ?_⟩
  intro c inside other usedC
  have outside := chain_outside configured holds member size inside other usedC freed.low freed.chain
  constructor
  · exact (freed.members c).mpr (Or.inr ⟨inside, outside⟩)
  · intro x low high
    exact freed.within x (by omega)

/-- The last block of a new pool is split for a small payload, and both halves join again. -/
theorem mmpFree_merges_once : ∃ mmpi ∈ (mmpCreate (fun _ => ⟨0, 0⟩) 0 4096 ⟨512, 5, 6⟩).join,
    ∃ used a, mmpAlloc mmpi 1 = some (used, payloadAddr a) ∧ ∃ m next pieces,
      mmpFree used (payloadAddr a) = some (next, 0) ∧ next.IsFree pieces (used.enclosed a m) m ∧
        Holds True 0 0 next pieces ∧ next.Unpaired pieces := by
  obtain ⟨mmpi, made, spare, fits, first, ran⟩ :
      ∃ mmpi ∈ (mmpCreate (fun _ => ⟨0, 0⟩) 0 4096 ⟨512, 5, 6⟩).join,
        mmpi.maxBlockOrder - mmpi.minBlockOrder < (mmpi.lists .freeFln).length ∧ 1 ≤ mmpi.maxPayloadSize ∧
          mmpi.chunkAddr + 2 ^ mmpi.maxBlockOrder = 4544 ∧
          ∃ used ∈ mmpAlloc mmpi 1, used.2 = payloadAddr 4544 ∧ used.1.lists .freeFln ≠ [] := by
    decide +kernel
  obtain ⟨⟨used, p⟩, ran, rfl, left⟩ := ran
  obtain ⟨configured, -, blocks, rowed⟩ := mmpCreate_rowed ⟨by decide, by decide, by decide⟩ (by decide)
    (Option.join_eq_some_iff.mp made)
  have now := configured.kept rowed.kept
  rcases mmpAlloc_cases now rowed.full (fun j low high _ _ => by
      have least : mmpi.minBlockOrder ≤ mmpi.neededOrder 1 := le_max_left _ _
      omega) le_rfl fits with ⟨null, -⟩ | ⟨j, a, rest, next, above, -, -, front, found, taken⟩
  · rw [null] at ran
    cases ran
  · obtain ⟨rfl, same⟩ := Prod.mk.inj (Option.some.inj (found.symm.trans ran))
    obtain rfl : a = 4544 := Nat.add_right_cancel same
    obtain ⟨pieces, holds, members⟩ := taken.holds
    have least : mmpi.minBlockOrder ≤ j := (le_max_left _ _).trans above
    have inside := ((rowed.full.mem_freeBlocks now least).mp (front ▸ List.mem_cons_self)).1
    have place : next.chunkAddr + 2 ^ next.maxBlockOrder = 4544 := by
      rw [taken.kept]
      exact first
    obtain ⟨k, m, final, merged, -, -, -, freed, -, -, free, -, sound, apart, -⟩ :=
      mmpFree_merges next pieces (now.kept taken.kept) holds (taken.unpaired now rowed.full rowed.unpaired holds) left
        4544 ((members _).mpr (Or.inl inside)) (by simp [taken.head, blockBitUsed]) place.le
    exact ⟨mmpi, made, next, 4544, found, m, final, merged, freed, free, sound, apart⟩

end Syslib.Mmpool
