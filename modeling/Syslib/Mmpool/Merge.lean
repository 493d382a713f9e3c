import Syslib.Library.Buddies
import Syslib.Mmpool.Alloc

namespace Syslib.Mmpool

open IntrusiveLists Tiling Buddies

variable {tailed : Prop} {a b c k m o out gone : Nat} {mmpi next : MmpoolImpl} {live : Nat → Prop}
  {blocks front back : List Nat}

/-- The other half of the next larger range around the address. -/
def MmpoolImpl.buddy (mmpi : MmpoolImpl) (a k : Nat) : Nat :=
  mmpi.chunkAddr + sibling k (a - mmpi.chunkAddr)

/-- The range of the order around the address. -/
def MmpoolImpl.enclosed (mmpi : MmpoolImpl) (a k : Nat) : Nat :=
  mmpi.chunkAddr + enclosing k (a - mmpi.chunkAddr)

/-- A free block of the order starts at the address. -/
def MmpoolImpl.IsFree (mmpi : MmpoolImpl) (blocks : List Nat) (a k : Nat) : Prop :=
  a ∈ blocks ∧ (mmpi.head a).flag = 0 ∧ mmpi.size a = 2 ^ k

theorem unlinkBlock_eq (configured : Configured mmpi) (listed : Listed live mmpi) (inside : live a)
    (unused : (mmpi.head a).flag = 0) (size : mmpi.size a = 2 ^ k) (least : mmpi.minBlockOrder ≤ k)
    (most : k ≤ mmpi.maxBlockOrder) : mmpi.unlinkBlock a = some (mmpi.unlinked a, 0) := by
  have linked := listed.mem inside unused
  rw [size, Nat.log2_two_pow] at linked
  have count := configured.listCount
  rw [MmpoolImpl.unlinkBlock, flhOf_size size least]
  simp only [Option.bind_eq_bind, Option.bind_some]
  rw [if_neg (Nat.not_le.mpr (listed.inside linked)), if_neg (by omega), if_neg (List.ne_nil_of_mem linked)]
  rfl

/-- A block of an order without free blocks is not taken from any list. -/
theorem unlinkBlock_empty (configured : Configured mmpi) (size : mmpi.size a = 2 ^ k)
    (least : mmpi.minBlockOrder ≤ k) (most : k ≤ mmpi.maxBlockOrder) (counted : (mmpi.head a).flnIdx < mmpi.flnCount)
    (empty : mmpi.freeBlocks k = []) : mmpi.unlinkBlock a = some (mmpi, -1) := by
  have none_ := List.map_eq_nil_iff.mp empty
  have count := configured.listCount
  rw [MmpoolImpl.unlinkBlock, flhOf_size size least]
  simp only [Option.bind_eq_bind, Option.bind_some]
  rw [if_neg (Nat.not_le.mpr counted), if_neg (by omega), if_pos none_]

/-- The mask of the merge finds the range of the next order. -/
theorem roundDown_offset (configured : Configured mmpi) (inside : a ≤ mmpi.limit) (small : k ≤ 30) :
    roundDown (a - mmpi.chunkAddr) (2 ^ k * 2 % 2 ^ 32) = enclosing (k + 1) (a - mmpi.chunkAddr) := by
  have room := configured.room
  have bounded : 2 ^ k * 2 < 2 ^ 32 := by
    rw [← Nat.pow_succ]
    exact Nat.pow_lt_pow_right (by decide) (by omega)
  rw [MmpoolImpl.limit] at inside
  rw [Nat.mod_eq_of_lt bounded, ← Nat.pow_succ, roundDown_eq (by omega) (by omega), enclosing, Nat.mul_comm]

theorem mergeBuddies_refuses (refused : (mmpi.head a).flag ≠ 0 ∨ (mmpi.head b).flag ≠ 0 ∨
    mmpi.size a ≠ mmpi.size b ∨ roundDown (a - mmpi.chunkAddr) (mmpi.size a * 2 % 2 ^ 32) ≠
      roundDown (b - mmpi.chunkAddr) (mmpi.size a * 2 % 2 ^ 32)) :
    mmpi.mergeBuddies a b gone = some (mmpi, 0) := by
  rw [MmpoolImpl.mergeBuddies]
  by_cases flags : (mmpi.head a).flag ≠ 0 ∨ (mmpi.head b).flag ≠ 0
  · rw [if_pos flags]
  · rw [if_neg flags]
    by_cases sizes : (mmpi.head a).blockSize ≠ (mmpi.head b).blockSize
    · rw [if_pos sizes]
    · rw [if_neg sizes]
      refine if_pos ?_
      rcases refused with first | second | other | apart
      · exact absurd (Or.inl first) flags
      · exact absurd (Or.inr second) flags
      · exact absurd other sizes
      · exact apart

theorem mergeBuddies_takes {rslt : Int} (flagA : (mmpi.head a).flag = 0) (flagB : (mmpi.head b).flag = 0)
    (sizes : mmpi.size a = mmpi.size b) (together : roundDown (a - mmpi.chunkAddr) (mmpi.size a * 2 % 2 ^ 32) =
      roundDown (b - mmpi.chunkAddr) (mmpi.size a * 2 % 2 ^ 32))
    (unlink : mmpi.unlinkBlock gone = some (next, rslt)) : mmpi.mergeBuddies a b gone =
      if rslt < 0 then some (next, 0) else some (next.makeBlock a (mmpi.size a * 2 % 2 ^ 32)) := by
  have equal : ¬ (mmpi.head a).blockSize ≠ (mmpi.head b).blockSize := not_not.mpr sizes
  rw [MmpoolImpl.mergeBuddies, if_neg (by simp [flagA, flagB]), if_neg equal]
  refine (if_neg (not_not.mpr together)).trans ?_
  rw [unlink]
  rfl

/-- The pool after the listed half of a block has joined the other one. -/
def MmpoolImpl.joined (mmpi : MmpoolImpl) (a gone k : Nat) : MmpoolImpl :=
  (mmpi.unlinked gone).made a (2 ^ k)

theorem joined_within (positive : 0 < 2 ^ k) (large : headTailSize ≤ 2 ^ (k + 1))
    (half : gone = a ∨ gone = a + 2 ^ k) :
    mmpi.Within (mmpi.joined a gone (k + 1)) a (a + 2 ^ (k + 1)) := by
  intro x outside
  have double : 2 ^ (k + 1) = 2 ^ k + 2 ^ k := by omega
  have other : x ≠ gone := by omega
  exact (made_within large x outside).trans (unlinked_word other)

theorem joined_kept (a gone k : Nat) : mmpi.Kept (mmpi.joined a gone k) :=
  (unlinked_kept gone).trans (made_kept a (2 ^ k))

/-- The other blocks of the row are neither half. -/
theorem row_apart {upper : Nat} (nodup : (front ++ [a, upper] ++ back).Nodup)
    (place : c ∈ front ∨ c ∈ back) : c ≠ a ∧ c ≠ upper := by
  rw [List.append_assoc, List.nodup_append', List.nodup_append'] at nodup
  obtain ⟨-, ⟨-, -, behind⟩, before⟩ := nodup
  rcases place with inFront | inBack
  · constructor
    · rintro rfl
      exact before inFront (by simp)
    · rintro rfl
      exact before inFront (by simp)
  · exact ⟨fun same => behind (by simp) (same ▸ inBack), fun same => behind (by simp) (same ▸ inBack)⟩

/-- The halves leave the row, and their union stays. -/
theorem mem_join {upper : Nat} (nodup : (front ++ [a, upper] ++ back).Nodup)
    (halves : b = a ∧ gone = upper ∨ b = upper ∧ gone = a) :
    c ∈ front ++ [a] ++ back ↔ c = a ∨ c ∈ front ++ [a, upper] ++ back ∧ c ≠ b ∧ c ≠ gone := by
  have once := row_apart (c := c) nodup
  simp only [List.mem_append, List.mem_cons, List.not_mem_nil, or_false]
  rcases halves with ⟨rfl, rfl⟩ | ⟨rfl, rfl⟩ <;> tauto

/-- Two halves, one of them in its list and the other one in none, become one block. -/
theorem join_holds (holds : Holds tailed out (2 ^ k) mmpi (front ++ [a, a + 2 ^ k] ++ back))
    (configured : Configured mmpi)
    (halves : out = a ∧ gone = a + 2 ^ k ∨ out = a + 2 ^ k ∧ gone = a) (unused : (mmpi.head gone).flag = 0)
    (size : mmpi.size gone = 2 ^ k) (most : k < mmpi.maxBlockOrder)
    (aligned : (a - mmpi.chunkAddr) % 2 ^ (k + 1) = 0) :
    Holds tailed a (2 ^ (k + 1)) (mmpi.joined a gone (k + 1)) (front ++ [a] ++ back) := by
  have positive : 0 < 2 ^ k := Nat.two_pow_pos k
  have double : 2 ^ (k + 1) = 2 ^ k + 2 ^ k := by omega
  have lower : a ∈ front ++ [a, a + 2 ^ k] ++ back := by simp
  have upper : a + 2 ^ k ∈ front ++ [a, a + 2 ^ k] ++ back := by simp
  have member : gone ∈ front ++ [a, a + 2 ^ k] ++ back := by
    rcases halves with ⟨-, rfl⟩ | ⟨-, rfl⟩ <;> assumption
  have notOut : gone ≠ out := by omega
  obtain ⟨order, least, -, spanOrder, -⟩ := holds.shaped gone member
  rw [Holds.size_in notOut, size] at spanOrder
  obtain rfl := Nat.pow_right_injective (le_refl 2) spanOrder
  have large : headTailSize ≤ 2 ^ (k + 1) := configured.large (least.trans (Nat.le_succ k))
  have sizes : mmpi.sizeIn out (2 ^ k) a = 2 ^ k ∧ mmpi.sizeIn out (2 ^ k) (a + 2 ^ k) = 2 ^ k := by
    rcases halves with ⟨rfl, rfl⟩ | ⟨rfl, rfl⟩
    · exact ⟨if_pos rfl, (if_neg (by omega)).trans size⟩
    · exact ⟨(if_neg (by omega)).trans size, if_pos rfl⟩
  have nodup := holds.nodup
  have once (c : Nat) (place : c ∈ front ∨ c ∈ back) := row_apart nodup place
  have within : ∀ lo hi, Tiles id (mmpi.sizeIn out (2 ^ k)) [a, a + 2 ^ k] lo hi →
      mmpi.Within (mmpi.joined a gone (k + 1)) lo hi := by
    rintro lo hi ⟨rfl, -, -, -, rfl⟩
    rw [sizes.1, sizes.2]
    have inside := @joined_within a k gone mmpi positive large (by omega)
    rw [double, ← Nat.add_assoc] at inside
    exact inside
  have span : (mmpi.joined a gone (k + 1)).sizeIn a (2 ^ (k + 1)) a = 2 ^ (k + 1) := if_pos rfl
  have kept := @joined_kept mmpi a gone (k + 1)
  refine holds.replace configured kept (fun c place => ?_) (fun c place => (once c place).1) within ?_ ?_ ?_ ?_ ?_
  · rcases halves with ⟨rfl, -⟩ | ⟨rfl, -⟩
    · exact (once c place).1
    · exact (once c place).2
  · rintro lo hi ⟨here, -, -, -, there⟩
    rw [sizes.1, sizes.2] at there
    rw [Tiles, Tiles, span, double, ← Nat.add_assoc]
    exact ⟨here, by omega, there⟩
  · intro c inRow
    obtain rfl := List.mem_singleton.mp inRow
    exact ⟨k + 1, least.trans (Nat.le_succ k), most, span, aligned⟩
  · exact fun _ c inRow notA => absurd (List.mem_singleton.mp inRow) notA
  · exact fun c inRow notA => absurd (List.mem_singleton.mp inRow) notA
  · have fewer := @Listed.unlink _ _ _ _ holds.listed ⟨member, notOut⟩ unused (fun _ => Iff.rfl)
    have left : (fun c => (c ∈ front ++ [a, a + 2 ^ k] ++ back ∧ c ≠ out) ∧ c ≠ gone) =
        fun c => c ∈ front ++ [a] ++ back ∧ c ≠ a := by
      funext c
      rw [mem_join nodup halves, and_assoc, or_and_right, and_not_self_iff, false_or]
      refine propext (iff_self_and.mpr ?_)
      rintro ⟨-, notOut, notGone⟩ rfl
      rcases halves with ⟨rfl, -⟩ | ⟨-, rfl⟩
      · exact notOut rfl
      · exact notGone rfl
    rw [left] at fewer
    refine fewer.congr ?_ rfl rfl (made_kept a _).flnCount (made_kept a _).minBlockOrder
    rintro c ⟨inside, notA⟩
    have place : c ∈ front ∨ c ∈ back := by
      simp only [List.mem_append, List.mem_singleton] at inside
      tauto
    have others := once c place
    rw [(holds.frame configured within place (by omega)).1]
    exact (head_congr (unlinked_word (by omega))).symm

section Loop

variable {rounds : Nat} (growing : (mmpi.head a).blockSize < blockSize mmpi.maxBlockOrder)

include growing

theorem mergeLoop_next (merged : mmpi.mergeBuddyNext a (mmpi.nextBlock a) = some (next, b)) (real : b ≠ 0) :
    mmpi.mergeLoop (rounds + 1) a = next.mergeLoop rounds b := by
  rw [MmpoolImpl.mergeLoop, if_pos growing, merged]
  exact if_pos real

theorem mergeLoop_prev (apart : mmpi.mergeBuddyNext a (mmpi.nextBlock a) = some (mmpi, 0))
    (merged : mmpi.mergeBuddyPrev (mmpi.prevBlock a) a = some (next, b)) (real : b ≠ 0) :
    mmpi.mergeLoop (rounds + 1) a = next.mergeLoop rounds b := by
  rw [MmpoolImpl.mergeLoop, if_pos growing, apart]
  simp only [Option.bind_eq_bind, Option.bind_some, ne_eq, not_true_eq_false, if_false, merged]
  exact if_pos real

theorem mergeLoop_stop (apart : mmpi.mergeBuddyNext a (mmpi.nextBlock a) = some (mmpi, 0))
    (alone : mmpi.mergeBuddyPrev (mmpi.prevBlock a) a = some (mmpi, 0)) :
    mmpi.mergeLoop (rounds + 1) a = some (mmpi, a) := by
  rw [MmpoolImpl.mergeLoop, if_pos growing, apart]
  simp only [Option.bind_eq_bind, Option.bind_some, ne_eq, not_true_eq_false, if_false, alone]

end Loop

/-- A block without a list, with a header that says so. -/
structure Loose (mmpi : MmpoolImpl) (blocks : List Nat) (a k : Nat) : Prop where
  holds : Holds True a (2 ^ k) mmpi blocks
  member : a ∈ blocks
  flag : (mmpi.head a).flag = 0
  size : mmpi.size a = 2 ^ k
  tail : mmpi.word (a + 2 ^ k - headSize) = ⟨tailLabel, 2 ^ k⟩

namespace Loose

/-- The block has an order of the pool, and it is aligned to its size. -/
theorem shape (loose : Loose mmpi blocks a k) (configured : Configured mmpi) :
    mmpi.minBlockOrder ≤ k ∧ k ≤ mmpi.maxBlockOrder ∧ (a - mmpi.chunkAddr) % 2 ^ k = 0 ∧
      mmpi.chunkAddr ≤ a ∧ a + 2 ^ k ≤ mmpi.limit ∧ k ≤ 30 := by
  obtain ⟨order, least, most, span, aligned⟩ := loose.holds.shaped a loose.member
  have bounds := loose.holds.bounds configured loose.member
  rw [show mmpi.sizeIn a (2 ^ k) a = 2 ^ k from if_pos rfl] at span bounds
  obtain rfl := Nat.pow_right_injective (le_refl 2) span
  have largest := configured.largest
  exact ⟨least, most, aligned, bounds.1, bounds.2.2, most.trans largest⟩

theorem doubled (loose : Loose mmpi blocks a k) (configured : Configured mmpi) :
    mmpi.size a * 2 % 2 ^ 32 = 2 ^ (k + 1) := by
  have small := (loose.shape configured).2.2.2.2.2
  rw [loose.size, ← Nat.pow_succ]
  exact Nat.mod_eq_of_lt (Nat.pow_lt_pow_right (by decide) (by omega))

theorem nextBlock_eq (loose : Loose mmpi blocks a k) : mmpi.nextBlock a = a + 2 ^ k :=
  congrArg (a + ·) loose.size

/-- The tail of the block before leads back to its head. -/
theorem prevBlock_eq (loose : Loose mmpi blocks a k) (configured : Configured mmpi) (inside : b ∈ blocks)
    (ends : b + mmpi.size b = a) (other : b ≠ a) : mmpi.prevBlock a = b := by
  have tail := loose.holds.tails trivial b inside other
  have large := (loose.holds.bounds configured inside).2.1
  rw [Holds.size_in other] at large
  rw [ends] at tail
  rw [MmpoolImpl.prevBlock, tail]
  show a - mmpi.size b = b
  omega

/-- The lower half takes the free upper one. -/
theorem next_joins (loose : Loose mmpi blocks a k) (configured : Configured mmpi)
    (lower : sibling k (a - mmpi.chunkAddr) = a - mmpi.chunkAddr + 2 ^ k)
    (free : mmpi.IsFree blocks (a + 2 ^ k) k) :
    mmpi.mergeBuddyNext a (mmpi.nextBlock a) = some (mmpi.joined a (a + 2 ^ k) (k + 1), a) := by
  obtain ⟨least, most, aligned, start, stop, small⟩ := loose.shape configured
  have positive := Nat.two_pow_pos k
  obtain ⟨inside, unused, size⟩ := free
  have unlink := unlinkBlock_eq configured loose.holds.listed ⟨inside, by omega⟩ unused size least most
  have together : roundDown (a - mmpi.chunkAddr) (mmpi.size a * 2 % 2 ^ 32) =
      roundDown (a + 2 ^ k - mmpi.chunkAddr) (mmpi.size a * 2 % 2 ^ 32) := by
    rw [loose.size, roundDown_offset configured (by omega) small, roundDown_offset configured stop small,
      Nat.sub_add_comm start, ← lower, sibling_parent]
  rw [loose.nextBlock_eq, MmpoolImpl.mergeBuddyNext,
    mergeBuddies_takes loose.flag unused (loose.size.trans size.symm) together unlink, if_neg (by decide),
    loose.doubled configured, makeBlock_eq (by have := configured.smallest; omega) (by omega)]
  rfl

/-- The block behind an upper half belongs to another range. -/
theorem next_apart (loose : Loose mmpi blocks a k) (configured : Configured mmpi)
    (upper : a - mmpi.chunkAddr = sibling k (a - mmpi.chunkAddr) + 2 ^ k) :
    mmpi.mergeBuddyNext a (mmpi.nextBlock a) = some (mmpi, 0) := by
  obtain ⟨least, most, aligned, start, stop, small⟩ := loose.shape configured
  have positive := Nat.two_pow_pos k
  have double : 2 ^ (k + 1) = 2 ^ k + 2 ^ k := by omega
  rw [loose.nextBlock_eq]
  refine mergeBuddies_refuses (Or.inr (Or.inr (Or.inr ?_)))
  rw [loose.size, roundDown_offset configured (by omega) small, roundDown_offset configured stop small,
    Nat.sub_add_comm start]
  have bounds := enclosing_bounds (k + 1) (a - mmpi.chunkAddr)
  have beyond := enclosing_bounds (k + 1) (a - mmpi.chunkAddr + 2 ^ k)
  have parent : enclosing (k + 1) (a - mmpi.chunkAddr) = sibling k (a - mmpi.chunkAddr) := by
    rcases sides k (a - mmpi.chunkAddr) with ⟨-, lower⟩ | ⟨same, -⟩
    · rw [enclosing_self aligned] at lower
      omega
    · exact same
  intro same
  omega

/-- The upper half joins the free lower one. -/
theorem prev_joins (loose : Loose mmpi blocks a k) (configured : Configured mmpi)
    (upper : a - mmpi.chunkAddr = sibling k (a - mmpi.chunkAddr) + 2 ^ k) (ends : b + 2 ^ k = a)
    (free : mmpi.IsFree blocks b k) :
    mmpi.mergeBuddyPrev (mmpi.prevBlock a) a = some (mmpi.joined b b (k + 1), b) := by
  obtain ⟨least, most, aligned, start, stop, small⟩ := loose.shape configured
  have positive := Nat.two_pow_pos k
  obtain ⟨inside, unused, size⟩ := free
  have unlink := unlinkBlock_eq configured loose.holds.listed ⟨inside, by omega⟩ unused size least most
  have startB := (loose.holds.bounds configured inside).1
  have offset : b - mmpi.chunkAddr = sibling k (a - mmpi.chunkAddr) := by omega
  have together : roundDown (b - mmpi.chunkAddr) (mmpi.size b * 2 % 2 ^ 32) =
      roundDown (a - mmpi.chunkAddr) (mmpi.size b * 2 % 2 ^ 32) := by
    rw [size, roundDown_offset configured (by omega) small, roundDown_offset configured (by omega) small,
      offset, sibling_parent]
  have doubled : mmpi.size b * 2 % 2 ^ 32 = 2 ^ (k + 1) := by
    rw [size, ← loose.size]
    exact loose.doubled configured
  rw [loose.prevBlock_eq configured inside (by rw [size]; exact ends) (by omega), MmpoolImpl.mergeBuddyPrev,
    mergeBuddies_takes unused loose.flag (size.trans loose.size.symm) together unlink, if_neg (by decide),
    doubled, makeBlock_eq (by have := configured.smallest; omega) (by omega)]
  rfl

/-- The block in front of this one is used, of another size, or in another range. -/
theorem prev_apart (loose : Loose mmpi blocks a k) (configured : Configured mmpi) (inside : b ∈ blocks)
    (ends : b + mmpi.size b = a) (other : b ≠ a) (single : ¬ mmpi.IsFree blocks (mmpi.buddy a k) k) :
    mmpi.mergeBuddyPrev (mmpi.prevBlock a) a = some (mmpi, 0) := by
  obtain ⟨least, most, aligned, start, stop, small⟩ := loose.shape configured
  have positive := Nat.two_pow_pos k
  have double : 2 ^ (k + 1) = 2 ^ k + 2 ^ k := by omega
  have startB := (loose.holds.bounds configured inside).1
  rw [loose.prevBlock_eq configured inside ends other]
  refine mergeBuddies_refuses ?_
  by_cases unused : (mmpi.head b).flag = 0
  · by_cases size : mmpi.size b = mmpi.size a
    · refine Or.inr (Or.inr (Or.inr ?_))
      rw [loose.size] at size
      rw [size] at ends ⊢
      rw [roundDown_offset configured (by omega) small, roundDown_offset configured (by omega) small]
      have bounds := enclosing_bounds (k + 1) (b - mmpi.chunkAddr)
      have self := enclosing_self aligned
      rcases sides k (a - mmpi.chunkAddr) with ⟨parent, lower⟩ | ⟨parent, upper⟩
      · intro same
        omega
      · refine absurd ⟨?_, ?_, ?_⟩ single
        all_goals rw [show mmpi.buddy a k = b by rw [MmpoolImpl.buddy]; omega]
        · exact inside
        · exact unused
        · exact size
    · exact Or.inr (Or.inr (Or.inl size))
  · exact Or.inl unused

/-- The right neighbour of a lower half is used or smaller. -/
theorem next_single (loose : Loose mmpi blocks a k) (inside : a + 2 ^ k ∈ blocks)
    (single : ¬ mmpi.IsFree blocks (a + 2 ^ k) k) :
    mmpi.mergeBuddyNext a (mmpi.nextBlock a) = some (mmpi, 0) := by
  rw [loose.nextBlock_eq]
  refine mergeBuddies_refuses ?_
  by_cases unused : (mmpi.head (a + 2 ^ k)).flag = 0
  · refine Or.inr (Or.inr (Or.inl fun same => single ⟨inside, unused, ?_⟩))
    rw [← same, loose.size]
  · exact Or.inr (Or.inl unused)

/-- The first block of the chunk is its own left neighbour, and its order has no list to leave. -/
theorem prev_self (loose : Loose mmpi blocks a k) (configured : Configured mmpi) (first : a = mmpi.chunkAddr)
    (before : (mmpi.word (mmpi.chunkAddr - headSize)).high = 0) (counted : (mmpi.head a).flnIdx < mmpi.flnCount)
    (empty : mmpi.freeBlocks k = []) : mmpi.mergeBuddyPrev (mmpi.prevBlock a) a = some (mmpi, 0) := by
  obtain ⟨least, most, -⟩ := loose.shape configured
  have itself : mmpi.prevBlock a = a := by
    rw [MmpoolImpl.prevBlock, first, before]
    rfl
  rw [itself, MmpoolImpl.mergeBuddyPrev, mergeBuddies_takes loose.flag loose.flag rfl rfl
    (unlinkBlock_empty configured loose.size least most counted empty), if_pos (by decide)]

/-- A lower half has its upper one behind it. -/
theorem upper_mem (loose : Loose mmpi blocks a k) (configured : Configured mmpi) (less : k < mmpi.maxBlockOrder)
    (lower : enclosing (k + 1) (a - mmpi.chunkAddr) = a - mmpi.chunkAddr) : a + 2 ^ k ∈ blocks := by
  obtain ⟨least, most, aligned, start, stop, small⟩ := loose.shape configured
  have positive := Nat.two_pow_pos k
  have double : 2 ^ (k + 1) = 2 ^ k + 2 ^ k := by omega
  have span : mmpi.sizeIn a (2 ^ k) a = 2 ^ k := if_pos rfl
  rw [MmpoolImpl.limit] at stop
  have room : a - mmpi.chunkAddr + 2 ^ (k + 1) ≤ mmpi.chunkSize := by
    refine unit_le ?_ ((Nat.pow_dvd_pow 2 less).trans (Nat.dvd_of_mod_eq_zero configured.whole)) (by omega)
    rw [← lower]
    exact Nat.dvd_of_mod_eq_zero (enclosing_aligned _ _)
  rcases loose.holds.tiled.next loose.member with last | ⟨front, later, back, row, behind⟩
  · rw [span, MmpoolImpl.limit, id_eq] at last
    omega
  · rw [span, id_eq, id_eq] at behind
    rw [row, ← behind]
    simp

theorem joined_loose (configured : Configured mmpi) (least : mmpi.minBlockOrder ≤ k)
    (holds : Holds True a (2 ^ (k + 1)) (mmpi.joined a gone (k + 1)) (front ++ [a] ++ back)) :
    Loose (mmpi.joined a gone (k + 1)) (front ++ [a] ++ back) a (k + 1) := by
  have large := configured.large (least.trans (Nat.le_succ k))
  have head := @made_head a (mmpi.unlinked gone) (2 ^ (k + 1)) large
  refine ⟨holds, by simp, ?_, ?_, made_tail⟩
  · rw [MmpoolImpl.joined, head]
  · rw [MmpoolImpl.joined, MmpoolImpl.size, head]

/-- The upper half stands right behind the lower one. -/
theorem behind (loose : Loose mmpi blocks a k) (configured : Configured mmpi) (inside : a + 2 ^ k ∈ blocks) :
    ∃ front back, blocks = front ++ [a, a + 2 ^ k] ++ back := by
  have span : mmpi.sizeIn a (2 ^ k) a = 2 ^ k := if_pos rfl
  rcases loose.holds.tiled.next loose.member with last | ⟨front, later, back, row, behind⟩
  · have bounds := loose.holds.bounds configured inside
    have positive := (loose.holds.tiled.bounds inside).2.1
    rw [span, id_eq] at last
    omega
  · rw [span, id_eq, id_eq] at behind
    exact ⟨front, back, behind ▸ row⟩

/-- Behind the start of the chunk, a block ends where this one starts. -/
theorem prior (loose : Loose mmpi blocks a k) (later : a ≠ mmpi.chunkAddr) :
    ∃ b ∈ blocks, b + mmpi.size b = a ∧ b ≠ a := by
  rcases loose.holds.tiled.previous loose.member with first | ⟨front, b, back, row, ends⟩
  · exact absurd first later
  · have inside : b ∈ blocks := by simp [row]
    have positive := (loose.holds.tiled.bounds inside).2.1
    simp only [id_eq] at ends
    have other : b ≠ a := by omega
    rw [Holds.size_in other] at ends
    exact ⟨b, inside, ends, other⟩

/-- The lower half stands right before the upper one. -/
theorem before (loose : Loose mmpi blocks a k) (inside : b ∈ blocks)
    (ends : b + mmpi.size b = a) (other : b ≠ a) : ∃ front back, blocks = front ++ [b, a] ++ back := by
  have span : mmpi.sizeIn a (2 ^ k) b = mmpi.size b := if_neg other
  rcases loose.holds.tiled.next inside with last | ⟨front, later, back, row, behind⟩
  · have positive := (loose.holds.tiled.bounds loose.member).2
    rw [span, id_eq] at last
    simp only [id_eq] at positive
    omega
  · rw [span, id_eq, id_eq, ends] at behind
    exact ⟨front, back, behind ▸ row⟩

/-- One round joins the block with its free buddy, or it ends the loop. -/
theorem round (loose : Loose mmpi blocks a k) (configured : Configured mmpi) (less : k < mmpi.maxBlockOrder)
    (guard : a = mmpi.chunkAddr → ¬ mmpi.IsFree blocks (mmpi.buddy a k) k →
      (mmpi.word (mmpi.chunkAddr - headSize)).high = 0 ∧ (mmpi.head a).flnIdx < mmpi.flnCount ∧
        mmpi.freeBlocks k = []) (rounds : Nat) :
    (mmpi.IsFree blocks (mmpi.buddy a k) k ∧ ∃ fewer,
      mmpi.mergeLoop (rounds + 1) a = (mmpi.joined (mmpi.enclosed a (k + 1)) (mmpi.buddy a k) (k + 1)).mergeLoop
        rounds (mmpi.enclosed a (k + 1)) ∧
      Loose (mmpi.joined (mmpi.enclosed a (k + 1)) (mmpi.buddy a k) (k + 1)) fewer (mmpi.enclosed a (k + 1)) (k + 1) ∧
      ∀ c, c ∈ fewer ↔ c = mmpi.enclosed a (k + 1) ∨ c ∈ blocks ∧ c ≠ a ∧ c ≠ mmpi.buddy a k) ∨
    ¬ mmpi.IsFree blocks (mmpi.buddy a k) k ∧ mmpi.mergeLoop (rounds + 1) a = some (mmpi, a) := by
  obtain ⟨least, most, aligned, start, stop, small⟩ := loose.shape configured
  have positive := Nat.two_pow_pos k
  have growing : (mmpi.head a).blockSize < blockSize mmpi.maxBlockOrder := by
    rw [configured.max_eq, show (mmpi.head a).blockSize = 2 ^ k from loose.size]
    exact Nat.pow_lt_pow_right (by decide) less
  have self := enclosing_self aligned
  have real := loose.holds.real configured loose.member
  rcases sides k (a - mmpi.chunkAddr) with ⟨parent, lower⟩ | ⟨parent, upper⟩
  · rw [self] at parent lower
    have whole : mmpi.enclosed a (k + 1) = a := by
      rw [MmpoolImpl.enclosed]
      omega
    have half : mmpi.buddy a k = a + 2 ^ k := by
      rw [MmpoolImpl.buddy]
      omega
    rw [whole, half]
    by_cases free : mmpi.IsFree blocks (a + 2 ^ k) k
    · obtain ⟨front, back, rfl⟩ := loose.behind configured free.1
      have joined := join_holds loose.holds configured (Or.inl ⟨rfl, rfl⟩) free.2.1 free.2.2 less
        (parent ▸ enclosing_aligned _ _)
      refine Or.inl ⟨free, _, mergeLoop_next growing (loose.next_joins configured lower free) real,
        joined_loose configured least joined, fun c => ?_⟩
      exact mem_join loose.holds.nodup (Or.inl ⟨rfl, rfl⟩)
    · refine Or.inr ⟨free, mergeLoop_stop growing
        (loose.next_single (loose.upper_mem configured less parent) free) ?_⟩
      by_cases first : a = mmpi.chunkAddr
      · obtain ⟨before, counted, empty⟩ := guard first (half ▸ free)
        exact loose.prev_self configured first before counted empty
      · obtain ⟨b, inside, ends, other⟩ := loose.prior first
        exact loose.prev_apart configured inside ends other (half ▸ free)
  · rw [self] at upper
    have whole : mmpi.enclosed a (k + 1) = mmpi.buddy a k := by
      rw [MmpoolImpl.enclosed, parent, MmpoolImpl.buddy]
    have ends : mmpi.buddy a k + 2 ^ k = a := by
      rw [MmpoolImpl.buddy]
      omega
    have realB : mmpi.buddy a k ≠ 0 := by
      have above := configured.real
      rw [MmpoolImpl.buddy]
      simp only [headSize] at above
      omega
    have apart := loose.next_apart configured upper
    rw [whole]
    by_cases free : mmpi.IsFree blocks (mmpi.buddy a k) k
    · have merged := loose.prev_joins configured upper ends free
      have aligned : (mmpi.buddy a k - mmpi.chunkAddr) % 2 ^ (k + 1) = 0 := by
        rw [MmpoolImpl.buddy, Nat.add_sub_cancel_left, ← parent]
        exact enclosing_aligned _ _
      obtain ⟨front, back, row⟩ := loose.before free.1 (by rw [free.2.2]; exact ends) (by omega)
      have holds := loose.holds
      have members (c : Nat) : c ∈ front ++ [mmpi.buddy a k] ++ back ↔
          c = mmpi.buddy a k ∨ c ∈ blocks ∧ c ≠ a ∧ c ≠ mmpi.buddy a k := by
        rw [row]
        exact mem_join (row ▸ holds.nodup) (Or.inr ⟨rfl, rfl⟩)
      rw [row, show front ++ [mmpi.buddy a k, a] ++ back =
        front ++ [mmpi.buddy a k, mmpi.buddy a k + 2 ^ k] ++ back by rw [ends]] at holds
      have joined := join_holds holds configured (Or.inr ⟨ends.symm, rfl⟩) free.2.1 free.2.2 less aligned
      exact Or.inl ⟨free, _, mergeLoop_prev growing apart merged realB,
        joined_loose configured least joined, members⟩
    · obtain ⟨b, inside, here, other⟩ := loose.prior (by omega)
      exact Or.inr ⟨free, mergeLoop_stop growing apart (loose.prev_apart configured inside here other free)⟩

end Loose

/-- The free buddies of the orders from `k` to `m` have joined the block. -/
structure Merged (origin : MmpoolImpl) (blocks : List Nat) (a k m : Nat) (mmpi : MmpoolImpl)
    (fewer : List Nat) : Prop where
  low : k ≤ m
  kept : origin.Kept mmpi
  loose : Loose mmpi fewer (origin.enclosed a m) m
  within : origin.Within mmpi (origin.enclosed a m) (origin.enclosed a m + 2 ^ m)
  members : ∀ c, c ∈ fewer ↔ c = origin.enclosed a m ∨
    c ∈ blocks ∧ (c + origin.size c ≤ origin.enclosed a m ∨ origin.enclosed a m + 2 ^ m ≤ c)
  chain : ∀ o, k ≤ o → o < m → origin.IsFree blocks (origin.buddy a o) o
  index : (origin.head a).flnIdx = 0 → (mmpi.head (origin.enclosed a m)).flnIdx = 0
  lists : ∀ o, m ≤ o → mmpi.freeBlocks o = origin.freeBlocks o
  spare : origin.lists .freeFln <:+ mmpi.lists .freeFln
  linked : ∀ n, mmpi.Linked n ↔ origin.Linked n

/-- A list keeps its blocks when a block of another order leaves. -/
theorem unlinked_other (listed : Listed live mmpi) (inside : live a) (unused : (mmpi.head a).flag = 0)
    (size : mmpi.size a = 2 ^ k) (least : mmpi.minBlockOrder ≤ k) (above : k < o) :
    (mmpi.unlinked a).freeBlocks o = mmpi.freeBlocks o := by
  have linked := listed.mem inside unused
  rw [size, Nat.log2_two_pow] at linked
  rw [unlinked_freeBlocks listed.apart, List.erase_of_not_mem]
  · rfl
  · intro again
    have same := listed.apart.unique linked again
    rw [FlnList.flh.injEq] at same
    omega

namespace Merged

variable {origin : MmpoolImpl} {fewer : List Nat}

theorem buddy_enclosed (kept : origin.Kept mmpi) : mmpi.buddy (origin.enclosed a m) m = origin.buddy a m := by
  have chunk : mmpi.chunkAddr = origin.chunkAddr := by rw [kept]
  rw [MmpoolImpl.buddy, MmpoolImpl.buddy, MmpoolImpl.enclosed, chunk, Nat.add_sub_cancel_left, sibling_enclosing]

theorem enclosed_enclosed (kept : origin.Kept mmpi) :
    mmpi.enclosed (origin.enclosed a m) (m + 1) = origin.enclosed a (m + 1) := by
  have chunk : mmpi.chunkAddr = origin.chunkAddr := by rw [kept]
  rw [MmpoolImpl.enclosed, MmpoolImpl.enclosed, MmpoolImpl.enclosed, chunk, Nat.add_sub_cancel_left,
    enclosing_enclosing (Nat.le_succ m)]

/-- The range of an order and its buddy are the halves of the range of the next one. -/
theorem halves (mmpi : MmpoolImpl) (a m : Nat) :
    mmpi.enclosed a (m + 1) = mmpi.enclosed a m ∧ mmpi.buddy a m = mmpi.enclosed a m + 2 ^ m ∨
      mmpi.enclosed a (m + 1) = mmpi.buddy a m ∧ mmpi.enclosed a m = mmpi.buddy a m + 2 ^ m := by
  simp only [MmpoolImpl.enclosed, MmpoolImpl.buddy]
  rcases sides m (a - mmpi.chunkAddr) with ⟨same, lower⟩ | ⟨same, upper⟩ <;> omega

/-- What the loop reads of the buddy is what the pool said before. -/
theorem isFree_iff (merged : Merged origin blocks a k m mmpi fewer) :
    mmpi.IsFree fewer (mmpi.buddy (origin.enclosed a m) m) m ↔ origin.IsFree blocks (origin.buddy a m) m := by
  have positive := Nat.two_pow_pos m
  have apart := halves origin a m
  have head : mmpi.head (origin.buddy a m) = origin.head (origin.buddy a m) :=
    head_congr (merged.within _ (by omega))
  rw [buddy_enclosed merged.kept, MmpoolImpl.IsFree, MmpoolImpl.IsFree, merged.members, MmpoolImpl.size,
    MmpoolImpl.size, head]
  constructor
  · rintro ⟨equal | ⟨inside, -⟩, rest⟩
    · omega
    · exact ⟨inside, rest⟩
  · rintro ⟨inside, unused, size⟩
    exact ⟨Or.inr ⟨inside, by omega⟩, unused, size⟩

/-- The blocks outside of the larger range are those outside of both halves. -/
theorem outside_iff (holds : Holds True 0 0 origin blocks) (configured : Configured origin)
    (free : origin.IsFree blocks (origin.buddy a m) m) :
    (c = origin.enclosed a m ∨ c ∈ blocks ∧
        (c + origin.size c ≤ origin.enclosed a m ∨ origin.enclosed a m + 2 ^ m ≤ c)) ∧
      c ≠ origin.enclosed a m ∧ c ≠ origin.buddy a m ↔
    c ∈ blocks ∧ (c + origin.size c ≤ origin.enclosed a (m + 1) ∨
      origin.enclosed a (m + 1) + 2 ^ (m + 1) ≤ c) := by
  have positive := Nat.two_pow_pos m
  have double : 2 ^ (m + 1) = 2 ^ m + 2 ^ m := by omega
  have apart := halves origin a m
  obtain ⟨insideB, -, size⟩ := free
  constructor
  · rintro ⟨same | ⟨inside, outside⟩, notHere, notBuddy⟩
    · exact absurd same notHere
    · have disjoint := holds.tiled.disjoint inside insideB notBuddy
      have positiveC := (holds.tiled.bounds inside).2.1
      rw [Holds.size_in (holds.real configured inside)] at disjoint positiveC
      rw [Holds.size_in (holds.real configured insideB), size] at disjoint
      simp only [id_eq] at disjoint
      exact ⟨inside, by omega⟩
  · rintro ⟨inside, outside⟩
    have positiveC := (holds.tiled.bounds inside).2.1
    rw [Holds.size_in (holds.real configured inside)] at positiveC
    exact ⟨Or.inr ⟨inside, by omega⟩, by omega, by omega⟩

/-- A round that joins the buddy goes one order up. -/
theorem step (merged : Merged origin blocks a k m mmpi fewer) (configured : Configured origin)
    (holds : Holds True 0 0 origin blocks) (free : origin.IsFree blocks (origin.buddy a m) m) {rest : List Nat}
    (loose : Loose (mmpi.joined (origin.enclosed a (m + 1)) (origin.buddy a m) (m + 1)) rest
      (origin.enclosed a (m + 1)) (m + 1))
    (members : ∀ c, c ∈ rest ↔ c = origin.enclosed a (m + 1) ∨
      c ∈ fewer ∧ c ≠ origin.enclosed a m ∧ c ≠ origin.buddy a m) :
    Merged origin blocks a k (m + 1) (mmpi.joined (origin.enclosed a (m + 1)) (origin.buddy a m) (m + 1)) rest := by
  have positive := Nat.two_pow_pos m
  have double : 2 ^ (m + 1) = 2 ^ m + 2 ^ m := by omega
  have apart := halves origin a m
  obtain ⟨least, most, -⟩ := merged.loose.shape (configured.kept merged.kept)
  have large := (configured.kept merged.kept).large (least.trans (Nat.le_succ m))
  have joinKept := @joined_kept mmpi (origin.enclosed a (m + 1)) (origin.buddy a m) (m + 1)
  have joinWithin : mmpi.Within (mmpi.joined (origin.enclosed a (m + 1)) (origin.buddy a m) (m + 1))
      (origin.enclosed a (m + 1)) (origin.enclosed a (m + 1) + 2 ^ (m + 1)) :=
    joined_within positive large (by omega)
  have freeNow := merged.isFree_iff.mpr free
  rw [buddy_enclosed merged.kept] at freeNow
  obtain ⟨insideNow, unusedNow, sizeNow⟩ := freeNow
  have live : origin.buddy a m ∈ fewer ∧ origin.buddy a m ≠ origin.enclosed a m := ⟨insideNow, by omega⟩
  refine ⟨merged.low.trans (Nat.le_succ m), merged.kept.trans joinKept, loose, ?_, ?_, ?_, ?_, ?_, ?_, ?_⟩
  · intro x outside
    exact (joinWithin x outside).trans (merged.within x (by omega))
  · intro c
    rw [members, merged.members, outside_iff holds configured free]
  · intro o above below
    by_cases top : o = m
    · exact top ▸ free
    · exact merged.chain o above (by omega)
  · intro zero
    have head := @made_head (origin.enclosed a (m + 1)) (mmpi.unlinked (origin.buddy a m)) (2 ^ (m + 1)) large
    rw [MmpoolImpl.joined, head]
    rcases apart with ⟨same, other⟩ | ⟨same, other⟩
    · rw [same, head_congr (unlinked_word (by omega))]
      exact merged.index zero
    · rw [same, unlinked_head]
  · intro o above
    rw [← merged.lists o (by omega)]
    exact unlinked_other merged.loose.holds.listed live unusedNow sizeNow least above
  · have pushed := unlinked_spare merged.loose.holds.listed live unusedNow
    exact merged.spare.trans (pushed ▸ List.suffix_cons _ _)
  · intro n
    exact (unlinked_linked merged.loose.holds.listed live unusedNow).trans (merged.linked n)

end Merged

end Syslib.Mmpool
