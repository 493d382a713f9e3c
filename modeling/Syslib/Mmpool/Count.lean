import Syslib.Mmpool.Free

namespace Syslib.Mmpool

open IntrusiveLists Tiling Buddies

variable {a b i j k o x : Nat} {mmpi next : MmpoolImpl} {blocks pieces : List Nat}

/-- Every descriptor is in a list, and the words that the first block and the used blocks show are clear. -/
structure Sound (mmpi : MmpoolImpl) (blocks : List Nat) : Prop where
  configured : Configured mmpi
  holds : Holds True 0 0 mmpi blocks
  unpaired : mmpi.Unpaired blocks
  linked : ∀ i, i < mmpi.flnCount → mmpi.Linked i
  before : (mmpi.word (mmpi.chunkAddr - headSize)).high = 0
  clear : ∀ a ∈ blocks, (mmpi.head a).flag ≠ 0 → (mmpi.head a).flnIdx = 0

namespace MmpoolImpl

def freeSet (mmpi : MmpoolImpl) (blocks : List Nat) : Finset Nat :=
  blocks.toFinset.filter fun a => (mmpi.head a).flag = 0

/-- The positions of the free blocks in the chunk. -/
def spots (mmpi : MmpoolImpl) (blocks : List Nat) : Finset Nat :=
  (mmpi.freeSet blocks).image (· - mmpi.chunkAddr)

/-- The chunk has so many blocks of the largest size. -/
def largestCount (mmpi : MmpoolImpl) : Nat := mmpi.chunkSize / 2 ^ mmpi.maxBlockOrder

/-- A split may need all the descriptors that are not with the free half of each smallest pair, or it may
cut one of the largest blocks down while all the others are free. -/
def Supplied (mmpi : MmpoolImpl) : Prop :=
  mmpi.chunkSize = 0 ∨
    mmpi.largestCount * 2 ^ (mmpi.maxBlockOrder - mmpi.minBlockOrder - 1) + 1 ≤ mmpi.flnCount ∧
      mmpi.largestCount + (mmpi.maxBlockOrder - mmpi.minBlockOrder) + 1 ≤ mmpi.flnCount

instance Supplied.decidable : Decidable mmpi.Supplied := inferInstanceAs (Decidable (_ ∨ _))

end MmpoolImpl

theorem mem_freeSet : a ∈ mmpi.freeSet blocks ↔ a ∈ blocks ∧ (mmpi.head a).flag = 0 := by
  rw [MmpoolImpl.freeSet, Finset.mem_filter, List.mem_toFinset]

namespace Sound

variable (sound : Sound mmpi blocks)

include sound

/-- A descriptor that is not unused belongs to one free block. -/
theorem flnCount_le : mmpi.flnCount ≤ (mmpi.lists .freeFln).length + (mmpi.freeSet blocks).card := by
  have bound : (Finset.range mmpi.flnCount \ (mmpi.lists .freeFln).toFinset).card ≤ (mmpi.freeSet blocks).card := by
    have busy {i : Nat} (inside : i ∈ Finset.range mmpi.flnCount \ (mmpi.lists .freeFln).toFinset) :
        ∃ idx, i ∈ mmpi.lists (.flh idx) := by
      obtain ⟨small, spare⟩ := Finset.mem_sdiff.mp inside
      obtain ⟨place, linked⟩ := sound.linked i (Finset.mem_range.mp small)
      cases place with
      | freeFln => exact absurd (List.mem_toFinset.mpr linked) spare
      | flh idx => exact ⟨idx, linked⟩
    refine Finset.card_le_card_of_injOn mmpi.block ?_ ?_
    · intro i inside
      obtain ⟨idx, linked⟩ := busy inside
      obtain ⟨live, unused, -⟩ := sound.holds.listed.free.mp linked
      exact mem_freeSet.mpr ⟨live.1, unused⟩
    · intro first inFirst second inSecond same
      obtain ⟨idxFirst, linkedFirst⟩ := busy inFirst
      obtain ⟨idxSecond, linkedSecond⟩ := busy inSecond
      rw [← (sound.holds.listed.free.mp linkedFirst).2.2.1, ← (sound.holds.listed.free.mp linkedSecond).2.2.1, same]
  have parts := Finset.le_card_sdiff (mmpi.lists .freeFln).toFinset (Finset.range mmpi.flnCount)
  have spare := List.toFinset_card_le (mmpi.lists .freeFln)
  rw [Finset.card_range] at parts
  omega

/-- A free block has an order, and its list has it. -/
theorem order (inside : a ∈ mmpi.freeSet blocks) : ∃ o, mmpi.IsFree blocks a o ∧ mmpi.minBlockOrder ≤ o ∧
    o ≤ mmpi.maxBlockOrder ∧ (a - mmpi.chunkAddr) % 2 ^ o = 0 := by
  obtain ⟨member, unused⟩ := mem_freeSet.mp inside
  obtain ⟨o, least, most, size, aligned⟩ := sound.holds.shaped a member
  rw [Holds.size_in (sound.holds.real sound.configured member)] at size
  exact ⟨o, ⟨member, unused, size⟩, least, most, aligned⟩

theorem offset (inside : a ∈ mmpi.freeSet blocks) : a - mmpi.chunkAddr + mmpi.chunkAddr = a :=
  Nat.sub_add_cancel (sound.holds.bounds sound.configured (mem_freeSet.mp inside).1).1

/-- What the position of a free block in the chunk says. -/
theorem spot (inside : x ∈ mmpi.spots blocks) : ∃ o, mmpi.IsFree blocks (x + mmpi.chunkAddr) o ∧
    mmpi.minBlockOrder ≤ o ∧ o ≤ mmpi.maxBlockOrder ∧ x % 2 ^ o = 0 ∧
    Nat.log2 (mmpi.size (x + mmpi.chunkAddr)) = o := by
  obtain ⟨a, free, rfl⟩ := Finset.mem_image.mp inside
  obtain ⟨o, isFree, least, most, aligned⟩ := sound.order free
  rw [sound.offset free]
  exact ⟨o, isFree, least, most, aligned, by rw [isFree.2.2, Nat.log2_two_pow]⟩

theorem card_spots : (mmpi.spots blocks).card = (mmpi.freeSet blocks).card := by
  refine Finset.card_image_of_injOn fun a inA b inB same => ?_
  rw [← sound.offset inA, ← sound.offset inB]
  exact congrArg (· + mmpi.chunkAddr) same

/-- The free blocks of the orders from `b` on, seen from the start of the chunk. -/
theorem sparse (least : mmpi.minBlockOrder ≤ b) (less : b < mmpi.maxBlockOrder)
    (none_ : ∀ o, mmpi.minBlockOrder ≤ o → o < b → mmpi.freeBlocks o = []) :
    Sparse (mmpi.spots blocks) (fun x => Nat.log2 (mmpi.size (x + mmpi.chunkAddr))) b
      (mmpi.largestCount * 2 ^ (mmpi.maxBlockOrder - b - 1)) := by
  have total : mmpi.largestCount * 2 ^ (mmpi.maxBlockOrder - b - 1) * 2 ^ (b + 1) = mmpi.chunkSize := by
    rw [Nat.mul_assoc, ← Nat.pow_add, show mmpi.maxBlockOrder - b - 1 + (b + 1) = mmpi.maxBlockOrder by omega]
    exact Nat.div_mul_cancel (Nat.dvd_of_mod_eq_zero sound.configured.whole)
  have sized {a : Nat} (inside : a ∈ blocks) : mmpi.sizeIn 0 0 a = mmpi.size a :=
    Holds.size_in (sound.holds.real sound.configured inside)
  have limit : mmpi.limit = mmpi.chunkAddr + mmpi.chunkSize := rfl
  refine ⟨fun x inX => ?_, fun x inX => ?_, fun x inX => ?_, fun x inX y inY other => ?_, fun x inX same inY => ?_⟩
  · obtain ⟨o, free, low, -, -, order⟩ := sound.spot inX
    rw [order]
    by_contra smaller
    have listed := (sound.holds.mem_freeBlocks sound.configured low).mpr free
    rw [none_ o low (by omega)] at listed
    exact List.not_mem_nil listed
  · obtain ⟨o, -, -, -, aligned, order⟩ := sound.spot inX
    exact order.symm ▸ aligned
  · obtain ⟨o, free, -, -, -, order⟩ := sound.spot inX
    have bounds := (sound.holds.bounds sound.configured free.1).2.2
    rw [sized free.1, free.2.2] at bounds
    rw [order, total]
    omega
  · obtain ⟨o, freeX, -, -, -, orderX⟩ := sound.spot inX
    obtain ⟨q, freeY, -, -, -, orderY⟩ := sound.spot inY
    have apart := sound.holds.tiled.disjoint freeX.1 freeY.1 (by omega)
    rw [sized freeX.1, sized freeY.1, freeX.2.2, freeY.2.2] at apart
    rw [orderX, orderY]
    simp only [id_eq] at apart
    omega
  · obtain ⟨o, freeX, -, -, -, orderX⟩ := sound.spot inX
    obtain ⟨q, freeY, -, -, -, orderY⟩ := sound.spot inY
    obtain rfl : o = b := orderX.symm.trans same
    rw [orderY]
    rintro rfl
    refine sound.unpaired _ q less freeX ?_
    rw [MmpoolImpl.buddy, Nat.add_sub_cancel, Nat.add_comm]
    exact freeY

/-- A list of free blocks has a member of its order among the positions. -/
theorem spot_of (least : mmpi.minBlockOrder ≤ j) (filled : mmpi.freeBlocks j ≠ []) :
    ∃ x ∈ mmpi.spots blocks, Nat.log2 (mmpi.size (x + mmpi.chunkAddr)) = j := by
  obtain ⟨a, listed⟩ := List.exists_mem_of_ne_nil _ filled
  obtain ⟨member, unused, size⟩ := (sound.holds.mem_freeBlocks sound.configured least).mp listed
  have free : a ∈ mmpi.freeSet blocks := mem_freeSet.mpr ⟨member, unused⟩
  refine ⟨a - mmpi.chunkAddr, Finset.mem_image_of_mem _ free, ?_⟩
  rw [sound.offset free, size, Nat.log2_two_pow]

/-- A chunk with a block has one of the largest size. -/
theorem largestCount_pos (member : a ∈ blocks) : 1 ≤ mmpi.largestCount := by
  have bounds := sound.holds.bounds sound.configured member
  have limit : mmpi.limit = mmpi.chunkAddr + mmpi.chunkSize := rfl
  rw [headTailSize] at bounds
  have room := Nat.le_of_dvd (by omega : 0 < mmpi.chunkSize) (Nat.dvd_of_mod_eq_zero sound.configured.whole)
  exact Nat.div_pos room (Nat.two_pow_pos _)

/-- With a block in the chunk both bounds hold. -/
theorem bounds (supplied : mmpi.Supplied) (member : a ∈ blocks) :
    mmpi.largestCount * 2 ^ (mmpi.maxBlockOrder - mmpi.minBlockOrder - 1) + 1 ≤ mmpi.flnCount ∧
      mmpi.largestCount + (mmpi.maxBlockOrder - mmpi.minBlockOrder) + 1 ≤ mmpi.flnCount := by
  refine supplied.resolve_left fun empty => ?_
  have some_ := sound.largestCount_pos member
  rw [MmpoolImpl.largestCount, empty, Nat.zero_div] at some_
  omega

/-- A block of the largest size is cut down to the smallest one. -/
theorem supply_largest (supplied : mmpi.largestCount + (mmpi.maxBlockOrder - mmpi.minBlockOrder) + 1 ≤ mmpi.flnCount)
    (filled : mmpi.freeBlocks mmpi.maxBlockOrder ≠ [])
    (none_ : ∀ o, mmpi.minBlockOrder ≤ o → o < mmpi.maxBlockOrder → mmpi.freeBlocks o = []) :
    mmpi.maxBlockOrder - mmpi.minBlockOrder < (mmpi.lists .freeFln).length := by
  have counted := sound.flnCount_le
  have larger := sound.configured.larger
  obtain ⟨x, inX, order⟩ := sound.spot_of larger.le filled
  have few := (sound.sparse (by omega : mmpi.minBlockOrder ≤ mmpi.maxBlockOrder - 1) (by omega)
    fun o low high => none_ o low (by omega)).card_add_le inX (by omega)
  rw [order, sound.card_spots, show mmpi.maxBlockOrder - (mmpi.maxBlockOrder - 1) - 1 = 0 by omega, pow_zero] at few
  omega

/-- Every other block that is cut down to the smallest size leaves the other halves of the pairs alone. -/
theorem supply_smallest (supplied : mmpi.largestCount * 2 ^ (mmpi.maxBlockOrder - mmpi.minBlockOrder - 1) + 1 ≤
      mmpi.flnCount) (some_ : 1 ≤ mmpi.largestCount) (low : mmpi.minBlockOrder < j) (less : j < mmpi.maxBlockOrder)
    (none_ : ∀ o, mmpi.minBlockOrder ≤ o → o < j → mmpi.freeBlocks o = []) :
    j - mmpi.minBlockOrder < (mmpi.lists .freeFln).length := by
  have counted := sound.flnCount_le
  have few := (sound.sparse low.le less none_).card_le
  rw [sound.card_spots] at few
  have pairs : mmpi.largestCount * 2 ^ (mmpi.maxBlockOrder - mmpi.minBlockOrder - 1) =
      mmpi.largestCount * 2 ^ (mmpi.maxBlockOrder - j - 1) * 2 ^ (j - mmpi.minBlockOrder) := by
    rw [Nat.mul_assoc, ← Nat.pow_add]
    congr 2
    omega
  have positive : 1 ≤ mmpi.largestCount * 2 ^ (mmpi.maxBlockOrder - j - 1) :=
    Nat.mul_pos some_ (Nat.two_pow_pos _)
  have deep : j - mmpi.minBlockOrder < 2 ^ (j - mmpi.minBlockOrder) := Nat.lt_two_pow_self
  obtain ⟨rest, whole⟩ : ∃ rest, 2 ^ (j - mmpi.minBlockOrder) = rest + 1 := ⟨_, (Nat.sub_add_cancel (by omega)).symm⟩
  have more := Nat.le_mul_of_pos_left rest positive
  rw [pairs, whole, Nat.mul_succ] at supplied
  omega

/-- A block that is cut down to a larger size takes the place of many pairs. -/
theorem supply_middle (supplied : mmpi.largestCount * 2 ^ (mmpi.maxBlockOrder - mmpi.minBlockOrder - 1) + 1 ≤
      mmpi.flnCount) (low : mmpi.minBlockOrder < k) (less : k < j) (filled : mmpi.freeBlocks j ≠ []) :
    j - k < (mmpi.lists .freeFln).length := by
  have counted := sound.flnCount_le
  have larger := sound.configured.larger
  obtain ⟨x, inX, order⟩ := sound.spot_of (by omega) filled
  have few := (sound.sparse le_rfl larger fun o least less => absurd less (Nat.not_lt.mpr least)).card_add_le inX
    (by omega)
  rw [order, sound.card_spots] at few
  have deep : j - mmpi.minBlockOrder - 1 < 2 ^ (j - mmpi.minBlockOrder - 1) := Nat.lt_two_pow_self
  omega

/-- Every split finds its descriptors. -/
theorem supply (supplied : mmpi.Supplied) (least : mmpi.minBlockOrder ≤ k) (less : k < j)
    (most : j ≤ mmpi.maxBlockOrder) (filled : mmpi.freeBlocks j ≠ [])
    (none_ : ∀ o, k ≤ o → o < j → mmpi.freeBlocks o = []) : j - k < (mmpi.lists .freeFln).length := by
  obtain ⟨a, listed⟩ := List.exists_mem_of_ne_nil _ filled
  have member := ((sound.holds.mem_freeBlocks sound.configured (least.trans less.le)).mp listed).1
  obtain ⟨pairs, largest⟩ := sound.bounds supplied member
  by_cases smallest : k = mmpi.minBlockOrder
  · subst smallest
    by_cases top : j = mmpi.maxBlockOrder
    · subst top
      exact sound.supply_largest largest filled none_
    · exact sound.supply_smallest pairs (sound.largestCount_pos member) less (by omega) none_
  · exact sound.supply_middle pairs (by omega) less filled

/-- A used block finds a descriptor when it comes back. -/
theorem spare_ne (supplied : mmpi.Supplied) (member : a ∈ blocks) : mmpi.lists .freeFln ≠ [] := by
  intro empty
  have counted := sound.flnCount_le
  have pairs := (sound.bounds supplied member).1
  have few := (sound.sparse le_rfl sound.configured.larger fun o least less => absurd less (Nat.not_lt.mpr least)).card_le
  rw [sound.card_spots] at few
  rw [empty, List.length_nil] at counted
  omega

end Sound

end Syslib.Mmpool
