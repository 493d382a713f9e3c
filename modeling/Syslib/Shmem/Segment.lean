import Syslib.Ipc.Channel
import Syslib.Misc

namespace Syslib.Shmem

open Mmspace

/-- This is `struct _shmm_blk_impl` without the tree node and the list node. -/
structure ShmmBlkImpl where
  shmmTag : Nat
  addrBeginOffset : Nat
  addrEndOffset : Nat
  theKey : Int
  fd : Int
  deriving DecidableEq, Repr

/-- The page size that goes into the flags of `shmget`. -/
inductive HugePage where
  | small
  | mb2
  | gb1
  deriving DecidableEq, Repr

/-- A segment that `shmget` makes and `shmat` attaches. -/
structure Attached where
  fd : Int
  retAddr : Nat
  length : Nat
  deriving DecidableEq, Repr

/-- The kernel answers for the key, the size, the page size and the wanted address. -/
abbrev Kernel := Int → Nat → HugePage → Nat → Option Attached

def shmmMidPageThreshold : Nat := 2 ^ 18

def shmmHugePageThreshold : Nat := 2 ^ 28

/-- This is `SHMM_TAG`. -/
def shmmTagWord : Nat := 0x1234567890abcdef

def shmPageSize : Nat := 2 ^ 12

/-- The size of `struct _shmm_blk_impl`. -/
def blkImplSize : Nat := 80

/-- This is `_conv_blk`. -/
def convBlk (blk : Nat) : Nat := (blk + 2 ^ 64 - Ipc.theBlkOffset) % 2 ^ 64

def hugePageFor (size : Nat) (tryHugePage : Bool) : HugePage :=
  if tryHugePage then
    if shmmMidPageThreshold < size then
      if size ≤ shmmHugePageThreshold then .mb2 else .gb1
    else .small
  else .small

/-- The rounding of an address is the rounding of a number. -/
def movePtrRoundup (ptr offset align : Nat) : Nat := roundUp (ptr + offset) align

/-- The size of the segment has one page more than the rounded size, and the sum may wrap around. -/
def segmentSize (size : Nat) : Nat := (roundUp size shmPageSize + shmPageSize) % 2 ^ 64

/-- The head is written to the start of the segment, and the result is the block inside of it.
    In the test of the address the comparison binds before the mask. -/
def shmmCreate (kernel : Kernel) (heads : Nat → ShmmBlkImpl) (key : Int) (atAddr size : Nat)
    (tryHugePage : Bool) : Option ((Nat → ShmmBlkImpl) × Nat) :=
  if key ≤ 0 ∨ size = 0 then none
  else if atAddr % 2 ≠ 0 then none
  else do
    let segment ← kernel key (segmentSize size) (hugePageFor size tryHugePage) atAddr
    let addrBegin := movePtrRoundup segment.retAddr blkImplSize shmPageSize
    let sbi : ShmmBlkImpl :=
      { shmmTag := shmmTagWord
        addrBeginOffset := addrBegin - segment.retAddr
        addrEndOffset := segmentSize size
        theKey := key
        fd := segment.fd }
    some (Function.update heads segment.retAddr sbi, segment.retAddr + Ipc.theBlkOffset)

/-- The offsets are added to the address of the block. -/
def shmmBeginAddr (heads : Nat → ShmmBlkImpl) (shm : Nat) : Nat :=
  if shm = 0 then 0 else shm + (heads (convBlk shm)).addrBeginOffset

def shmmEndAddr (heads : Nat → ShmmBlkImpl) (shm : Nat) : Nat :=
  if shm = 0 then 0 else shm + (heads (convBlk shm)).addrEndOffset

/-- The result pairs the return value with the address given to `shmdt`. -/
def shmmClose (heads : Nat → ShmmBlkImpl) (shm : Nat) : Int × Option Nat :=
  let sbi := heads (convBlk shm)
  if sbi.addrBeginOffset = 0 ∨ sbi.addrEndOffset = 0 then (-1, none)
  else if sbi.shmmTag ≠ shmmTagWord then (-1, none)
  else (0, some shm)

/-- The size of `struct _mm_section_impl`, which stands in front of the allocator. -/
def sectionSize : Nat := 16

/-- A segment lies at a page boundary in the lower half of the addresses and is not empty. -/
structure Attached.Lawful (segment : Attached) : Prop where
  aligned : segment.retAddr % shmPageSize = 0
  inside : segment.retAddr + segment.length ≤ 2 ^ 63
  nonempty : 0 < segment.length

/-- A kernel attaches at least as many bytes as were asked for; huge pages may give more. -/
def Kernel.Lawful (kernel : Kernel) : Prop :=
  ∀ key size huge atAddr, ∀ segment ∈ kernel key size huge atAddr,
    segment.Lawful ∧ size ≤ segment.length

/-- The range of the block lies inside the segment. -/
def RangeInside (heads : Nat → ShmmBlkImpl) (shm : Nat) (segment : Attached) : Prop :=
  segment.retAddr ≤ shmmBeginAddr heads shm ∧
    shmmEndAddr heads shm ≤ segment.retAddr + segment.length

/-- The memory of the allocator starts behind the head of the section. -/
def AllocatorInside (heads : Nat → ShmmBlkImpl) (shm totalSize : Nat) (segment : Attached) : Prop :=
  segment.retAddr ≤ shmmBeginAddr heads shm + sectionSize ∧
    shmmBeginAddr heads shm + sectionSize + totalSize ≤ segment.retAddr + segment.length

/-- The ranges lie inside the segment, and the close detaches what was attached. -/
structure Keeps (heads : Nat → ShmmBlkImpl) (shm totalSize : Nat) (segment : Attached) : Prop where
  range : RangeInside heads shm segment
  closes : (shmmClose heads shm).2 = some segment.retAddr
  allocator : AllocatorInside heads shm totalSize segment

variable {kernel : Kernel} {heads made : Nat → ShmmBlkImpl} {key : Int} {atAddr size shm : Nat}
  {tryHugePage : Bool} {segment : Attached}

theorem convBlk_add {ret : Nat} (inside : ret + 8 < 2 ^ 64) : convBlk (ret + Ipc.theBlkOffset) = ret := by
  rw [convBlk, Ipc.theBlkOffset]
  omega

/-- The contents start in the second page of the segment. -/
theorem addrBegin_eq (lawful : segment.Lawful) :
    movePtrRoundup segment.retAddr blkImplSize shmPageSize = segment.retAddr + shmPageSize := by
  obtain ⟨aligned, inside, -⟩ := lawful
  simp only [shmPageSize] at aligned
  rw [movePtrRoundup, shmPageSize, blkImplSize, roundUp_eq (by omega) (by decide)]
  omega

/-- The addresses that a created block answers; the close gets the address behind the tag. -/
structure Placed (kernel : Kernel) (made : Nat → ShmmBlkImpl) (key : Int) (atAddr size shm : Nat)
    (tryHugePage : Bool) (segment : Attached) : Prop where
  granted : kernel key (segmentSize size) (hugePageFor size tryHugePage) atAddr = some segment
  lawful : segment.Lawful
  enough : segmentSize size ≤ segment.length
  block : shm = segment.retAddr + Ipc.theBlkOffset
  beginAddr : shmmBeginAddr made shm = shm + shmPageSize
  endAddr : shmmEndAddr made shm = shm + segmentSize size
  closes : (shmmClose made shm).2 = if segmentSize size = 0 then none else some shm

theorem shmmCreate_placed (lawful : kernel.Lawful)
    (created : shmmCreate kernel heads key atAddr size tryHugePage = some (made, shm)) :
    ∃ segment, Placed kernel made key atAddr size shm tryHugePage segment := by
  unfold shmmCreate at created
  split_ifs at created with refused odd
  obtain ⟨segment, granted, rest⟩ := Option.bind_eq_some_iff.mp created
  obtain ⟨whole, enough⟩ := lawful _ _ _ _ segment granted
  have start := addrBegin_eq whole
  have inside := whole.inside
  obtain ⟨rfl, rfl⟩ := Prod.mk.inj (Option.some.inj rest)
  have found := @convBlk_add segment.retAddr (by omega)
  have real : segment.retAddr + Ipc.theBlkOffset ≠ 0 := by simp [Ipc.theBlkOffset]
  have page : shmPageSize ≠ 0 := by decide
  refine ⟨segment, granted, whole, enough, rfl, ?_, ?_, ?_⟩
  · rw [shmmBeginAddr, if_neg real, found, Function.update_self, start, Nat.add_sub_cancel_left]
  · rw [shmmEndAddr, if_neg real, found, Function.update_self]
  · simp only [shmmClose, found, Function.update_self, start, Nat.add_sub_cancel_left, page, false_or,
      ne_eq, not_true_eq_false, if_false]
    split_ifs <;> rfl

/-- The space sees the block with the range that its head describes. -/
def attachedBlk (size : Nat) (segment : Attached) : ShmmBlk :=
  let shm := segment.retAddr + Ipc.theBlkOffset
  ⟨shm, shm + shmPageSize, shm + segmentSize size⟩

/-- The model of the space gets its blocks from this function. -/
theorem shmmCreate_answer (lawful : kernel.Lawful) (heads : Nat → ShmmBlkImpl) (key : Int) (size : Nat)
    (tryHugePage : Bool) :
    ((shmmCreate kernel heads key 0 size tryHugePage).map fun created =>
        (⟨created.2, shmmBeginAddr created.1 created.2, shmmEndAddr created.1 created.2⟩ : ShmmBlk)) =
      Mmspace.shmmCreate key size
        ((kernel key (segmentSize size) (hugePageFor size tryHugePage) 0).map (attachedBlk size)) := by
  cases created : shmmCreate kernel heads key 0 size tryHugePage with
  | some block =>
      obtain ⟨segment, placed⟩ := shmmCreate_placed lawful created
      have legal : ¬ (key ≤ 0 ∨ size = 0) := by
        intro refused
        rw [shmmCreate, if_pos refused] at created
        exact nomatch created
      rw [Mmspace.shmmCreate, if_neg legal, placed.granted]
      simp only [Option.map_some, attachedBlk]
      rw [placed.beginAddr, placed.endAddr, placed.block]
  | none =>
      by_cases refused : key ≤ 0 ∨ size = 0
      · rw [Mmspace.shmmCreate, if_pos refused]
        rfl
      · rw [shmmCreate, if_neg refused, if_neg (by decide)] at created
        rw [Mmspace.shmmCreate, if_neg refused]
        cases granted : kernel key (segmentSize size) (hugePageFor size tryHugePage) 0 with
        | none => rfl
        | some segment => simp [granted] at created

/-- Every range starts 8 bytes late, and no close detaches the segment. -/
theorem shmmCreate_overruns (lawful : kernel.Lawful)
    (created : shmmCreate kernel heads key atAddr size tryHugePage = some (made, shm)) :
    ∃ segment, kernel key (segmentSize size) (hugePageFor size tryHugePage) atAddr = some segment ∧
      ¬ Keeps made shm size segment ∧
      (RangeInside made shm segment ↔ segmentSize size + 8 ≤ segment.length) ∧
      (AllocatorInside made shm size segment ↔ shmPageSize + 24 + size ≤ segment.length) := by
  obtain ⟨segment, placed⟩ := shmmCreate_placed lawful created
  have block := placed.block
  rw [Ipc.theBlkOffset] at block
  refine ⟨segment, placed.granted, ?_, ?_, ?_⟩
  · intro keeps
    have detached := keeps.closes
    rw [placed.closes] at detached
    split_ifs at detached with empty
    have same := Option.some.inj detached
    omega
  · rw [RangeInside, placed.beginAddr, placed.endAddr]
    omega
  · rw [AllocatorInside, placed.beginAddr, sectionSize]
    omega

/-- This kernel attaches a segment of small pages at a fixed address. -/
def oneSegment : Kernel := fun _ size _ _ =>
  if 0 < size ∧ size ≤ 2 ^ 20 then some ⟨3, 65536, size⟩ else none

theorem oneSegment_lawful : oneSegment.Lawful := by
  intro key size huge atAddr segment granted
  rw [Option.mem_def, oneSegment] at granted
  split_ifs at granted with fits
  obtain rfl := Option.some.inj granted
  exact ⟨⟨show 65536 % shmPageSize = 0 by decide, by simp only; omega, fits.1⟩, le_refl _⟩

def noHead : ShmmBlkImpl := ⟨0, 0, 0, 0, 0⟩

theorem oneSegment_created : shmmCreate oneSegment (fun _ => noHead) 7 0 4096 false =
    some (Function.update (fun _ => noHead) 65536 ⟨shmmTagWord, 4096, 8192, 7, 3⟩, 65544) := rfl

theorem shmmCreate_overruns_page :
    ∃ segment, oneSegment 7 (segmentSize 4096) (hugePageFor 4096 false) 0 = some segment ∧
      ¬ Keeps (Function.update (fun _ => noHead) 65536 ⟨shmmTagWord, 4096, 8192, 7, 3⟩) 65544 4096
        segment ∧
      (RangeInside (Function.update (fun _ => noHead) 65536 ⟨shmmTagWord, 4096, 8192, 7, 3⟩) 65544
        segment ↔ segmentSize 4096 + 8 ≤ segment.length) ∧
      (AllocatorInside (Function.update (fun _ => noHead) 65536 ⟨shmmTagWord, 4096, 8192, 7, 3⟩) 65544
        4096 segment ↔ shmPageSize + 24 + 4096 ≤ segment.length) :=
  shmmCreate_overruns oneSegment_lawful oneSegment_created

/-- A segment of two pages ends at 73728; its range ends 8 bytes behind, the memory of its allocator
    24 bytes behind, and the close detaches an address inside of it. -/
theorem shmmCreate_overrun :
    ∃ created ∈ shmmCreate oneSegment (fun _ => noHead) 7 0 4096 false,
      oneSegment 7 (segmentSize 4096) .small 0 = some ⟨3, 65536, 8192⟩ ∧
      shmmEndAddr created.1 created.2 = 65536 + 8192 + 8 ∧
      shmmBeginAddr created.1 created.2 + sectionSize + 4096 = 65536 + 8192 + 24 ∧
      shmmClose created.1 created.2 = (0, some 65544) := by
  decide +kernel

end Syslib.Shmem
