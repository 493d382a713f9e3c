import Syslib.Library.IntrusiveLists
import Syslib.Misc

namespace Syslib.Mmpool

open IntrusiveLists

/-- Eight bytes of the chunk are two halves of 32 bits. -/
structure Word where
  low : Nat
  high : Nat
  deriving DecidableEq, Repr

/-- This is `struct _block_head`; the flag has four bits and shares its half with the index. -/
structure BlockHead where
  flag : Nat
  flnIdx : Nat
  blockSize : Nat
  deriving DecidableEq, Repr

/-- A descriptor is unused or names a block in the free list of an order. -/
inductive FlnList where
  | freeFln
  | flh (idx : Nat)
  deriving DecidableEq, Repr

/-- This is `struct _mmpool_impl` with its descriptors and the words of its chunk. -/
structure MmpoolImpl where
  chunckLabel : Nat
  addrBegin : Nat
  addrEnd : Nat
  minBlockOrder : Nat
  maxBlockOrder : Nat
  freeListCount : Nat
  maxPayloadSize : Nat
  chunkAddr : Nat
  chunkSize : Nat
  flnCount : Nat
  lists : FlnList → List Nat
  block : Nat → Nat
  word : Nat → Word

def chunkLabel : Nat := 0xabab1212dfdf6969

def tailLabel : Nat := 0x1a2b3c4d

def blockBitUsed : Nat := 1

def blockBitUnm : Nat := 2

/-- The head and the tail of a block have eight bytes each. -/
def headSize : Nat := 8

def headTailSize : Nat := 16

/-- The shift is one of an `int`, so an order of 31 would give a negative size. -/
def blockSize (idx : Nat) : Nat := (shiftOne idx).toNat

def payloadAddr (blockAddr : Nat) : Nat := blockAddr + headSize

def BlockHead.word (head : BlockHead) : Word := ⟨head.flag + 16 * head.flnIdx, head.blockSize⟩

namespace MmpoolImpl

def head (mmpi : MmpoolImpl) (bh : Nat) : BlockHead :=
  ⟨(mmpi.word bh).low % 16, (mmpi.word bh).low / 16, (mmpi.word bh).high⟩

def writeHead (mmpi : MmpoolImpl) (bh : Nat) (head : BlockHead) : MmpoolImpl :=
  { mmpi with word := Function.update mmpi.word bh head.word }

def getTail (mmpi : MmpoolImpl) (bh : Nat) : Nat := bh + (mmpi.head bh).blockSize - headSize

/-- The word before the chunk ends in zero bytes: it is padding or the index of a descriptor. -/
def prevBlock (mmpi : MmpoolImpl) (bh : Nat) : Nat := bh - (mmpi.word (bh - headSize)).high

def nextBlock (mmpi : MmpoolImpl) (bh : Nat) : Nat := bh + (mmpi.head bh).blockSize

def makeBlockTail (mmpi : MmpoolImpl) (tail blockSize : Nat) : MmpoolImpl :=
  { mmpi with word := Function.update mmpi.word tail ⟨tailLabel, blockSize⟩ }

/-- The result is null for a size that is no power of two; the index field keeps its value. -/
def makeBlock (mmpi : MmpoolImpl) (addr blockSize : Nat) : MmpoolImpl × Nat :=
  if isTwoPower 0 0 blockSize then
    let mmpi := mmpi.writeHead addr { mmpi.head addr with flag := 0, blockSize }
    (mmpi.makeBlockTail (addr + blockSize - headSize) blockSize, addr)
  else (mmpi, 0)

/-- Without an unused descriptor the function writes to a null pointer. -/
def fetchFreeFln (mmpi : MmpoolImpl) : Option (MmpoolImpl × Nat) :=
  match mmpi.lists .freeFln with
  | [] => none
  | fln :: _ =>
      some ({ mmpi with
        lists := removeNode mmpi.lists fln
        block := Function.update mmpi.block fln 0 }, fln)

def returnFreeFln (mmpi : MmpoolImpl) (fln : Nat) : MmpoolImpl :=
  { mmpi with
    lists := pushFront mmpi.lists .freeFln fln
    block := Function.update mmpi.block fln 0 }

/-- The list of a size; a size below the smallest one would index before the array. -/
def flhOf (mmpi : MmpoolImpl) (size : Nat) : Option Nat :=
  if mmpi.minBlockOrder ≤ Nat.log2 size then some (Nat.log2 size - mmpi.minBlockOrder) else none

/-- A null block and a list outside of the array fault. -/
def returnFreeNodeToHead (mmpi : MmpoolImpl) (hd : Nat) : Option (MmpoolImpl × Int) :=
  if hd = 0 then none
  else if (mmpi.head hd).flag &&& blockBitUsed ≠ 0 then some (mmpi, -1)
  else if blockSize mmpi.maxBlockOrder < (mmpi.head hd).blockSize then some (mmpi, -1)
  else do
    let flhIdx ← mmpi.flhOf (mmpi.head hd).blockSize
    let (mmpi, fln) ← mmpi.fetchFreeFln
    let mmpi := { mmpi with block := Function.update mmpi.block fln hd }
    let mmpi := mmpi.writeHead hd { mmpi.head hd with flnIdx := fln }
    if flhIdx < mmpi.freeListCount then
      some ({ mmpi with lists := pushFront mmpi.lists (.flh flhIdx) fln }, 0)
    else none

/-- The block is cut in halves, and each upper half goes to its list. -/
def splitBlock : Nat → MmpoolImpl → Nat → Nat → Option (MmpoolImpl × Nat)
  | 0, mmpi, _, newSize => some (mmpi, newSize)
  | count + 1, mmpi, bh, newSize => do
      let half := newSize / 2
      let made := mmpi.makeBlock (bh + half) half
      let (mmpi, _) ← made.1.returnFreeNodeToHead made.2
      splitBlock count mmpi bh half

/-- The first list from `idx` on that has a block. -/
def firstFilled (mmpi : MmpoolImpl) : Nat → Nat → Option Nat
  | 0, _ => none
  | left + 1, idx => if mmpi.lists (.flh idx) = [] then firstFilled mmpi left (idx + 1) else some idx

/-- The result is the pool, the return value and the block, which is null after a split. -/
def takeFreeNode (mmpi : MmpoolImpl) (flhIdx : Nat) : Option (MmpoolImpl × Int × Nat) :=
  match mmpi.firstFilled (mmpi.freeListCount - flhIdx) flhIdx with
  | none => some (mmpi, -1, 0)
  | some idx =>
      match mmpi.lists (.flh idx) with
      | [] => some (mmpi, -1, 0)
      | fln :: _ =>
          let mmpi := { mmpi with lists := removeNode mmpi.lists fln }
          let bh := mmpi.block fln
          if flhIdx < idx then do
            let (mmpi, newSize) ← splitBlock (idx - flhIdx) mmpi bh (mmpi.head bh).blockSize
            let made := mmpi.makeBlock bh newSize
            let (mmpi, _) ← made.1.returnFreeNodeToHead made.2
            some (mmpi.returnFreeFln fln, 0, 0)
          else
            let mmpi := mmpi.writeHead bh { mmpi.head bh with flnIdx := 0 }
            some (mmpi.returnFreeFln fln, 0, bh)

/-- Every descriptor is in some list, so only an empty list refuses to remove it. -/
def unlinkBlock (mmpi : MmpoolImpl) (bh : Nat) : Option (MmpoolImpl × Int) := do
  let fln := (mmpi.head bh).flnIdx
  let idx ← mmpi.flhOf (mmpi.head bh).blockSize
  if mmpi.flnCount ≤ fln then none
  else if mmpi.freeListCount ≤ idx then some (mmpi, -1)
  else if mmpi.lists (.flh idx) = [] then some (mmpi, -1)
  else
    let mmpi := { mmpi with lists := removeNode mmpi.lists fln }
    let mmpi := mmpi.writeHead bh { mmpi.head bh with flnIdx := 0 }
    some (mmpi.returnFreeFln fln, 0)

/-- Both merges differ only in the block that leaves its list; the result is null without a merge. -/
def mergeBuddies (mmpi : MmpoolImpl) (bh nbh gone : Nat) : Option (MmpoolImpl × Nat) :=
  if (mmpi.head bh).flag ≠ 0 ∨ (mmpi.head nbh).flag ≠ 0 then some (mmpi, 0)
  else if (mmpi.head bh).blockSize ≠ (mmpi.head nbh).blockSize then some (mmpi, 0)
  else
    let nextBlockSize := (mmpi.head bh).blockSize * 2 % 2 ^ 32
    if roundDown (bh - mmpi.chunkAddr) nextBlockSize ≠ roundDown (nbh - mmpi.chunkAddr) nextBlockSize then
      some (mmpi, 0)
    else do
      let (mmpi, rslt) ← mmpi.unlinkBlock gone
      if rslt < 0 then some (mmpi, 0) else some (mmpi.makeBlock bh nextBlockSize)

def mergeBuddyNext (mmpi : MmpoolImpl) (bh nbh : Nat) : Option (MmpoolImpl × Nat) :=
  mmpi.mergeBuddies bh nbh nbh

def mergeBuddyPrev (mmpi : MmpoolImpl) (bh nbh : Nat) : Option (MmpoolImpl × Nat) :=
  mmpi.mergeBuddies bh nbh bh

/-- The list index of a payload; it is null for one that is too large. -/
def flhIdx (mmpi : MmpoolImpl) (payloadSize : Nat) : Option Nat :=
  let blkSize := blockSize (Nat.log2 (payloadSize + headTailSize - 1) + 1)
  if blockSize mmpi.maxBlockOrder < blkSize then none
  else some (Nat.log2 (max blkSize (blockSize mmpi.minBlockOrder)) - mmpi.minBlockOrder)

/-- The loop ends when a block has been taken. -/
def allocLoop : Nat → MmpoolImpl → Nat → Option (MmpoolImpl × Nat)
  | 0, _, _ => none
  | rounds + 1, mmpi, idx => do
      let (mmpi, rslt, bh) ← mmpi.takeFreeNode idx
      if rslt < 0 then some (mmpi, 0)
      else if bh = 0 then allocLoop rounds mmpi idx
      else if (mmpi.head bh).flag &&& blockBitUsed ≠ 0 ∨ (mmpi.head bh).flag &&& blockBitUnm ≠ 0 then
        some (mmpi, 0)
      else
        let head := mmpi.head bh
        some (mmpi.writeHead bh { head with flag := head.flag ||| blockBitUsed }, payloadAddr bh)

/-- The block grows while a buddy joins it. -/
def mergeLoop : Nat → MmpoolImpl → Nat → Option (MmpoolImpl × Nat)
  | 0, _, _ => none
  | rounds + 1, mmpi, bh =>
      if (mmpi.head bh).blockSize < blockSize mmpi.maxBlockOrder then do
        let (mmpi, next) ← mmpi.mergeBuddyNext bh (mmpi.nextBlock bh)
        if next ≠ 0 then mergeLoop rounds mmpi next
        else do
          let (mmpi, prev) ← mmpi.mergeBuddyPrev (mmpi.prevBlock bh) bh
          if prev ≠ 0 then mergeLoop rounds mmpi prev else some (mmpi, bh)
      else some (mmpi, bh)

end MmpoolImpl

/-- The result pairs the pool with the payload, which is null on failure. -/
def mmpAlloc (mmpi : MmpoolImpl) (payloadSize : Nat) : Option (MmpoolImpl × Nat) :=
  if payloadSize = 0 ∨ mmpi.maxPayloadSize < payloadSize then some (mmpi, 0)
  else
    match mmpi.flhIdx payloadSize with
    | none => some (mmpi, 0)
    | some idx => mmpi.allocLoop (mmpi.flnCount + 2) idx

/-- The result pairs the pool with the return value. -/
def mmpFree (mmpi : MmpoolImpl) (p : Nat) : Option (MmpoolImpl × Int) :=
  if p = 0 then some (mmpi, -1)
  else
    let bh := p - headSize
    let tail := mmpi.word (mmpi.getTail bh)
    if tail.high ≠ (mmpi.head bh).blockSize ∨ tail.low ≠ tailLabel then some (mmpi, -1)
    else if (mmpi.head bh).flag &&& blockBitUsed = 0 then some (mmpi, -1)
    else do
      let head := mmpi.head bh
      let mmpi := mmpi.writeHead bh { head with flag := head.flag ^^^ blockBitUsed }
      let (mmpi, bh) ← mmpi.mergeLoop (mmpi.freeListCount + 1) bh
      mmpi.returnFreeNodeToHead bh

/-- These fields of `struct mm_config` are for a buddy pool. -/
structure MmpConfig where
  totalSize : BitVec 64
  minOrder : BitVec 32
  maxOrder : BitVec 32
  deriving DecidableEq, Repr

/-- The sizes of `struct _mmpool_impl`, `struct _free_list_head` and `struct _free_list_node`. -/
def implSize : Nat := 128

def flhSize : Nat := 40

def flnSize : Nat := 32

/-- This is `move_ptr_align64`. -/
def movePtrAlign64 (ptr offset : Nat) : Nat := (ptr + offset + 63) % 2 ^ 64 &&& (2 ^ 64 - 64)

def align8 (val : Nat) : Nat := (val + 7) % 2 ^ 64 &&& (2 ^ 64 - 8)

/-- The inner result is null when a block cannot be listed. -/
def initRow (size stop : Nat) : Nat → MmpoolImpl → Nat → Option (Option (MmpoolImpl × Nat))
  | 0, _, _ => none
  | rounds + 1, mmpi, chk1 =>
      if chk1 + size ≤ stop then
        let made := mmpi.makeBlock chk1 size
        if made.2 = 0 then some none
        else do
          let (mmpi, rslt) ← made.1.returnFreeNodeToHead made.2
          if rslt < 0 then some none else initRow size stop rounds mmpi (chk1 + size)
      else some (some (mmpi, chk1))

/-- The rows of blocks get smaller by halving the index of the list. -/
def initRows (stop : Nat) : Nat → MmpoolImpl → Nat → Nat → Nat → Option (Option MmpoolImpl)
  | 0, _, _, _, _ => none
  | rounds + 1, mmpi, idx, chk1, chk2 =>
      if 0 < idx ∧ chk1 < stop ∧ chk2 < stop then do
        let size := blockSize mmpi.minBlockOrder * blockSize idx
        match ← initRow size stop (stop - chk1 + 1) mmpi chk1 with
        | none => some none
        | some (mmpi, chk1) => initRows stop rounds mmpi (idx / 2) chk1 (chk1 + size)
      else some (some mmpi)

/-- The descriptors are unused, and the words behind the memory of the pool have any values. -/
def emptyPool (outside : Nat → Word) (addr : Nat) (cfg : MmpConfig) : MmpoolImpl :=
  let minBlockSize := blockSize cfg.minOrder.toNat
  let maxBlockSize := blockSize cfg.maxOrder.toNat
  let addrEnd := align8 (addr + cfg.totalSize.toNat)
  let freeListCount := cfg.maxOrder.toNat - cfg.minOrder.toNat + 1
  let flh := movePtrAlign64 addr implSize
  let flnPool := movePtrAlign64 flh (freeListCount * flhSize)
  let flnCount := wordSub addrEnd flnPool / align8 (minBlockSize + flnSize)
  let chunkAddr := movePtrAlign64 flnPool (flnCount * flnSize)
  { chunckLabel := chunkLabel
    addrBegin := addr
    addrEnd
    minBlockOrder := cfg.minOrder.toNat
    maxBlockOrder := cfg.maxOrder.toNat
    freeListCount
    maxPayloadSize := maxBlockSize - headTailSize
    chunkAddr
    chunkSize := roundDown (addrEnd - chunkAddr) maxBlockSize
    flnCount
    lists := fun list => if list = .freeFln then List.range flnCount else []
    block := fun _ => 0
    word := fun a => if a < addrEnd then ⟨0, 0⟩ else outside a }

/-- This is `_mmp_init_chunk`. Where the memory ends before the descriptors, their count wraps around and their
    loop faults; an end at the top of the address space is zero and has room for them. -/
def mmpInitChunk (outside : Nat → Word) (label addr : Nat) (cfg : MmpConfig) :
    Option (Option MmpoolImpl) :=
  let minBlockSize := blockSize cfg.minOrder.toNat
  let maxBlockSize := blockSize cfg.maxOrder.toNat
  if maxBlockSize < minBlockSize then some none
  else if minBlockSize < headTailSize ∨ maxBlockSize ≤ minBlockSize then some none
  else if label = chunkLabel then some none
  else
    let mmpi := emptyPool outside addr cfg
    let flnPool := movePtrAlign64 (movePtrAlign64 addr implSize) (mmpi.freeListCount * flhSize)
    if mmpi.addrEnd ≠ 0 ∧ mmpi.addrEnd < flnPool then none
    else if mmpi.addrEnd ≤ mmpi.chunkAddr then some none
    else initRows (mmpi.chunkAddr + mmpi.chunkSize) (mmpi.freeListCount + 1) mmpi (mmpi.freeListCount - 1)
      mmpi.chunkAddr 0

/-- The memory has the given label at its start, which is zero when it is fresh. -/
def mmpCreate (outside : Nat → Word) (label addr : Nat) (cfg : MmpConfig) : Option (Option MmpoolImpl) :=
  if addr = 0 ∨ addr % 8 ≠ 0 then some none
  else if cfg.totalSize.toNat < blockSize cfg.minOrder.toNat then some none
  else if 0xFFFFFFFF < cfg.totalSize.toNat then some none
  else mmpInitChunk outside label addr cfg

end Syslib.Mmpool
