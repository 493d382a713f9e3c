import Syslib.Library.BitSlots
import Syslib.Library.IntrusiveLists
import Syslib.Mmspace.Zones

namespace Syslib.Mmspace

open BitSlots IntrusiveLists Runs

/-- This is `struct _mm_cache` without its links. -/
structure MmCache where
  cache : Nat
  slabLabel : Nat
  freeCount : Nat
  objCount : Nat
  allocBits : BitVec 64
  objPtr : Nat
  deriving DecidableEq, Repr

/-- This is `SLAB_LABEL`. -/
def slabMark : Nat := 0x22222222

/-- The size of `struct _mm_cache`. -/
def slabHeadSize : Nat := 48

/-- This is `struct _mmcache_impl` without its links, its name and its constructor. -/
structure MmcacheImpl extends Mmcache where
  objDtor : Nat
  deriving DecidableEq, Repr

inductive SlabList where
  | fullSlabList
  | emptySlabList
  | partialSlabList
  deriving DecidableEq, Repr

/-- The area holds the slab blocks, and all of its memory can be read as the head of a slab. -/
structure CacheSpace where
  zones : Nat → MmcacheImpl
  zoneList : List Nat
  lists : Nat × SlabList → List Nat
  heads : Nat → MmCache
  blocks : List Nat

def CacheSpace.write (mm : CacheSpace) (mc : Nat) (head : MmCache) : CacheSpace :=
  { mm with heads := Function.update mm.heads mc head }

/-- The search goes back page by page to the next label. -/
def cacheOfObj (cfg : MmConfig) (mm : CacheSpace) (obj : Nat) : Option Nat :=
  ((List.range cfg.maxpgCount).map fun i =>
    roundDown obj cfg.pageSize - i * cfg.pageSize % 2 ^ 32).find? fun mc =>
      (mm.heads mc).slabLabel = slabMark

def mmZcacheFull (mc : MmCache) : Prop := mc.freeCount ≤ 0

def mmZcacheEmpty (mc : MmCache) : Prop := mc.objCount ≤ mc.freeCount

instance (mc : MmCache) : Decidable (mmZcacheFull mc) := inferInstanceAs (Decidable (_ ≤ _))

instance (mc : MmCache) : Decidable (mmZcacheEmpty mc) := inferInstanceAs (Decidable (_ ≤ _))

def mmcNextFreeObj (mc : MmCache) : Option Nat := do
  let idx ← lowest (~~~mc.allocBits)
  if mc.objCount ≤ idx then none else some idx

def mmZfetchObj (mm : CacheSpace) (mc : Nat) : Option (CacheSpace × Nat) := do
  let head := mm.heads mc
  let idx ← mmcNextFreeObj head
  let p := head.objPtr + idx * (mm.zones head.cache).objSize % 2 ^ 32
  some (mm.write mc
    { head with
      allocBits := setBit head.allocBits idx
      freeCount := (head.freeCount + (2 ^ 16 - 1)) % 2 ^ 16 }, p)

/-- A header that names objects without a size makes the division fail. -/
def mmZreturnObj (mm : CacheSpace) (mc p : Nat) : Option (CacheSpace × Int) :=
  let head := mm.heads mc
  let objSize := (mm.zones head.cache).objSize
  if p < head.objPtr then some (mm, -1)
  else if objSize = 0 then none
  else
    let idx := (p - head.objPtr) / objSize
    if head.objCount ≤ idx then some (mm, -1)
    -- the processor takes the shift count modulo 64
    else if head.allocBits.getLsbD (idx % 64) = false then some (mm, -1)
    else
      some (mm.write mc
        { head with
          freeCount := (head.freeCount + 1) % 2 ^ 16
          allocBits := clearBit head.allocBits (idx % 64) }, 0)

/-- A header on none of the lists has no links that `lst_remove` could follow. -/
def CacheSpace.Linked (mm : CacheSpace) (mc : Nat) : Prop :=
  ∃ mzi ∈ mm.zoneList, mc ∈ mm.lists (mzi, .fullSlabList) ∨ mc ∈ mm.lists (mzi, .emptySlabList) ∨
    mc ∈ mm.lists (mzi, .partialSlabList)

instance (mm : CacheSpace) (mc : Nat) : Decidable (mm.Linked mc) :=
  inferInstanceAs (Decidable (∃ mzi ∈ mm.zoneList, _))

/-- A removal from an empty list fails; otherwise the slab leaves the list that holds it. -/
def mmZmoveCache (mm : CacheSpace) (mc : Nat) (fromList : Option (Nat × SlabList))
    (toList : Nat × SlabList) : Option CacheSpace :=
  match fromList with
  | none => some { mm with lists := pushFront mm.lists toList mc }
  | some place =>
      if ¬ mm.Linked mc then none
      else if mm.lists place = [] then some mm
      else some { mm with lists := pushFront (removeNode mm.lists mc) toList mc }

/-- The page area takes back a block that it has given out. -/
def CacheSpace.mmFree (mm : CacheSpace) (mc : Nat) : Option CacheSpace :=
  if mc ∈ mm.blocks then some { mm with blocks := mm.blocks.erase mc } else none

/-- The links of a slab stay as they are when its pages go back, and the walk reads them then. -/
def mmZtryRecallEmptyCache (mm : CacheSpace) (mzi : Nat) : Option CacheSpace := do
  let mm ← (mm.lists (mzi, .emptySlabList)).foldlM CacheSpace.mmFree mm
  some { mm with lists := Function.update mm.lists (mzi, .emptySlabList) [] }

def mmZtryRecall (mm : CacheSpace) : Option CacheSpace :=
  mm.zoneList.foldlM mmZtryRecallEmptyCache mm

/-- The page area answers twice, the second time after the recall. -/
def mmZallocPg (first again : Option Nat) (mm : CacheSpace) : Option (CacheSpace × Option Nat) :=
  match first with
  | some pg => some ({ mm with blocks := pg :: mm.blocks }, some pg)
  | none => do
      let mm ← mmZtryRecall mm
      match again with
      | some pg => some ({ mm with blocks := pg :: mm.blocks }, some pg)
      | none => some (mm, none)

/-- The count of the objects passes through an `unsigned short`. -/
def slabObjects (zone : Mmcache) : Nat :=
  min ((zone.cacheSize - slabHeadSize) / zone.objSize % 2 ^ 16) 64

def mmZcacheNew (mzi : Nat) (first again : Option Nat) (mm : CacheSpace) :
    Option (CacheSpace × Option Nat) := do
  let (mm, pg) ← mmZallocPg first again mm
  match pg with
  | none => some (mm, none)
  | some mc =>
      let zone := mm.zones mzi
      if zone.objSize = 0 then none
      else
        let objCount := slabObjects zone.toMmcache
        let head : MmCache :=
          { cache := mzi, slabLabel := slabMark, freeCount := objCount, objCount, allocBits := 0#64
            objPtr := mc + zone.cacheSize - objCount * zone.objSize % 2 ^ 32 }
        let mm ← mmZmoveCache (mm.write mc head) mc none (mzi, .emptySlabList)
        some (mm, some mc)

/-- What a constructor writes to its object is a write of the user. -/
def mmCacheAlloc (mmz : Nat) (first again : Option Nat) (mm : CacheSpace) :
    Option (CacheSpace × Nat) :=
  match mm.lists (mmz, .partialSlabList) with
  | mc :: _ =>
      match mmZfetchObj mm mc with
      | none => some (mm, 0)
      | some (mm, p) =>
          if mmZcacheFull (mm.heads mc) then do
            let mm ← mmZmoveCache mm mc (some (mmz, .partialSlabList)) (mmz, .fullSlabList)
            some (mm, p)
          else some (mm, p)
  | [] => do
      let (mm, mc) ←
        match mm.lists (mmz, .emptySlabList) with
        | mc :: _ => some (mm, some mc)
        | [] => mmZcacheNew mmz first again mm
      match mc with
      | none => some (mm, 0)
      | some mc =>
          match mmZfetchObj mm mc with
          | none => some (mm, 0)
          | some (mm, p) => do
              let mm ← mmZmoveCache mm mc (some (mmz, .emptySlabList)) (mmz, .partialSlabList)
              some (mm, p)

/-- The moves that end `mm_cache_free`; the second one looks at the head before the return. -/
def mmZsettle (before : MmCache) (mmz mc : Nat) (mm : CacheSpace) : Option CacheSpace :=
  (if mmZcacheEmpty (mm.heads mc) then
    mmZmoveCache mm mc (some (mmz, .partialSlabList)) (mmz, .emptySlabList)
  else some mm).bind fun mm =>
    if mmZcacheFull before then mmZmoveCache mm mc (some (mmz, .fullSlabList)) (mmz, .partialSlabList)
    else some mm

/-- The answer is the return value and whether the destructor ran. -/
def mmCacheFree (cfg : MmConfig) (mmz p : Nat) (mm : CacheSpace) : Option (CacheSpace × Int × Bool) :=
  if p = 0 then some (mm, -1, false)
  else
    let ran : Bool := (mm.zones mmz).objDtor ≠ 0
    match cacheOfObj cfg mm p with
    | none => some (mm, -1, ran)
    | some mc =>
        if mmZcacheEmpty (mm.heads mc) then some (mm, -1, ran)
        else do
          let (next, rslt) ← mmZreturnObj mm mc p
          if rslt < 0 then some (next, -1, ran)
          else (mmZsettle (mm.heads mc) mmz mc next).map fun next => (next, 0, ran)

/-- These lines of `mm_cache_create` set up a cache whose name and size were accepted. -/
def mmCacheSetup (cfg : MmConfig) (mm : CacheSpace) (mzi objSize objDtor : Nat) : CacheSpace :=
  let zone : MmcacheImpl := ⟨⟨roundedObjSize objSize, zoneCacheSize cfg objSize⟩, objDtor⟩
  { mm with
    zones := Function.update mm.zones mzi zone
    zoneList := mm.zoneList ++ [mzi]
    lists := fun place => if place.1 = mzi then [] else mm.lists place }

/-- A user may write any bytes to memory that is no head of a slab. -/
inductive CacheCall where
  | create (mzi objSize objDtor : Nat)
  | alloc (mmz : Nat) (first again : Option Nat)
  | free (mmz p : Nat)
  | write (page : Nat) (bytes : MmCache)

/-- The history keeps the objects that were handed out and not freed, each with its cache. -/
structure CacheTrace where
  mm : CacheSpace
  objects : List (Nat × Nat)

def cacheStep (cfg : MmConfig) (call : CacheCall) (trace : CacheTrace) : Option CacheTrace :=
  match call with
  | .create mzi objSize objDtor =>
      if ValidSize cfg objSize then some ⟨mmCacheSetup cfg trace.mm mzi objSize objDtor, trace.objects⟩
      else some trace
  | .alloc mmz first again => do
      let (mm, p) ← mmCacheAlloc mmz first again trace.mm
      some ⟨mm, if p = 0 then trace.objects else (mmz, p) :: trace.objects⟩
  | .free mmz p => do
      let (mm, rslt, _) ← mmCacheFree cfg mmz p trace.mm
      some ⟨mm, if rslt < 0 then trace.objects else trace.objects.erase (mmz, p)⟩
  | .write page bytes => some ⟨trace.mm.write page bytes, trace.objects⟩

/-- The space before its first cache. -/
def emptyCaches : CacheTrace where
  mm := ⟨fun _ => ⟨⟨0, 0⟩, 0⟩, [], fun _ => [], fun _ => ⟨0, 0, 0, 0, 0, 0⟩, []⟩
  objects := []

end Syslib.Mmspace
