import Syslib.Library.Runs

namespace Syslib.Mmspace

variable {Allocator : Type}

/-- The kinds of allocator read the two words of the union under their own names. -/
structure MmConfig where
  totalSize : Nat
  first : Nat
  second : Nat
  deriving DecidableEq, Repr

def MmConfig.pageSize (config : MmConfig) : Nat := config.first

def MmConfig.maxpgCount (config : MmConfig) : Nat := config.second

/-- This is `struct mm_ops`; an allocation that fails answers no address. -/
structure MmOps (Allocator : Type) where
  createFunc : Nat → MmConfig → Option Allocator
  loadFunc : Allocator → Option Allocator
  allocFunc : Allocator → Nat → Allocator × Option Nat
  freeFunc : Allocator → Nat → Allocator × Int

structure MmSpaceConfig where
  sysShmmKey : Int
  maxShmmCount : Int
  mmCfg : Nat → MmConfig

/-- A shared-memory block is known by the address of its head and by the range of its contents. -/
structure ShmmBlk where
  shm : Nat
  beginAddr : Nat
  endAddr : Nat
  deriving DecidableEq, Repr

/-- This is `struct _mm_section_impl`, which lies at the begin address of its block. -/
structure MmSectionImpl (Allocator : Type) where
  areaType : Nat
  allocator : Allocator

/-- The links of the section list lie in the heads of the blocks. -/
structure MmAreaImpl where
  sectionList : List Nat
  freeSection : Option Nat
  deriving DecidableEq, Repr

structure MmShmmSave where
  baseAddr : Nat
  key : Int
  size : Nat
  deriving DecidableEq, Repr

/-- This is `struct _mm_space_impl` with the sections in the attached blocks. -/
structure MmSpaceImpl (Allocator : Type) where
  nextShmmKey : Nat
  totalShmmCount : Nat
  cfg : MmSpaceConfig
  areaList : Nat → MmAreaImpl
  allSectionTree : List ShmmBlk
  shmmSaveList : List MmShmmSave
  attached : Nat → Option (MmSectionImpl Allocator)

/-- `MM_AREA_COUNT` counts the area types from `MM_AREA_BEGIN`, which is zero. -/
def mmAreaCount : Nat := 5

/-- The sub key is an `unsigned short` with the area type above the area index. -/
def mmCreateShmKey (sysId : Int) (arType arIdx : Nat) : Int :=
  if sysId > 2 ^ 13 - 1 then -1 else sysId * 2 ^ 16 + (arType % 256 * 256 + arIdx % 256 : Nat)

/-- The answer is the block where both `shmget` and `shmat` succeed; it counts only for a legal key and a nonzero
    size. -/
def shmmCreate (key : Int) (size : Nat) (answer : Option ShmmBlk) : Option ShmmBlk :=
  if key ≤ 0 ∨ size = 0 then none else answer

namespace MmSpaceImpl

def setArea (mm : MmSpaceImpl Allocator) (arType : Nat) (area : MmAreaImpl) :
    MmSpaceImpl Allocator :=
  { mm with areaList := Function.update mm.areaList arType area }

def setSection (mm : MmSpaceImpl Allocator) (shm : Nat)
    (section_ : Option (MmSectionImpl Allocator)) : MmSpaceImpl Allocator :=
  { mm with attached := Function.update mm.attached shm section_ }

/-- The tree orders the blocks by their ranges, so a search finds the range around the key. -/
def rbSearch (mm : MmSpaceImpl Allocator) (key : Nat) : Option ShmmBlk :=
  mm.allSectionTree.find? fun blk => blk.beginAddr ≤ key ∧ key < blk.endAddr

end MmSpaceImpl

/-- This is the part of `_mm_create_section` after `shmm_create`; a failure destroys the block. -/
def linkSection (ops : Nat → MmOps Allocator) (mm : MmSpaceImpl Allocator) (arType : Nat) (key : Int)
    (blk : ShmmBlk) : MmSpaceImpl Allocator × Int :=
  if blk.beginAddr = 0 then (mm, -1)
  else
    let mm := mm.setArea arType { mm.areaList arType with sectionList := [] }
    if (mm.rbSearch blk.beginAddr).isSome then (mm, -1)
    else
      let mm := { mm with allSectionTree := blk :: mm.allSectionTree }
      let mm := mm.setArea arType
        { mm.areaList arType with sectionList := (mm.areaList arType).sectionList ++ [blk.shm] }
      -- the allocator starts behind the section head of 16 bytes
      match (ops arType).createFunc (blk.beginAddr + 16) (mm.cfg.mmCfg arType) with
      | none => (mm, -1)
      | some allocator =>
          let mm := mm.setSection blk.shm (some ⟨arType, allocator⟩)
          let mm := mm.setArea arType { mm.areaList arType with freeSection := some blk.shm }
          ({ mm with
              shmmSaveList := mm.shmmSaveList ++
                [⟨blk.shm, key, (mm.cfg.mmCfg arType).totalSize⟩]
              totalShmmCount := mm.totalShmmCount + 1 }, 0)

/-- The answer is the block that the kernel attaches, if the function asks for one. -/
def mmCreateSection (ops : Nat → MmOps Allocator) (mm : MmSpaceImpl Allocator) (arType : Nat)
    (answer : Option ShmmBlk) : MmSpaceImpl Allocator × Int :=
  if (mm.totalShmmCount : Int) ≥ mm.cfg.maxShmmCount then (mm, -1)
  else
    let mm := { mm with nextShmmKey := mm.nextShmmKey + 1 }
    let key := mmCreateShmKey mm.cfg.sysShmmKey arType mm.nextShmmKey
    match shmmCreate key (mm.cfg.mmCfg arType).totalSize answer with
    | none => (mm, -1)
    | some blk => linkSection ops mm arType key blk

/-- The areas get their first sections in the order of their types. -/
def createSections (ops : Nat → MmOps Allocator) :
    List Nat → List (Option ShmmBlk) → MmSpaceImpl Allocator → Option (MmSpaceImpl Allocator)
  | [], _, mm => some mm
  | arType :: rest, answers, mm =>
      let (mm, rslt) := mmCreateSection ops mm arType (answers.headD none)
      if rslt < 0 then none else createSections ops rest answers.tail mm

/-- This is the path of `mm_initialize` that finds no space to open; fresh memory is zero. -/
def mmInitialize (ops : Nat → MmOps Allocator) (cfg : MmSpaceConfig)
    (answers : List (Option ShmmBlk)) : Option (MmSpaceImpl Allocator) :=
  if cfg.maxShmmCount ≤ 0 then none
  else
    createSections ops (List.range mmAreaCount) answers
      { nextShmmKey := 0, totalShmmCount := 0, cfg, areaList := fun _ => ⟨[], none⟩,
        allSectionTree := [], shmmSaveList := [], attached := fun _ => none }

/-- The load function of the area replaces the allocator of each listed section. -/
def loadSections (ops : MmOps Allocator) :
    List Nat → MmSpaceImpl Allocator → Option (MmSpaceImpl Allocator)
  | [], mm => some mm
  | shm :: rest, mm => do
      let sec ← mm.attached shm
      let allocator ← ops.loadFunc sec.allocator
      loadSections ops rest (mm.setSection shm (some { sec with allocator }))

def loadAreas (ops : Nat → MmOps Allocator) :
    List Nat → MmSpaceImpl Allocator → Option (MmSpaceImpl Allocator)
  | [], mm => some mm
  | arType :: rest, mm => do
      loadAreas ops rest (← loadSections (ops arType) (mm.areaList arType).sectionList mm)

/-- The answer says whether `shmm_open` attaches every saved block at its old address again. -/
def mmLoadArea (ops : Nat → MmOps Allocator) (mm : MmSpaceImpl Allocator) (opened : Bool) :
    Option (MmSpaceImpl Allocator) :=
  if opened then loadAreas ops (List.range mmAreaCount) mm else none

/-- The request goes to the allocator of one section; a detached block has none. -/
def allocAt (ops : MmOps Allocator) (mm : MmSpaceImpl Allocator) (size shm : Nat) :
    Option (MmSpaceImpl Allocator × Option Nat) := do
  let sec ← mm.attached shm
  let (allocator, p) := ops.allocFunc sec.allocator size
  some (mm.setSection shm (some { sec with allocator }), p)

/-- The record keeps the sections that refused and the last result of `_mm_create_section`. -/
structure Allocation (Allocator : Type) where
  space : MmSpaceImpl Allocator
  p : Option Nat
  refused : List Nat
  rslt : Option Int

/-- The walk stops at the first section that serves the request. -/
def askList (ops : Nat → MmOps Allocator) (arType size : Nat) :
    List Nat → MmSpaceImpl Allocator → List Nat → Option (Allocation Allocator)
  | [], mm, refused => some ⟨mm, none, refused, none⟩
  | shm :: rest, mm, refused => do
      let mm := mm.setArea arType { mm.areaList arType with freeSection := some shm }
      let (mm, p) ← allocAt (ops arType) mm size shm
      match p with
      | some p => some ⟨mm, some p, refused, none⟩
      | none => askList ops arType size rest mm (refused ++ [shm])

/-- This is one round of `mm_area_alloc`: the free section first, and then the list. -/
def askArea (ops : Nat → MmOps Allocator) (mm : MmSpaceImpl Allocator) (arType size : Nat)
    (refused : List Nat) : Option (Allocation Allocator) := do
  let shm ← (mm.areaList arType).freeSection
  let (mm, p) ← allocAt (ops arType) mm size shm
  match p with
  | some p => some ⟨mm, some p, refused, none⟩
  | none => askList ops arType size (mm.areaList arType).sectionList mm (refused ++ [shm])

/-- Each round after the first one follows a new section; no answer means that the kernel refuses. -/
def retryAlloc (ops : Nat → MmOps Allocator) (arType size : Nat) :
    List (Option ShmmBlk) → MmSpaceImpl Allocator → List Nat → Option (Allocation Allocator)
  | [], mm, refused => do
      let round ← askArea ops mm arType size refused
      if round.p.isSome then some round
      else
        let (space, rslt) := mmCreateSection ops round.space arType none
        some { round with space, rslt := some rslt }
  | answer :: answers, mm, refused => do
      let round ← askArea ops mm arType size refused
      if round.p.isSome then some round
      else
        let (space, rslt) := mmCreateSection ops round.space arType answer
        if rslt < 0 then some { round with space, rslt := some rslt }
        else retryAlloc ops arType size answers space round.refused

def mmAreaAlloc (ops : Nat → MmOps Allocator) (mm : MmSpaceImpl Allocator) (size arType : Nat)
    (answers : List (Option ShmmBlk)) : Option (Allocation Allocator) :=
  if arType ≥ mmAreaCount then some ⟨mm, none, [], none⟩
  else if (mm.areaList arType).freeSection.isNone then some ⟨mm, none, [], none⟩
  else retryAlloc ops arType size answers mm []

def mmFree (ops : Nat → MmOps Allocator) (mm : MmSpaceImpl Allocator) (p : Nat) :
    Option (MmSpaceImpl Allocator × Int) :=
  match mm.rbSearch p with
  | none => some (mm, -1)
  | some blk => do
      let sec ← mm.attached blk.shm
      let (allocator, rslt) := (ops sec.areaType).freeFunc sec.allocator p
      some (mm.setSection blk.shm (some { sec with allocator }), if rslt < 0 then -1 else rslt)

inductive Call where
  | load (opened : Bool)
  | areaAlloc (size arType : Nat) (answers : List (Option ShmmBlk))
  | free (p : Nat)
  deriving DecidableEq, Repr

/-- The trace keeps the record of the last allocation. -/
structure Trace (Allocator : Type) where
  space : MmSpaceImpl Allocator
  allocation : Option (Nat × Allocation Allocator)

/-- A call that reads a detached block has no result, nor has a load that fails. -/
def callStep (ops : Nat → MmOps Allocator) (call : Call) (trace : Trace Allocator) :
    Option (Trace Allocator) :=
  match call with
  | .load opened => do some ⟨← mmLoadArea ops trace.space opened, none⟩
  | .areaAlloc size arType answers => do
      let allocation ← mmAreaAlloc ops trace.space size arType answers
      some ⟨allocation.space, some (arType, allocation)⟩
  | .free p => do
      let (space, _) ← mmFree ops trace.space p
      some ⟨space, none⟩

end Syslib.Mmspace
