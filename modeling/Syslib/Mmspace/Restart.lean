import Syslib.Mmpool.Load
import Syslib.Mmspace.Startup
import Syslib.Pgpool.Load
import Syslib.Stkpool.Model

namespace Syslib.Mmspace

open Runs Mmpool Pgpool Stkpool

inductive PoolKind where
  | mmpool
  | pgpool
  | stkpool
  deriving DecidableEq, Repr

/-- This is the table `__mm_area_ops`. -/
def areaKind : Nat → PoolKind
  | 0 => .mmpool
  | 1 => .pgpool
  | 2 => .pgpool
  | 3 => .mmpool
  | _ => .stkpool

/-- `MM_AREA_STACK` is the last area. -/
def mmAreaStack : Nat := 4

inductive Pool where
  | mmpool (mmpi : MmpoolImpl)
  | pgpool (state : PgpState)
  | stkpool (stkpi : StkpImpl)

def Pool.kind : Pool → PoolKind
  | .mmpool _ => .mmpool
  | .pgpool _ => .pgpool
  | .stkpool _ => .stkpool

/-- The memory from the address `base` on has the structure of the pool at its start. -/
def Pool.words (base : Nat) (rest : Nat → Nat) : Pool → Nat → Nat
  | .mmpool mmpi => mmpi.words base rest
  | .pgpool state => state.pool.words base rest
  | .stkpool stkpi => stkpi.words base rest

/-- The load functions only read; the word `stale` is the unset local of `pgp_load`. -/
def loadFunc (stale : Nat) (word : Nat → Nat) (addr : Nat) : PoolKind → Option Nat
  | .mmpool => mmpLoad word addr
  | .pgpool => pgpLoad stale word addr
  | .stkpool => some (stkpLoad word addr)

/-- The pool was created at the address `base`, and then it took any calls. -/
inductive Pool.Reached (base : Nat) : Pool → Prop where
  | mmpool {outside : Nat → Word} {label : Nat} {cfg : MmpConfig} {calls : List MmpCall}
      {created mmpi : MmpoolImpl} (made : mmpCreate outside label base cfg = some (some created))
      (top : base + cfg.totalSize.toNat + 8 ≤ 2 ^ 64)
      (run : exec mmpRun calls created = some mmpi) : Pool.Reached base (.mmpool mmpi)
  | pgpool {junk : Junk} {rslt : Int} {cfg : PgpConfig} {calls : List PgpCall}
      {created : PgpoolImpl} {state : PgpState}
      (made : pgpCreate junk rslt base cfg = some (some created))
      (inside : base + Pgpool.implSize ≤ created.addrEnd)
      (run : exec pgpStep calls ⟨created, []⟩ = some state) : Pool.Reached base (.pgpool state)
  | stkpool {rounds : Nat} {ground : Ground} {cfg : StkpConfig} {calls : List StkpCall}
      {created stkpi : StkpImpl} (made : stkpCreate rounds ground base cfg = some (some created))
      (run : exec stkpRun calls created = some stkpi) : Pool.Reached base (.stkpool stkpi)

/-- A section keeps the handle of its allocator, and the pool is the memory behind its head. -/
structure AreaPool where
  base : Nat
  handle : Nat
  rest : Nat → Nat
  pool : Pool

/-- The load function of the area gives the new handle; a null handle ends the start. -/
def areaLoad (stale arType : Nat) (allocator : AreaPool) : Option AreaPool := do
  let handle ← loadFunc stale (allocator.pool.words allocator.base allocator.rest) allocator.handle
    (areaKind arType)
  if handle = 0 then none else some { allocator with handle }

/-- The other functions of the table are not called at a restart. -/
def loading (stale : Nat) (ops : Nat → MmOps AreaPool) (arType : Nat) : MmOps AreaPool :=
  { ops arType with loadFunc := areaLoad stale arType }

/-- This is `mm_initialize` where the space can be opened; the global pointer is still null. -/
def mmReopen (ops : Nat → MmOps AreaPool) (cfg : MmSpaceConfig) (mm : MmSpaceImpl AreaPool)
    (segments : List Nat) (opened : Bool) : Startup AreaPool :=
  if cfg.maxShmmCount ≤ 0 then startFailed segments
  else
    match mmLoadArea ops mm opened with
    | none => startFailed segments
    | some mm => ⟨some mm, segments, 0⟩

/-- The section has a pool of the kind of its area, with the handle that the creation returned. -/
structure Holding (arType : Nat) (allocator : AreaPool) : Prop where
  kind : allocator.pool.kind = areaKind arType
  reached : allocator.pool.Reached allocator.base
  handle : allocator.handle = allocator.base + 8

/-- Every listed section is attached and has its pool. -/
def Built (mm : MmSpaceImpl AreaPool) : Prop :=
  ∀ arType < mmAreaCount, ∀ shm ∈ (mm.areaList arType).sectionList,
    ∃ sec, mm.attached shm = some sec ∧ Holding arType sec.allocator

variable {stale base arType : Nat} {rest : Nat → Nat} {pool : Pool} {allocator : AreaPool}
  {mm : MmSpaceImpl AreaPool}

/-- A load gives back the handle of each pool but a stack pool, whose load fails. -/
theorem loadFunc_handle (stale : Nat) (rest : Nat → Nat) (reached : pool.Reached base) :
    loadFunc stale (pool.words base rest) (base + 8) pool.kind =
      some (if pool.kind = .stkpool then 0 else base + 8) := by
  cases reached with
  | mmpool made top run => exact mmpLoad_handle rest made top run
  | pgpool made inside run =>
      have room : base + 8 < _ := lt_of_lt_of_le (Nat.add_lt_add_left (by decide) base) inside
      exact pgpLoad_handle stale rest made room run
  | stkpool made run => exact congrArg some (stkpLoad_handle rest made run)

theorem areaLoad_holding (stale : Nat) (holding : Holding arType allocator) :
    areaLoad stale arType allocator = if areaKind arType = .stkpool then none else some allocator := by
  have loaded := loadFunc_handle stale allocator.rest holding.reached
  rw [holding.kind, ← holding.handle] at loaded
  simp only [areaLoad, loaded, Option.bind_eq_bind, Option.bind_some]
  have real : allocator.handle ≠ 0 := by
    rw [holding.handle]
    exact Nat.succ_ne_zero _
  split_ifs <;> simp_all

/-- A load that gives back the handle leaves the section as it was. -/
theorem loadSections_same (ops : Nat → MmOps AreaPool) (kept : areaKind arType ≠ .stkpool)
    (list : List Nat) (held : ∀ shm ∈ list, ∃ sec, mm.attached shm = some sec ∧ Holding arType sec.allocator) :
    loadSections (loading stale ops arType) list mm = some mm := by
  induction list with
  | nil => rfl
  | cons shm rest ih =>
      obtain ⟨sec, attached, holding⟩ := held shm List.mem_cons_self
      have loaded : (loading stale ops arType).loadFunc sec.allocator = some sec.allocator :=
        (areaLoad_holding stale holding).trans (if_neg kept)
      have same : mm.setSection shm (some sec) = mm := by
        rw [MmSpaceImpl.setSection, ← attached, Function.update_eq_self]
      simp only [loadSections, attached, loaded, Option.bind_eq_bind, Option.bind_some, same]
      exact ih fun other member => held other (List.mem_cons_of_mem _ member)

/-- The first section with a stack pool ends the loop. -/
theorem loadSections_stack (ops : Nat → MmOps AreaPool) (stack : areaKind arType = .stkpool)
    {shm : Nat} (list : List Nat) {sec : MmSectionImpl AreaPool} (attached : mm.attached shm = some sec)
    (holding : Holding arType sec.allocator) :
    loadSections (loading stale ops arType) (shm :: list) mm = none := by
  have failed : (loading stale ops arType).loadFunc sec.allocator = none :=
    (areaLoad_holding stale holding).trans (if_pos stack)
  simp [loadSections, attached, failed]

/-- Every area before the stack area is loaded unchanged, and so is an empty stack area. -/
theorem mmLoadArea_built (stale : Nat) (ops : Nat → MmOps AreaPool) (built : Built mm) :
    mmLoadArea (loading stale ops) mm true =
      if (mm.areaList mmAreaStack).sectionList = [] then some mm else none := by
  have quiet (arType : Nat) (known : arType < mmAreaCount) (kept : areaKind arType ≠ .stkpool) :
      loadSections (loading stale ops arType) (mm.areaList arType).sectionList mm = some mm :=
    loadSections_same ops kept _ (built arType known)
  have nubble := quiet 0 (by decide) (by decide)
  have page := quiet 1 (by decide) (by decide)
  have cache := quiet 2 (by decide) (by decide)
  have persis := quiet 3 (by decide) (by decide)
  have areas : List.range mmAreaCount = [0, 1, 2, 3, mmAreaStack] := by decide
  rw [mmLoadArea, if_pos rfl, areas]
  simp only [loadAreas, nubble, page, cache, persis, Option.bind_eq_bind, Option.bind_some]
  cases listed : (mm.areaList mmAreaStack).sectionList with
  | nil => rfl
  | cons shm rest =>
      obtain ⟨sec, attached, holding⟩ := built mmAreaStack (by decide) shm
        (by rw [listed]; exact List.mem_cons_self)
      rw [loadSections_stack ops rfl rest attached holding]
      rfl

/-- A restart finds a pool or a space as it was exactly when there is no stack pool in it. -/
theorem restart_same (stale : Nat) :
    (∀ (rest : Nat → Nat) (base : Nat) (pool : Pool), pool.Reached base →
      (loadFunc stale (pool.words base rest) (base + 8) pool.kind = some (base + 8) ↔
        pool.kind ≠ .stkpool)) ∧
      ∀ (ops : Nat → MmOps AreaPool) (cfg : MmSpaceConfig) (mm : MmSpaceImpl AreaPool)
        (segments : List Nat), 0 < cfg.maxShmmCount → Built mm →
        (mmReopen (loading stale ops) cfg mm segments true = ⟨some mm, segments, 0⟩ ↔
          (mm.areaList mmAreaStack).sectionList = []) := by
  constructor
  · intro rest base pool reached
    rw [loadFunc_handle stale rest reached]
    by_cases stack : pool.kind = .stkpool
    · simp [stack]
    · simp [stack]
  · intro ops cfg mm segments positive built
    rw [mmReopen, if_neg (by omega), mmLoadArea_built stale ops built]
    by_cases empty : (mm.areaList mmAreaStack).sectionList = []
    · simp [empty]
    · simp [empty, startFailed]

/-- Each of the listed areas has one section, which lies in the block with the next number. -/
def areasSpace (types : List Nat) (allocator : Nat → AreaPool) : MmSpaceImpl AreaPool where
  nextShmmKey := types.length
  totalShmmCount := types.length
  cfg := smallSpace
  areaList := fun arType => if arType ∈ types then ⟨[arType + 1], some (arType + 1)⟩ else ⟨[], none⟩
  allSectionTree := []
  shmmSaveList := types.map fun arType => ⟨arType + 1, arType + 1, 4096⟩
  attached := fun shm => some ⟨shm - 1, allocator (shm - 1)⟩

theorem areasSpace_built {types : List Nat} {allocator : Nat → AreaPool}
    (holding : ∀ arType ∈ types, Holding arType (allocator arType)) :
    Built (areasSpace types allocator) := by
  intro arType known shm listed
  by_cases inside : arType ∈ types
  · obtain rfl : shm = arType + 1 := by simpa [areasSpace, inside] using listed
    exact ⟨⟨arType, allocator arType⟩, rfl, holding arType inside⟩
  · simp [areasSpace, inside] at listed

theorem mmpool_made : ∃ mmpi, mmpCreate (fun _ => ⟨0, 0⟩) 0 4096 ⟨640, 5, 6⟩ = some (some mmpi) := by
  have made : (mmpCreate (fun _ => ⟨0, 0⟩) 0 4096 ⟨640, 5, 6⟩).join.isSome := by decide +kernel
  obtain ⟨mmpi, same⟩ := Option.isSome_iff_exists.mp made
  exact ⟨mmpi, Option.join_eq_some_iff.mp same⟩

theorem pgpool_made : ∃ pgpi, pgpCreate ⟨0, 0, 0, 0, 0⟩ 0 64 ⟨1152, 64, 3⟩ = some (some pgpi) ∧
    64 + Pgpool.implSize ≤ pgpi.addrEnd := by
  have made : ∃ pgpi ∈ (pgpCreate ⟨0, 0, 0, 0, 0⟩ 0 64 ⟨1152, 64, 3⟩).join,
      64 + Pgpool.implSize ≤ pgpi.addrEnd := by decide +kernel
  obtain ⟨pgpi, same, inside⟩ := made
  exact ⟨pgpi, Option.join_eq_some_iff.mp same, inside⟩

theorem stkpool_made : ∃ stkpi,
    stkpCreate 20 ⟨0, 4096, fun _ => true⟩ 1048576 ⟨65536, 8192⟩ = some (some stkpi) := by
  have made : (stkpCreate 20 ⟨0, 4096, fun _ => true⟩ 1048576 ⟨65536, 8192⟩).join.isSome := by
    decide +kernel
  obtain ⟨stkpi, same⟩ := Option.isSome_iff_exists.mp made
  exact ⟨stkpi, Option.join_eq_some_iff.mp same⟩

/-- A fresh pool for each area. -/
theorem areas_made : ∃ allocator : Nat → AreaPool, ∀ arType, Holding arType (allocator arType) := by
  obtain ⟨mmpi, small⟩ := mmpool_made
  obtain ⟨pgpi, pages, inside⟩ := pgpool_made
  obtain ⟨stkpi, frames⟩ := stkpool_made
  refine ⟨fun arType => match areaKind arType with
    | .mmpool => ⟨4096, 4104, fun _ => 0, .mmpool mmpi⟩
    | .pgpool => ⟨64, 72, fun _ => 0, .pgpool ⟨pgpi, []⟩⟩
    | .stkpool => ⟨1048576, 1048584, fun _ => 0, .stkpool stkpi⟩, fun arType => ?_⟩
  cases kind : areaKind arType with
  | mmpool =>
      simp only [kind]
      have top : 4096 + (640#64).toNat + 8 ≤ 2 ^ 64 := by decide
      exact ⟨kind.symm, .mmpool small top (show exec mmpRun [] mmpi = some mmpi from rfl), rfl⟩
  | pgpool =>
      simp only [kind]
      exact ⟨kind.symm, .pgpool pages inside (show exec pgpStep [] ⟨pgpi, []⟩ = _ from rfl), rfl⟩
  | stkpool =>
      simp only [kind]
      exact ⟨kind.symm, .stkpool frames (show exec stkpRun [] stkpi = _ from rfl), rfl⟩

/-- The nubble pool is found at its handle, and the four areas without stacks are found again. -/
theorem restart_same_four : ∃ allocator : Nat → AreaPool,
    loadFunc 0 ((allocator 0).pool.words (allocator 0).base fun _ => 0) ((allocator 0).base + 8)
        (allocator 0).pool.kind = some ((allocator 0).base + 8) ∧
      mmReopen (loading 0 fun _ => ⟨fun _ _ => none, some, fun pool _ => (pool, none), fun pool _ => (pool, -1)⟩)
        smallSpace (areasSpace [0, 1, 2, 3] allocator) [1, 2, 3, 4] true =
          ⟨some (areasSpace [0, 1, 2, 3] allocator), [1, 2, 3, 4], 0⟩ := by
  obtain ⟨allocator, holding⟩ := areas_made
  refine ⟨allocator, ((restart_same 0).1 _ _ _ (holding 0).reached).mpr ?_,
    ((restart_same 0).2 _ _ _ _ (by decide) (areasSpace_built fun arType _ => holding arType)).mpr rfl⟩
  rw [(holding 0).kind]
  decide

/-- The stack pool is not found at its handle, and a space with all five areas is not opened again. -/
theorem restart_lost : ∃ allocator : Nat → AreaPool, (∀ arType, Holding arType (allocator arType)) ∧
    loadFunc 0 ((allocator 4).pool.words (allocator 4).base fun _ => 0) ((allocator 4).base + 8)
        (allocator 4).pool.kind = some 0 ∧
      (mmReopen (loading 0 fun _ => ⟨fun _ _ => none, some, fun pool _ => (pool, none), fun pool _ => (pool, -1)⟩)
        smallSpace (areasSpace [0, 1, 2, 3, 4] allocator) [1, 2, 3, 4, 5] true).rslt = -1 := by
  obtain ⟨allocator, holding⟩ := areas_made
  refine ⟨allocator, holding, ?_, ?_⟩
  · rw [loadFunc_handle 0 _ (holding 4).reached, (holding 4).kind]
    rfl
  · rw [mmReopen, mmLoadArea_built 0 _ (areasSpace_built fun arType _ => holding arType)]
    rfl

end Syslib.Mmspace
