import Syslib.Mmspace.LedgerCalls
import Syslib.Mmspace.PoolRules
import Syslib.Mmspace.Restart

namespace Syslib.Mmspace

open Mmpool Pgpool Stkpool Runs

/-- A section has a pool of one of the three kinds. -/
inductive PoolImpl where
  | mmpool (pool : Option MmpoolImpl)
  | pgpool (pool : Option PgpoolImpl)
  | stkpool (pool : Option StkpImpl)

namespace PoolImpl

def toMmpool : PoolImpl → Option (Option MmpoolImpl)
  | .mmpool pool => some pool
  | _ => none

def toPgpool : PoolImpl → Option (Option PgpoolImpl)
  | .pgpool pool => some pool
  | _ => none

def toStkpool : PoolImpl → Option (Option StkpImpl)
  | .stkpool pool => some pool
  | _ => none

/-- No call has faulted in the pool. -/
def intact : PoolImpl → Bool
  | .mmpool pool => pool.isSome
  | .pgpool pool => pool.isSome
  | .stkpool pool => pool.isSome

end PoolImpl

section Embedding

variable {Inner Outer : Type} {config : MmConfig}

/-- The functions of one kind of pool among the other kinds; they get no pool of another kind. -/
def MmOps.embed (ops : MmOps Inner) (wrap : Inner → Outer) (unwrap : Outer → Option Inner) : MmOps Outer where
  createFunc := fun addr config => (ops.createFunc addr config).map wrap
  loadFunc := fun pool => ((unwrap pool).bind ops.loadFunc).map wrap
  allocFunc := fun pool size =>
    match unwrap pool with
    | none => (pool, none)
    | some inner => (wrap (ops.allocFunc inner size).1, (ops.allocFunc inner size).2)
  freeFunc := fun pool p =>
    match unwrap pool with
    | none => (pool, -1)
    | some inner => (wrap (ops.freeFunc inner p).1, (ops.freeFunc inner p).2)

def PoolRules.embed {ops : MmOps Inner} (rules : PoolRules ops config) {wrap : Inner → Outer}
    {unwrap : Outer → Option Inner} (back : ∀ inner, unwrap (wrap inner) = some inner) :
    PoolRules (ops.embed wrap unwrap) config where
  holds := fun base pool live => ∃ inner, pool = wrap inner ∧ rules.holds base inner live
  bytes := rules.bytes
  mayCreate := rules.mayCreate
  mayAlloc := rules.mayAlloc
  mayFree := fun pool p => ∀ inner ∈ unwrap pool, rules.mayFree inner p
  created := fun may => by
    obtain ⟨inner, made, holds⟩ := rules.created may
    exact ⟨wrap inner, by simp [MmOps.embed, made], inner, rfl, holds⟩
  asked := by
    rintro base size - live ⟨inner, rfl, holds⟩ may
    obtain ⟨next, p, ran, after⟩ := rules.asked holds may
    exact ⟨wrap next, p, by simp only [MmOps.embed, back, ran], next, rfl, after⟩
  freed := by
    rintro base p - live ⟨inner, rfl, holds⟩ held may
    obtain ⟨next, ran, after⟩ := rules.freed holds held (may inner (back inner))
    exact ⟨wrap next, by simp only [MmOps.embed, back, ran], next, rfl, after⟩
  inside := by
    rintro base - live ⟨inner, rfl, holds⟩
    exact rules.inside holds
  apart := by
    rintro base - live ⟨inner, rfl, holds⟩
    exact rules.apart holds

end Embedding

def kindOps (env : Surroundings) : PoolKind → MmOps PoolImpl
  | .mmpool => (mmpOps env.outside).embed .mmpool PoolImpl.toMmpool
  | .pgpool => (pgpOps env).embed .pgpool PoolImpl.toPgpool
  | .stkpool => (stkpOps env).embed .stkpool PoolImpl.toStkpool

/-- This is `__mm_area_ops`. -/
def areaOps (env : Surroundings) (arType : Nat) : MmOps PoolImpl := kindOps env (areaKind arType)

def kindRules (env : Surroundings) (config : MmConfig) : (kind : PoolKind) → PoolRules (kindOps env kind) config
  | .mmpool => (mmpRules env.outside config).embed fun _ => rfl
  | .pgpool => (pgpRules env config).embed fun _ => rfl
  | .stkpool => (stkpRules env config).embed fun _ => rfl

def areaRules (env : Surroundings) (cfg : MmSpaceConfig) : AreaRules (areaOps env) cfg := fun arType =>
  kindRules env (cfg.mmCfg arType) (areaKind arType)

/-- The memory behind a section head has room for a pool. -/
def MayCreate (env : Surroundings) (config : MmConfig) (base : Nat) : PoolKind → Prop
  | .mmpool => MmpReady env.outside config base
  | .pgpool => PgpReady env config base
  | .stkpool => StkpReady env config base

instance (env : Surroundings) (config : MmConfig) (base : Nat) :
    (kind : PoolKind) → Decidable (MayCreate env config base kind)
  | .mmpool => inferInstanceAs (Decidable (MmpReady env.outside config base))
  | .pgpool => inferInstanceAs (Decidable (PgpReady env config base))
  | .stkpool => inferInstanceAs (Decidable (StkpReady env config base))

/-- A page pool is only asked for sizes that it can list. -/
def MayAlloc (config : MmConfig) (size : Nat) : PoolKind → Prop
  | .mmpool => size < 2 ^ 64
  | .pgpool => PgpFits config size
  | .stkpool => True

instance (config : MmConfig) (size : Nat) : (kind : PoolKind) → Decidable (MayAlloc config size kind)
  | .mmpool => inferInstanceAs (Decidable (size < 2 ^ 64))
  | .pgpool => inferInstanceAs (Decidable (PgpFits config size))
  | .stkpool => isTrue trivial

/-- A buddy pool does not merge the block at the start of its chunk with itself, and a page pool has not more nodes
than its tree can count. -/
def MayFree (p : Nat) : PoolImpl → Prop
  | .mmpool pool => ∀ mmpi ∈ pool, mmpi.Spared (p - headSize)
  | .pgpool pool => ∀ pgpi ∈ pool, pgpi.Few
  | .stkpool _ => True

instance (p : Nat) : (pool : PoolImpl) → Decidable (MayFree p pool)
  | .mmpool pool => inferInstanceAs (Decidable (∀ mmpi ∈ pool, mmpi.Spared (p - headSize)))
  | .pgpool pool => inferInstanceAs (Decidable (∀ pgpi ∈ pool, pgpi.maxpgCount = 1 ∨ _ ≤ _))
  | .stkpool _ => isTrue trivial

/-- The kernel gives a block in which the area can create a pool. -/
def Offered (env : Surroundings) (cfg : MmSpaceConfig) (arType : Nat) (blk : ShmmBlk) : Prop :=
  blk.Ready (cfg.mmCfg arType).totalSize fun base => MayCreate env (cfg.mmCfg arType) base (areaKind arType)

instance (env : Surroundings) (cfg : MmSpaceConfig) (arType : Nat) (blk : ShmmBlk) :
    Decidable (Offered env cfg arType blk) :=
  decidable_of_iff (blk.beginAddr = blk.shm + 4096 ∧ (blk.shm % 4096 = 8 ∧ blk.endAddr % 4096 = 8) ∧
      blk.beginAddr + (cfg.mmCfg arType).totalSize ≤ blk.endAddr ∧
      MayCreate env (cfg.mmCfg arType) (blk.beginAddr + 16) (areaKind arType))
    ⟨fun ⟨begins, paged, large, may⟩ => ⟨begins, paged, large, may⟩,
      fun offered => ⟨offered.begins, offered.paged, offered.large, offered.may⟩⟩

def Servable (cfg : MmSpaceConfig) (arType size : Nat) : Prop := MayAlloc (cfg.mmCfg arType) size (areaKind arType)

/-- The kernel's blocks lie apart from each other and from the sections, and pools can be created in them. -/
def SpaceCall.Orderly (env : Surroundings) (cfg : MmSpaceConfig) (call : SpaceCall) (heap : SpaceHeap PoolImpl) : Prop :=
  match call with
  | .alloc size answers =>
      size ≠ 0 → Servable cfg (allocArea heap.space size) size ∧
        (∀ answer ∈ answers, ∀ blk ∈ answer, Offered env cfg (allocArea heap.space size) blk) ∧
        Placed heap.space.allSectionTree answers
  | .areaAlloc size arType answers =>
      arType < mmAreaCount → Servable cfg arType size ∧
        (∀ answer ∈ answers, ∀ blk ∈ answer, Offered env cfg arType blk) ∧ Placed heap.space.allSectionTree answers
  | .free p =>
      p ∈ heap.live.map Prod.fst ∧ ∀ blk ∈ heap.space.rbSearch p, ∀ sec ∈ heap.space.attached blk.shm,
        MayFree p sec.allocator

instance (env : Surroundings) (cfg : MmSpaceConfig) :
    (call : SpaceCall) → (heap : SpaceHeap PoolImpl) → Decidable (call.Orderly env cfg heap)
  | .alloc size answers, heap => inferInstanceAs (Decidable (size ≠ 0 →
      MayAlloc _ _ _ ∧ (∀ answer ∈ answers, ∀ blk ∈ answer, Offered env cfg (allocArea heap.space size) blk) ∧ Placed _ _))
  | .areaAlloc _ arType answers, _ => inferInstanceAs (Decidable (arType < mmAreaCount →
      MayAlloc _ _ _ ∧ (∀ answer ∈ answers, ∀ blk ∈ answer, Offered env cfg arType blk) ∧ Placed _ _))
  | .free p, heap => inferInstanceAs (Decidable (p ∈ heap.live.map Prod.fst ∧ ∀ blk ∈ heap.space.rbSearch p,
      ∀ sec ∈ heap.space.attached blk.shm, MayFree p sec.allocator))

/-- No pool has faulted, no two blocks share a byte, each block lies in the section of one pool and in front of the
end of its segment, and a release succeeds. -/
structure Disjoint (env : Surroundings) (heap : SpaceHeap PoolImpl) : Prop where
  unfaulted : ∀ {shm sec}, heap.space.attached shm = some sec → sec.allocator.intact
  apart : heap.live.Pairwise Clear
  owned : ∀ entry ∈ heap.live, ∃ blk ∈ heap.space.allSectionTree, heap.space.rbSearch entry.1 = some blk ∧
    (heap.space.attached blk.shm).isSome ∧ blk.beginAddr + 16 ≤ entry.1 ∧ entry.1 + entry.2 + 8 ≤ blk.endAddr
  freed : ∀ entry ∈ heap.live, (∀ blk ∈ heap.space.rbSearch entry.1, ∀ sec ∈ heap.space.attached blk.shm,
    MayFree entry.1 sec.allocator) → ∃ next, mmFree (areaOps env) heap.space entry.1 = some (next, 0)

variable {env : Surroundings} {cfg : MmSpaceConfig} {arType base size p : Nat} {pool : PoolImpl}
  {heap : SpaceHeap PoolImpl} {answers : List (Option ShmmBlk)} {mm : MmSpaceImpl PoolImpl}

theorem MayCreate.rule {config : MmConfig} {kind : PoolKind} (may : MayCreate env config base kind) :
    (kindRules env config kind).mayCreate base := by
  cases kind <;> exact may

theorem MayAlloc.rule {config : MmConfig} {kind : PoolKind} (may : MayAlloc config size kind) :
    (kindRules env config kind).mayAlloc size := by
  cases kind <;> exact may

/-- A pool of another kind is none of the area's. -/
theorem MayFree.rule {config : MmConfig} {kind : PoolKind} (may : MayFree p pool) :
    (kindRules env config kind).mayFree pool p := by
  cases kind <;> cases pool <;> rintro inner ⟨⟩ <;> exact may

theorem intact_of_holds {config : MmConfig} {kind : PoolKind} {live : List (Nat × Nat)}
    (holds : (kindRules env config kind).holds base pool live) : pool.intact := by
  cases kind <;> obtain ⟨inner, rfl, standing, rfl, -⟩ := holds <;> rfl

theorem Offered.rule {blk : ShmmBlk} (offered : Offered env cfg arType blk) :
    blk.Ready (cfg.mmCfg arType).totalSize (areaRules env cfg arType).mayCreate :=
  ⟨offered.begins, offered.paged, offered.large, offered.may.rule⟩

theorem SpaceCall.Orderly.allowed {call : SpaceCall} (orderly : call.Orderly env cfg heap) :
    call.Allowed (areaRules env cfg) heap := by
  cases call with
  | alloc size answers =>
      intro positive
      obtain ⟨may, offered, placed⟩ := orderly positive
      exact ⟨may.rule, fun blk given => (offered _ given blk rfl).rule, placed⟩
  | areaAlloc size arType answers =>
      intro known
      obtain ⟨may, offered, placed⟩ := orderly known
      exact ⟨may.rule, fun blk given => (offered _ given blk rfl).rule, placed⟩
  | free p => exact ⟨orderly.1, fun blk found sec held => (orderly.2 blk found sec held).rule⟩

theorem Tracked.disjoint (tracked : Tracked (areaRules env cfg) (List.range mmAreaCount) heap) : Disjoint env heap := by
  refine ⟨fun held => ?_, tracked.apart, fun entry inside => ?_, fun entry inside may => ?_⟩
  · obtain ⟨blk, -, -, -, holds⟩ := tracked.attached held
    exact intact_of_holds holds
  · obtain ⟨blk, member, found, held, -, low, high⟩ := tracked.bounds inside
    exact ⟨blk, member, found, held, low, high⟩
  · obtain ⟨next, freed, -⟩ := Tracked.mmFree tracked (List.mem_map_of_mem inside) fun blk found sec held =>
      (may blk found sec held).rule
    exact ⟨next, freed⟩

end Syslib.Mmspace
