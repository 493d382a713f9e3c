import Syslib.Library.Runs
import Syslib.Misc

namespace Syslib.Stkpool

open Runs

/-- This is `struct _stkp_impl`; the low two bits of a node's word are `using`. -/
structure StkpImpl where
  stkpTag : Nat
  addrBegin : Nat
  addrEnd : Nat
  freeList : List Nat
  payloadTrunkAddr : Nat
  stkFrmSize : Nat
  stkFrmCnt : Nat
  sysPgSize : Nat
  node : Nat → Nat

/-- These fields of `struct mm_config` are for a stack pool. -/
structure StkpConfig where
  totalSize : BitVec 64
  stkFrmSize : BitVec 32
  deriving DecidableEq, Repr

/-- The memory that the pool finds: the old frame count, the page size and the answers of `mprotect`. -/
structure Ground where
  stkFrmCnt : Nat
  sysPgSize : Nat
  mprotect : Nat → Bool

/-- This is `STKP_TAG`. -/
def stkpTagWord : Nat := 0xAAFFBBEE00995577

/-- This is `MIN_STK_SIZE`. -/
def minStkSize : Nat := 0x2000

/-- The sizes of `struct _stkp_impl` and `struct _stkp_node`. -/
def implSize : Nat := 88

def nodeSize : Nat := 24

def movePtrAlign8 (ptr offset : Nat) : Nat := (ptr + offset + 7) % 2 ^ 64 &&& (2 ^ 64 - 8)

/-- A difference of addresses wraps around. -/
def wordSub (first second : Nat) : Nat := (first + 2 ^ 64 - second % 2 ^ 64) % 2 ^ 64

/-- The count goes up until nodes and frames meet, and then one back. -/
def countFrames (curPtr addrEnd frmSize : Nat) : Nat → Nat → Option Nat
  | 0, _ => none
  | rounds + 1, cnt =>
      if wordSub addrEnd (frmSize * cnt) < (curPtr + cnt * nodeSize) % 2 ^ 64 then
        some (wordSub cnt 1)
      else countFrames curPtr addrEnd frmSize rounds ((cnt + 1) % 2 ^ 64)

/-- Each frame starts with a page that is protected, and its node has the address behind that page; the
inner result is null when a page cannot be protected. -/
def fillNodes (ground : Ground) : List Nat → StkpImpl → Option (Option StkpImpl)
  | [], stkpi => some (some stkpi)
  | i :: rest, stkpi =>
      let payload := (stkpi.payloadTrunkAddr + i * stkpi.stkFrmSize) % 2 ^ 64
      if ground.mprotect payload then
        -- The index is an `int`, and its overflow is undefined.
        if i + 1 = 2 ^ 31 then none
        else fillNodes ground rest { stkpi with
          node := Function.update stkpi.node i ((payload + stkpi.sysPgSize) % 2 ^ 64)
          freeList := stkpi.freeList ++ [i] }
      else some none

/-- The inner result is null when there is no frame or when a page cannot be protected. -/
def stkpInit (rounds : Nat) (ground : Ground) (addr totalSize stkFrmSize : Nat) :
    Option (Option StkpImpl) := do
  let pgSize := ground.sysPgSize
  let frmSize := roundUp (pgSize + stkFrmSize) pgSize
  let addrEnd := roundDown ((addr + totalSize) % 2 ^ 64) frmSize
  let cnt ← countFrames (movePtrAlign8 addr implSize) addrEnd frmSize rounds ground.stkFrmCnt
  let stkpi : StkpImpl :=
    { stkpTag := stkpTagWord
      addrBegin := addr
      addrEnd
      freeList := []
      payloadTrunkAddr := wordSub addrEnd (frmSize * cnt)
      stkFrmSize := frmSize
      stkFrmCnt := cnt
      sysPgSize := pgSize
      node := fun _ => 0 }
  if cnt = 0 then some none else fillNodes ground (List.range cnt) stkpi

/-- The comparison binds before the mask, so the check looks at the lowest bit only. -/
def stkpCreate (rounds : Nat) (ground : Ground) (addr : Nat) (cfg : StkpConfig) :
    Option (Option StkpImpl) :=
  if addr = 0 ∨ addr % 2 ≠ 0 then some none
  else if cfg.stkFrmSize.toNat < minStkSize then some none
  else stkpInit rounds ground addr cfg.totalSize.toNat cfg.stkFrmSize.toNat

/-- The result is null on failure; the handle behind the tag is checked like the start of the memory. -/
def stkpLoad (word : Nat → Nat) (addr : Nat) : Nat :=
  if addr = 0 ∨ addr % 2 ≠ 0 then 0
  else if word addr ≠ stkpTagWord then 0
  else addr + 8

def stkpAlloc (stkpi : StkpImpl) : StkpImpl × Nat :=
  match stkpi.freeList with
  | [] => (stkpi, 0)
  | i :: rest =>
      let payload := stkpi.node i - stkpi.node i % 4
      ({ stkpi with freeList := rest, node := Function.update stkpi.node i (payload + 1) }, payload)

/-- A node behind the last one is outside of the array. -/
def stkpFree (stkpi : StkpImpl) (p : Nat) : Option (StkpImpl × Int) :=
  if p = 0 then some (stkpi, -1)
  else if p &&& wordSub stkpi.sysPgSize 1 ≠ 0 then some (stkpi, -1)
  else
    let p := wordSub p stkpi.sysPgSize
    if p < stkpi.payloadTrunkAddr then some (stkpi, -1)
    else
      let idx := (p - stkpi.payloadTrunkAddr) / stkpi.stkFrmSize
      if stkpi.stkFrmCnt ≤ idx then none
      else if stkpi.node idx % 4 = 0 then some (stkpi, -1)
      else
        let payload := stkpi.node idx - stkpi.node idx % 4
        some ({ stkpi with
          node := Function.update stkpi.node idx payload
          freeList := idx :: stkpi.freeList }, 0)

inductive StkpCall where
  | alloc
  | free (p : BitVec 64)
  deriving DecidableEq, Repr

def stkpRun (call : StkpCall) (stkpi : StkpImpl) : Option StkpImpl :=
  match call with
  | .alloc => some (stkpAlloc stkpi).1
  | .free p => (stkpFree stkpi p.toNat).map Prod.fst

/-- The words of a pool that was created at the address `base`. -/
def StkpImpl.words (stkpi : StkpImpl) (base : Nat) (rest : Nat → Nat) : Nat → Nat :=
  headed base stkpi.stkpTag stkpi.addrBegin stkpi.addrEnd rest

/-- Only the list and the words of the nodes may differ. -/
def StkpImpl.Kept (stkpi next : StkpImpl) : Prop :=
  next = { stkpi with freeList := next.freeList, node := next.node }

variable {stkpi next : StkpImpl} {base rounds : Nat} {ground : Ground} {cfg : StkpConfig}

theorem StkpImpl.Kept.trans {last : StkpImpl} (first : stkpi.Kept next) (second : next.Kept last) :
    stkpi.Kept last := by
  rw [StkpImpl.Kept, second, first]

theorem stkpRun_kept {call : StkpCall} (run : stkpRun call stkpi = some next) : stkpi.Kept next := by
  cases call with
  | alloc =>
      obtain rfl := Option.some.inj run
      unfold stkpAlloc
      split <;> rfl
  | free p =>
      obtain ⟨⟨pool, rslt⟩, free, rfl⟩ := Option.map_eq_some_iff.mp run
      unfold stkpFree at free
      dsimp only at free
      split_ifs at free <;> cases free <;> rfl

/-- No call writes to the structure in front of the nodes. -/
theorem stkpCalls_kept {calls : List StkpCall} (run : exec stkpRun calls stkpi = some next) :
    stkpi.Kept next := by
  induction calls generalizing stkpi with
  | nil =>
      cases run
      rfl
  | cons call rest ih =>
      obtain ⟨middle, step, run⟩ := Option.bind_eq_some_iff.mp run
      exact (stkpRun_kept step).trans (ih run)

theorem fillNodes_kept {indices : List Nat} (run : fillNodes ground indices stkpi = some (some next)) :
    stkpi.Kept next := by
  induction indices generalizing stkpi with
  | nil =>
      cases run
      rfl
  | cons i rest ih =>
      simp only [fillNodes] at run
      split_ifs at run
      · refine StkpImpl.Kept.trans ?_ (ih run)
        rfl
      · cases run

/-- The creation takes an even address and stores it behind the tag. -/
theorem stkpCreate_begin (made : stkpCreate rounds ground base cfg = some (some stkpi)) :
    base ≠ 0 ∧ base % 2 = 0 ∧ stkpi.stkpTag = stkpTagWord ∧ stkpi.addrBegin = base := by
  unfold stkpCreate at made
  split_ifs at made with refused small
  · simp at made
  · simp at made
  · simp only [stkpInit, Option.bind_eq_bind, Option.bind_eq_some_iff] at made
    obtain ⟨cnt, -, made⟩ := made
    split_ifs at made with empty
    · cases made
    · have kept := fillNodes_kept made
      refine ⟨by omega, by omega, ?_, ?_⟩
      · rw [kept]
      · rw [kept]

/-- The word behind the tag is the start address, which is even, and the tag is odd. -/
theorem stkpLoad_handle {calls : List StkpCall} (rest : Nat → Nat)
    (made : stkpCreate rounds ground base cfg = some (some stkpi))
    (run : exec stkpRun calls stkpi = some next) : stkpLoad (next.words base rest) (base + 8) = 0 := by
  obtain ⟨-, even, -, begin_⟩ := stkpCreate_begin made
  have kept : next.addrBegin = base := by
    rw [stkpCalls_kept run]
    exact begin_
  have other : base ≠ stkpTagWord := by
    rintro rfl
    exact absurd even (by decide)
  rw [stkpLoad, if_neg (by omega), StkpImpl.words, headed_begin, kept, if_pos other]

end Syslib.Stkpool
