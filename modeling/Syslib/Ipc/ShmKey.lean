import Mathlib.Data.BitVec
import Syslib.Ipc.Channel

namespace Syslib.Ipc

/-- These are the values of `enum MM_SHM_TYPE`. -/
def mmShmMemorySpace : BitVec 32 := 0

def mmShmIpc : BitVec 32 := 1

def mmShmCount : BitVec 32 := 2

def shmTypeShift : Nat := 28

def shmSysidShift : Nat := 16

/-- The arguments are two `int` and the union `shmm_sub_key`, which is an `unsigned short`. -/
structure KeyArgs where
  shmType : BitVec 32
  sysId : BitVec 32
  subKey : BitVec 16
  deriving DecidableEq, Repr

/-- The index is the first byte of the union and the type is the second one. -/
def areaSubKey (arType arIdx : BitVec 8) : BitVec 16 := arType ++ arIdx

/-- The assignment to the union keeps the low half of the channel. -/
def channelSubKey (channelId : BitVec 32) : BitVec 16 := channelId.setWidth 16

/-- The two checks on the arguments; the bound of the second one has one bit more than the field. -/
def KeyArgs.Accepted (args : KeyArgs) : Prop :=
  args.shmType.slt mmShmCount ∧
    (args.sysId.sle (1#32 <<< (shmTypeShift - shmSysidShift + 1) - 1#32))

instance (args : KeyArgs) : Decidable args.Accepted := inferInstanceAs (Decidable (_ ∧ _))

/-- The shifts in the result are written as numbers. -/
def mmCreateShmKey (args : KeyArgs) : BitVec 32 :=
  if args.Accepted then args.shmType <<< 28 + args.sysId <<< 16 + args.subKey.setWidth 32 else -1#32

/-- The key that `ipc_create` asks for. -/
def channelKey (channelId : BitVec 32) : BitVec 32 :=
  mmCreateShmKey ⟨mmShmIpc, 0, channelSubKey channelId⟩

/-- The key that `_mm_create_section` asks for. -/
def sectionKey (sysShmmKey : BitVec 32) (arType arIdx : BitVec 8) : BitVec 32 :=
  mmCreateShmKey ⟨mmShmMemorySpace, sysShmmKey, areaSubKey arType arIdx⟩

/-- The arguments are accepted, and neither `int` is negative. -/
structure KeyArgs.Legal (args : KeyArgs) : Prop where
  accepted : args.Accepted
  shmType : args.shmType.msb = false
  sysId : args.sysId.msb = false

/-- A section whose system id reaches into the type field has the sub key of a channel. -/
def KeyArgs.Meets (spaceArgs ipcArgs : KeyArgs) : Prop :=
  spaceArgs.shmType = mmShmMemorySpace ∧ ipcArgs.shmType = mmShmIpc ∧
    spaceArgs.sysId = ipcArgs.sysId + 2 ^ (shmTypeShift - shmSysidShift) ∧
    spaceArgs.subKey = ipcArgs.subKey

theorem sysId_limit : (1#32 <<< (shmTypeShift - shmSysidShift + 1) - 1#32).toInt = 2 ^ 13 - 1 := by
  decide

/-- Legal arguments have two types and 13 bits of the system id. -/
theorem KeyArgs.Legal.ranges {args : KeyArgs} (legal : args.Legal) :
    args.shmType.toNat < 2 ∧ args.sysId.toNat < 2 ^ 13 := by
  obtain ⟨⟨typeBound, idBound⟩, typeSign, idSign⟩ := legal
  have count : mmShmCount.toInt = 2 := by decide
  rw [BitVec.slt_iff_toInt_lt, count, BitVec.toInt_eq_toNat_of_msb typeSign] at typeBound
  rw [BitVec.sle_iff_toInt_le, sysId_limit, BitVec.toInt_eq_toNat_of_msb idSign] at idBound
  omega

theorem ipcArgs_legal (subKey : BitVec 16) : KeyArgs.Legal ⟨mmShmIpc, 0, subKey⟩ where
  accepted := ⟨rfl, rfl⟩
  shmType := show mmShmIpc.msb = false by decide
  sysId := show (0 : BitVec 32).msb = false by decide

theorem spaceArgs_legal {sysShmmKey : BitVec 32} (sign : sysShmmKey.msb = false)
    (bound : sysShmmKey.toNat < 2 ^ 13) (subKey : BitVec 16) :
    KeyArgs.Legal ⟨mmShmMemorySpace, sysShmmKey, subKey⟩ where
  accepted := by
    refine ⟨rfl, ?_⟩
    rw [BitVec.sle_iff_toInt_le, sysId_limit, BitVec.toInt_eq_toNat_of_msb sign]
    omega
  shmType := show mmShmMemorySpace.msb = false by decide
  sysId := sign

/-- Nothing of the sum is lost, and the sign bit stays clear. -/
theorem mmCreateShmKey_toNat {args : KeyArgs} (legal : args.Legal) :
    (mmCreateShmKey args).toNat =
      args.shmType.toNat * 2 ^ 28 + args.sysId.toNat * 2 ^ 16 + args.subKey.toNat := by
  obtain ⟨typeBound, idBound⟩ := legal.ranges
  have subBound := args.subKey.isLt
  rw [mmCreateShmKey, if_pos legal.accepted]
  simp only [BitVec.toNat_add, BitVec.toNat_shiftLeft, BitVec.toNat_setWidth, Nat.shiftLeft_eq]
  omega

theorem mmCreateShmKey_msb {args : KeyArgs} (legal : args.Legal) : (mmCreateShmKey args).msb = false := by
  obtain ⟨typeBound, idBound⟩ := legal.ranges
  have subBound := args.subKey.isLt
  have key := mmCreateShmKey_toNat legal
  rw [BitVec.msb_eq_false_iff_two_mul_lt]
  omega

/-- Two triples share a key only through the bit that the system id has too much. -/
theorem mmCreateShmKey_eq_iff {first second : KeyArgs} (legal : first.Legal ∧ second.Legal) :
    mmCreateShmKey first = mmCreateShmKey second ↔
      first = second ∨ first.Meets second ∨ second.Meets first := by
  obtain ⟨firstType, firstId⟩ := legal.1.ranges
  obtain ⟨secondType, secondId⟩ := legal.2.ranges
  have firstKey := mmCreateShmKey_toNat legal.1
  have secondKey := mmCreateShmKey_toNat legal.2
  have firstSub := first.subKey.isLt
  have secondSub := second.subKey.isLt
  obtain ⟨type, id, sub⟩ := first
  obtain ⟨otherType, otherId, otherSub⟩ := second
  have memorySpace : mmShmMemorySpace.toNat = 0 := rfl
  have ipc : mmShmIpc.toNat = 1 := rfl
  have offset : (2 ^ (shmTypeShift - shmSysidShift) : BitVec 32).toNat = 2 ^ 12 := by decide
  simp only [KeyArgs.Meets, KeyArgs.mk.injEq, ← BitVec.toNat_inj, firstKey, secondKey,
    BitVec.toNat_add, memorySpace, ipc, offset] at *
  omega

/-- The key of a channel depends on the low half of its id only. -/
theorem channelKey_toNat (channelId : BitVec 32) :
    (channelKey channelId).toNat = 2 ^ 28 + channelId.toNat % 2 ^ 16 := by
  rw [channelKey, mmCreateShmKey_toNat (ipcArgs_legal _), channelSubKey, BitVec.toNat_setWidth]
  simp [mmShmIpc]

theorem sectionKey_toNat {sysShmmKey : BitVec 32} {arType arIdx : BitVec 8}
    (legal : KeyArgs.Legal ⟨mmShmMemorySpace, sysShmmKey, areaSubKey arType arIdx⟩) :
    (sectionKey sysShmmKey arType arIdx).toNat =
      sysShmmKey.toNat * 2 ^ 16 + (areaSubKey arType arIdx).toNat := by
  rw [sectionKey, mmCreateShmKey_toNat legal]
  simp [mmShmMemorySpace]

/-- The keys of the other modules are these keys, read as an `int`. -/
theorem channelKey_toInt (channelId : BitVec 32) :
    (channelKey channelId).toInt = ipcShmKey channelId.toNat := by
  have positive : (channelKey channelId).msb = false := mmCreateShmKey_msb (ipcArgs_legal _)
  rw [BitVec.toInt_eq_toNat_of_msb positive, channelKey_toNat, ipcShmKey]
  omega

theorem sectionKey_toInt {sysShmmKey : BitVec 32} (sign : sysShmmKey.msb = false)
    (bound : sysShmmKey.toNat < 2 ^ 13) (arType arIdx : BitVec 8) :
    (sectionKey sysShmmKey arType arIdx).toInt =
      Mmspace.mmCreateShmKey sysShmmKey.toNat arType.toNat arIdx.toNat := by
  have legal := spaceArgs_legal sign bound (areaSubKey arType arIdx)
  have positive : (sectionKey sysShmmKey arType arIdx).msb = false := mmCreateShmKey_msb legal
  have types := arType.isLt
  have indices := arIdx.isLt
  have shape : (areaSubKey arType arIdx).toNat = arType.toNat * 2 ^ 8 + arIdx.toNat := by
    rw [areaSubKey, BitVec.toNat_append, ← Nat.shiftLeft_add_eq_or_of_lt indices, Nat.shiftLeft_eq]
  rw [BitVec.toInt_eq_toNat_of_msb positive, sectionKey_toNat legal, Mmspace.mmCreateShmKey,
    if_neg (by omega), shape]
  omega

/-- The keys are never negative; two triples clash over one bit, and two channels over their low halves. -/
theorem shmKeys_apart {first second : KeyArgs} (legal : first.Legal ∧ second.Legal)
    {channel other sysShmmKey : BitVec 32} (arType arIdx : BitVec 8)
    (space : KeyArgs.Legal ⟨mmShmMemorySpace, sysShmmKey, areaSubKey arType arIdx⟩)
    (distinct : first ≠ second ∧ channel ≠ other) :
    (mmCreateShmKey first).msb = false ∧
      (mmCreateShmKey first ≠ mmCreateShmKey second ↔ ¬ first.Meets second ∧ ¬ second.Meets first) ∧
      (channelKey channel ≠ channelKey other ↔ channelSubKey channel ≠ channelSubKey other) ∧
      (sectionKey sysShmmKey arType arIdx ≠ channelKey channel ↔
        sysShmmKey ≠ 4096 ∨ areaSubKey arType arIdx ≠ channelSubKey channel) := by
  refine ⟨mmCreateShmKey_msb legal.1, ?_, ?_, ?_⟩
  · rw [ne_eq, mmCreateShmKey_eq_iff legal, not_or, not_or]
    exact and_iff_right distinct.1
  · rw [not_iff_not, ← BitVec.toNat_inj, ← BitVec.toNat_inj, channelKey_toNat, channelKey_toNat,
      channelSubKey, channelSubKey, BitVec.toNat_setWidth, BitVec.toNat_setWidth]
    omega
  · have bound := space.ranges.2
    have subBound := (areaSubKey arType arIdx).isLt
    have number : (4096 : BitVec 32).toNat = 4096 := rfl
    rw [← not_and_or, not_iff_not, ← BitVec.toNat_inj, ← BitVec.toNat_inj, ← BitVec.toNat_inj,
      channelKey_toNat, sectionKey_toNat space, number, channelSubKey, BitVec.toNat_setWidth]
    simp only at bound
    omega

/-- Two sections of one space, two channels, and a space with the largest system id that keeps apart. -/
theorem shmKeys_apart_small :
    (mmCreateShmKey ⟨mmShmMemorySpace, 7, 1⟩).msb = false ∧
      (mmCreateShmKey ⟨mmShmMemorySpace, 7, 1⟩ ≠ mmCreateShmKey ⟨mmShmMemorySpace, 7, 2⟩ ↔
        ¬ KeyArgs.Meets ⟨mmShmMemorySpace, 7, 1⟩ ⟨mmShmMemorySpace, 7, 2⟩ ∧
        ¬ KeyArgs.Meets ⟨mmShmMemorySpace, 7, 2⟩ ⟨mmShmMemorySpace, 7, 1⟩) ∧
      (channelKey 1 ≠ channelKey 2 ↔ channelSubKey 1 ≠ channelSubKey 2) ∧
      (sectionKey 4095 0 1 ≠ channelKey 1 ↔
        (4095 : BitVec 32) ≠ 4096 ∨ areaSubKey 0 1 ≠ channelSubKey 1) :=
  shmKeys_apart ⟨spaceArgs_legal (by decide) (by decide) _, spaceArgs_legal (by decide) (by decide) _⟩ 0 1
    (spaceArgs_legal (by decide) (by decide) _) (by decide)

/-- The first section of the space 4096 has the key of channel 1, and so has channel 65537. -/
theorem shmKeys_clash :
    KeyArgs.Accepted ⟨mmShmMemorySpace, 4096, areaSubKey 0 1⟩ ∧
      sectionKey 4096 0 1 = channelKey 1 ∧ channelKey 1 = channelKey 65537 := by
  decide

end Syslib.Ipc
