import Syslib.Library.Copying
import Syslib.Misc

namespace Syslib.QuickCopy

open Copying

/-- Memory has one byte at each address. -/
abbrev Memory := BitVec 64 → BitVec 8

/-- Two buffers of so many bytes lie in the address space and do not overlap. -/
def Apart (count : Nat) (dst src : BitVec 64) : Prop :=
  dst.toNat + count ≤ 2 ^ 64 ∧ src.toNat + count ≤ 2 ^ 64 ∧
    (dst.toNat + count ≤ src.toNat ∨ src.toNat + count ≤ dst.toNat)

instance Apart.decidable (count : Nat) (dst src : BitVec 64) : Decidable (Apart count dst src) :=
  inferInstanceAs (Decidable (_ ∧ _ ∧ _))

/-- The standard `memcpy` is undefined for overlapping buffers. -/
def memcpy (memory : Memory) (dst src : BitVec 64) (count : Nat) : Option Memory :=
  if Apart count dst src then some (copyBytes count dst src memory) else none

def align16 (val : BitVec 64) : BitVec 64 := (val + 15) &&& ~~~15

/-- The register `xmm0` holds sixteen bytes. -/
abbrev Xmm := Fin 16 → BitVec 8

/-- The instruction `movdqa` faults at an address that is not a multiple of sixteen; `movdqu` does not. -/
def load (aligned : Bool) (memory : Memory) (rsi : BitVec 64) : Option Xmm :=
  if aligned ∧ rsi &&& 0xF ≠ 0 then none else some fun i => memory (rsi + BitVec.ofNat 64 i)

def store (aligned : Bool) (memory : Memory) (rdi : BitVec 64) (xmm : Xmm) : Option Memory :=
  if aligned ∧ rdi &&& 0xF ≠ 0 then none
  else some fun a => if inside : (a - rdi).toNat < 16 then xmm ⟨(a - rdi).toNat, inside⟩ else memory a

/-- The loop of both routines; `jle` tests the count as a signed number. -/
def quickMmcpyLoop (aligned : Bool) : Nat → Memory → BitVec 64 → BitVec 64 → BitVec 64 →
    Option (Memory × BitVec 64)
  | 0, _, _, _, _ => none
  | fuel + 1, memory, rdi, rsi, rdx =>
    if rdx.toInt ≤ 0 then some (memory, 0)
    else do
      let xmm ← load aligned memory rsi
      let memory ← store aligned memory rdi xmm
      quickMmcpyLoop aligned fuel memory (rdi + 0x10) (rsi + 0x10) (rdx - 0x10)

def quickMmcpyA (fuel : Nat) (memory : Memory) (rdi rsi rdx : BitVec 64) : Option (Memory × BitVec 64) :=
  if (rsi ||| rdi) &&& 0xF ≠ 0 then some (memory, -1)
  else if rdx &&& 0xF ≠ 0 then some (memory, -1)
  else quickMmcpyLoop true fuel memory rdi rsi rdx

def quickMmcpyU (fuel : Nat) (memory : Memory) (rdi rsi rdx : BitVec 64) : Option (Memory × BitVec 64) :=
  if rdx &&& 0xF ≠ 0 then some (memory, -1) else quickMmcpyLoop false fuel memory rdi rsi rdx

/-- This is `quick_mmcpy` after its first `memcpy`; the size is unsigned. -/
def quickMmcpyRest (fuel : Nat) (memory : Memory) (dst src size : BitVec 64) :
    Option (Memory × BitVec 64) :=
  if size = 0 then some (memory, 0)
  else if dst &&& 0xF = 0 ∧ src &&& 0xF = 0 ∧ size &&& 0xF = 0 then quickMmcpyA fuel memory dst src size
  else if size &&& 0xF = 0 then quickMmcpyU fuel memory dst src size
  else some (memory, 0)

/-- The bytes in front of the blocks of sixteen are copied first. -/
def quickMmcpy (fuel : Nat) (memory : Memory) (dst src size : BitVec 64) : Option (Memory × BitVec 64) :=
  let s1 := size - (align16 size - 16)
  if 0 < s1.toInt then do
    let memory ← memcpy memory dst src s1.toNat
    quickMmcpyRest fuel memory (dst + s1) (src + s1) (size - s1)
  else quickMmcpyRest fuel memory dst src size

/-- The call returns zero, it does what `memcpy` does, and it writes only the destination. -/
def Copies (fuel : Nat) (memory : Memory) (dst src size : BitVec 64) : Prop :=
  ∃ after, quickMmcpy fuel memory dst src size = some (after, 0) ∧
    memcpy memory dst src size.toNat = some after ∧
    (∀ i < size.toNat, after (dst + BitVec.ofNat 64 i) = memory (src + BitVec.ofNat 64 i)) ∧
    ∀ a : BitVec 64, a.toNat < dst.toNat ∨ dst.toNat + size.toNat ≤ a.toNat → after a = memory a

section Words

theorem toNat_and_low (val : BitVec 64) : (val &&& 0xF).toNat = val.toNat % 16 := by
  rw [BitVec.toNat_and]
  exact Nat.and_two_pow_sub_one_eq_mod val.toNat 4

theorem and_low_eq_zero {val : BitVec 64} : val &&& 0xF = 0 ↔ val.toNat % 16 = 0 := by
  rw [← toNat_and_low, ← BitVec.toNat_inj]
  rfl

theorem or_low_eq_zero {first second : BitVec 64} :
    (first ||| second) &&& 0xF = 0 ↔ first &&& 0xF = 0 ∧ second &&& 0xF = 0 := by
  constructor
  · intro zero
    constructor <;>
    · ext i inside
      have bit := congrArg (fun word : BitVec 64 => word.getLsbD i) zero
      simp only [BitVec.getLsbD_and, BitVec.getLsbD_or] at bit
      simp only [← BitVec.getLsbD_eq_getElem, BitVec.getLsbD_and]
      grind
  · rintro ⟨firstZero, secondZero⟩
    ext i inside
    have firstBit := congrArg (fun word : BitVec 64 => word.getLsbD i) firstZero
    have secondBit := congrArg (fun word : BitVec 64 => word.getLsbD i) secondZero
    simp only [BitVec.getLsbD_and] at firstBit secondBit
    simp only [← BitVec.getLsbD_eq_getElem, BitVec.getLsbD_and, BitVec.getLsbD_or]
    grind

theorem toNat_align16 {val : BitVec 64} (small : val.toNat + 15 < 2 ^ 64) :
    (align16 val).toNat = 16 * ((val.toNat + 15) / 16) := by
  have sum : (val + 15).toNat = val.toNat + 15 := by
    rw [BitVec.toNat_add]
    exact Nat.mod_eq_of_lt small
  have mask : (~~~15 : BitVec 64).toNat = 2 ^ 64 - 2 ^ 4 := rfl
  rw [align16, BitVec.toNat_and, sum, mask, and_mask small (by decide)]
  norm_num

/-- The first `memcpy` takes one to sixteen bytes, so that whole blocks of sixteen stay. -/
theorem toNat_prefix {size : BitVec 64} (positive : size ≠ 0) (small : size.toNat ≤ 2 ^ 62) :
    ∃ count, (size - (align16 size - 16)).toNat = count ∧ 0 < count ∧ count ≤ 16 ∧
      0 < (size - (align16 size - 16)).toInt ∧
      ∃ blocks, size.toNat = count + 16 * blocks ∧
        (size - (size - (align16 size - 16))).toNat = 16 * blocks := by
  have real : size.toNat ≠ 0 := fun zero => positive (BitVec.eq_of_toNat_eq zero)
  have rounded : (align16 size).toNat = 16 * ((size.toNat + 15) / 16) :=
    toNat_align16 (by omega)
  have lower : (align16 size - 16).toNat = 16 * ((size.toNat + 15) / 16) - 16 := by
    rw [BitVec.toNat_sub, rounded, show (16 : BitVec 64).toNat = 16 from rfl]
    omega
  have first : (size - (align16 size - 16)).toNat = size.toNat - (16 * ((size.toNat + 15) / 16) - 16) := by
    rw [BitVec.toNat_sub, lower]
    omega
  have signed : (size - (align16 size - 16)).toInt = (size - (align16 size - 16)).toNat := by
    rw [BitVec.toInt_eq_toNat_of_lt]
    omega
  refine ⟨_, rfl, by omega, by omega, by omega, (size.toNat + 15) / 16 - 1, by omega, ?_⟩
  rw [BitVec.toNat_sub, first]
  omega

end Words

section Blocks

variable {memory : Memory} {dst src rdi rsi rdx : BitVec 64} {count : Nat}

/-- The source stays clear of the destination all the way around the address space. -/
theorem Apart.far (apart : Apart count dst src) {i : Nat} (inside : i < count) :
    count ≤ (src + BitVec.ofNat 64 i - dst).toNat := by
  obtain ⟨dstFits, srcFits, order⟩ := apart
  rw [BitVec.toNat_sub, BitVec.toNat_add, BitVec.toNat_ofNat]
  omega

/-- The parts of two buffers behind the same offset are apart as well. -/
theorem Apart.drop {first : Nat} (apart : Apart (first + count) dst src) (inside : 0 < count) :
    Apart count (dst + BitVec.ofNat 64 first) (src + BitVec.ofNat 64 first) := by
  obtain ⟨dstFits, srcFits, order⟩ := apart
  rw [Apart, BitVec.toNat_add, BitVec.toNat_add, BitVec.toNat_ofNat]
  omega

/-- Two buffers copied one behind the other are one copy. -/
theorem Apart.append {first : Nat} (apart : Apart (first + count) dst src) :
    copyBytes count (dst + BitVec.ofNat 64 first) (src + BitVec.ofNat 64 first)
      (copyBytes first dst src memory) = copyBytes (first + count) dst src memory := by
  apply copyBytes_append
  · have fits := apart.1
    omega
  · intro i _ inside
    have far := apart.far inside
    omega

/-- One block goes through the register. -/
theorem load_store {aligned : Bool} (target : aligned = true → rdi.toNat % 16 = 0)
    (source : aligned = true → rsi.toNat % 16 = 0) :
    ((load aligned memory rsi).bind fun xmm => store aligned memory rdi xmm) =
      some (copyBytes 16 rdi rsi memory) := by
  have sourceFits : ¬ (aligned = true ∧ rsi &&& 0xF ≠ 0) := by
    rintro ⟨checked, low⟩
    exact low (and_low_eq_zero.mpr (source checked))
  have targetFits : ¬ (aligned = true ∧ rdi &&& 0xF ≠ 0) := by
    rintro ⟨checked, low⟩
    exact low (and_low_eq_zero.mpr (target checked))
  rw [load, if_neg sourceFits, Option.bind_some, store, if_neg targetFits]
  congr 1
  funext a
  rw [copyBytes]
  split_ifs
  · rw [BitVec.ofNat_toNat, BitVec.setWidth_eq]
  · rfl

/-- The loop copies its blocks and returns zero. -/
theorem quickMmcpyLoop_blocks {aligned : Bool} {fuel blocks : Nat} (size : rdx.toNat = 16 * blocks)
    (small : rdx.toNat ≤ 2 ^ 62) (apart : Apart (16 * blocks) rdi rsi)
    (target : aligned = true → rdi.toNat % 16 = 0) (source : aligned = true → rsi.toNat % 16 = 0)
    (enough : blocks < fuel) :
    quickMmcpyLoop aligned fuel memory rdi rsi rdx = some (copyBytes (16 * blocks) rdi rsi memory, 0) := by
  induction blocks generalizing fuel memory rdi rsi rdx with
  | zero =>
      obtain ⟨less, rfl⟩ := Nat.exists_eq_add_one_of_ne_zero (Nat.ne_of_gt enough)
      have done : rdx.toInt ≤ 0 := by
        rw [BitVec.toInt_eq_toNat_of_lt] <;> omega
      rw [quickMmcpyLoop, if_pos done, Nat.mul_zero, copyBytes_zero]
  | succ blocks ih =>
      obtain ⟨less, rfl⟩ := Nat.exists_eq_add_one_of_ne_zero (show fuel ≠ 0 by omega)
      have running : ¬ rdx.toInt ≤ 0 := by
        rw [BitVec.toInt_eq_toNat_of_lt] <;> omega
      have total : 16 * (blocks + 1) = 16 + 16 * blocks := by omega
      rw [total] at apart
      have left : (rdx - 0x10).toNat = 16 * blocks := by
        rw [BitVec.toNat_sub, show (0x10 : BitVec 64).toNat = 16 from rfl]
        omega
      have step : ∀ {a : BitVec 64}, a.toNat % 16 = 0 → (a + 0x10).toNat % 16 = 0 := by
        intro a multiple
        rw [BitVec.toNat_add, show (0x10 : BitVec 64).toNat = 16 from rfl]
        omega
      have block := @load_store memory rdi rsi aligned target source
      have rest : Apart (16 * blocks) (rdi + 0x10) (rsi + 0x10) := by
        rcases Nat.eq_zero_or_pos blocks with rfl | positive
        · have first := (rdi + 0x10).isLt
          have second := (rsi + 0x10).isLt
          rw [Apart]
          omega
        · exact apart.drop (by omega)
      have next := @ih (copyBytes 16 rdi rsi memory) (rdi + 0x10) (rsi + 0x10) (rdx - 0x10) less left
        (by omega) rest (fun checked => step (target checked)) (fun checked => step (source checked))
        (by omega)
      rw [quickMmcpyLoop, if_neg running, total, ← apart.append, ← show (0x10 : BitVec 64) =
        BitVec.ofNat 64 16 from rfl, ← next]
      simp only [Option.bind_eq_bind]
      rw [← Option.bind_assoc, block, Option.bind_some]

/-- The blocks behind the first bytes are copied by one of the two loops. -/
theorem quickMmcpyRest_blocks {fuel blocks : Nat} (size : rdx.toNat = 16 * blocks)
    (small : rdx.toNat ≤ 2 ^ 62) (apart : Apart (16 * blocks) rdi rsi) (enough : blocks < fuel) :
    quickMmcpyRest fuel memory rdi rsi rdx = some (copyBytes (16 * blocks) rdi rsi memory, 0) := by
  have whole : rdx &&& 0xF = 0 := and_low_eq_zero.mpr (by omega)
  rw [quickMmcpyRest]
  split_ifs with empty aligned
  · have none : blocks = 0 := by
      rw [empty, show (0 : BitVec 64).toNat = 0 from rfl] at size
      omega
    rw [none, Nat.mul_zero, copyBytes_zero]
  · have both := or_low_eq_zero.mpr ⟨aligned.2.1, aligned.1⟩
    rw [quickMmcpyA, if_neg (not_not.mpr both), if_neg (not_not.mpr whole)]
    exact quickMmcpyLoop_blocks size small apart (fun _ => and_low_eq_zero.mp aligned.1)
      (fun _ => and_low_eq_zero.mp aligned.2.1) enough
  · rw [quickMmcpyU, if_neg (not_not.mpr whole)]
    exact quickMmcpyLoop_blocks size small apart (by simp) (by simp) enough

/-- A size above zero is copied exactly. -/
theorem quickMmcpy_copies {size : BitVec 64} {fuel : Nat} (apart : Apart size.toNat dst src)
    (small : size.toNat ≤ 2 ^ 62) (positive : size ≠ 0) (enough : size.toNat / 16 < fuel) :
    quickMmcpy fuel memory dst src size = some (copyBytes size.toNat dst src memory, 0) := by
  obtain ⟨first, firstEq, some, most, signed, blocks, total, rest⟩ := toNat_prefix positive small
  have word : size - (align16 size - 16) = BitVec.ofNat 64 first := by
    rw [← firstEq, BitVec.ofNat_toNat, BitVec.setWidth_eq]
  have head : Apart first dst src := by
    obtain ⟨dstFits, srcFits, order⟩ := apart
    rw [Apart]
    omega
  rw [total] at apart ⊢
  have tail : Apart (16 * blocks) (dst + BitVec.ofNat 64 first) (src + BitVec.ofNat 64 first) := by
    rcases Nat.eq_zero_or_pos blocks with rfl | many
    · have one := (dst + BitVec.ofNat 64 first).isLt
      have other := (src + BitVec.ofNat 64 first).isLt
      rw [Apart]
      omega
    · exact apart.drop (by omega)
  simp only [quickMmcpy, if_pos signed, firstEq, memcpy, if_pos head, Option.bind_eq_bind, Option.bind_some]
  rw [quickMmcpyRest_blocks rest (by omega) (word ▸ tail) (by omega), word, apart.append]

/-- For the size zero the first `memcpy` takes sixteen bytes, and the loops stop at once. -/
theorem quickMmcpy_zero {fuel : Nat} (enough : 0 < fuel) :
    quickMmcpy fuel memory dst src 0 = (memcpy memory dst src 16).map fun after => (after, 0) := by
  obtain ⟨less, rfl⟩ := Nat.exists_eq_add_one_of_ne_zero (Nat.ne_of_gt enough)
  have stops : ∀ aligned memory rdi rsi,
      quickMmcpyLoop aligned (less + 1) memory rdi rsi (0 - 16) = some (memory, 0) := by
    intro aligned memory rdi rsi
    rw [quickMmcpyLoop, if_pos (by decide)]
  have rest : ∀ memory rdi rsi,
      quickMmcpyRest (less + 1) memory rdi rsi (0 - 16) = some (memory, 0) := by
    intro memory rdi rsi
    rw [quickMmcpyRest, if_neg (by decide)]
    split_ifs with aligned whole
    · have both := or_low_eq_zero.mpr ⟨aligned.2.1, aligned.1⟩
      rw [quickMmcpyA, if_neg (not_not.mpr both), if_neg (by decide), stops]
    · rw [quickMmcpyU, if_neg (by decide), stops]
    · rfl
  have first : (0 : BitVec 64) - (align16 0 - 16) = 16 := by decide
  have last : (16 : BitVec 64).toNat = 16 := rfl
  simp only [quickMmcpy, first, last, if_pos (show 0 < (16 : BitVec 64).toInt by decide), rest]
  cases memcpy memory dst src 16 <;> rfl

theorem copyBytes_copies {size : BitVec 64} {fuel : Nat} (apart : Apart size.toNat dst src)
    (run : quickMmcpy fuel memory dst src size = some (copyBytes size.toNat dst src memory, 0)) :
    Copies fuel memory dst src size := by
  refine ⟨_, run, if_pos apart, fun i inside => copyBytes_inside inside size.isLt.le, ?_⟩
  intro a outside
  apply copyBytes_outside
  have fits := apart.1
  rw [BitVec.toNat_sub]
  omega

/-- `quick_mmcpy` is `memcpy` for every size above zero, and for zero when sixteen bytes agree already. -/
theorem quickMmcpy_copies_iff {size : BitVec 64} {fuel : Nat} (apart : Apart size.toNat dst src)
    (small : size.toNat ≤ 2 ^ 62) (enough : size.toNat / 16 < fuel) :
    Copies fuel memory dst src size ↔ size ≠ 0 ∨ Apart 16 dst src ∧
      ∀ i < 16, memory (dst + BitVec.ofNat 64 i) = memory (src + BitVec.ofNat 64 i) := by
  by_cases positive : size ≠ 0
  · have run := @quickMmcpy_copies memory dst src size fuel apart small positive enough
    exact iff_of_true (copyBytes_copies apart run) (Or.inl positive)
  · obtain rfl := not_not.mp positive
    have zero : (0 : BitVec 64).toNat = 0 := rfl
    have run := @quickMmcpy_zero memory dst src fuel (by omega)
    constructor
    · rintro ⟨after, copied, same, -, -⟩
      rw [run, Option.map_eq_some_iff] at copied
      obtain ⟨written, taken, equal⟩ := copied
      obtain rfl : written = after := (Prod.mk.inj equal).1
      have disjoint : Apart 16 dst src := by
        by_contra overlap
        rw [memcpy, if_neg overlap] at taken
        exact absurd taken (by simp)
      rw [memcpy, if_pos disjoint, Option.some.injEq] at taken
      rw [memcpy, if_pos apart, zero, copyBytes_zero, Option.some.injEq] at same
      refine Or.inr ⟨disjoint, ?_⟩
      intro i inside
      have copy := @copyBytes_inside 64 (BitVec 8) 16 dst src memory i inside (by decide)
      rw [taken, ← same] at copy
      exact copy
    · rintro (other | ⟨disjoint, agree⟩)
      · exact absurd rfl other
      · apply copyBytes_copies apart
        have unchanged : copyBytes 16 dst src memory = memory := by
          funext a
          rw [copyBytes]
          split_ifs with inside
          · have byte := agree (a - dst).toNat inside
            rw [BitVec.ofNat_toNat, BitVec.setWidth_eq, BitVec.add_comm dst, BitVec.sub_add_cancel] at byte
            exact byte.symm
          · rfl
        rw [run, memcpy, if_pos disjoint, unchanged, zero, copyBytes_zero]
        rfl

end Blocks

/-- Forty bytes between two buffers that are not aligned. -/
theorem quickMmcpy_copies_iff_forty :
    Copies 3 (fun a => a.setWidth 8) 0x1003 0x2005 40 ↔ (40 : BitVec 64) ≠ 0 ∨ Apart 16 0x1003 0x2005 ∧
      ∀ i < 16, (0x1003 + BitVec.ofNat 64 i : BitVec 64).setWidth 8 =
        (0x2005 + BitVec.ofNat 64 i : BitVec 64).setWidth 8 :=
  quickMmcpy_copies_iff (by decide) (by decide) (by decide)

/-- The empty copy writes sixteen bytes. -/
theorem quickMmcpy_empty : Apart 0 0x1000 0x2000 ∧
    ¬ ∃ fuel, Copies fuel (fun a => if a = 0x2000 then 1 else 0) 0x1000 0x2000 0 := by
  refine ⟨by decide, ?_⟩
  rintro ⟨fuel, after, run, -, -, kept⟩
  have first := kept 0x1000 (Or.inr (by decide))
  rcases Nat.eq_zero_or_pos fuel with rfl | positive
  · exact absurd run (by simp [quickMmcpy, memcpy, Apart, align16, quickMmcpyRest, quickMmcpyA, quickMmcpyLoop])
  · rw [quickMmcpy_zero positive, memcpy, if_pos (by decide), Option.map_some, Option.some.injEq,
      Prod.mk.injEq] at run
    rw [← run.1] at first
    exact absurd first (by decide)

end Syslib.QuickCopy
