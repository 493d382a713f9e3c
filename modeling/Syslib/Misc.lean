import Mathlib.Data.Nat.Bitwise
import Mathlib.Data.BitVec

namespace Syslib

/-- The mask drops the low bits only for a boundary that is a power of two. -/
def roundUp (val boundary : Nat) : Nat :=
  (val + boundary - 1) % 2 ^ 64 &&& (2 ^ 64 - boundary)

def roundDown (val boundary : Nat) : Nat := val &&& (2 ^ 64 - boundary)

/-- Addresses are words, and a difference of two of them wraps around. -/
def wordSub (first second : Nat) : Nat := (first + 2 ^ 64 - second) % 2 ^ 64

/-- The instruction `bsr` leaves its result undefined for zero, and `junk` stands for it. -/
def log2 (junk val : Nat) : Nat := if val = 0 then junk else Nat.log2 val

/-- The constant one is an `int`, and the processor takes the shift count modulo 32. -/
def shiftOne (count : Nat) : BitVec 32 := 1#32 <<< (count % 32)

/-- This is `is_2power`; `round_up_2power` has the first logarithm and `round_down_2power` the second. -/
def isTwoPower (up down val : Nat) : Bool :=
  shiftOne (log2 up ((val + (2 ^ 64 - 1)) % 2 ^ 64) + 1) == shiftOne (log2 down val)

/-- The structure of a pool starts with a label and with the two ends of the memory. -/
def headed (base label addrBegin addrEnd : Nat) (rest : Nat → Nat) (a : Nat) : Nat :=
  if a = base then label else if a = base + 8 then addrBegin else if a = base + 16 then addrEnd else rest a

section Headed

variable {base label addrBegin addrEnd : Nat} {rest : Nat → Nat}

@[simp] theorem headed_label : headed base label addrBegin addrEnd rest base = label := if_pos rfl

@[simp] theorem headed_begin : headed base label addrBegin addrEnd rest (base + 8) = addrBegin := by
  simp [headed]

@[simp] theorem headed_end : headed base label addrBegin addrEnd rest (base + 16) = addrEnd := by
  simp [headed]

end Headed

theorem and_mask {x k : Nat} (inside : x < 2 ^ 64) (small : k ≤ 64) :
    x &&& (2 ^ 64 - 2 ^ k) = 2 ^ k * (x / 2 ^ k) := by
  apply Nat.eq_of_testBit_eq
  intro i
  have mask : 2 ^ 64 - 2 ^ k = 2 ^ k * (2 ^ (64 - k) - 1) := by
    rw [Nat.mul_sub, ← Nat.pow_add, Nat.add_sub_cancel' small, Nat.mul_one]
  rw [Nat.testBit_and, mask, Nat.testBit_two_pow_mul, Nat.testBit_two_pow_mul, Nat.testBit_two_pow_sub_one,
    Nat.testBit_div_two_pow]
  by_cases low : k ≤ i
  · rw [Nat.sub_add_cancel low]
    by_cases high : i < 64
    · have bound : i - k < 64 - k := by omega
      simp [low, bound]
    · have clear : x.testBit i = false :=
        Nat.testBit_lt_two_pow (lt_of_lt_of_le inside (Nat.pow_le_pow_right (by decide) (by omega)))
      simp [clear]
  · simp [low]

theorem roundUp_eq {val k : Nat} (inside : val + 2 ^ k ≤ 2 ^ 64) (small : k ≤ 64) :
    roundUp val (2 ^ k) = 2 ^ k * ((val + 2 ^ k - 1) / 2 ^ k) := by
  have positive : 0 < 2 ^ k := Nat.two_pow_pos k
  rw [roundUp, Nat.mod_eq_of_lt (by omega), and_mask (by omega) small]

/-- The result is the first multiple from the value on. -/
theorem roundUp_spec {val k : Nat} (inside : val + 2 ^ k ≤ 2 ^ 64) (small : k ≤ 64) :
    val ≤ roundUp val (2 ^ k) ∧ roundUp val (2 ^ k) % 2 ^ k = 0 ∧
      ∀ bound, bound % 2 ^ k = 0 → val ≤ bound → roundUp val (2 ^ k) ≤ bound := by
  have positive : 0 < 2 ^ k := Nat.two_pow_pos k
  have parts := Nat.div_add_mod (val + 2 ^ k - 1) (2 ^ k)
  have rest := Nat.mod_lt (val + 2 ^ k - 1) positive
  rw [roundUp_eq inside small]
  refine ⟨by omega, Nat.mul_mod_right .., ?_⟩
  intro bound multiple above
  obtain ⟨count, rfl⟩ := Nat.dvd_of_mod_eq_zero multiple
  refine Nat.mul_le_mul_left _ (Nat.le_of_lt_succ ?_)
  rw [Nat.div_lt_iff_lt_mul positive, Nat.succ_mul, Nat.mul_comm count]
  omega

theorem roundDown_eq {val k : Nat} (inside : val < 2 ^ 64) (small : k ≤ 64) :
    roundDown val (2 ^ k) = 2 ^ k * (val / 2 ^ k) :=
  and_mask inside small

theorem log2_pos (junk : Nat) {val : Nat} (positive : 0 < val) : log2 junk val = Nat.log2 val :=
  if_neg (Nat.ne_of_gt positive)

theorem shiftOne_inj {first second : Nat} (equal : shiftOne first = shiftOne second) :
    first % 32 = second % 32 := by
  have shifted (count : Nat) : (shiftOne count).toNat = 2 ^ (count % 32) := by
    have inside : 2 ^ (count % 32) < 2 ^ 32 :=
      Nat.pow_lt_pow_right (by decide) (Nat.mod_lt _ (by decide))
    rw [shiftOne, BitVec.toNat_shiftLeft, BitVec.toNat_ofNat, Nat.shiftLeft_eq, Nat.one_mod,
      Nat.one_mul, Nat.mod_eq_of_lt inside]
  have powers : 2 ^ (first % 32) = 2 ^ (second % 32) := by
    rw [← shifted, ← shifted, equal]
  exact Nat.pow_right_injective (le_refl 2) powers

/-- For one the answer depends on the undefined logarithm of zero. -/
theorem isTwoPower_iff {up down val : Nat} (big : 2 ≤ val) (inside : val < 2 ^ 64) :
    isTwoPower up down val ↔ val = 2 ^ Nat.log2 val := by
  have above : 2 ^ Nat.log2 val ≤ val := Nat.log2_self_le (by omega)
  have below : val < 2 ^ (Nat.log2 val + 1) := Nat.lt_log2_self
  have pred : (val + (2 ^ 64 - 1)) % 2 ^ 64 = val - 1 := by omega
  rw [isTwoPower, pred, log2_pos up (by omega), log2_pos down (by omega), beq_iff_eq]
  constructor
  · intro equal
    by_contra other
    have same : Nat.log2 (val - 1) = Nat.log2 val :=
      (Nat.log2_eq_iff (by omega)).mpr ⟨by omega, by omega⟩
    have shifts := shiftOne_inj equal
    rw [same] at shifts
    omega
  · intro power
    obtain ⟨less, order⟩ : ∃ less, Nat.log2 val = less + 1 := by
      refine Nat.exists_eq_add_one_of_ne_zero fun zero => ?_
      rw [zero] at below
      omega
    rw [order] at power ⊢
    have double : 2 ^ (less + 1) = 2 * 2 ^ less := by rw [Nat.pow_succ, Nat.mul_comm]
    have same : Nat.log2 (val - 1) = less := (Nat.log2_eq_iff (by omega)).mpr ⟨by omega, by omega⟩
    rw [same]

end Syslib
