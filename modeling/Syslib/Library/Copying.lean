import Mathlib.Data.BitVec
import Mathlib.Tactic

namespace Syslib.Copying

variable {w : Nat} {Byte : Type*}

/-- The range of bytes from `dst` on takes the bytes that the range from `src` on had before. -/
def copyBytes (count : Nat) (dst src : BitVec w) (memory : BitVec w → Byte) : BitVec w → Byte :=
  fun a => if (a - dst).toNat < count then memory (src + (a - dst)) else memory a

variable {count first second : Nat} {dst src : BitVec w} {memory : BitVec w → Byte}

@[simp] theorem copyBytes_zero : copyBytes 0 dst src memory = memory := by
  funext a
  exact if_neg (Nat.not_lt_zero _)

theorem copyBytes_outside {a : BitVec w} (outside : count ≤ (a - dst).toNat) :
    copyBytes count dst src memory a = memory a :=
  if_neg (Nat.not_lt.mpr outside)

theorem copyBytes_inside {i : Nat} (inside : i < count) (fits : count ≤ 2 ^ w) :
    copyBytes count dst src memory (dst + BitVec.ofNat w i) = memory (src + BitVec.ofNat w i) := by
  have offset : dst + BitVec.ofNat w i - dst = BitVec.ofNat w i := by
    rw [BitVec.add_comm, BitVec.add_sub_cancel]
  rw [copyBytes, offset, BitVec.toNat_ofNat, Nat.mod_eq_of_lt (lt_of_lt_of_le inside fits), if_pos inside]

/-- The offset behind the first part is the distance to the second part. -/
theorem toNat_sub_add {a : BitVec w} (fits : first ≤ 2 ^ w) :
    (a - (dst + BitVec.ofNat w first)).toNat =
      if first ≤ (a - dst).toNat then (a - dst).toNat - first
      else (a - dst).toNat + 2 ^ w - first := by
  have split : a - (dst + BitVec.ofNat w first) = a - dst - BitVec.ofNat w first :=
    (BitVec.sub_sub _ _ _).symm
  have small := (a - dst).isLt
  rw [split, BitVec.toNat_sub, BitVec.toNat_ofNat]
  by_cases whole : first = 2 ^ w
  · rw [whole, Nat.mod_self, Nat.sub_zero, if_neg (by omega), Nat.add_comm, Nat.add_mod_right,
      Nat.mod_eq_of_lt small]
    omega
  · rw [Nat.mod_eq_of_lt (show first < 2 ^ w by omega)]
    split_ifs with behind
    · have sum : 2 ^ w - first + (a - dst).toNat = (a - dst).toNat - first + 2 ^ w := by omega
      rw [sum, Nat.add_mod_right, Nat.mod_eq_of_lt (by omega)]
    · have sum : 2 ^ w - first + (a - dst).toNat = (a - dst).toNat + 2 ^ w - first := by omega
      rw [sum, Nat.mod_eq_of_lt (by omega)]

/-- Two adjacent copies are one copy when the first one leaves the second source alone. -/
theorem copyBytes_append (fits : first + second ≤ 2 ^ w)
    (apart : ∀ i, first ≤ i → i < first + second → first ≤ (src + BitVec.ofNat w i - dst).toNat) :
    copyBytes second (dst + BitVec.ofNat w first) (src + BitVec.ofNat w first)
      (copyBytes first dst src memory) = copyBytes (first + second) dst src memory := by
  funext a
  have offset := @toNat_sub_add w first dst a (by omega)
  have word : src + BitVec.ofNat w first + (a - (dst + BitVec.ofNat w first)) = src + (a - dst) := by
    have split : a - (dst + BitVec.ofNat w first) = a - dst - BitVec.ofNat w first :=
      (BitVec.sub_sub _ _ _).symm
    rw [split, BitVec.add_assoc, BitVec.add_comm (BitVec.ofNat w first), BitVec.sub_add_cancel]
  have small := (a - dst).isLt
  simp only [copyBytes, offset, word]
  split_ifs with behind inside read whole
  all_goals try omega
  · have late := apart (a - dst).toNat behind (by omega)
    rw [BitVec.ofNat_toNat, BitVec.setWidth_eq] at late
    omega
  all_goals rfl

end Syslib.Copying
