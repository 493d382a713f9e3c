import Mathlib.Data.BitVec
import Mathlib.Data.Finset.Card

namespace Syslib.BitSlots

variable {w : Nat}

/-- A bit map stands for the slots of its set bits. -/
def slots (bits : BitVec w) : Finset Nat := (Finset.range w).filter fun slot => bits.getLsbD slot

def setBit (bits : BitVec w) (slot : Nat) : BitVec w := bits ||| (1#w <<< slot)

def clearBit (bits : BitVec w) (slot : Nat) : BitVec w := bits &&& ~~~(1#w <<< slot)

/-- The index of the lowest set bit. -/
def lowest (bits : BitVec w) : Option Nat := (List.range w).find? fun slot => bits.getLsbD slot

variable {bits : BitVec w} {slot other : Nat}

@[simp] theorem mem_slots : slot ∈ slots bits ↔ bits.getLsbD slot = true := by
  rw [slots, Finset.mem_filter, Finset.mem_range, and_iff_right_iff_imp]
  exact BitVec.lt_of_getLsbD

@[simp] theorem slots_zero : slots (0#w) = ∅ := by
  ext slot
  simp

theorem getLsbD_one_shift (inside : slot < w) :
    (1#w <<< slot).getLsbD other = decide (other = slot) := by
  rw [← BitVec.twoPow_eq, BitVec.getLsbD_twoPow, decide_eq_true inside, Bool.true_and]
  exact decide_eq_decide.mpr eq_comm

theorem slots_setBit (inside : slot < w) : slots (setBit bits slot) = insert slot (slots bits) := by
  ext other
  rw [mem_slots, setBit, BitVec.getLsbD_or, getLsbD_one_shift inside, Finset.mem_insert, mem_slots,
    Bool.or_eq_true, decide_eq_true_iff, or_comm]

theorem slots_clearBit (inside : slot < w) : slots (clearBit bits slot) = (slots bits).erase slot := by
  ext other
  rw [mem_slots, clearBit, BitVec.getLsbD_and, BitVec.getLsbD_not, getLsbD_one_shift inside,
    Finset.mem_erase, mem_slots]
  by_cases within : other < w
  · simp [within, and_comm]
  · simp [BitVec.getLsbD_of_ge bits other (Nat.le_of_not_lt within)]

theorem lowest_set (found : lowest bits = some slot) : slot < w ∧ bits.getLsbD slot = true := by
  have chosen := List.mem_of_find?_eq_some found
  exact ⟨List.mem_range.mp chosen, by simpa using List.find?_some found⟩

end Syslib.BitSlots
