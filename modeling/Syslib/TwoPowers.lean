import Mathlib.Data.Fintype.Basic
import Mathlib.Order.Bounds.Basic
import Syslib.Misc

namespace Syslib

/-- The `int` result of the shift extends its sign when it becomes an `unsigned long`. -/
def shiftLong (count : Nat) : Nat := ((shiftOne count).signExtend 64).toNat

/-- Each call of `log_2` with zero may find another value in the register. -/
structure BsrZero where
  up : Nat
  down : Nat
  testUp : Nat
  testDown : Nat

/-- This is `round_up_2power`. -/
def roundUpTwoPower (junk val : Nat) : Nat :=
  shiftLong (log2 junk ((val + (2 ^ 64 - 1)) % 2 ^ 64) + 1)

/-- This is `round_down_2power`. -/
def roundDownTwoPower (junk val : Nat) : Nat := shiftLong (log2 junk val)

/-- The callers take the first result as a bound from above and the second as one from below. -/
structure TwoPowerLaw (zero : BsrZero) (val : Nat) : Prop where
  up : IsLeast {power | (∃ order, power = 2 ^ order) ∧ val ≤ power} (roundUpTwoPower zero.up val)
  down : IsGreatest {power | (∃ order, power = 2 ^ order) ∧ power ≤ val}
    (roundDownTwoPower zero.down val)
  test : isTwoPower zero.testUp zero.testDown val ↔ ∃ order, val = 2 ^ order

/-- The sign bit is the only one that the extension copies. -/
theorem shiftLong_eq (count : Nat) :
    shiftLong count = if count % 32 = 31 then 2 ^ 64 - 2 ^ 31 else 2 ^ (count % 32) := by
  have shifts : ∀ bit : Fin 32,
      ((1#32 <<< bit.val).signExtend 64).toNat = if bit.val = 31 then 2 ^ 64 - 2 ^ 31 else 2 ^ bit.val := by
    decide +kernel
  exact shifts ⟨count % 32, Nat.mod_lt _ (by decide)⟩

theorem shiftLong_small {count : Nat} (small : count < 31) : shiftLong count = 2 ^ count := by
  rw [shiftLong_eq, Nat.mod_eq_of_lt (by omega), if_neg (by omega)]

theorem signExtend_inj {first second : BitVec 32}
    (equal : (first.signExtend 64).toNat = (second.signExtend 64).toNat) : first = second := by
  have wide := congrArg BitVec.toInt (BitVec.eq_of_toNat_eq equal)
  rw [BitVec.toInt_signExtend_of_le (by decide), BitVec.toInt_signExtend_of_le (by decide)] at wide
  exact BitVec.eq_of_toInt_eq wide

/-- The extension loses no bit, so the test may compare the shifts themselves. -/
theorem isTwoPower_eq (up down val : Nat) :
    isTwoPower up down val = (roundUpTwoPower up val == roundDownTwoPower down val) := by
  rw [isTwoPower, roundUpTwoPower, roundDownTwoPower, Bool.eq_iff_iff, beq_iff_eq, beq_iff_eq]
  constructor
  · intro equal
    exact congrArg (fun word : BitVec 32 => (word.signExtend 64).toNat) equal
  · exact signExtend_inj

/-- A result that is a power of two is at most `2 ^ 30`. -/
theorem shiftLong_power {count order : Nat} (power : shiftLong count = 2 ^ order) :
    shiftLong count = 2 ^ (count % 32) ∧ count % 32 ≤ 30 := by
  rw [shiftLong_eq] at power ⊢
  split_ifs at power ⊢ with sign
  · exfalso
    rcases Nat.lt_or_ge order 64 with low | high
    · have below : 2 ^ order ≤ 2 ^ 63 := Nat.pow_le_pow_right (by decide) (by omega)
      omega
    · have above : 2 ^ 64 ≤ 2 ^ order := Nat.pow_le_pow_right (by decide) high
      omega
  · exact ⟨rfl, by omega⟩

theorem roundUpTwoPower_least (junk : Nat) {val : Nat} (big : 2 ≤ val) (small : val ≤ 2 ^ 30) :
    IsLeast {power | (∃ order, power = 2 ^ order) ∧ val ≤ power} (roundUpTwoPower junk val) := by
  have above : val - 1 < 2 ^ (Nat.log2 (val - 1) + 1) := Nat.lt_log2_self
  have below : 2 ^ Nat.log2 (val - 1) ≤ val - 1 := Nat.log2_self_le (by omega)
  have short : Nat.log2 (val - 1) < 30 := (Nat.log2_lt (by omega)).mpr (by omega)
  have rounded : roundUpTwoPower junk val = 2 ^ (Nat.log2 (val - 1) + 1) := by
    have pred : (val + (2 ^ 64 - 1)) % 2 ^ 64 = val - 1 := by omega
    rw [roundUpTwoPower, pred, log2_pos junk (by omega), shiftLong_small (by omega)]
  rw [rounded]
  refine ⟨⟨⟨_, rfl⟩, by omega⟩, ?_⟩
  rintro power ⟨⟨order, rfl⟩, bound⟩
  have higher : Nat.log2 (val - 1) < order :=
    (Nat.pow_lt_pow_iff_right (by decide)).mp (show 2 ^ Nat.log2 (val - 1) < 2 ^ order by omega)
  exact Nat.pow_le_pow_right (by decide) higher

theorem roundDownTwoPower_greatest (junk : Nat) {val : Nat} (positive : 1 ≤ val) (small : val < 2 ^ 31) :
    IsGreatest {power | (∃ order, power = 2 ^ order) ∧ power ≤ val} (roundDownTwoPower junk val) := by
  have short : Nat.log2 val < 31 := (Nat.log2_lt (by omega)).mpr small
  rw [roundDownTwoPower, log2_pos junk positive, shiftLong_small short]
  refine ⟨⟨⟨_, rfl⟩, Nat.log2_self_le (by omega)⟩, ?_⟩
  rintro power ⟨⟨order, rfl⟩, bound⟩
  exact Nat.pow_le_pow_right (by decide) ((Nat.le_log2 (by omega)).mpr bound)

/-- One is a power of two, and its predecessor has no logarithm. -/
theorem roundUpTwoPower_one {junk : Nat} : roundUpTwoPower junk 1 = 1 ↔ junk % 32 = 31 := by
  have shifted : roundUpTwoPower junk 1 = shiftLong (junk + 1) := rfl
  rw [shifted]
  constructor
  · intro equal
    obtain ⟨exact, -⟩ := shiftLong_power (equal.trans (Nat.pow_zero 2).symm)
    have none_ : (junk + 1) % 32 = 0 := by
      by_contra some_
      have two : 2 ^ 1 ≤ 2 ^ ((junk + 1) % 32) := Nat.pow_le_pow_right (by decide) (by omega)
      omega
    omega
  · intro last
    have none_ : (junk + 1) % 32 = 0 := by omega
    rw [shiftLong_eq, none_]
    rfl

theorem isTwoPower_one {up down : Nat} : isTwoPower up down 1 ↔ up % 32 = 31 := by
  have low : roundDownTwoPower down 1 = 1 := by
    have zero : log2 down 1 = 0 := log2_pos down (by decide)
    rw [roundDownTwoPower, zero]
    rfl
  rw [isTwoPower_eq, beq_iff_eq, low, roundUpTwoPower_one]

/-- The `int` constant limits the results, and the logarithm of zero decides about one. -/
theorem twoPowerLaw_iff (zero : BsrZero) (val : Nat) (positive : 1 ≤ val) (inside : val ≤ 2 ^ 63) :
    TwoPowerLaw zero val ↔
      2 ≤ val ∧ val ≤ 2 ^ 30 ∨ val = 1 ∧ zero.up % 32 = 31 ∧ zero.testUp % 32 = 31 := by
  constructor
  · intro law
    rcases Nat.lt_or_ge 1 val with big | one
    · obtain ⟨⟨⟨order, power⟩, above⟩, -⟩ := law.up
      obtain ⟨exact, short⟩ := shiftLong_power power
      have bound : roundUpTwoPower zero.up val ≤ 2 ^ 30 :=
        exact.trans_le (Nat.pow_le_pow_right (by decide) short)
      exact Or.inl ⟨big, above.trans bound⟩
    · obtain rfl : val = 1 := by omega
      have unit : roundUpTwoPower zero.up 1 = 1 :=
        Nat.le_antisymm (law.up.2 ⟨⟨0, rfl⟩, Nat.le_refl 1⟩) law.up.1.2
      exact Or.inr ⟨rfl, roundUpTwoPower_one.mp unit, isTwoPower_one.mp (law.test.mpr ⟨0, rfl⟩)⟩
  · rintro (⟨big, small⟩ | ⟨rfl, up, test⟩)
    · refine ⟨roundUpTwoPower_least _ big small, roundDownTwoPower_greatest _ positive (by omega), ?_⟩
      rw [isTwoPower_iff big (by omega)]
      constructor
      · intro power
        exact ⟨_, power⟩
      · rintro ⟨order, rfl⟩
        rw [Nat.log2_two_pow]
    · refine ⟨?_, roundDownTwoPower_greatest _ positive (by decide), ?_⟩
      · rw [roundUpTwoPower_one.mpr up]
        exact ⟨⟨⟨0, rfl⟩, Nat.le_refl 1⟩, fun power above => above.2⟩
      · exact iff_of_true (isTwoPower_one.mpr test) ⟨0, rfl⟩

theorem twoPowerLaw_iff_page : TwoPowerLaw ⟨0, 0, 0, 0⟩ 4096 :=
  (twoPowerLaw_iff ⟨0, 0, 0, 0⟩ 4096 (by decide) (by decide)).mpr (Or.inl (by decide))

/-- The shift reaches the sign bit of the `int`, and the sign fills the upper half of the result. -/
theorem twoPowerLaw_overflow :
    roundUpTwoPower 0 (2 ^ 31) = 2 ^ 64 - 2 ^ 31 ∧ ¬ TwoPowerLaw ⟨0, 0, 0, 0⟩ (2 ^ 31) := by
  have wrong : roundUpTwoPower 0 (2 ^ 31) = 2 ^ 64 - 2 ^ 31 := by decide +kernel
  refine ⟨wrong, fun law => ?_⟩
  have least := law.up.2 ⟨⟨31, rfl⟩, Nat.le_refl _⟩
  rw [wrong] at least
  omega

end Syslib
