import Mathlib.Data.Finset.Card
import Mathlib.Data.Nat.Bitwise
import Mathlib.Order.Interval.Finset.Nat
import Mathlib.Tactic.Linarith

namespace Syslib.Buddies

variable {i k m x y : Nat}

/-- The aligned range of the order that has the position starts here. -/
def enclosing (k x : Nat) : Nat := x / 2 ^ k * 2 ^ k

/-- The other half of the next larger aligned range starts here. -/
def sibling (k x : Nat) : Nat :=
  if x / 2 ^ k % 2 = 0 then enclosing k x + 2 ^ k else enclosing k x - 2 ^ k

theorem enclosing_bounds (k x : Nat) : enclosing k x ≤ x ∧ x < enclosing k x + 2 ^ k := by
  have parts := Nat.div_add_mod' x (2 ^ k)
  have inside := Nat.mod_lt x (Nat.two_pow_pos k)
  unfold enclosing
  constructor <;> omega

theorem enclosing_aligned (k x : Nat) : enclosing k x % 2 ^ k = 0 := Nat.mul_mod_left _ _

theorem enclosing_self (aligned : x % 2 ^ k = 0) : enclosing k x = x :=
  Nat.div_mul_cancel (Nat.dvd_of_mod_eq_zero aligned)

/-- Only one aligned range has the position. -/
theorem enclosing_unique (aligned : y % 2 ^ k = 0) (low : y ≤ x) (high : x < y + 2 ^ k) :
    enclosing k x = y := by
  obtain ⟨q, rfl⟩ := Nat.dvd_of_mod_eq_zero aligned
  have div : x / 2 ^ k = q := by
    rw [Nat.mul_comm] at low high
    exact Nat.div_eq_of_lt_le low (by rw [Nat.succ_mul]; exact high)
  rw [enclosing, div, Nat.mul_comm]

/-- The range is the lower or the upper half of the next larger one. -/
theorem sides (k x : Nat) :
    enclosing (k + 1) x = enclosing k x ∧ sibling k x = enclosing k x + 2 ^ k ∨
      enclosing (k + 1) x = sibling k x ∧ enclosing k x = sibling k x + 2 ^ k := by
  have half : x / 2 ^ (k + 1) = x / 2 ^ k / 2 := by rw [Nat.pow_succ, Nat.div_div_eq_div_mul]
  have double : x / 2 ^ (k + 1) * 2 ^ (k + 1) = (x / 2 ^ k / 2 * 2) * 2 ^ k := by
    rw [half, Nat.pow_succ, Nat.mul_assoc, Nat.mul_comm (2 ^ k) 2]
  unfold sibling enclosing
  rw [double]
  by_cases even : x / 2 ^ k % 2 = 0
  · left
    rw [if_pos even, Nat.div_mul_cancel (Nat.dvd_of_mod_eq_zero even)]
    exact ⟨rfl, rfl⟩
  · right
    have odd : x / 2 ^ k = x / 2 ^ k / 2 * 2 + 1 := by omega
    have split : x / 2 ^ k * 2 ^ k = x / 2 ^ k / 2 * 2 * 2 ^ k + 2 ^ k := by
      conv_lhs => rw [odd, Nat.succ_mul]
    rw [if_neg even, split, Nat.add_sub_cancel]
    exact ⟨rfl, rfl⟩

theorem sibling_aligned (k x : Nat) : sibling k x % 2 ^ k = 0 := by
  have here := enclosing_aligned k x
  have above : enclosing (k + 1) x % 2 ^ k = 0 :=
    Nat.mod_eq_zero_of_dvd ((Nat.pow_dvd_pow 2 (Nat.le_succ k)).trans
      (Nat.dvd_of_mod_eq_zero (enclosing_aligned (k + 1) x)))
  rcases sides k x with ⟨-, lower⟩ | ⟨upper, -⟩
  · rw [lower, Nat.add_mod_right]
    exact here
  · exact upper ▸ above

/-- Between two whole numbers of units there is room for a unit. -/
theorem unit_le {unit : Nat} (wholeX : unit ∣ x) (wholeY : unit ∣ y) (less : x < y) : x + unit ≤ y := by
  obtain ⟨q, rfl⟩ := wholeX
  obtain ⟨r, rfl⟩ := wholeY
  have smaller : q < r := Nat.lt_of_mul_lt_mul_left less
  rw [← Nat.mul_succ]
  exact Nat.mul_le_mul_left _ smaller

theorem sibling_enclosing (k x : Nat) : sibling k (enclosing k x) = sibling k x := by
  have self := enclosing_self (enclosing_aligned k x)
  have div : enclosing k x / 2 ^ k = x / 2 ^ k := Nat.mul_div_cancel _ (Nat.two_pow_pos k)
  rw [sibling, self, div]
  rfl

theorem enclosing_enclosing (less : k ≤ m) : enclosing m (enclosing k x) = enclosing m x := by
  have unit : 2 ^ k ∣ 2 ^ m := Nat.pow_dvd_pow 2 less
  have here := enclosing_bounds k x
  have there := enclosing_bounds m x
  have whole := (unit.trans (Nat.dvd_of_mod_eq_zero (enclosing_aligned m x)))
  refine enclosing_unique (enclosing_aligned m x) ?_ (by omega)
  by_contra less
  have step := unit_le (Nat.dvd_of_mod_eq_zero (enclosing_aligned k x)) whole (Nat.lt_of_not_le less)
  omega

theorem sibling_parent (k x : Nat) : enclosing (k + 1) (sibling k x) = enclosing (k + 1) x := by
  have positive := Nat.two_pow_pos k
  have double : 2 ^ (k + 1) = 2 ^ k + 2 ^ k := by omega
  refine enclosing_unique (enclosing_aligned (k + 1) x) ?_ ?_
  · rcases sides k x with ⟨same, lower⟩ | ⟨same, upper⟩ <;> omega
  · rcases sides k x with ⟨same, lower⟩ | ⟨same, upper⟩ <;> omega

theorem sibling_sibling (aligned : x % 2 ^ k = 0) : sibling k (sibling k x) = x := by
  have self := enclosing_self aligned
  have other := enclosing_self (sibling_aligned k x)
  have parent := sibling_parent k x
  rcases sides k x with ⟨same, lower⟩ | ⟨same, upper⟩ <;>
    rcases sides k (sibling k x) with ⟨same', lower'⟩ | ⟨same', upper'⟩ <;>
      rw [other] at * <;> rw [self] at * <;> have positive := Nat.two_pow_pos k <;> omega

/-- The aligned ranges are apart, and no two of the least order are siblings. -/
structure Sparse (ranges : Finset Nat) (order : Nat → Nat) (b total : Nat) : Prop where
  least : ∀ x ∈ ranges, b ≤ order x
  aligned : ∀ x ∈ ranges, x % 2 ^ order x = 0
  fits : ∀ x ∈ ranges, x + 2 ^ order x ≤ total * 2 ^ (b + 1)
  apart : ∀ x ∈ ranges, ∀ y ∈ ranges, x ≠ y → x + 2 ^ order x ≤ y ∨ y + 2 ^ order y ≤ x
  unpaired : ∀ x ∈ ranges, order x = b → sibling b x ∈ ranges → order (sibling b x) ≠ b

namespace Sparse

variable {ranges : Finset Nat} {order : Nat → Nat} {b total : Nat}

/-- A range of a larger order is the only one that starts in it. -/
theorem alone (sparse : Sparse ranges order b total) (inX : x ∈ ranges) (inY : y ∈ ranges) (low : x ≤ y)
    (high : y < x + 2 ^ order x) : y = x := by
  by_contra other
  have positive := Nat.two_pow_pos (order y)
  rcases sparse.apart y inY x inX other with before | behind <;> omega

/-- No two ranges start in the same pair of the least order. -/
theorem injOn (sparse : Sparse ranges order b total) : Set.InjOn (· / 2 ^ (b + 1)) (ranges : Set Nat) := by
  intro x inX y inY same
  have inX : x ∈ ranges := inX
  have inY : y ∈ ranges := inY
  have pair : enclosing (b + 1) x = enclosing (b + 1) y := congrArg (· * 2 ^ (b + 1)) same
  have boundsX := enclosing_bounds (b + 1) x
  have boundsY := enclosing_bounds (b + 1) y
  have large {z : Nat} (inZ : z ∈ ranges) (more : b + 1 ≤ order z) :
      enclosing (b + 1) z = z ∧ 2 ^ (b + 1) ≤ 2 ^ order z :=
    ⟨enclosing_self (Nat.mod_eq_zero_of_dvd ((Nat.pow_dvd_pow 2 more).trans
      (Nat.dvd_of_mod_eq_zero (sparse.aligned z inZ)))), Nat.pow_le_pow_right (by decide) more⟩
  by_cases moreX : b + 1 ≤ order x
  · have whole := large inX moreX
    exact (sparse.alone inX inY (by omega) (by omega)).symm
  · by_cases moreY : b + 1 ≤ order y
    · have whole := large inY moreY
      exact sparse.alone inY inX (by omega) (by omega)
    · have leastX := sparse.least x inX
      have leastY := sparse.least y inY
      have orderX : order x = b := by omega
      have orderY : order y = b := by omega
      by_contra other
      have wholeX := enclosing_self (orderX ▸ sparse.aligned x inX)
      have wholeY := enclosing_self (orderY ▸ sparse.aligned y inY)
      have partner : sibling b x = y := by
        rcases sides b x with ⟨upX, sideX⟩ | ⟨upX, sideX⟩ <;> rcases sides b y with ⟨upY, sideY⟩ | ⟨upY, sideY⟩ <;> omega
      exact sparse.unpaired x inX orderX (partner ▸ inY) (partner ▸ orderY)

theorem slot_lt (sparse : Sparse ranges order b total) (inX : x ∈ ranges) : x / 2 ^ (b + 1) < total := by
  have positive := Nat.two_pow_pos (order x)
  have fits := sparse.fits x inX
  exact (Nat.div_lt_iff_lt_mul (Nat.two_pow_pos _)).mpr (by omega)

/-- There are no more ranges than pairs of the least order. -/
theorem card_le (sparse : Sparse ranges order b total) : ranges.card ≤ total := by
  have bound := Finset.card_le_card_of_injOn (· / 2 ^ (b + 1))
    (fun x inX => Finset.mem_coe.mpr (Finset.mem_range.mpr (sparse.slot_lt inX))) sparse.injOn
  rwa [Finset.card_range] at bound

/-- A larger range takes the place of as many pairs as it has. -/
theorem card_add_le (sparse : Sparse ranges order b total) (inX : x ∈ ranges) (larger : b < order x) :
    ranges.card + 2 ^ (order x - b - 1) ≤ total + 1 := by
  have unit : 2 ^ order x = 2 ^ (order x - b - 1) * 2 ^ (b + 1) := by
    rw [← Nat.pow_add]
    congr 1
    omega
  have positive := Nat.two_pow_pos (b + 1)
  obtain ⟨q, place⟩ : ∃ q, x = q * 2 ^ (b + 1) :=
    dvd_iff_exists_eq_mul_left.mp ((Nat.pow_dvd_pow 2 larger).trans (Nat.dvd_of_mod_eq_zero (sparse.aligned x inX)))
  have last : q + 2 ^ (order x - b - 1) ≤ total := by
    refine Nat.le_of_mul_le_mul_right ?_ positive
    rw [Nat.add_mul, ← unit, ← place]
    exact sparse.fits x inX
  have taken : Finset.Ico q (q + 2 ^ (order x - b - 1)) ⊆ Finset.range total := by
    intro slot inside
    have bounds := Finset.mem_Ico.mp inside
    exact Finset.mem_range.mpr (by omega)
  have others := @Finset.card_le_card_of_injOn _ _ (ranges.erase x)
    (Finset.range total \ Finset.Ico q (q + 2 ^ (order x - b - 1))) (· / 2 ^ (b + 1)) (by
      intro y inside
      obtain ⟨other, inY⟩ := Finset.mem_erase.mp inside
      refine Finset.mem_coe.mpr (Finset.mem_sdiff.mpr ⟨Finset.mem_range.mpr (sparse.slot_lt inY), fun again => ?_⟩)
      obtain ⟨low, high⟩ := Finset.mem_Ico.mp again
      refine other (sparse.alone inX inY ?_ ?_)
      · have start := (Nat.le_div_iff_mul_le positive).mp low
        rwa [← place] at start
      · have stop := (Nat.div_lt_iff_lt_mul positive).mp high
        rwa [Nat.add_mul, ← unit, ← place] at stop)
    (sparse.injOn.mono fun y inside => (Finset.mem_erase.mp inside).2)
  rw [Finset.card_erase_of_mem inX, Finset.card_sdiff_of_subset taken, Finset.card_range, Nat.card_Ico,
    Nat.add_sub_cancel_left] at others
  omega

end Sparse

end Syslib.Buddies
