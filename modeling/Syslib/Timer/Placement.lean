import Syslib.Timer.Model
import Mathlib.Tactic.IntervalCases
import Mathlib.Tactic.Linarith
import Mathlib.Tactic.Ring

namespace Syslib.Timer

open IntrusiveLists

/-- The level that `_add_timer` selects for a difference from 256 on. -/
def topLevel (diffTick : Nat) : Nat :=
  if diffTick < tvSetSpan 1 then 0
  else if diffTick < tvSetSpan 2 then 1
  else if diffTick < tvSetSpan 3 then 2
  else 3

/-- The index arithmetic of `_add_timer` gives a slot that is served at the right tick. -/
def Punctual (tick delay : Nat) : Prop :=
  if delay < 256 then tick % 256 = 0
  else
    topLevel delay = 0 ∨
      (tick / tvSetSpan (topLevel delay) + delay / tvSetSpan (topLevel delay)) % 64 ≠ 0 ∧
        (tick + delay) / tvSetSpan (topLevel delay) % 64 ≠ 0

instance (tick delay : Nat) : Decidable (Punctual tick delay) := by
  unfold Punctual
  infer_instance

/-- A timer waits at its level until the cascade at the tick `tvSetSpan level * turn`. -/
structure Waits (strict : Prop) (tick runTick level turn : Nat) : Prop where
  below : level < 4
  later : 0 < turn
  ahead : tick ≤ tvSetSpan level * turn
  passed : strict → tick < tvSetSpan level * turn
  near : tvSetSpan level * turn < tick + 64 * tvSetSpan level
  covers : runTick / tvSetSpan level = turn ∨ runTick / tvSetSpan level = turn + 1
  served : level = 0 ∨ turn % 64 ≠ 0 ∧ runTick / tvSetSpan level % 64 ≠ 0

/-- The slot suits the run tick; a slot that is done holds no timer whose cascade is due now. -/
def Placed (done : Slot → Prop) (tick runTick : Nat) : Slot → Prop
  | .tvSet0 index => runTick % 256 = index ∧ tick ≤ runTick ∧ runTick < tick + 256
  | .tvSet level index =>
      ∃ turn, index = turn % 64 ∧ Waits (done (.tvSet level index)) tick runTick level turn

theorem tvSetSpan_values : tvSetSpan 0 = 256 ∧ tvSetSpan 1 = 16384 ∧ tvSetSpan 2 = 1048576 ∧
    tvSetSpan 3 = 67108864 ∧ tvSetSpan 4 = 4294967296 := by decide

theorem tvSetSpan_succ (level : Nat) : tvSetSpan (level + 1) = 64 * tvSetSpan level := by
  simp only [tvSetSpan]
  ring

theorem tvSetSpan_pos (level : Nat) : 0 < tvSetSpan level := Nat.two_pow_pos _

/-- The top level of a delay is the one whose index of the delay is nonzero and whole. -/
theorem topLevel_bounds {delay : Nat} (long : 256 ≤ delay) (short : delay < 2 ^ 32) :
    topLevel delay < 4 ∧ tvSetSpan (topLevel delay) ≤ delay ∧
      delay < 64 * tvSetSpan (topLevel delay) := by
  obtain ⟨zero, one, two, three, four⟩ := tvSetSpan_values
  unfold topLevel
  split_ifs <;> omega

theorem tvSetSlot_topLevel {delay : Nat} (tick : Nat) (long : 256 ≤ delay) (short : delay < 2 ^ 32) :
    tvSetSlot delay tick 4 = some (.tvSet (topLevel delay)
      ((tick / tvSetSpan (topLevel delay) + delay / tvSetSpan (topLevel delay)) % 64)) := by
  obtain ⟨zero, one, two, three, four⟩ := tvSetSpan_values
  unfold topLevel
  simp only [tvSetSlot, tvSetIdx, apply_ite tvSetSpan, zero, one, two, three]
  split_ifs <;>
    first
    | omega
    | (simp only [Option.some.injEq, Slot.tvSet.injEq, true_and]; omega)

theorem timerSlot_delay {tick delay : Nat} (short : delay < 2 ^ 32) :
    timerSlot (tick + delay) tick = some (if delay < 256 then .tvSet0 delay
      else .tvSet (topLevel delay)
        ((tick / tvSetSpan (topLevel delay) + delay / tvSetSpan (topLevel delay)) % 64)) := by
  have diff : diffTicks (tick + delay) tick = delay := by
    unfold diffTicks
    omega
  simp only [timerSlot, diff]
  split_ifs with near
  · rw [Nat.mod_eq_of_lt near]
  · exact tvSetSlot_topLevel tick (by omega) short

/-- A punctual delay puts the timer into a slot that no cascade of this tick still serves. -/
theorem placed_delay {tick delay : Nat} (short : delay < 2 ^ 32)
    (punctual : Punctual tick delay) :
    ∃ slot, timerSlot (tick + delay) tick = some slot ∧ Placed (fun _ => True) tick (tick + delay) slot ∧
      (0 < delay → slot ≠ .tvSet0 (tick % 256)) := by
  refine ⟨_, timerSlot_delay short, ?_⟩
  unfold Punctual at punctual
  split_ifs at punctual ⊢ with near
  · refine ⟨⟨by omega, by omega, by omega⟩, ?_⟩
    intro positive
    simp only [ne_eq, Slot.tvSet0.injEq]
    omega
  · refine ⟨⟨tick / tvSetSpan (topLevel delay) + delay / tvSetSpan (topLevel delay), rfl, ?_⟩,
      by simp⟩
    obtain ⟨below, low, high⟩ := topLevel_bounds (by omega) short
    generalize topLevel delay = level at *
    have positive := tvSetSpan_pos level
    have whole := Nat.div_add_mod tick (tvSetSpan level)
    have inside := Nat.mod_lt tick positive
    have one : 1 ≤ delay / tvSetSpan level := (Nat.one_le_div_iff positive).mpr low
    have few : delay / tvSetSpan level < 64 := Nat.div_lt_of_lt_mul (by linarith)
    have carry := @Nat.add_div tick delay _ positive
    have least : tvSetSpan level ≤ tvSetSpan level * (delay / tvSetSpan level) :=
      Nat.le_mul_of_pos_right _ one
    have most : tvSetSpan level * (delay / tvSetSpan level) ≤ tvSetSpan level * 63 :=
      Nat.mul_le_mul_left _ (by omega)
    have turn := Nat.mul_add (tvSetSpan level) (tick / tvSetSpan level) (delay / tvSetSpan level)
    refine ⟨below, Nat.add_pos_right _ one, by omega, fun _ => by omega, by omega, ?_, punctual⟩
    split_ifs at carry <;> omega

/-- The slot that `_add_timer` selects suits the timer only if the delay is punctual. -/
theorem Placed.punctual {done : Slot → Prop} {tick delay : Nat} {slot : Slot}
    (placed : Placed done tick (tick + delay) slot) (short : delay < 2 ^ 32)
    (selected : timerSlot (tick + delay) tick = some slot) : Punctual tick delay := by
  rw [timerSlot_delay short] at selected
  obtain rfl := Option.some.inj selected
  unfold Punctual
  split_ifs at placed ⊢ with near
  · obtain ⟨same, _, _⟩ := placed
    omega
  · obtain ⟨turn, index, waits⟩ := placed
    rw [index]
    exact waits.served

/-- A cascade walks each slot of its level once in a turn. -/
theorem Waits.turn_less {strict : Prop} {tick runTick level turn : Nat}
    (waits : Waits strict tick runTick level turn) (due : tick % tvSetSpan level = 0) :
    turn < tick / tvSetSpan level + 64 := by
  have near := waits.near
  have whole := Nat.div_add_mod tick (tvSetSpan level)
  rw [due, Nat.add_zero] at whole
  by_contra more
  have := Nat.mul_le_mul_left (tvSetSpan level) (Nat.le_of_not_lt more)
  rw [Nat.mul_add] at this
  omega

/-- No slot that a cascade of this tick walks holds a timer that is already past it. -/
theorem placed_elsewhere {tick runTick level : Nat} {slot : Slot} 
    (placed : Placed (fun _ => True) tick runTick slot) (due : tick % tvSetSpan level = 0) : slot ≠ .tvSet level (tvSetIdx level tick) := by
  rintro rfl
  obtain ⟨turn, index, waits⟩ := placed
  have ahead := waits.passed trivial
  have whole := Nat.div_add_mod tick (tvSetSpan level)
  rw [due, Nat.add_zero] at whole
  have more : tick / tvSetSpan level < turn := by
    by_contra less
    have := Nat.mul_le_mul_left (tvSetSpan level) (Nat.le_of_not_lt less)
    omega
  have less := waits.turn_less due
  simp only [tvSetIdx] at index
  omega

/-- The slot that a cascade walks holds only timers whose turn is this tick. -/
theorem Waits.turn_now {strict : Prop} {tick runTick level turn : Nat}
    (waits : Waits strict tick runTick level turn) (due : tick % tvSetSpan level = 0)
    (index : tvSetIdx level tick = turn % 64) : tvSetSpan level * turn = tick := by
  have ahead := waits.ahead
  have whole := Nat.div_add_mod tick (tvSetSpan level)
  rw [due, Nat.add_zero] at whole
  have more : tick / tvSetSpan level ≤ turn := by
    by_contra less
    have := Nat.mul_lt_mul_of_pos_left (Nat.lt_of_not_le less) (tvSetSpan_pos level)
    omega
  have less := waits.turn_less due
  simp only [tvSetIdx] at index
  have same : turn = tick / tvSetSpan level := by omega
  rw [same, whole]

/-- A timer that a cascade moves lands where its run tick asks for. -/
theorem Waits.punctual {strict : Prop} {tick runTick level turn : Nat}
    (waits : Waits strict tick runTick level turn) (now : tvSetSpan level * turn = tick) :
    tick ≤ runTick ∧ runTick - tick < 2 * tvSetSpan level ∧ Punctual tick (runTick - tick) := by
  obtain ⟨zero, one, two, three, four⟩ := tvSetSpan_values
  obtain ⟨below, later, ahead, passed, near, covers, served⟩ := waits
  unfold Punctual topLevel
  simp only [apply_ite tvSetSpan, zero, one, two, three]
  interval_cases level <;> simp only [zero, one, two, three] at * <;>
    refine ⟨by omega, by omega, ?_⟩ <;> split_ifs <;> omega

theorem Waits.short {strict : Prop} {tick runTick level turn diff : Nat}
    (waits : Waits strict tick runTick level turn) (near : diff < 2 * tvSetSpan level) :
    diff < 2 ^ 32 := by
  obtain ⟨zero, one, two, three, four⟩ := tvSetSpan_values
  have below := waits.below
  interval_cases level <;> omega

theorem Placed.imp {done other : Slot → Prop} {tick runTick : Nat} {slot : Slot}
    (placed : Placed done tick runTick slot) (less : other slot → done slot) :
    Placed other tick runTick slot := by
  cases slot with
  | tvSet0 index => exact placed
  | tvSet level index =>
      obtain ⟨turn, same, waits⟩ := placed
      exact ⟨turn, same, { waits with passed := fun strict => waits.passed (less strict) }⟩

/-- The cascade of a level leaves the timers of this turn alone. -/
def Idle (tick level turn : Nat) : Prop :=
  ∀ strict runTick, Waits strict tick runTick level turn → tvSetSpan level * turn ≠ tick

/-- A timer whose turn is not now may count as served. -/
theorem Placed.settle {done other : Slot → Prop} {tick runTick : Nat} {slot : Slot}
    (placed : Placed done tick runTick slot)
    (served : ∀ level turn, slot = .tvSet level (turn % 64) → other slot →
      done slot ∨ Idle tick level turn) : Placed other tick runTick slot := by
  cases slot with
  | tvSet0 index => exact placed
  | tvSet level index =>
      obtain ⟨turn, same, waits⟩ := placed
      refine ⟨turn, same, { waits with passed := ?_ }⟩
      intro strict
      rcases served level turn (by rw [same]) strict with before | idle
      · exact waits.passed before
      · exact lt_of_le_of_ne waits.ahead (idle _ _ waits).symm

/-- A timer that every cascade has passed and that is not run now is placed for the next tick. -/
theorem Placed.advance {tick runTick : Nat} {slot : Slot}
    (placed : Placed (fun _ => True) tick runTick slot) (kept : slot ≠ .tvSet0 (tick % 256)) :
    Placed (fun _ => False) (tick + 1) runTick slot := by
  cases slot with
  | tvSet0 index =>
      obtain ⟨same, low, high⟩ := placed
      have other : index ≠ tick % 256 := fun equal => kept (by rw [equal])
      have late : runTick ≠ tick := by
        rintro rfl
        exact other same.symm
      exact ⟨same, by omega, by omega⟩
  | tvSet level index =>
      obtain ⟨turn, same, waits⟩ := placed
      have ahead := waits.passed trivial
      have near := waits.near
      exact ⟨turn, same, { waits with ahead := ahead, passed := False.elim, near := by omega }⟩

/-- Once the cascades of a tick are over, the timers of this tick are in one list. -/
theorem Placed.slot_now {tick : Nat} {slot : Slot} (placed : Placed (fun _ => True) tick tick slot) :
    slot = .tvSet0 (tick % 256) := by
  cases slot with
  | tvSet0 index => rw [placed.1]
  | tvSet level index =>
      obtain ⟨turn, same, waits⟩ := placed
      have ahead := waits.passed trivial
      have below : turn ≤ tick / tvSetSpan level := by
        rcases waits.covers with covers | covers <;> omega
      have := Nat.mul_le_mul_left (tvSetSpan level) below
      have := Nat.mul_div_le tick (tvSetSpan level)
      omega

theorem Placed.tick_now {done : Slot → Prop} {tick runTick : Nat}
    (placed : Placed done tick runTick (.tvSet0 (tick % 256))) : runTick = tick := by
  obtain ⟨same, low, high⟩ := placed
  omega

end Syslib.Timer
