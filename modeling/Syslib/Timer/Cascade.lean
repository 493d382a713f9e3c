import Syslib.Timer.Schedule

namespace Syslib.Timer

open IntrusiveLists Runs

/-- The guard of `__casade0`, and those of `__casade(i)` for the levels above it. -/
def LevelDue (tick : Nat) : Nat → Prop
  | 0 => 0 < tick ∧ tick % 256 = 0
  | i + 1 => casadeDue i tick

instance LevelDue.decidable (tick : Nat) : ∀ level, Decidable (LevelDue tick level)
  | 0 => inferInstanceAs (Decidable (_ ∧ _))
  | i + 1 => inferInstanceAs (Decidable (casadeDue i tick))

/-- These levels are cascaded at the tick, in this order. -/
def dueLevels (tick : Nat) : List Nat := [0, 1, 2, 3].filter fun level => LevelDue tick level

/-- The tick cascades the list. -/
def CascadedAt (tick : Nat) (slot : Slot) : Prop :=
  ∃ level ∈ dueLevels tick, slot = .tvSet level (tvSetIdx level tick)

instance CascadedAt.decidable (tick : Nat) (slot : Slot) : Decidable (CascadedAt tick slot) :=
  inferInstanceAs (Decidable (∃ level ∈ _, _))

/-- The cascades of a tick go through the levels that are due. -/
theorem casades_eq (wheel : TimerWheel) : casades wheel =
    (dueLevels wheel.currentTick).foldlM (fun wheel level => casadeList level wheel) wheel := by
  have first : LevelDue wheel.currentTick 0 ↔ 0 < wheel.currentTick ∧ wheel.currentTick % 256 = 0 := Iff.rfl
  have later (i : Nat) : LevelDue wheel.currentTick (i + 1) ↔ casadeDue i wheel.currentTick := Iff.rfl
  simp only [casades, casadeIf, casade0, casade, dueLevels]
  by_cases due0 : LevelDue wheel.currentTick 0 <;> by_cases due1 : LevelDue wheel.currentTick 1 <;>
    by_cases due2 : LevelDue wheel.currentTick 2 <;> by_cases due3 : LevelDue wheel.currentTick 3 <;>
      simp [List.filter, due0, due1, due2, due3, first.symm, (later 0).symm, (later 1).symm, (later 2).symm]

/-- The slot index of the delay is not one that the guard of its level skips. -/
def Covered (tick delay : Nat) : Prop :=
  if topLevel delay = 0 then (tick / 256 + delay / 256) % 2 ^ 56 ≠ 0
  else (tick / tvSetSpan (topLevel delay) + delay / tvSetSpan (topLevel delay)) % 64 ≠ 0

theorem timerSlot_wraps {tick delay : Nat} (word : tick < 2 ^ 64) (long : 256 ≤ delay)
    (short : delay < 2 ^ 32) : timerSlot ((tick + delay) % 2 ^ 64) tick = some (.tvSet (topLevel delay)
      ((tick / tvSetSpan (topLevel delay) + delay / tvSetSpan (topLevel delay)) % 64)) := by
  have diff : diffTicks ((tick + delay) % 2 ^ 64) tick = delay := by
    unfold diffTicks
    omega
  simp only [timerSlot, diff]
  rw [if_neg (Nat.not_lt.mpr long)]
  exact tvSetSlot_topLevel tick long short

/-- A level is due at a tick when its span divides the tick and the next index is not zero. -/
theorem levelDue_iff {tick level : Nat} : LevelDue tick level ↔ tick % tvSetSpan level = 0 ∧
    if level = 0 then 0 < tick else tick % tvSetSpan (level + 1) ≠ 0 := by
  cases level with
  | zero => exact and_comm
  | succ i => exact and_comm

theorem mem_dueLevels {tick level : Nat} : level ∈ dueLevels tick ↔ level < 4 ∧ LevelDue tick level := by
  rw [dueLevels, List.mem_filter, decide_eq_true_eq]
  refine and_congr_left fun _ => ?_
  simp only [List.mem_cons, List.not_mem_nil, or_false]
  omega

/-- Only one tick within the delay can cascade the list: the turn of its index. -/
theorem cascadedAt_turn {tick delay at_ : Nat} (long : 256 ≤ delay) (short : delay < 2 ^ 32)
    (after : tick < at_) (before : at_ ≤ tick + delay)
    (cascaded : CascadedAt (at_ % 2 ^ 64) (.tvSet (topLevel delay)
      ((tick / tvSetSpan (topLevel delay) + delay / tvSetSpan (topLevel delay)) % 64))) :
    at_ = tvSetSpan (topLevel delay) *
        (tick / tvSetSpan (topLevel delay) + delay / tvSetSpan (topLevel delay)) ∧
      LevelDue (at_ % 2 ^ 64) (topLevel delay) := by
  obtain ⟨level, due, same⟩ := cascaded
  obtain ⟨rfl, index⟩ : topLevel delay = level ∧ _ := by simpa using same
  have guard := (mem_dueLevels.mp due).2
  refine ⟨?_, guard⟩
  have whole := (levelDue_iff.mp guard).1
  obtain ⟨below, low, high⟩ := topLevel_bounds long short
  obtain ⟨zero, one, two, three, four⟩ := tvSetSpan_values
  rw [tvSetIdx] at index
  generalize topLevel delay = level at *
  interval_cases level <;> simp only [zero, one, two, three] at * <;> omega

/-- A long delay is covered exactly when its list is cascaded before the timer is due. -/
theorem covered_iff {tick delay : Nat} (long : 256 ≤ delay) (short : delay < 2 ^ 32) :
    (∃ at_, tick < at_ ∧ at_ ≤ tick + delay ∧ CascadedAt (at_ % 2 ^ 64) (.tvSet (topLevel delay)
      ((tick / tvSetSpan (topLevel delay) + delay / tvSetSpan (topLevel delay)) % 64))) ↔
      Covered tick delay := by
  obtain ⟨below, low, high⟩ := topLevel_bounds long short
  obtain ⟨zero, one, two, three, four⟩ := tvSetSpan_values
  constructor
  · rintro ⟨at_, after, before, cascaded⟩
    obtain ⟨turn, due⟩ := cascadedAt_turn long short after before cascaded
    have guard := levelDue_iff.mp due
    unfold Covered
    generalize topLevel delay = level at *
    interval_cases level <;> simp [zero, one, two, three, four] at * <;> omega
  · intro covered
    unfold Covered at covered
    refine ⟨tvSetSpan (topLevel delay) *
      (tick / tvSetSpan (topLevel delay) + delay / tvSetSpan (topLevel delay)), ?_, ?_, topLevel delay,
      mem_dueLevels.mpr ⟨below, levelDue_iff.mpr ?_⟩, ?_⟩
    · generalize topLevel delay = level at *
      interval_cases level <;> simp only [zero, one, two, three] at * <;> omega
    · generalize topLevel delay = level at *
      interval_cases level <;> simp only [zero, one, two, three] at * <;> omega
    · generalize topLevel delay = level at *
      interval_cases level <;> simp [zero, one, two, three, four] at * <;> omega
    · rw [tvSetIdx]
      generalize topLevel delay = level at *
      interval_cases level <;> simp only [zero, one, two, three, Slot.tvSet.injEq, true_and] at * <;> omega

/-- The list that `_add_timer` picks for a long delay is cascaded in time exactly when it is covered. -/
theorem timerSlot_cascaded (c : BitVec 64) (d : BitVec 32) (long : 256 ≤ d.toNat) :
    ∃ slot, timerSlot ((c.toNat + d.toNat) % 2 ^ 64) c.toNat = some slot ∧
      ((∃ t, c.toNat < t ∧ t ≤ c.toNat + d.toNat ∧ CascadedAt (t % 2 ^ 64) slot) ↔
        Covered c.toNat d.toNat) :=
  ⟨_, timerSlot_wraps c.isLt long d.isLt, covered_iff long d.isLt⟩

theorem timerSlot_cascaded_once :
    ∃ slot, timerSlot (((1 : BitVec 64).toNat + (300 : BitVec 32).toNat) % 2 ^ 64)
        (1 : BitVec 64).toNat = some slot ∧
      ((∃ t, (1 : BitVec 64).toNat < t ∧ t ≤ (1 : BitVec 64).toNat + (300 : BitVec 32).toNat ∧
          CascadedAt (t % 2 ^ 64) slot) ↔ Covered (1 : BitVec 64).toNat (300 : BitVec 32).toNat) :=
  timerSlot_cascaded 1 300 (by decide)

/-- The first list of a level above the lowest one is not in any tick's cascades. -/
theorem not_cascadedAt_first (tick level : Nat) : ¬ CascadedAt tick (.tvSet (level + 1) 0) := by
  rintro ⟨other, due, same⟩
  obtain ⟨rfl, index⟩ : level + 1 = other ∧ 0 = tvSetIdx other tick := by simpa using same
  exact casade_skips_first (mem_dueLevels.mp due).2 index.symm

/-- At tick 1032192 the delay 16384 selects the first list of the second level. -/
theorem timerSlot_skipped : timerSlot (1032192 + 16384) 1032192 = some (.tvSet 1 0) ∧
    ¬ ∃ t, 1032192 < t ∧ t ≤ 1032192 + 16384 ∧ CascadedAt t (.tvSet 1 0) := by
  refine ⟨by decide, ?_⟩
  rintro ⟨t, -, -, cascaded⟩
  exact not_cascadedAt_first t 0 cascaded

end Syslib.Timer
