import Mathlib.Data.Fintype.Pigeonhole
import Mathlib.Logic.Function.Iterate

namespace Syslib.TwoSpeed

variable {Node : Type*}

/-- Following the links from the start meets the stop after finitely many of them. -/
def Reaches (next : Node → Node) (stop start : Node) : Prop := ∃ count, next^[count] start = stop

/-- The walk visits the node before it meets the stop. -/
def Visits (next : Node → Node) (stop start node : Node) : Prop :=
  ∃ count, next^[count] start = node ∧ ∀ before ≤ count, next^[before] start ≠ stop

/-- The walk visits a node again before it meets the stop. -/
def Loops (next : Node → Node) (stop start : Node) : Prop :=
  ∃ first again, first < again ∧ next^[again] start = next^[first] start ∧
    ∀ before ≤ again, next^[before] start ≠ stop

section Iterates

variable {next : Node → Node} {stop start : Node}

/-- The nodes up to the first stop are different, since a repetition would skip the stop. -/
theorem distinct_before {last first again : Nat} (meets : next^[last] start = stop)
    (before : ∀ count < last, next^[count] start ≠ stop) (order : first < again) (inside : again ≤ last) :
    next^[again] start ≠ next^[first] start := by
  intro same
  have shifted := congrArg (next^[last - again]) same
  rw [← Function.iterate_add_apply, ← Function.iterate_add_apply, Nat.sub_add_cancel inside, meets] at shifted
  exact before (last - again + first) (by omega) shifted.symm

theorem exists_first (reaches : Reaches next stop start) :
    ∃ last, next^[last] start = stop ∧ ∀ count < last, next^[count] start ≠ stop := by
  classical
  exact ⟨Nat.find reaches, Nat.find_spec reaches, fun count => Nat.find_min reaches⟩

theorem exists_again [Finite Node] (next : Node → Node) (start : Node) :
    ∃ first again, first < again ∧ next^[again] start = next^[first] start := by
  obtain ⟨one, other, differ, same⟩ :=
    Finite.exists_ne_map_eq_of_infinite fun count => next^[count] start
  rcases Nat.lt_or_gt_of_ne differ with order | order
  · exact ⟨one, other, order, same.symm⟩
  · exact ⟨other, one, order, same⟩

/-- Among finitely many nodes a walk without a stop is a walk into a cycle. -/
theorem loops_iff [Finite Node] : Loops next stop start ↔ ¬ Reaches next stop start := by
  constructor
  · rintro ⟨first, again, order, same, open_⟩ reaches
    obtain ⟨last, meets, before⟩ := exists_first reaches
    have inside : again ≤ last := by
      by_contra past
      exact open_ last (by omega) meets
    exact distinct_before meets before order inside same
  · intro endless
    obtain ⟨first, again, order, same⟩ := exists_again next start
    exact ⟨first, again, order, same, fun before _ meets => endless ⟨before, meets⟩⟩

theorem iterate_period {first period : Nat} (same : next^[first + period] start = next^[first] start)
    (rounds more : Nat) :
    next^[first + more + rounds * period] start = next^[first + more] start := by
  induction rounds with
  | zero => rw [Nat.zero_mul, Nat.add_zero]
  | succ rounds ih =>
      have split : first + more + (rounds + 1) * period =
          (more + rounds * period) + (first + period) := by
        rw [Nat.succ_mul]
        omega
      have joined : first + more + rounds * period = (more + rounds * period) + first := by omega
      rw [split, Function.iterate_add_apply, same, ← Function.iterate_add_apply, ← joined, ih]

/-- The cursors meet at a count that the cycle divides and that lies on the cycle. -/
theorem exists_meeting [Finite Node] (next : Node → Node) (start : Node) :
    ∃ count, 0 < count ∧ next^[2 * count] start = next^[count] start := by
  obtain ⟨first, again, order, same⟩ := exists_again next start
  obtain ⟨period, rfl⟩ := Nat.exists_eq_add_of_le (Nat.le_of_lt order)
  have positive : 0 < period := by omega
  have wide : first ≤ (first + 1) * period :=
    (Nat.le_succ first).trans (Nat.le_mul_of_pos_right (first + 1) positive)
  obtain ⟨more, split⟩ := Nat.exists_eq_add_of_le wide
  refine ⟨(first + 1) * period, Nat.mul_pos (Nat.succ_pos first) positive, ?_⟩
  have cycle := iterate_period same (first + 1) more
  rwa [← split, ← Nat.two_mul] at cycle

end Iterates

section Chase

variable [DecidableEq Node]

/-- The fast cursor takes two links in a round and the slow one takes one; the links may not be readable. -/
def chase (link : Node → Option Node) (stop : Node) : Nat → Node → Node → Option Bool
  | 0, _, _ => none
  | fuel + 1, fast, slow =>
      if fast = stop then some false
      else (link fast).bind fun ahead =>
        if ahead = stop then some false
        else if slow = stop then some false
        else (link ahead).bind fun fast => (link slow).bind fun slow =>
          if fast = slow then some true else chase link stop fuel fast slow

variable {link : Node → Option Node} {next : Node → Node} {stop start : Node}

/-- A round that neither meets the stop nor lets the cursors meet goes on with the next one. -/
theorem chase_round (fuel count : Nat)
    (reads : ∀ node, Visits next stop start node → link node = some (next node))
    (open_ : ∀ before ≤ 2 * count + 1, next^[before] start ≠ stop) :
    chase link stop (fuel + 1) (next^[2 * count] start) (next^[count] start) =
      if next^[2 * (count + 1)] start = next^[count + 1] start then some true
      else chase link stop fuel (next^[2 * (count + 1)] start) (next^[count + 1] start) := by
  have read (visit : Nat) (inside : visit ≤ 2 * count + 1) :
      link (next^[visit] start) = some (next^[visit + 1] start) := by
    rw [reads _ ⟨visit, rfl, fun before small => open_ before (by omega)⟩, Function.iterate_succ_apply']
  rw [chase, if_neg (open_ _ (by omega)), read _ (by omega), Option.bind_some,
    if_neg (open_ _ (by omega)), if_neg (open_ _ (by omega)), read _ (by omega), Option.bind_some,
    read _ (by omega), Option.bind_some]
  rfl

/-- The fast cursor is the first at the stop, and it finds it in time. -/
theorem chase_stops {last : Nat} (meets : next^[last] start = stop)
    (before : ∀ count < last, next^[count] start ≠ stop)
    (reads : ∀ node, Visits next stop start node → link node = some (next node)) (fuel count : Nat)
    (inside : 2 * count ≤ last) (enough : last < fuel + 2 * count) :
    chase link stop fuel (next^[2 * count] start) (next^[count] start) = some false := by
  induction fuel generalizing count with
  | zero => omega
  | succ fuel ih =>
      by_cases here : 2 * count = last
      · rw [chase, here, if_pos meets]
      · have first : next^[2 * count] start ≠ stop := before _ (by omega)
        by_cases ahead : 2 * count + 1 = last
        · have read : link (next^[2 * count] start) = some stop := by
            rw [reads _ ⟨2 * count, rfl, fun visit small => before visit (by omega)⟩, ← meets, ← ahead,
              Function.iterate_succ_apply']
          rw [chase, if_neg first, read, Option.bind_some, if_pos rfl]
        · rw [chase_round fuel count reads fun visit small => before visit (by omega),
            if_neg (distinct_before meets before (by omega) (by omega))]
          exact ih (count + 1) (by omega) (by omega)

/-- Without a stop the cursors go on until they meet. -/
theorem chase_meets (endless : ¬ Reaches next stop start)
    (reads : ∀ node, Visits next stop start node → link node = some (next node)) {meeting : Nat}
    (meets : next^[2 * meeting] start = next^[meeting] start) (fuel count : Nat)
    (inside : count < meeting) (enough : meeting ≤ fuel + count) :
    chase link stop fuel (next^[2 * count] start) (next^[count] start) = some true := by
  induction fuel generalizing count with
  | zero => omega
  | succ fuel ih =>
      rw [chase_round fuel count reads fun visit _ stopped => endless ⟨visit, stopped⟩]
      split_ifs with met
      · rfl
      · have later : count + 1 ≠ meeting := by
          rintro rfl
          exact met meets
        exact ih (count + 1) (by omega) (by omega)

/-- The chase ends, and the cursors meet exactly when the walk never meets the stop. -/
theorem chase_ends [Finite Node] (reads : ∀ node, Visits next stop start node → link node = some (next node)) :
    ∃ met enough, (∀ fuel, enough ≤ fuel → chase link stop fuel start start = some met) ∧
      (met = true ↔ ¬ Reaches next stop start) := by
  by_cases reaches : Reaches next stop start
  · obtain ⟨last, meets, before⟩ := exists_first reaches
    refine ⟨false, last + 1, fun fuel enough => ?_, by simp [reaches]⟩
    exact chase_stops meets before reads fuel 0 (by omega) (by omega)
  · obtain ⟨meeting, positive, meets⟩ := exists_meeting next start
    refine ⟨true, meeting, fun fuel enough => ?_, by simp [reaches]⟩
    exact chase_meets reaches reads meets fuel 0 positive (by omega)

end Chase

end Syslib.TwoSpeed
