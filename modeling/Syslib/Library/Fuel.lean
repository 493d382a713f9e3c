namespace Syslib.Fuel

variable {Result Other : Type}

/-- A run that ends keeps its result when it gets more fuel. -/
def Lasts (run : Nat → Option Result) : Prop :=
  ∀ fuel result, run fuel = some result → run (fuel + 1) = some result

variable {run : Nat → Option Result} {first second : Nat → Option Result} {follow : Result → Nat → Option Other}

theorem Lasts.le (lasts : Lasts run) {less more : Nat} {result : Result} (order : less ≤ more)
    (ran : run less = some result) : run more = some result := by
  induction order with
  | refl => exact ran
  | step _ ih => exact lasts _ _ ih

/-- Two runs that end agree. -/
theorem Lasts.agree (lasts : Lasts run) {one two : Nat} {left right : Result} (oneRan : run one = some left)
    (twoRan : run two = some right) : left = right := by
  have oneLater := lasts.le (Nat.le_max_left one two) oneRan
  have twoLater := lasts.le (Nat.le_max_right one two) twoRan
  exact Option.some.inj (oneLater.symm.trans twoLater)

theorem lasts_const (answer : Option Result) : Lasts fun _ => answer := fun _ _ ran => ran

theorem Lasts.bind (lasts : Lasts run) (later : ∀ result, Lasts (follow result)) :
    Lasts fun fuel => (run fuel).bind fun result => follow result fuel := by
  intro fuel result ran
  obtain ⟨middle, reached, ended⟩ := Option.bind_eq_some_iff.mp ran
  exact Option.bind_eq_some_iff.mpr ⟨middle, lasts _ _ reached, later middle _ _ ended⟩

theorem Lasts.ite {condition : Prop} [Decidable condition] (yes : Lasts first) (no : Lasts second) :
    Lasts fun fuel => if condition then first fuel else second fuel := by
  intro fuel result ran
  by_cases holds : condition
  · simp only [holds, if_true] at ran ⊢
    exact yes _ _ ran
  · simp only [holds, if_false] at ran ⊢
    exact no _ _ ran

end Syslib.Fuel
