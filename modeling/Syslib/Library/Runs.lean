import Mathlib.Algebra.Group.Nat.Defs
import Mathlib.Algebra.Ring.Int.Defs
import Mathlib.Data.List.Basic

namespace Syslib.Runs

variable {State Input : Type*}

/-- A run feeds the inputs to the step function; a step without a result has no successor. -/
def exec (step : Input → State → Option State) : List Input → State → Option State
  | [], state => some state
  | input :: rest, state => (step input state).bind (exec step rest)

/-- Each input of the run meets the condition in the state that its step starts from. -/
def Meets (step : Input → State → Option State) (allowed : Input → State → Prop) :
    List Input → State → Prop
  | [], _ => True
  | input :: rest, state =>
      allowed input state ∧ ∀ next ∈ step input state, Meets step allowed rest next

instance Meets.decidable (step : Input → State → Option State) (allowed : Input → State → Prop)
    [∀ input state, Decidable (allowed input state)] :
    ∀ (inputs : List Input) (state : State), Decidable (Meets step allowed inputs state)
  | [], _ => isTrue trivial
  | input :: rest, state =>
      have : ∀ next, Decidable (Meets step allowed rest next) := Meets.decidable step allowed rest
      inferInstanceAs (Decidable (allowed input state ∧ ∀ next ∈ step input state, _))

@[simp] theorem exec_nil (step : Input → State → Option State) (state : State) :
    exec step [] state = some state := rfl

theorem exec_cons (step : Input → State → Option State) (input : Input) (rest : List Input)
    (state : State) : exec step (input :: rest) state = (step input state).bind (exec step rest) := rfl

theorem exec_append (step : Input → State → Option State) (first second : List Input)
    (state : State) :
    exec step (first ++ second) state = (exec step first state).bind (exec step second) := by
  induction first generalizing state with
  | nil => rfl
  | cons input rest ih =>
      rw [List.cons_append, exec_cons, exec_cons, Option.bind_assoc]
      congr 1
      funext next
      exact ih next

theorem meets_append {step : Input → State → Option State} {allowed : Input → State → Prop}
    {first second : List Input} {state : State} :
    Meets step allowed (first ++ second) state ↔
      Meets step allowed first state ∧
        ∀ next ∈ exec step first state, Meets step allowed second next := by
  induction first generalizing state with
  | nil => simp [Meets]
  | cons input rest ih =>
      simp only [List.cons_append, Meets, ih, exec_cons, Option.mem_def, Option.bind_eq_some_iff,
        forall_exists_index, and_imp]
      constructor
      · rintro ⟨now, later⟩
        exact ⟨⟨now, fun next taken => (later next taken).1⟩,
          fun final next taken run => (later next taken).2 final run⟩
      · rintro ⟨⟨now, later⟩, after⟩
        exact ⟨now, fun next taken => ⟨later next taken, fun final run => after final next taken run⟩⟩

theorem Meets.imp {step : Input → State → Option State} {first second : Input → State → Prop} {inputs : List Input}
    {state : State} (meets : Meets step first inputs state)
    (weaker : ∀ input state, first input state → second input state) : Meets step second inputs state := by
  induction inputs generalizing state with
  | nil => trivial
  | cons input rest ih => exact ⟨weaker _ _ meets.1, fun next taken => ih (meets.2 next taken)⟩

theorem Meets.both {step : Input → State → Option State} {first second : Input → State → Prop}
    {inputs : List Input} {state : State} (one : Meets step first inputs state)
    (other : Meets step second inputs state) :
    Meets step (fun input state => first input state ∧ second input state) inputs state := by
  induction inputs generalizing state with
  | nil => trivial
  | cons input rest ih =>
      exact ⟨⟨one.1, other.1⟩, fun next taken => ih (one.2 next taken) (other.2 next taken)⟩

/-- An invariant may count the remaining steps of the run. -/
theorem exec_countdown {step : Input → State → Option State} {allowed : Input → State → Prop}
    {invariant : Nat → State → Prop}
    (preserved : ∀ input left state, invariant (left + 1) state → allowed input state →
      ∃ next, step input state = some next ∧ invariant left next)
    (inputs : List Input) (left : Nat) (state : State) (start : invariant (inputs.length + left) state)
    (meets : Meets step allowed inputs state) :
    ∃ final, exec step inputs state = some final ∧ invariant left final := by
  induction inputs generalizing state with
  | nil => exact ⟨state, rfl, by simpa using start⟩
  | cons input rest ih =>
      have counted : (input :: rest).length + left = rest.length + left + 1 := by
        rw [List.length_cons]
        omega
      rw [counted] at start
      obtain ⟨next, taken, held⟩ := preserved input _ state start meets.1
      obtain ⟨final, run, result⟩ := ih next held (meets.2 next taken)
      exact ⟨final, by rw [exec_cons, taken]; exact run, result⟩

/-- A property that every allowed step establishes again holds after every allowed run. -/
theorem exec_invariant {step : Input → State → Option State} {allowed : Input → State → Prop}
    {invariant : State → Prop}
    (preserved : ∀ input state, invariant state → allowed input state →
      ∃ next, step input state = some next ∧ invariant next)
    (inputs : List Input) (state : State) (start : invariant state)
    (meets : Meets step allowed inputs state) :
    ∃ final, exec step inputs state = some final ∧ invariant final :=
  @exec_countdown _ _ step allowed (fun _ => invariant)
    (fun input _ state => preserved input state) inputs 0 state start meets

/-- A run that has a result keeps what every allowed step with a result keeps. -/
theorem exec_keeps {step : Input → State → Option State} {allowed : Input → State → Prop}
    {invariant : State → Prop}
    (kept : ∀ input state next, invariant state → allowed input state → step input state = some next →
      invariant next)
    (inputs : List Input) (state final : State) (start : invariant state)
    (meets : Meets step allowed inputs state) (run : exec step inputs state = some final) :
    invariant final := by
  induction inputs generalizing state with
  | nil => exact Option.some.inj run ▸ start
  | cons input rest ih =>
      obtain ⟨next, taken, run⟩ := Option.bind_eq_some_iff.mp run
      exact ih next (kept input state next start meets.1 taken) (meets.2 next taken) run

/-- If points of another machine match each step, one list of points matches every prefix of the run. -/
theorem exec_simulates {Other Point : Type*} {step : Input → State → Option State}
    {allowed : Input → State → Prop} {whole : Point → Other → Option Other} {rel : State → Other → Prop}
    (matched : ∀ input state next other, rel state other → allowed input state → step input state = some next →
      ∃ point : List Point, point.length ≤ 1 ∧ ∃ after, exec whole point other = some after ∧ rel next after)
    (inputs : List Input) (state final : State) (other : Other) (start : rel state other)
    (meets : Meets step allowed inputs state) (run : exec step inputs state = some final) :
    ∃ points : List (List Point), points.length = inputs.length ∧ (∀ point ∈ points, point.length ≤ 1) ∧
      ∀ count mid, exec step (inputs.take count) state = some mid →
        ∃ after, exec whole (points.take count).flatten other = some after ∧ rel mid after := by
  induction inputs generalizing state other with
  | nil =>
      refine ⟨[], rfl, fun _ inside => absurd inside List.not_mem_nil, fun count mid reached => ?_⟩
      rw [List.take_nil] at reached ⊢
      obtain rfl := Option.some.inj reached
      exact ⟨other, rfl, start⟩
  | cons input rest ih =>
      obtain ⟨next, taken, run⟩ := Option.bind_eq_some_iff.mp run
      obtain ⟨point, short, after, moved, related⟩ := matched input state next other start meets.1 taken
      obtain ⟨points, same, each, prefixes⟩ := ih next after related (meets.2 next taken) run
      refine ⟨point :: points, by simp [same], ?_, fun count mid reached => ?_⟩
      · intro one inside
        obtain rfl | inside := List.mem_cons.mp inside
        · exact short
        · exact each one inside
      · cases count with
        | zero =>
            obtain rfl := Option.some.inj reached
            exact ⟨other, rfl, start⟩
        | succ count =>
            rw [List.take_succ_cons, exec_cons, taken] at reached
            obtain ⟨last, ends, held⟩ := prefixes count mid reached
            refine ⟨last, ?_, held⟩
            rw [List.take_succ_cons, List.flatten_cons, exec_append, moved]
            exact ends

end Syslib.Runs
