import Syslib.Timer.Wheel
import Syslib.Library.Runs

namespace Syslib.Timer

open IntrusiveLists Runs

/-- The allocator fails or answers with an address that no timer has; the delay is an `unsigned int`. -/
def Call.Fits : Call → TimerWheel → Prop
  | .addTimer delayTick callbackFunc _ _ answer, wheel =>
      delayTick < 2 ^ 32 ∧ (callbackFunc ≠ 0 → answer ≠ 0 → wheel.nodes answer = none)
  | _, _ => True

/-- The slot arithmetic serves the new timer and the reloaded ones, and no pending timer is lost. -/
def Call.OnTime : Call → TimerWheel → Prop
  | .initTimer restored, wheel => restored → ∀ slot ∈ tvSlots, wheel.lists slot = []
  | .addTimer delayTick callbackFunc runOnce _ answer, wheel =>
      callbackFunc ≠ 0 → answer ≠ 0 → wheel.currentTick + delayTick < 2 ^ 64 ∧
        (0 < delayTick ∧ Punctual wheel.currentTick delayTick ∨ delayTick = 0 ∧ runOnce ≠ 0)
  | .delTimer _, _ => True
  | .onTick, wheel => wheel.currentTick + 1 < 2 ^ 64 ∧ wheel.Reloads

instance (call : Call) (wheel : TimerWheel) : Decidable (call.Fits wheel) := by
  cases call <;> unfold Call.Fits <;> infer_instance

instance (call : Call) (wheel : TimerWheel) : Decidable (call.OnTime wheel) := by
  cases call <;> unfold Call.OnTime <;> infer_instance

def Call.Allowed (call : Call) (trace : Trace) : Prop :=
  call.Fits trace.wheel ∧ call.OnTime trace.wheel

instance (call : Call) (trace : Trace) : Decidable (call.Allowed trace) :=
  inferInstanceAs (Decidable (_ ∧ _))

/-- The record that `add_timer` fills in. -/
def TimerWheel.added (wheel : TimerWheel) (delayTick callbackFunc : Nat) (runOnce : Int)
    (param : Nat) : TimerNode :=
  { runOnce, runTick := (wheel.currentTick + delayTick) % 2 ^ 64, delayTick, callbackFunc,
    funcParam := param }

/-- An accepted timer enters the wheel, and the other timers stay as they are. -/
theorem addTimer_enters {wheel : TimerWheel} (sound : wheel.Sound fun _ => False)
    {delayTick callbackFunc param answer : Nat} {runOnce : Int} (named : callbackFunc ≠ 0) (real : answer ≠ 0)
    (fits : (Call.addTimer delayTick callbackFunc runOnce param answer).Fits wheel)
    (onTime : (Call.addTimer delayTick callbackFunc runOnce param answer).OnTime wheel) :
    ∃ next, addTimer wheel delayTick callbackFunc runOnce param answer = some (next, answer) ∧
      next.Sound (fun _ => False) ∧ next.currentTick = wheel.currentTick ∧
      next.nodes = Function.update wheel.nodes answer
        (some (wheel.added delayTick callbackFunc runOnce param)) := by
  obtain ⟨short, fresh⟩ := fits
  obtain ⟨small, suits⟩ := onTime named real
  have unlinked : removeNode wheel.lists answer = wheel.lists := by
    refine removeNode_unlinked fun slot inside => ?_
    obtain ⟨node, stored, _⟩ := sound.seated inside
    simp [fresh named real] at stored
  have whole : (wheel.currentTick + delayTick) % 2 ^ 64 = wheel.currentTick + delayTick :=
    Nat.mod_eq_of_lt small
  obtain ⟨slot, linked, kept⟩ : ∃ slot,
      addTimerNode (wheel.write answer (some (wheel.added delayTick callbackFunc runOnce param)))
        answer = some (wheel.relink answer (wheel.added delayTick callbackFunc runOnce param) slot) ∧
      (wheel.relink answer (wheel.added delayTick callbackFunc runOnce param) slot).Sound
        (fun _ => False) := by
    rcases suits with ⟨positive, punctual⟩ | ⟨zero, once⟩
    · obtain ⟨slot, linked, kept, _⟩ := @addTimerNode_enters _ _ sound answer
        (wheel.added delayTick callbackFunc runOnce param) ⟨short, fun _ => positive⟩ whole punctual
      rw [TimerWheel.lstRemoveNode, unlinked] at linked
      exact ⟨slot, linked, kept⟩
    · subst zero
      have place : timerSlot (wheel.currentTick + 0) wheel.currentTick = some (.tvSet0 0) :=
        timerSlot_delay short
      rw [← whole] at place
      refine ⟨.tvSet0 0, ?_, sound.relink (Or.inr ⟨⟨once, rfl⟩, rfl⟩)
        ⟨short, fun periodic => absurd periodic once⟩⟩
      rw [TimerWheel.relink, unlinked]
      exact addTimerNode_relink (Function.update_self _ _ _) place
  refine ⟨_, ?_, kept, rfl, rfl⟩
  rw [addTimer, if_neg (by simp [named, real])]
  exact congrArg (Option.map fun next => (next, answer)) linked

/-- Without orphans a timer can be deleted, and its memory is given back. -/
theorem delTimer_sound {wheel : TimerWheel} (sound : wheel.Sound fun _ => False) (theTimer : Nat) :
    ∃ next, delTimer wheel theTimer = some next ∧ next.Sound (fun _ => False) ∧
      next.currentTick = wheel.currentTick ∧ next.nodes = Function.update wheel.nodes theTimer none := by
  unfold delTimer
  by_cases gone : wheel.nodes theTimer = none
  · refine ⟨wheel, by simp [gone], sound, rfl, ?_⟩
    rw [← gone, Function.update_eq_self]
  · exact ⟨delTimerNode wheel theTimer, by simp [gone, sound.whole], delTimerNode_sound sound theTimer, rfl, rfl⟩

theorem TimerWheel.Sound.none_left {done : Slot → Prop} {wheel : TimerWheel}
    (sound : wheel.Sound done) (empty : ∀ slot ∈ tvSlots, wheel.lists slot = []) (tn : Nat) :
    wheel.nodes tn = none := by
  by_contra some_
  obtain ⟨node, stored⟩ := Option.ne_none_iff_exists'.mp some_
  obtain ⟨slot, inside⟩ := sound.linked stored
  obtain ⟨other, _, seated⟩ := sound.seated inside
  rw [empty slot seated.mem_tvSlots] at inside
  exact List.not_mem_nil inside

theorem initTimer_sound {wheel : TimerWheel} (sound : wheel.Sound fun _ => False) (restored : Bool)
    (onTime : (Call.initTimer restored).OnTime wheel) :
    (initTimer wheel restored).1.Sound fun _ => False := by
  cases restored with
  | false => exact sound
  | true =>
      have empty := onTime rfl
      refine ⟨Apart.empty, fun inside => absurd inside List.not_mem_nil, ?_, sound.regular, ?_⟩
      · intro tn node stored
        cases (sound.none_left empty tn).symm.trans stored
      · rw [initTimer, if_pos rfl]
        simp only [sound.whole, List.nil_append, List.flatMap_eq_nil_iff]
        exact empty

/-- Every allowed call returns, and it keeps each timer in the list that suits it. -/
theorem callStep_sound {call : Call} {trace : Trace} (sound : trace.wheel.Sound fun _ => False)
    (allowed : call.Allowed trace) :
    ∃ next, callStep call trace = some next ∧ next.wheel.Sound fun _ => False := by
  obtain ⟨fits, onTime⟩ := allowed
  cases call with
  | initTimer restored => exact ⟨_, rfl, initTimer_sound sound restored onTime⟩
  | addTimer delayTick callbackFunc runOnce param answer =>
      by_cases failed : callbackFunc = 0 ∨ answer = 0
      · exact ⟨⟨trace.wheel, []⟩, by simp [callStep, addTimer, failed], sound⟩
      · obtain ⟨named, real⟩ := not_or.mp failed
        obtain ⟨next, added, kept, _⟩ := addTimer_enters sound named real fits onTime
        exact ⟨⟨next, []⟩, by simp [callStep, added], kept⟩
  | delTimer theTimer =>
      obtain ⟨next, deleted, kept, -⟩ := delTimer_sound sound theTimer
      exact ⟨⟨next, []⟩, by simp [callStep, deleted], kept⟩
  | onTick =>
      obtain ⟨next, invoked, due, ran, ticked⟩ := onTick_ticked sound onTime.2 onTime.1
      exact ⟨⟨next, invoked⟩, by simp [callStep, ran], ticked.sound⟩

theorem start_sound : start.wheel.Sound fun _ => False :=
  ⟨Apart.empty, fun inside => absurd inside List.not_mem_nil, fun stored => by simp [start] at stored,
    fun stored => by simp [start] at stored, rfl⟩

/-- A run-once timer is due once, a periodic one at every multiple of its delay. -/
def DueAt (since delay : Nat) (runOnce : Int) (tick : Nat) : Prop :=
  if runOnce ≠ 0 then tick = since + delay else ∃ rounds, 1 ≤ rounds ∧ tick = since + rounds * delay

instance (since delay : Nat) (tick : Nat) : Decidable (DueAt since delay 1 tick) :=
  inferInstanceAs (Decidable (tick = since + delay))

def Call.Ends (call : Call) (handle : Nat) : Prop :=
  call = .delTimer handle ∨ call = .initTimer true

/-- The allocator hands the memory of the timer out again. -/
def Call.Reuses (handle : Nat) : Call → Prop
  | .addTimer _ callbackFunc _ _ answer => callbackFunc ≠ 0 ∧ answer = handle
  | _ => False

/-- The timer that was added with this record is pending for its next round. -/
structure Pending (node : TimerNode) (since handle : Nat) (wheel : TimerWheel) : Prop where
  rounds : ∃ rounds, 1 ≤ rounds ∧ (node.runOnce ≠ 0 → rounds = 1) ∧
    (since + (rounds - 1) * node.delayTick < wheel.currentTick ∨
      rounds = 1 ∧ since ≤ wheel.currentTick) ∧
    wheel.currentTick ≤ since + rounds * node.delayTick ∧
    wheel.nodes handle = some { node with runTick := since + rounds * node.delayTick }

/-- A timer is over when a call ended it or when its only round has passed. -/
structure Over (ended : Prop) (node : TimerNode) (since handle : Nat) (wheel : TimerWheel) : Prop where
  gone : wheel.nodes handle = none
  cause : ended ∨ node.runOnce ≠ 0 ∧ since + node.delayTick < wheel.currentTick

def Follows (ended : Prop) (node : TimerNode) (since handle : Nat) (wheel : TimerWheel) : Prop :=
  (¬ ended ∧ Pending node since handle wheel) ∨ Over ended node since handle wheel

theorem Follows.keep {ended after : Prop} {node : TimerNode} {since handle : Nat}
    {wheel next : TimerWheel} (follows : Follows ended node since handle wheel)
    (same : after ↔ ended) (nodes : next.nodes handle = wheel.nodes handle)
    (tick : next.currentTick = wheel.currentTick) : Follows after node since handle next := by
  rcases follows with ⟨active, ⟨rounds⟩⟩ | ⟨gone, cause⟩
  · exact Or.inl ⟨fun halted => active (same.mp halted), ⟨by rw [nodes, tick]; exact rounds⟩⟩
  · exact Or.inr ⟨nodes.trans gone, by rw [same, tick]; exact cause⟩

/-- A tick drops the timer, gives it its next round, or leaves it pending. -/
theorem Ticked.follows {ended : Prop} {node : TimerNode} {since handle : Nat}
    {wheel next : TimerWheel} {due : List Nat} {invoked : List Invocation}
    (ticked : Ticked wheel due next invoked)
    (reloads : ∀ {tn node}, wheel.nodes tn = some node → node.Reloads wheel.currentTick)
    (positive : 0 < node.delayTick) (follows : Follows ended node since handle wheel) :
    Follows ended node since handle next := by
  have tick := ticked.tick
  have records := ticked.nodes handle
  rcases follows with ⟨active, ⟨rounds, least, single, late, early, stored⟩⟩ | ⟨gone, cause⟩
  · have members := ticked.members stored positive
    simp only at members
    by_cases now : since + rounds * node.delayTick = wheel.currentTick
    · rw [if_pos (members.mpr now), stored, Option.bind_some, TimerNode.reload] at records
      by_cases once : node.runOnce ≠ 0
      · rw [if_pos once] at records
        have first : rounds = 1 := single once
        refine Or.inr ⟨records, Or.inr ⟨once, ?_⟩⟩
        rw [first, one_mul] at now
        omega
      · obtain ⟨fits, _⟩ := reloads stored (not_not.mp once) now
        rw [if_neg once, Nat.mod_eq_of_lt fits] at records
        have later : since + (rounds + 1) * node.delayTick = wheel.currentTick + node.delayTick := by
          rw [Nat.add_mul, one_mul]
          omega
        refine Or.inl ⟨active, ⟨rounds + 1, by omega, fun last => absurd last once, ?_, ?_, ?_⟩⟩
        · left
          rw [Nat.add_sub_cancel, tick]
          omega
        · omega
        · rw [records, later]
    · rw [if_neg fun inside => now (members.mp inside), stored] at records
      refine Or.inl ⟨active, ⟨rounds, least, single, ?_, by omega, records⟩⟩
      rcases late with late | ⟨first, start⟩
      · exact Or.inl (by omega)
      · exact Or.inr ⟨first, by omega⟩
  · refine Or.inr ⟨by simp [records, gone], cause.imp_right fun fired => ⟨fired.1, by omega⟩⟩

theorem callStep_follows {ended : Prop} {node : TimerNode} {since handle : Nat} {call : Call}
    {trace next : Trace} (sound : trace.wheel.Sound fun _ => False) (allowed : call.Allowed trace)
    (positive : 0 < node.delayTick) (kept : ¬ call.Reuses handle)
    (follows : Follows ended node since handle trace.wheel)
    (taken : callStep call trace = some next) :
    Follows (ended ∨ call.Ends handle) node since handle next.wheel := by
  obtain ⟨fits, onTime⟩ := allowed
  cases call with
  | initTimer restored =>
      obtain rfl := Option.some.inj taken
      cases restored with
      | false => exact follows.keep (by simp [Call.Ends]) rfl rfl
      | true => exact Or.inr ⟨sound.none_left (onTime rfl) handle, Or.inl (Or.inr (Or.inr rfl))⟩
  | addTimer delayTick callbackFunc runOnce param answer =>
      by_cases failed : callbackFunc = 0 ∨ answer = 0
      · obtain rfl : ⟨trace.wheel, []⟩ = next := by
          simpa [callStep, addTimer, failed] using taken
        exact follows.keep (by simp [Call.Ends]) rfl rfl
      · obtain ⟨named, real⟩ := not_or.mp failed
        obtain ⟨wheel, added, _, tick, nodes⟩ := addTimer_enters sound named real fits onTime
        obtain rfl : ⟨wheel, []⟩ = next := by simpa [callStep, added] using taken
        have other : handle ≠ answer := fun same => kept ⟨named, same.symm⟩
        exact follows.keep (by simp [Call.Ends]) (by simp [nodes, other]) tick
  | delTimer theTimer =>
      obtain ⟨wheel, deleted, -, tick, nodes⟩ := delTimer_sound sound theTimer
      obtain rfl : ⟨wheel, []⟩ = next := by simpa [callStep, deleted] using taken
      by_cases same : theTimer = handle
      · subst same
        exact Or.inr ⟨by simp [nodes], Or.inl (Or.inr (Or.inl rfl))⟩
      · exact follows.keep (by simp [Call.Ends, same]) (by simp [nodes, Ne.symm same]) tick
  | onTick =>
      obtain ⟨wheel, invoked, due, ran, ticked⟩ := onTick_ticked sound onTime.2 onTime.1
      obtain rfl : ⟨wheel, invoked⟩ = next := by simpa [callStep, ran] using taken
      exact (ticked.follows (sound.reloads onTime.2) positive follows).keep (by simp [Call.Ends]) rfl rfl

/-- The timer stays pending until a call ends it or its only round passes. -/
theorem calls_follow {node : TimerNode} {since handle : Nat} (positive : 0 < node.delayTick)
    (calls : List Call) (ended : Prop) (trace : Trace) (sound : trace.wheel.Sound fun _ => False)
    (follows : Follows ended node since handle trace.wheel)
    (kept : ∀ call ∈ calls, ¬ call.Reuses handle)
    (meets : Meets callStep Call.Allowed calls trace) :
    ∃ last, exec callStep calls trace = some last ∧ (last.wheel.Sound fun _ => False) ∧
      Follows (ended ∨ ∃ call ∈ calls, call.Ends handle) node since handle last.wheel := by
  induction calls generalizing ended trace with
  | nil => exact ⟨trace, rfl, sound, follows.keep (by simp) rfl rfl⟩
  | cons call rest ih =>
      obtain ⟨next, taken, held⟩ := callStep_sound sound meets.1
      have step := callStep_follows sound meets.1 positive (kept call List.mem_cons_self) follows taken
      obtain ⟨last, run, result, followed⟩ := ih _ next held step
        (fun other inside => kept other (List.mem_cons_of_mem call inside)) (meets.2 next taken)
      refine ⟨last, by rw [exec_cons, taken]; exact run, result, followed.keep ?_ rfl rfl⟩
      simp [or_assoc]

/-- The invocations of a handle are at most one, because the timers of the tick are distinct. -/
theorem filter_invocations (nodes : Nat → Option TimerNode) (handle : Nat) {due : List Nat}
    (once : due.Nodup) :
    (due.filterMap fun tn => (nodes tn).map (TimerNode.invocation tn)).filter
        (fun invocation => invocation.handle = handle) =
      if handle ∈ due then ((nodes handle).map (TimerNode.invocation handle)).toList else [] := by
  induction due with
  | nil => rfl
  | cons tn rest ih =>
      rw [List.nodup_cons] at once
      have rest_eq := ih once.2
      by_cases same : tn = handle
      · subst same
        rw [if_neg once.1] at rest_eq
        cases stored : nodes tn <;> simp [stored, rest_eq, TimerNode.invocation]
      · cases stored : nodes tn <;>
          simp [stored, rest_eq, TimerNode.invocation, same, Ne.symm same]

/-- A pending timer is run now exactly when the schedule says so. -/
theorem Pending.due_iff {node : TimerNode} {since handle : Nat} {wheel : TimerWheel}
    (pending : Pending node since handle wheel) :
    ∃ runTick, wheel.nodes handle = some { node with runTick } ∧
      (DueAt since node.delayTick node.runOnce wheel.currentTick ↔ runTick = wheel.currentTick) := by
  obtain ⟨rounds, least, single, late, early, stored⟩ := pending.rounds
  refine ⟨_, stored, ?_⟩
  unfold DueAt
  split_ifs with once
  · rw [single once, one_mul]
    exact eq_comm
  · constructor
    · rintro ⟨other, some_, now⟩
      have notLess : rounds ≤ other := by
        by_contra less
        rcases late with late | ⟨first, _⟩
        · have : other * node.delayTick ≤ (rounds - 1) * node.delayTick :=
            Nat.mul_le_mul_right _ (by omega)
          omega
        · omega
      have : rounds * node.delayTick ≤ other * node.delayTick := Nat.mul_le_mul_right _ notLess
      omega
    · intro now
      exact ⟨rounds, least, now.symm⟩

/-- A tick invokes the callback once when the timer is due, and otherwise not at all. -/
theorem Ticked.on_schedule {ended : Prop} {node : TimerNode} {since handle : Nat}
    {wheel next : TimerWheel} {due : List Nat} {invoked : List Invocation}
    (ticked : Ticked wheel due next invoked) (positive : 0 < node.delayTick)
    (follows : Follows ended node since handle wheel) :
    (¬ ended → DueAt since node.delayTick node.runOnce wheel.currentTick →
      invoked.filter (fun invocation => invocation.handle = handle) = [node.invocation handle]) ∧
    (ended ∨ ¬ DueAt since node.delayTick node.runOnce wheel.currentTick →
      invoked.filter (fun invocation => invocation.handle = handle) = []) := by
  rw [ticked.log, filter_invocations _ _ ticked.once]
  rcases follows with ⟨active, pending⟩ | ⟨gone, cause⟩
  · obtain ⟨runTick, stored, due_iff⟩ := pending.due_iff
    have members := ticked.members stored positive
    constructor
    · intro _ now
      rw [if_pos (members.mpr (due_iff.mp now)), stored]
      rfl
    · rintro (halted | never)
      · exact absurd halted active
      · exact if_neg fun inside => never (due_iff.mpr (members.mp inside))
  · refine ⟨fun active now => ?_, fun _ => by simp [gone]⟩
    rcases cause with halted | ⟨once, passed⟩
    · exact absurd halted active
    · rw [DueAt, if_pos once] at now
      omega

/-- While every slot is right, a timer is run at its ticks, at no other tick, and never after its end. -/
theorem timerCalls_onTime (before between : List Call) (delayTick callbackFunc : Nat)
    (runOnce : Int) (param handle : Nat) (named : callbackFunc ≠ 0) (real : handle ≠ 0) (positive : 0 < delayTick)
    (current : ∀ call ∈ between, ¬ call.Reuses handle)
    (meets : Meets callStep Call.Allowed
      (before ++ .addTimer delayTick callbackFunc runOnce param handle :: between ++ [.onTick]) start) :
    ∃ since now after, exec callStep before start = some since ∧
      exec callStep (before ++ .addTimer delayTick callbackFunc runOnce param handle :: between) start =
        some now ∧
      callStep .onTick now = some after ∧
      ((∀ call ∈ between, ¬ call.Ends handle) →
        DueAt since.wheel.currentTick delayTick runOnce now.wheel.currentTick →
        after.invoked.filter (fun invocation => invocation.handle = handle) =
          [⟨callbackFunc, handle, param⟩]) ∧
      ((∃ call ∈ between, call.Ends handle) ∨
          ¬ DueAt since.wheel.currentTick delayTick runOnce now.wheel.currentTick →
        after.invoked.filter (fun invocation => invocation.handle = handle) = []) := by
  rw [meets_append, meets_append] at meets
  obtain ⟨⟨meetsBefore, meetsFrom⟩, meetsTick⟩ := meets
  obtain ⟨since, ranBefore, sound⟩ := @exec_invariant _ _ callStep Call.Allowed
    (fun trace => trace.wheel.Sound fun _ => False)
    (fun _ _ sound allowed => callStep_sound sound allowed) before start start_sound meetsBefore
  obtain ⟨allowed, meetsBetween⟩ := meetsFrom since ranBefore
  obtain ⟨wheel, entered, held, tick, nodes⟩ := addTimer_enters sound named real allowed.1 allowed.2
  have added : callStep (.addTimer delayTick callbackFunc runOnce param handle) since =
      some ⟨wheel, []⟩ := by simp [callStep, entered]
  let node := since.wheel.added delayTick callbackFunc runOnce param
  have whole : (since.wheel.currentTick + delayTick) % 2 ^ 64 =
      since.wheel.currentTick + delayTick := Nat.mod_eq_of_lt (allowed.2 named real).1
  have pending : Pending node since.wheel.currentTick handle wheel := by
    refine ⟨⟨1, le_rfl, fun _ => rfl, Or.inr ⟨rfl, tick.ge⟩, ?_, ?_⟩⟩
    · rw [tick]
      exact Nat.le_add_right _ _
    · rw [nodes, Function.update_self, one_mul]
      simp only [node, TimerWheel.added, whole]
  obtain ⟨now, ranBetween, soundNow, follows⟩ := @calls_follow node since.wheel.currentTick handle
    positive between False ⟨wheel, []⟩ held (Or.inl ⟨not_false, pending⟩) current
    (meetsBetween _ added)
  have ran : exec callStep
      (before ++ .addTimer delayTick callbackFunc runOnce param handle :: between) start =
        some now := by
    rw [exec_append, ranBefore, Option.bind_some, exec_cons, added]
    exact ranBetween
  obtain ⟨⟨fits, onTime⟩, _⟩ := meetsTick now ran
  obtain ⟨next, invoked, due, ticks, ticked⟩ := onTick_ticked soundNow onTime.2 onTime.1
  obtain ⟨runs, rests⟩ := @Ticked.on_schedule _ node since.wheel.currentTick handle _ _ _ _ ticked
    positive follows
  refine ⟨since, now, ⟨next, invoked⟩, ranBefore, ran, by simp [callStep, ticks], ?_, ?_⟩
  · intro open_
    exact runs (by simpa using open_)
  · rintro (halted | never)
    · exact rests (Or.inl (Or.inr halted))
    · exact rests (Or.inr never)

/-- A run-once timer with delay 5 that is added at tick 0 runs at tick 5. -/
theorem timerCalls_onTime_fifth :
    ∃ since now after, exec callStep [] start = some since ∧
      exec callStep ([] ++ .addTimer 5 7 1 9 64 :: List.replicate 5 .onTick) start = some now ∧
      callStep .onTick now = some after ∧
      ((∀ call ∈ List.replicate 5 Call.onTick, ¬ call.Ends 64) →
        DueAt since.wheel.currentTick 5 1 now.wheel.currentTick →
        after.invoked.filter (fun invocation => invocation.handle = 64) = [⟨7, 64, 9⟩]) ∧
      ((∃ call ∈ List.replicate 5 Call.onTick, call.Ends 64) ∨
          ¬ DueAt since.wheel.currentTick 5 1 now.wheel.currentTick →
        after.invoked.filter (fun invocation => invocation.handle = 64) = []) :=
  timerCalls_onTime [] (List.replicate 5 .onTick) 5 7 1 9 64 (by decide) (by decide) (by decide)
    (by simp [Call.Reuses]) (by decide +kernel)

/-- The timer is added at tick 1 with delay 5, so the schedule asks for tick 6. -/
def early : List Call :=
  [.onTick, .addTimer 5 7 1 9 64, .onTick, .onTick, .onTick, .onTick]

/-- Slot 5 of `_tv_set0` counts from the start of the wheel and not from the current tick. -/
theorem timerCalls_early : Meets callStep (fun call trace => call.Fits trace.wheel) early start ∧
    (exec callStep (early.take 1) start).map (fun trace => trace.wheel.currentTick) = some 1 ∧
    (exec callStep early start).map (fun trace => trace.wheel.currentTick) = some 5 ∧
    (exec callStep (early ++ [.onTick]) start).map Trace.invoked = some [⟨7, 64, 9⟩] ∧
    ¬ DueAt 1 5 1 5 := by
  decide +kernel

end Syslib.Timer
